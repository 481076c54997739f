import MqttServices.Lib.Json.Record

/-!
# Payloads

* `Guid`: an identifier as its 32 hexadecimal digits; `Guid.toText`, `Guid.parse` and
  **`Guid.parse_toText`** for the form JSON uses.
* `RequestType`, `Payload`, `StringPayload` with their constructors and `Payload.SetValue`.
* `Runtime`: what the platform does with the values of the application, which are not part of this
  repository.
* `Payload.toJson`, `Payload.read`: the two directions of `JsonSerializer` on a payload, and
  **`Payload.read_members`**, which joins them; the same for `StringPayload`.
* `messageBytes`: the bytes of a published object, and **`parse_jsonBytes`**.
-/

namespace MqttServices

/-! ## Strings -/

/-- A string. -/
abbrev Str := List Char

/-- `string.Concat` on a string that may be null. -/
def orEmpty (s : Option Str) : Str := s.getD []

/-- `char.IsWhiteSpace`. -/
def IsWhiteSpace (c : Char) : Bool :=
  (0x09 ≤ c.toNat && c.toNat ≤ 0x0D) || (0x2000 ≤ c.toNat && c.toNat ≤ 0x200A) ||
    [0x20, 0x85, 0xA0, 0x1680, 0x2028, 0x2029, 0x202F, 0x205F, 0x3000].contains c.toNat

/-- `string.IsNullOrWhiteSpace`. -/
def IsNullOrWhiteSpace (s : Option Str) : Bool := (orEmpty s).all IsWhiteSpace

/-- `string.IsNullOrEmpty`. -/
def IsNullOrEmpty (s : Option Str) : Bool := (orEmpty s).isEmpty

/-! ## Identifiers -/

/-- A `Guid`, as its hexadecimal digits. -/
structure Guid where
  digits : List (Fin 16)
  length_eq : digits.length = 32
  deriving DecidableEq

namespace Guid

/-- The identifier with one digit throughout. -/
def fill (d : Fin 16) : Guid := ⟨List.replicate 32 d, List.length_replicate⟩

/-- `Guid.Empty`. -/
def Empty : Guid := fill 0

/-- A digit, in lower case. -/
def digitChar (d : Fin 16) : Char := if d.val < 10 then Char.ofNat (0x30 + d) else Char.ofNat (0x57 + d)

/-- The digit of a character of either case. -/
def digit? (c : Char) : Option (Fin 16) :=
  (Json.hexValue c).bind fun n => if h : n < 16 then some ⟨n, h⟩ else none

/-- The digits in groups of the given lengths, with hyphens between them. -/
def format : List ℕ → List (Fin 16) → Str
  | [], _ => []
  | [_], ds => ds.map digitChar
  | n :: m :: ns, ds => (ds.take n).map digitChar ++ '-' :: format (m :: ns) (ds.drop n)

/-- The digits of groups of exactly the given lengths, with hyphens between them. -/
def parseGroups : List ℕ → Str → Option (List (Fin 16))
  | [], s => if s = [] then some [] else none
  | [n], s => if s.length = n then s.mapM digit? else none
  | n :: m :: ns, s =>
    match s.drop n with
    | '-' :: t => ((s.take n).mapM digit?).bind fun ds => (parseGroups (m :: ns) t).map (ds ++ ·)
    | _ => none

/-- The groups of the form `xxxxxxxx-xxxx-xxxx-xxxx-xxxxxxxxxxxx`. -/
def groups : List ℕ := [8, 4, 4, 4, 12]

/-- The text of an identifier. -/
def toText (g : Guid) : Str := format groups g.digits

/-- The identifier of a text in that form. -/
def parse (s : Str) : Option Guid :=
  (parseGroups groups s).bind fun ds => if h : ds.length = 32 then some ⟨ds, h⟩ else none

theorem digit?_digitChar : ∀ d : Fin 16, digit? (digitChar d) = some d := by decide

theorem mapM_digit? (ds : List (Fin 16)) : (ds.map digitChar).mapM digit? = some ds := by
  induction ds with
  | nil => rfl
  | cons d ds ih => simp [digit?_digitChar, ih]

theorem parseGroups_format {ns : List ℕ} {ds : List (Fin 16)} (h : ds.length = ns.sum) :
    parseGroups ns (format ns ds) = some ds := by
  induction ns generalizing ds with
  | nil =>
    rw [List.eq_nil_of_length_eq_zero h]
    rfl
  | cons n ns ih =>
    cases ns with
    | nil =>
      rw [format, parseGroups, if_pos (by simpa using h), mapM_digit?]
    | cons m ns =>
      have hn : (List.map digitChar (ds.take n)).length = n := by
        simp only [List.length_map, List.length_take]
        simp only [List.sum_cons] at h
        omega
      have hd : (ds.drop n).length = (m :: ns).sum := by
        simp only [List.length_drop, List.sum_cons] at h ⊢
        omega
      rw [format, parseGroups, List.drop_left' hn, List.take_left' hn]
      simp only [mapM_digit?, ih hd, Option.bind_some, Option.map_some, List.take_append_drop]

/-- **An identifier is read back from its text.** -/
theorem parse_toText (g : Guid) : parse g.toText = some g := by
  rw [parse, toText, parseGroups_format (by rw [g.length_eq]; rfl), Option.bind_some, dif_pos g.length_eq]

end Guid

/-- An identifier field. -/
def readGuid (j : Json) : Option Guid := j.text?.bind Guid.parse

@[simp] theorem readGuid_toText (g : Guid) : readGuid (.text g.toText) = some g := by
  rw [readGuid, Json.text?_text, Option.bind_some, g.parse_toText]

/-! ## Payloads -/

/-- The declared request types. -/
inductive RequestType where
  | Generic
  | GetOne
  | GetAll
  | Upsert
  | Update
  | Insert
  | Delete
  deriving DecidableEq, Repr

namespace RequestType

/-- The value behind a request type. A field of the enumeration can hold any 32-bit value. -/
def toInt32 : RequestType → Int32
  | Generic => 0
  | GetOne => 1
  | GetAll => 2
  | Upsert => 3
  | Update => 4
  | Insert => 5
  | Delete => 6

/-- The declared request types, in order. -/
def all : List RequestType := [Generic, GetOne, GetAll, Upsert, Update, Insert, Delete]

/-- The request type behind a value, where it is declared. -/
def ofInt32? (i : Int32) : Option RequestType := all.find? fun r => r.toInt32 = i

theorem ofInt32?_toInt32 (r : RequestType) : ofInt32? r.toInt32 = some r := by cases r <;> decide

end RequestType

/-- What the platform does with the values of an application: their runtime types, and
`System.Text.Json` on them. `none` stands for a thrown exception, except for `FindType`, which is
`Type.GetType` and gives `none` where the type is not found. -/
structure Runtime (V : Type) where
  Ty : Type
  GetType : V → Ty
  Name : Ty → Str
  AssemblyQualifiedName : Ty → Str
  FindType : Str → Option Ty
  Serialize : V → Option Json
  /-- The Boolean is `PropertyNameCaseInsensitive`; `some none` is `null`. -/
  Deserialize : Bool → Ty → Json → Option (Option V)
  /-- `Environment.NewLine` is CR LF. -/
  crlf : Bool

/-- `Payload`, over values in `α`. -/
structure Payload (α : Type) where
  ExchangeName : Option Str
  Value : Option α
  ValueType : Option Str
  MessageId : Guid
  RequestType : Int32
  deriving DecidableEq

structure StringPayload where
  ExchangeName : Option Str
  StringValue : Option Str
  MessageId : Guid
  deriving DecidableEq

section Constructors

variable {V : Type} (rt : Runtime V)

/-- `value?.GetType().AssemblyQualifiedName`. -/
def Runtime.typeTag (value : Option V) : Option Str :=
  value.map fun v => rt.AssemblyQualifiedName (rt.GetType v)

/-- `new Payload(exchangeName, value, messageId, requestType)`. -/
def Payload.new (exchangeName : Option Str) (value : Option V) (messageId : Guid) (requestType : Int32) :
    Payload V where
  ExchangeName := exchangeName
  Value := value
  ValueType := rt.typeTag value
  MessageId := messageId
  RequestType := requestType

/-- `new Payload(exchangeName, value, messageId)`; with a fresh identifier also
`new Payload(exchangeName, value)`. -/
def Payload.newGeneric (exchangeName : Option Str) (value : Option V) (messageId : Guid) : Payload V :=
  Payload.new rt exchangeName value messageId RequestType.Generic.toInt32

def Payload.SetValue (p : Payload V) (value : Option V) : Payload V :=
  { p with Value := value, ValueType := rt.typeTag value }

end Constructors

/-! ## JSON -/

/-- The text `JsonSerializer.Serialize` makes of a value. The bound is the documented `MaxDepth`, beyond
which it throws; the serializer also throws at a value other than `null` inside its 64th level, which
the bound does not count. -/
def jsonText (L : Json.Layout) (j : Json) : Option Str :=
  if j.depth ≤ Json.maxDepth then some (Json.write L 0 j) else none

/-- That text as UTF-8. -/
def jsonBytes (L : Json.Layout) (j : Json) : Option (List UInt8) := (jsonText L j).map Utf8.encode

theorem exists_jsonBytes {L : Json.Layout} {j : Json} :
    (∃ bytes, jsonBytes L j = some bytes) ↔ j.depth ≤ Json.maxDepth := by
  unfold jsonBytes jsonText
  split_ifs with h <;> simp [h]

/-- **The bytes of a value read as the value.** -/
theorem parse_jsonBytes {L : Json.Layout} {j : Json} {bytes : List UInt8} (h : jsonBytes L j = some bytes) :
    Json.parse (Utf8.decode bytes) = some j := by
  have hd : j.depth ≤ Json.maxDepth := exists_jsonBytes.mp ⟨bytes, h⟩
  rw [jsonBytes, jsonText, if_pos hd, Option.map_some, Option.some_inj] at h
  rw [← h, Utf8.decode_encode (Json.write_ascii _ _ _), Json.parse_write _ hd]

/-- The bytes `PublishMessage(topic, object)` puts into a message: the indented text. -/
def messageBytes (crlf : Bool) (j : Json) : Option (List UInt8) := jsonBytes (.indented crlf) j

/-- A field of type `object`: `null`, or a `JsonElement`. -/
def asObject : Json → Option Json
  | .null => none
  | j => some j

/-- `JsonElement.ToString()`: the content of a string, `True` or `False` for a Boolean, and else the
raw text, up to white space and to how a string in it is escaped. It throws on a string with a
surrogate that stands alone. -/
def elementText : Json → Option Str
  | .null => some []
  | .bool true => some "True".toList
  | .bool false => some "False".toList
  | .str s => Utf16.decode s
  | j => some (Json.write .compact 0 j)

namespace Payload

variable {V : Type} (rt : Runtime V)

/-- The members of a payload whose value is written as `j`. -/
def members {α : Type} (p : Payload α) (j : Json) : List (Str × Json) :=
  [("ExchangeName".toList, Json.ofText p.ExchangeName), ("Value".toList, j),
    ("ValueType".toList, Json.ofText p.ValueType), ("MessageId".toList, .text p.MessageId.toText),
    ("RequestType".toList, Json.ofInt32 p.RequestType)]

/-- The value of a payload as JSON. -/
def valueJson (p : Payload V) : Option Json :=
  match p.Value with
  | none => some .null
  | some v => rt.Serialize v

/-- A payload as JSON. -/
def toJson (p : Payload V) : Option Json := (p.valueJson rt).map fun j => .object (p.members j)

/-- The bytes of a published payload; `none` where serializing throws. -/
def bytes (p : Payload V) : Option (List UInt8) := (p.toJson rt).bind (messageBytes rt.crlf)

/-- `new Payload()` with the identifier it draws. -/
def default {α : Type} (fresh : Guid) : Payload α :=
  ⟨none, none, none, fresh, RequestType.Generic.toInt32⟩

/-- The properties of a payload whose value is read as an `object`. -/
def properties : List (Json.Property (Payload Json)) :=
  [.of "ExchangeName".toList Json.readText fun s p => { p with ExchangeName := s },
    .of "Value".toList (fun j => some (asObject j)) fun v p => { p with Value := v },
    .of "ValueType".toList Json.readText fun s p => { p with ValueType := s },
    .of "MessageId".toList readGuid fun g p => { p with MessageId := g },
    .of "RequestType".toList Json.readInt32 fun r p => { p with RequestType := r }]

/-- `JsonSerializer.Deserialize<Payload>` on a parsed text. -/
def read (fresh : Guid) (j : Json) : Option (Option (Payload Json)) :=
  Json.readRecord properties (default fresh) j

/-- A payload over another value, with every other field kept. -/
def withValue {α β : Type} (p : Payload α) (value : Option β) : Payload β :=
  ⟨p.ExchangeName, value, p.ValueType, p.MessageId, p.RequestType⟩

/-- **A payload is read back with its value as an element.** -/
theorem read_members (fresh : Guid) (p : Payload V) (j : Json) :
    read fresh (.object (p.members j)) = some (some (p.withValue (asObject j))) := by
  rw [read, Json.readRecord_object, members, Json.readMembers_cons rfl (Json.readText_ofText _),
    Json.readMembers_cons rfl rfl, Json.readMembers_cons rfl (Json.readText_ofText _),
    Json.readMembers_cons rfl (readGuid_toText _), Json.readMembers_cons rfl (Json.readInt32_ofInt32 _)]
  rfl

theorem depth_members (p : Payload V) (j : Json) : (Json.object (p.members j)).depth = j.depth + 1 := by
  simp [members]

end Payload

namespace StringPayload

/-- A string payload as JSON. -/
def toJson (p : StringPayload) : Json :=
  .object [("ExchangeName".toList, Json.ofText p.ExchangeName), ("StringValue".toList, Json.ofText p.StringValue),
    ("MessageId".toList, .text p.MessageId.toText)]

/-- The properties of a string payload. -/
def properties : List (Json.Property StringPayload) :=
  [.of "ExchangeName".toList Json.readText fun s p => { p with ExchangeName := s },
    .of "StringValue".toList Json.readText fun s p => { p with StringValue := s },
    .of "MessageId".toList readGuid fun g p => { p with MessageId := g }]

/-- `JsonSerializer.Deserialize<StringPayload>` on a parsed text; `fresh` is the identifier that
`new StringPayload()` draws. -/
def read (fresh : Guid) (j : Json) : Option (Option StringPayload) :=
  Json.readRecord properties ⟨none, none, fresh⟩ j

/-- The bytes of a published string payload. -/
def bytes (crlf : Bool) (p : StringPayload) : Option (List UInt8) := messageBytes crlf p.toJson

/-- **A string payload is read back.** -/
theorem read_toJson (fresh : Guid) (p : StringPayload) : read fresh p.toJson = some (some p) := by
  rw [read, toJson, Json.readRecord_object, Json.readMembers_cons rfl (Json.readText_ofText _),
    Json.readMembers_cons rfl (Json.readText_ofText _), Json.readMembers_cons rfl (readGuid_toText _)]
  rfl

theorem read_toJson_payload (fresh : Guid) (p : StringPayload) : Payload.read fresh p.toJson =
    some (some ⟨p.ExchangeName, none, none, p.MessageId, RequestType.Generic.toInt32⟩) := by
  rw [Payload.read, toJson, Json.readRecord_object, Json.readMembers_cons rfl (Json.readText_ofText _),
    Json.readMembers_skip rfl, Json.readMembers_cons rfl (readGuid_toText _)]
  rfl

theorem depth_toJson (p : StringPayload) : p.toJson.depth = 1 := by
  simp [toJson]

end StringPayload

end MqttServices
