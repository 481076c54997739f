import MqttServices.Common.Payload

/-!
# Decoding a received payload

* `DeserializePayloadObject`: a payload from the bytes of a message, its value read a second time at
  the type its tag names.
* `elementValue`: what the second parse sees of a value, by the kind of its JSON.
* `DeserializePayloadObject_bytes`: decoding the bytes of a published payload.
* **`deserialize_published_iff`**: the payloads that are read back unchanged.
-/

namespace MqttServices

variable {V : Type} (rt : Runtime V)

/-- The payload handed on after the first parse: the value is read again from `Value.ToString()`, and
the rest is copied to a new payload. `fresh` is the identifier the new payload draws first. -/
def retPayload (fresh : Guid) (payload : Payload Json) : Option (Payload V) :=
  match payload.Value with
  | none => some (payload.withValue none)
  | some element => do
    let genericType ← payload.ValueType.bind rt.FindType
    let obj ← (← ((elementText element).bind Json.parse).bind (rt.Deserialize true genericType))
    return { Payload.newGeneric rt payload.ExchangeName (some obj) fresh with
      MessageId := payload.MessageId, RequestType := payload.RequestType }

/-- `DeserializePayloadObject`; every exception is caught and gives `null`. -/
def DeserializePayloadObject (fresh fresh' : Guid) (bytes : List UInt8) : Option (Payload V) := do
  let payload ← (← (Json.parse (Utf8.decode bytes)).bind (Payload.read fresh))
  retPayload rt fresh' payload

/-! ## The second parse -/

/-- What the second parse makes of a value written as `j`: the text of a string is parsed in place
of the string, where it has one, and neither `True` nor `False` nor the empty text is JSON. -/
def elementValue : Json → Option Json
  | .null => none
  | .bool _ => none
  | .str s => (Utf16.decode s).bind Json.parse
  | j => some j

theorem elementValue_text (s : Str) : elementValue (.text s) = Json.parse s :=
  congrArg (Option.bind · Json.parse) (Utf16.decode_encode s)

theorem parse_elementText {j : Json} (h : j.depth ≤ Json.maxDepth) :
    (elementText j).bind Json.parse = elementValue j := by
  cases j with
  | null => rfl
  | bool b => cases b <;> rfl
  | str s => rfl
  | num n => exact Json.parse_write .compact h
  | arr js => exact Json.parse_write .compact h
  | obj ms => exact Json.parse_write .compact h

variable {rt}

/-- **The second parse, on a payload whose value was written as `j`.** -/
theorem retPayload_withValue {α : Type} {fresh : Guid} {p : Payload α} {j : Json} (hj : j ≠ .null)
    (hd : j.depth ≤ Json.maxDepth) :
    retPayload rt fresh (p.withValue (asObject j)) = do
      let T ← p.ValueType.bind rt.FindType
      let obj ← (← (elementValue j).bind (rt.Deserialize true T))
      return Payload.new rt p.ExchangeName (some obj) p.MessageId p.RequestType := by
  have hobj : asObject j = some j := by cases j <;> first | rfl | exact absurd rfl hj
  rw [← parse_elementText hd, retPayload, hobj]
  rfl

theorem retPayload_null {α : Type} (fresh : Guid) (p : Payload α) :
    retPayload rt fresh (p.withValue (asObject .null)) = some (p.withValue none) := rfl

/-- **Decoding the bytes of a published payload.** -/
theorem DeserializePayloadObject_bytes {p : Payload V} {j : Json} (hj : p.valueJson rt = some j) {bytes : List UInt8}
    (h : p.bytes rt = some bytes) (fresh fresh' : Guid) :
    DeserializePayloadObject rt fresh fresh' bytes = retPayload rt fresh' (p.withValue (asObject j)) := by
  rw [Payload.bytes, Payload.toJson, hj, Option.map_some, Option.bind_some] at h
  rw [DeserializePayloadObject, parse_jsonBytes h, Option.bind_some, Payload.read_members]
  rfl

theorem exists_bytes {p : Payload V} {j : Json} (hj : p.valueJson rt = some j) :
    (∃ bytes, p.bytes rt = some bytes) ↔ j.depth < Json.maxDepth := by
  rw [Payload.bytes, Payload.toJson, hj, Option.map_some, Option.bind_some, messageBytes, exists_jsonBytes,
    Payload.depth_members]
  exact Nat.succ_le_iff

/-- The second parse copies everything but the value and its tag. -/
theorem retPayload_fields {fresh : Guid} {p : Payload Json} {p' : Payload V} (h : retPayload rt fresh p = some p') :
    p'.ExchangeName = p.ExchangeName ∧ p'.MessageId = p.MessageId ∧ p'.RequestType = p.RequestType := by
  unfold retPayload at h
  split at h
  · cases h
    exact ⟨rfl, rfl, rfl⟩
  · simp only [Option.bind_eq_bind, Option.bind_eq_some_iff] at h
    obtain ⟨_, -, _, -, _, -, h⟩ := h
    cases h
    exact ⟨rfl, rfl, rfl⟩

/-- **Whatever is decoded from a published payload keeps its name, its identifier and its type.** -/
theorem DeserializePayloadObject_fields {p p' : Payload V} {bytes : List UInt8} (h : p.bytes rt = some bytes)
    {fresh fresh' : Guid} (hd : DeserializePayloadObject rt fresh fresh' bytes = some p') :
    p'.ExchangeName = p.ExchangeName ∧ p'.MessageId = p.MessageId ∧ p'.RequestType = p.RequestType := by
  cases hj : p.valueJson rt with
  | none =>
    rw [Payload.bytes, Payload.toJson, hj] at h
    cases h
  | some j =>
    rw [DeserializePayloadObject_bytes hj h] at hd
    exact retPayload_fields hd

/-! ## Round trips -/

variable (rt)

/-- The type of `v` is found again by its name, and `System.Text.Json` reads `v` back from its text. -/
structure Runtime.RoundTrips (v : V) : Prop where
  findType : rt.FindType (rt.AssemblyQualifiedName (rt.GetType v)) = some (rt.GetType v)
  readsBack : ∃ j, rt.Serialize v = some j ∧ j.depth ≤ Json.maxDepth ∧
    rt.Deserialize false (rt.GetType v) j = some (some v)

/-- Decoding the bytes published for `p` gives `p`. -/
def Payload.RoundTrips (p : Payload V) : Prop :=
  ∃ bytes, p.bytes rt = some bytes ∧ ∀ fresh fresh', DeserializePayloadObject rt fresh fresh' bytes = some p

/-- The values that survive the second parse: `null`, and a value that leaves room for the nesting of
the payload and that is read back, names compared without case, from what the second parse sees. -/
def Runtime.Survives (v : Option V) : Prop :=
  ∀ w ∈ v, ∃ j j', rt.Serialize w = some j ∧ j.depth < Json.maxDepth ∧ elementValue j = some j' ∧
    rt.Deserialize true (rt.GetType w) j' = some (some w)

variable {rt}

theorem Runtime.RoundTrips.findType_tag {v : V} (h : rt.RoundTrips v) :
    (rt.typeTag (some v)).bind rt.FindType = some (rt.GetType v) := h.findType

theorem roundTrips_null (x : Option Str) (g : Guid) (r : Int32) : (Payload.new rt x none g r).RoundTrips rt := by
  have hj : (Payload.new rt x none g r).valueJson rt = some .null := rfl
  obtain ⟨bytes, hb⟩ := (exists_bytes hj).mpr (by decide)
  exact ⟨bytes, hb, fun fresh fresh' => by rw [DeserializePayloadObject_bytes hj hb, retPayload_null]; rfl⟩

theorem Payload.new_injective {x : Option Str} {v w : Option V} {g : Guid} {r : Int32}
    (h : Payload.new rt x v g r = Payload.new rt x w g r) : v = w := congrArg Payload.Value h

theorem retPayload_new {v : V} (hf : (rt.typeTag (some v)).bind rt.FindType = some (rt.GetType v)) {j : Json}
    (hj : j ≠ .null) (hd : j.depth ≤ Json.maxDepth) (fresh : Guid) (x : Option Str) (g : Guid) (r : Int32) :
    retPayload rt fresh ((Payload.new rt x (some v) g r).withValue (asObject j)) =
      ((elementValue j).bind (rt.Deserialize true (rt.GetType v))).join.map fun obj =>
        Payload.new rt x (some obj) g r := by
  have hT : (Payload.new rt x (some v) g r).ValueType.bind rt.FindType = some (rt.GetType v) := hf
  rw [retPayload_withValue hj hd, hT, Option.bind_eq_bind, Option.bind_some]
  cases (elementValue j).bind (rt.Deserialize true (rt.GetType v)) with
  | none => rfl
  | some obj => cases obj <;> rfl

theorem roundTrips_some_iff {v : V} (hf : (rt.typeTag (some v)).bind rt.FindType = some (rt.GetType v)) {j : Json}
    (hj : rt.Serialize v = some j) (x : Option Str) (g : Guid) (r : Int32) :
    (Payload.new rt x (some v) g r).RoundTrips rt ↔ j.depth < Json.maxDepth ∧
      ∃ j', elementValue j = some j' ∧ rt.Deserialize true (rt.GetType v) j' = some (some v) := by
  have hv : (Payload.new rt x (some v) g r).valueJson rt = some j := hj
  by_cases hn : j = .null
  · -- written as `null`, the value comes back as no value
    subst hn
    constructor
    · rintro ⟨bytes, hb, h⟩
      have hnone := (DeserializePayloadObject_bytes hv hb g g).symm.trans (h g g)
      rw [retPayload_null, Option.some_inj] at hnone
      exact absurd (congrArg Payload.Value hnone) (by simp [Payload.withValue, Payload.new])
    · rintro ⟨-, j', h, -⟩
      exact absurd h (by simp [elementValue])
  · constructor
    · rintro ⟨bytes, hb, h⟩
      have hd := (exists_bytes hv).mp ⟨bytes, hb⟩
      have hr := (DeserializePayloadObject_bytes hv hb g g).symm.trans (h g g)
      rw [retPayload_new hf hn hd.le, Option.map_eq_some_iff] at hr
      obtain ⟨obj, hobj, heq⟩ := hr
      rw [Option.join_eq_some_iff, Option.bind_eq_some_iff] at hobj
      obtain ⟨j', hj', hobj⟩ := hobj
      rw [← Payload.new_injective heq]
      exact ⟨hd, j', hj', hobj⟩
    · rintro ⟨hd, j', hj', hobj⟩
      obtain ⟨bytes, hb⟩ := (exists_bytes hv).mpr hd
      refine ⟨bytes, hb, fun fresh fresh' => ?_⟩
      rw [DeserializePayloadObject_bytes hv hb, retPayload_new hf hn hd.le, hj', Option.bind_some, hobj]
      rfl

/-- **The payloads that are read back unchanged.** -/
theorem deserialize_published_iff {v : Option V} (hv : ∀ w ∈ v, rt.RoundTrips w) (x : Option Str) (g : Guid)
    (r : Int32) : (Payload.new rt x v g r).RoundTrips rt ↔ rt.Survives v := by
  cases v with
  | none => exact ⟨fun _ w hw => absurd hw (Option.not_mem_none w), fun _ => roundTrips_null x g r⟩
  | some v =>
    have hrt := hv v rfl
    obtain ⟨j, hj, -, -⟩ := hrt.readsBack
    rw [roundTrips_some_iff hrt.findType_tag hj]
    constructor
    · rintro ⟨hd, j', hj', h⟩ w hw
      cases hw
      exact ⟨j, j', hj, hd, hj', h⟩
    · intro h
      obtain ⟨j₁, j', hj₁, hd, hj', h⟩ := h v rfl
      cases hj.symm.trans hj₁
      exact ⟨hd, j', hj', h⟩

/-! ## Strings -/

/-- The platform on values of type `string`. -/
def Runtime.strings : Runtime Str where
  Ty := Unit
  GetType _ := ()
  Name _ := "String".toList
  AssemblyQualifiedName _ := "System.String, System.Private.CoreLib".toList
  FindType name := if name = "System.String, System.Private.CoreLib".toList then some () else none
  Serialize s := some (.text s)
  Deserialize _ _ := Json.readText
  crlf := false

theorem Runtime.strings_roundTrips (s : Str) : Runtime.strings.RoundTrips s where
  findType := rfl
  readsBack := ⟨.text s, rfl, Nat.zero_le _, Json.readText_text s⟩

/-- A string comes back just when its own text is JSON that reads as that string. -/
theorem Runtime.strings_survives_iff (s : Str) :
    Runtime.strings.Survives (some s) ↔ ∃ j, Json.parse s = some j ∧ Json.readText j = some (some s) := by
  constructor
  · intro h
    obtain ⟨j, j', hj, -, hj', hs⟩ := h s rfl
    cases hj
    exact ⟨j', (elementValue_text s).symm.trans hj', hs⟩
  · rintro ⟨j', hj', hs⟩ w hw
    cases hw
    exact ⟨.text s, j', rfl, Nat.succ_pos _, (elementValue_text s).trans hj', hs⟩

/-- The string `hello` is published and does not come back. -/
theorem strings_hello_lost : Runtime.strings.RoundTrips "hello".toList ∧
    ¬ (Payload.new Runtime.strings (some "Greeting".toList) (some "hello".toList) Guid.Empty
      RequestType.Generic.toInt32).RoundTrips Runtime.strings := by
  refine ⟨Runtime.strings_roundTrips _, fun h => ?_⟩
  obtain ⟨-, j', hj', -⟩ := (roundTrips_some_iff rfl rfl _ _ _).mp h
  have hnone : Json.parse "hello".toList = none := by decide
  exact absurd (hj'.symm.trans ((elementValue_text _).trans hnone)) (by simp)

theorem deserialize_published_iff_hello :
    (Payload.new Runtime.strings (some "Greeting".toList) (some "hello".toList) Guid.Empty
      RequestType.Generic.toInt32).RoundTrips Runtime.strings ↔
      Runtime.strings.Survives (some "hello".toList) :=
  deserialize_published_iff (fun w _ => Runtime.strings_roundTrips w) _ _ _

end MqttServices
