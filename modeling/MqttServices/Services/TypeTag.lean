import MqttServices.Lib.Run
import MqttServices.Services.Decode

/-!
# The type tag of a payload

* `Payload.Constructor`, `Payload.Initializer`, `Payload.Change`: how a payload comes about, and how its value changes.
* `Payload.TagFollows`: the tag names the type of the value, and a payload that is sent is decoded at that type.
* **`Payload.DeserializePayloadObject_eq`**: a payload is decoded at the type its tag names, whatever its value.
* **`Payload.tagFollows_always_iff`**: the payloads whose tag follows the value through every change.
-/

namespace MqttServices.Payload

/-- The public constructors, with the identifier that is drawn where none is given. -/
inductive Constructor (V : Type) where
  | empty (fresh : Guid)
  | ofValue (exchangeName : Option Str) (value : Option V) (fresh : Guid)
  | ofMessageId (exchangeName : Option Str) (value : Option V) (messageId : Guid)
  | ofRequestType (exchangeName : Option Str) (value : Option V) (messageId : Guid) (requestType : Int32)

/-- An object initializer: each property is assigned once at most. -/
structure Initializer (V : Type) where
  ExchangeName : Option (Option Str) := none
  Value : Option (Option V) := none
  ValueType : Option (Option Str) := none
  MessageId : Option Guid := none
  RequestType : Option Int32 := none

/-- A change of the value: an assignment of the property, or a call. -/
inductive Change (V : Type) where
  | Value (value : Option V)
  | SetValue (value : Option V)

variable {V : Type} (rt : Runtime V)

def construct : Constructor V → Payload V
  | .empty fresh => Payload.default fresh
  | .ofValue exchangeName value fresh => Payload.newGeneric rt exchangeName value fresh
  | .ofMessageId exchangeName value messageId => Payload.newGeneric rt exchangeName value messageId
  | .ofRequestType exchangeName value messageId requestType => Payload.new rt exchangeName value messageId requestType

def Initializer.apply (i : Initializer V) (p : Payload V) : Payload V where
  ExchangeName := i.ExchangeName.getD p.ExchangeName
  Value := i.Value.getD p.Value
  ValueType := i.ValueType.getD p.ValueType
  MessageId := i.MessageId.getD p.MessageId
  RequestType := i.RequestType.getD p.RequestType

/-- One change. -/
def change (p : Payload V) : Change V → Option (Payload V)
  | .Value value => some { p with Value := value }
  | .SetValue value => some (p.SetValue rt value)

/-- The tag names the type of the value, and a payload that is sent is decoded at that type, where the type is found by
its name and the value is not written as `null`. -/
structure TagFollows (p : Payload V) : Prop where
  tag : ∀ v, p.Value = some v → p.ValueType = some (rt.AssemblyQualifiedName (rt.GetType v))
  null : p.ValueType = none ↔ p.Value = none
  decoded : ∀ v, p.Value = some v → rt.FindType (rt.AssemblyQualifiedName (rt.GetType v)) = some (rt.GetType v) →
    ∀ j, rt.Serialize v = some j → j ≠ .null → ∀ bytes, p.bytes rt = some bytes → ∀ fresh fresh',
      DeserializePayloadObject rt fresh fresh' bytes =
        ((elementValue j).bind (rt.Deserialize true (rt.GetType v))).join.map fun obj =>
          Payload.new rt p.ExchangeName (some obj) p.MessageId p.RequestType

/-- An initializer that keeps the tag of `p`: it assigns neither the value nor the tag, or a value of
the type the tag names, or the tag of the value, or a value together with its tag. -/
def Initializer.KeepsTag (i : Initializer V) (p : Payload V) : Prop :=
  match i.Value, i.ValueType with
  | none, none => True
  | some value, none => p.ValueType = rt.typeTag value
  | none, some tag => tag = rt.typeTag p.Value
  | some value, some tag => tag = rt.typeTag value

/-- A value that is assigned has the type the tag names already. -/
def KeepsTag (p : Payload V) : Change V → Prop
  | .Value value => p.ValueType = rt.typeTag value
  | .SetValue _ => True

variable {rt} {p : Payload V}

/-! ## Decoding -/

/-- **A payload is decoded at the type its tag names.** -/
theorem DeserializePayloadObject_eq {v : V} (hv : p.Value = some v) {j : Json} (hj : rt.Serialize v = some j)
    (hn : j ≠ .null) {bytes : List UInt8} (h : p.bytes rt = some bytes) (fresh fresh' : Guid) :
    DeserializePayloadObject rt fresh fresh' bytes =
      (p.ValueType.bind rt.FindType).bind fun T => ((elementValue j).bind (rt.Deserialize true T)).join.map fun obj =>
        Payload.new rt p.ExchangeName (some obj) p.MessageId p.RequestType := by
  have hvalue : p.valueJson rt = some j := by
    rw [valueJson, hv]
    exact hj
  have hd := (exists_bytes hvalue).mp ⟨bytes, h⟩
  rw [DeserializePayloadObject_bytes hvalue h, retPayload_withValue hn hd.le, Option.bind_eq_bind]
  congr 1
  funext T
  cases (elementValue j).bind (rt.Deserialize true T) with
  | none => rfl
  | some obj => cases obj <;> rfl

/-- **A payload with a value and no tag is dropped.** -/
theorem DeserializePayloadObject_of_untagged {v : V} (hv : p.Value = some v) (htag : p.ValueType = none) {j : Json}
    (hj : rt.Serialize v = some j) (hn : j ≠ .null) {bytes : List UInt8} (h : p.bytes rt = some bytes)
    (fresh fresh' : Guid) : DeserializePayloadObject rt fresh fresh' bytes = none := by
  rw [DeserializePayloadObject_eq hv hj hn h, htag]
  rfl

/-! ## The tag -/

theorem tagFollows_iff : TagFollows rt p ↔ p.ValueType = rt.typeTag p.Value := by
  constructor
  · intro h
    cases hv : p.Value with
    | none => exact h.null.mpr hv
    | some v => exact h.tag v hv
  · intro htag
    refine ⟨fun v hv => ?_, ?_, fun v hv hfind j hj hn bytes h fresh fresh' => ?_⟩
    · rw [htag, hv]
      rfl
    · rw [htag, Runtime.typeTag, Option.map_eq_none_iff]
    · rw [DeserializePayloadObject_eq hv hj hn h, htag, hv]
      show Option.bind (rt.FindType (rt.AssemblyQualifiedName (rt.GetType v))) _ = _
      rw [hfind]
      rfl

/-- **One initializer**, on a payload whose tag follows its value. -/
theorem apply_tagFollows_iff (hp : TagFollows rt p) {i : Initializer V} :
    TagFollows rt (i.apply p) ↔ i.KeepsTag rt p := by
  have htag : p.ValueType = rt.typeTag p.Value := tagFollows_iff.mp hp
  rw [tagFollows_iff, Initializer.apply, Initializer.KeepsTag]
  cases i.Value with
  | none =>
    cases i.ValueType with
    | none => exact iff_of_true htag trivial
    | some tag => exact Iff.rfl
  | some value => cases i.ValueType <;> exact Iff.rfl

/-- **One change.** -/
theorem change_tagFollows_iff {p' : Payload V} {c : Change V} (h : change rt p c = some p') :
    KeepsTag rt p c ↔ TagFollows rt p' := by
  rw [tagFollows_iff]
  cases c with
  | Value value =>
    cases h
    rfl
  | SetValue value =>
    cases h
    exact iff_of_true trivial rfl

theorem exists_exec_change (p : Payload V) (changes : List (Change V)) :
    ∃ p', Run.exec (change rt) p changes = some p' := by
  induction changes generalizing p with
  | nil => exact ⟨p, rfl⟩
  | cons c changes ih =>
    cases c with
    | Value value => exact ih { p with Value := value }
    | SetValue value => exact ih (p.SetValue rt value)

theorem construct_tagFollows (c : Constructor V) : TagFollows rt (construct rt c) := by
  rw [tagFollows_iff]
  cases c with
  | empty fresh => rfl
  | ofValue exchangeName value fresh => rfl
  | ofMessageId exchangeName value messageId => rfl
  | ofRequestType exchangeName value messageId requestType => rfl

/-- **The payloads whose tag follows the value** through every change: the initializer keeps the tag, and every value
that is assigned has the type the tag names already. -/
theorem tagFollows_always_iff (c : Constructor V) (i : Initializer V) (changes : List (Change V)) :
    Run.Always (change rt) (TagFollows rt) (i.apply (construct rt c)) changes ↔
      i.KeepsTag rt (construct rt c) ∧ Run.Meets (change rt) (KeepsTag rt) (i.apply (construct rt c)) changes := by
  obtain ⟨p', hrun⟩ := exists_exec_change (i.apply (construct rt c)) changes
  have hiff := fun h₀ => Run.always_iff_meets (fun _ _ _ _ hstep => change_tagFollows_iff hstep) h₀ hrun
  constructor
  · exact fun h => ⟨(apply_tagFollows_iff (construct_tagFollows c)).mp h.head, (hiff h.head).mp h⟩
  · rintro ⟨hkeeps, hmeets⟩
    exact (hiff ((apply_tagFollows_iff (construct_tagFollows c)).mpr hkeeps)).mpr hmeets

/-- **`SetValue` keeps the tag**, after any constructor and as often as it is called. -/
theorem tagFollows_of_SetValue (c : Constructor V) (values : List (Option V)) :
    Run.Always (change rt) (TagFollows rt) (construct rt c) (values.map .SetValue) := by
  obtain ⟨p', hrun⟩ := @exists_exec_change V rt (construct rt c) (values.map .SetValue)
  rw [Run.always_iff_meets (fun _ _ _ _ hstep => change_tagFollows_iff hstep) (construct_tagFollows c) hrun]
  refine Run.Meets.of_invariant (I := fun _ => True) (Q := fun c => ∃ value, c = .SetValue value) ?_ ?_ trivial ?_
  · rintro p _ - ⟨value, rfl⟩
    trivial
  · exact fun _ _ _ _ _ _ => trivial
  · intro change hchange
    obtain ⟨value, -, rfl⟩ := List.mem_map.mp hchange
    exact ⟨value, rfl⟩

/-- **A value in an object initializer, or one that is assigned, has no tag.** -/
theorem not_tagFollows_hello :
    ¬ Run.Always (change Runtime.strings) (TagFollows Runtime.strings)
      (Initializer.apply { Value := some (some "hello".toList) } (construct Runtime.strings (.empty Guid.Empty))) [] ∧
    ¬ Run.Always (change Runtime.strings) (TagFollows Runtime.strings)
      (construct Runtime.strings (.empty Guid.Empty)) [.Value (some "hello".toList)] := by
  constructor
  · intro h
    exact absurd (tagFollows_iff.mp h) (by decide)
  · intro h
    exact absurd (tagFollows_iff.mp (h.2 _ rfl)) (by decide)

end MqttServices.Payload
