import MqttServices.Lib.Json.Read

/-!
# Reading JSON into records

* `Json.readRecord`: an object read member by member into a record; every name is decoded, the value
  of an unknown name is skipped, a repeated name overwrites, `null` is no record at all.
* `Json.readText`, `Json.readInt32`, `Json.readBool`: the readers of the field types.
* `Json.text`, `Json.object`: strings and objects as they are written, from texts.
* `Json.readMembers_cons`, `Json.readMembers_skip`: reading one member, of a known name or another.
-/

namespace Json

/-- A text as a value. -/
def text (s : List Char) : Json := .str (Utf16.encode s)

/-- An optional text as a value. -/
def ofText : Option (List Char) → Json
  | none => .null
  | some s => .text s

/-- The text of a string; a string with a surrogate that stands alone has none. -/
def text? : Json → Option (List Char)
  | .str s => Utf16.decode s
  | _ => none

/-- A text field; `null` is a value of it. -/
def readText : Json → Option (Option (List Char))
  | .null => some none
  | j => j.text?.map some

@[simp] theorem text?_text (s : List Char) : (text s).text? = some s := Utf16.decode_encode s

@[simp] theorem depth_text (s : List Char) : (text s).depth = 0 := rfl

@[simp] theorem depth_ofText (s : Option (List Char)) : (ofText s).depth = 0 := by cases s <;> rfl

/-- A Boolean field. -/
def readBool : Json → Option Bool
  | .bool b => some b
  | _ => none

/-- A 32-bit integer as a value. -/
def ofInt32 (i : Int32) : Json := .num (Number.ofInt i.toInt)

/-- A 32-bit integer field: an integer without fraction and exponent, in range. -/
def readInt32 : Json → Option Int32
  | .num n => n.toInt?.bind fun i =>
      if -2 ^ 31 ≤ i ∧ i < 2 ^ 31 then some (Int32.ofInt i) else none
  | _ => none

@[simp] theorem readBool_bool (b : Bool) : readBool (.bool b) = some b := rfl

@[simp] theorem depth_ofInt32 (i : Int32) : (ofInt32 i).depth = 0 := rfl

@[simp] theorem readText_text (s : List Char) : readText (text s) = some (some s) :=
  congrArg (Option.map some) (text?_text s)

@[simp] theorem readText_ofText (s : Option (List Char)) : readText (ofText s) = some s := by
  cases s with
  | none => rfl
  | some s => exact readText_text s

@[simp] theorem readInt32_ofInt32 (i : Int32) : readInt32 (ofInt32 i) = some i := by
  simp only [ofInt32, readInt32, Number.toInt?_ofInt, Option.bind_some, Int32.ofInt_toInt]
  exact if_pos ⟨i.le_toInt, i.toInt_lt⟩

/-! ## Objects -/

/-- Members with texts as names. -/
def named (ms : List (List Char × Json)) : List (List UInt16 × Json) :=
  ms.map fun m => (Utf16.encode m.1, m.2)

/-- An object with texts as names. -/
def object (ms : List (List Char × Json)) : Json := .obj (named ms)

@[simp] theorem depth_object_nil : (object []).depth = 1 := rfl

@[simp] theorem depth_object_cons (m : List Char × Json) (ms : List (List Char × Json)) :
    (object (m :: ms)).depth = max (m.2.depth + 1) (object ms).depth := (Nat.add_max_add_right _ _ 1).symm

/-- A property of a record: its name, and what reading a value into it makes of the record. -/
structure Property (R : Type) where
  name : List Char
  set : Json → R → Option R

/-- A property whose values are read by `get` and stored by `put`. -/
def Property.of {R α : Type} (name : List Char) (get : Json → Option α) (put : α → R → R) : Property R :=
  ⟨name, fun j r => (get j).map fun a => put a r⟩

section Record

variable {R : Type} (props : List (Property R))

/-- The members of an object, in order. A name that does not decode is an error; the value of an
unknown name is not looked at. -/
def readMembers : R → List (List UInt16 × Json) → Option R
  | r, [] => some r
  | r, (k, j) :: ms =>
    (Utf16.decode k).bind fun name =>
      match props.find? fun p => p.name = name with
      | some p => (p.set j r).bind fun r => readMembers r ms
      | none => readMembers r ms

variable {props} in
theorem readMembers_cons {α : Type} {k : List Char} {get : Json → Option α} {put : α → R → R}
    (hk : (props.find? fun p => p.name = k) = some (.of k get put)) {j : Json} {a : α} (ha : get j = some a)
    (r : R) (ms : List (List Char × Json)) :
    readMembers props r (named ((k, j) :: ms)) = readMembers props (put a r) (named ms) := by
  rw [named, List.map_cons, readMembers, Utf16.decode_encode, Option.bind_some, hk]
  simp only [Property.of, ha, Option.map_some, Option.bind_some, named]

variable {props} in
theorem readMembers_skip {k : List Char} (hk : (props.find? fun p => p.name = k) = none) (j : Json) (r : R)
    (ms : List (List Char × Json)) :
    readMembers props r (named ((k, j) :: ms)) = readMembers props r (named ms) := by
  rw [named, List.map_cons, readMembers, Utf16.decode_encode, Option.bind_some, hk]
  rfl

/-- A record, starting from `init`; `some none` for `null`. -/
def readRecord (init : R) : Json → Option (Option R)
  | .null => some none
  | .obj ms => (readMembers props init ms).map some
  | _ => none

theorem readRecord_object (init : R) (ms : List (List Char × Json)) :
    readRecord props init (object ms) = (readMembers props init (named ms)).map some := rfl

end Record

end Json
