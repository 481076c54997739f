import MqttServices.Lib.Utf16
import MqttServices.Lib.Utf8
import Mathlib.Tactic.IntervalCases

/-!
# JSON values and their text

* `Json.Number`: a number kept as its text, so that reading and writing it again loses nothing.
* `Json`, `Json.depth`: a value and the nesting of its arrays and objects.
* `Json.Layout`: the white space of the written text; `compact` has none.
* `Json.write`: the text of a value, with everything outside printable ASCII escaped.
-/

namespace Json

/-! ## Characters -/

/-- The double quote. -/
def quote : Char := Char.ofNat 0x22

/-- The backslash. -/
def backslash : Char := Char.ofNat 0x5C

/-- White space between tokens. -/
def isWs (c : Char) : Bool := c = ' ' || c = '\n' || c = '\r' || c = '\t'

/-- The characters a number is written with. -/
def isNumberChar (c : Char) : Bool :=
  c.isDigit || c = '-' || c = '+' || c = '.' || c = 'e' || c = 'E'

/-- The upper-case hexadecimal digit of a value below 16. -/
def hexDigit (n : ℕ) : Char := if n < 10 then Char.ofNat (0x30 + n) else Char.ofNat (0x37 + n)

/-- The value of a hexadecimal digit of either case. -/
def hexValue (c : Char) : Option ℕ :=
  let n := c.toNat
  if 0x30 ≤ n ∧ n ≤ 0x39 then some (n - 0x30)
  else if 0x41 ≤ n ∧ n ≤ 0x46 then some (n - 0x37)
  else if 0x61 ≤ n ∧ n ≤ 0x66 then some (n - 0x57)
  else none

theorem hexValue_hexDigit : ∀ n < 16, hexValue (hexDigit n) = some n := by decide

theorem hexDigit_ascii : ∀ n < 16, (hexDigit n).toNat < 0x80 := by decide

/-! ## Numbers -/

/-- Drop a run of at least one digit. -/
def dropDigits (s : List Char) : Option (List Char) :=
  match s with
  | [] => none
  | c :: r => if c.isDigit then some (r.dropWhile Char.isDigit) else none

/-- Drop the integer part: `0`, or digits that do not start with it. -/
def dropInt (s : List Char) : Option (List Char) :=
  match s with
  | '0' :: r => some r
  | r => dropDigits r

/-- Drop the fraction, where there is one. -/
def dropFrac (s : List Char) : Option (List Char) :=
  match s with
  | '.' :: r => dropDigits r
  | r => some r

/-- Drop the exponent, where there is one. -/
def dropExp (s : List Char) : Option (List Char) :=
  match s with
  | [] => some []
  | c :: r =>
    if c = 'e' ∨ c = 'E' then
      match r with
      | '+' :: t => dropDigits t
      | '-' :: t => dropDigits t
      | t => dropDigits t
    else some (c :: r)

/-- The text is one number of the JSON grammar. -/
def isNumber (s : List Char) : Bool :=
  s.all isNumberChar &&
    (((dropInt (if s.head? = some '-' then s.tail else s)).bind dropFrac).bind dropExp == some [])

/-- A number, as its text. -/
structure Number where
  text : List Char
  valid : isNumber text = true
  deriving DecidableEq

theorem Number.all_isNumberChar (n : Number) : ∀ c ∈ n.text, isNumberChar c = true :=
  List.all_eq_true.mp (Bool.and_eq_true_iff.mp n.valid).1

theorem Number.text_ne_nil (n : Number) : n.text ≠ [] := fun h => by
  have := n.valid
  rw [h] at this
  exact absurd this (by decide)

/-- The decimal text of an integer. -/
def intText (i : ℤ) : List Char :=
  if i < 0 then '-' :: Nat.toDigits 10 i.natAbs else Nat.toDigits 10 i.natAbs

/-- The integer a number denotes, where it is written without fraction and exponent. -/
def Number.toInt? (n : Number) : Option ℤ :=
  match n.text with
  | '-' :: ds => if ds.all Char.isDigit then some (-(Nat.ofDigitChars 10 ds 0 : ℤ)) else none
  | ds => if ds.all Char.isDigit then some (Nat.ofDigitChars 10 ds 0 : ℤ) else none

theorem isDigit_toDigits (n : ℕ) : ∀ c ∈ Nat.toDigits 10 n, c.isDigit = true :=
  fun _ hc => Nat.isDigit_of_mem_toDigits (by decide) le_rfl hc

theorem dropDigits_eq_nil {s : List Char} (h : ∀ c ∈ s, c.isDigit = true) (hs : s ≠ []) :
    dropDigits s = some [] := by
  cases s with
  | nil => exact absurd rfl hs
  | cons c r =>
    obtain ⟨hc, hr⟩ := List.forall_mem_cons.mp h
    have hd : r.dropWhile Char.isDigit = [] := by
      rw [← List.append_nil r, List.dropWhile_append_of_pos hr, List.dropWhile_nil]
    simp only [dropDigits, hc, if_true, hd]

theorem toDigits_head_ne_zero (n : ℕ) (hn : 0 < n) : (Nat.toDigits 10 n).head? ≠ some '0' := by
  induction n using Nat.strongRecOn with
  | ind n ih =>
    rcases Nat.lt_or_ge n 10 with h | h
    · rw [Nat.toDigits_of_lt_base h]
      interval_cases n <;> decide
    · rw [Nat.toDigits_of_base_le (by decide) h, List.head?_append_of_ne_nil _ Nat.toDigits_ne_nil]
      exact ih (n / 10) (by omega) (by omega)

theorem dropInt_toDigits (n : ℕ) : dropInt (Nat.toDigits 10 n) = some [] := by
  rcases Nat.eq_zero_or_pos n with rfl | hn
  · decide
  · have h0 := toDigits_head_ne_zero n hn
    have hd := dropDigits_eq_nil (isDigit_toDigits n) Nat.toDigits_ne_nil
    unfold dropInt
    split
    · next r hr => exact absurd (by rw [hr]; rfl) h0
    · exact hd

theorem isNumberChar_of_isDigit {c : Char} (h : c.isDigit = true) : isNumberChar c = true := by
  simp [isNumberChar, h]

theorem isNumber_intText (i : ℤ) : isNumber (intText i) = true := by
  have hall : ∀ c ∈ Nat.toDigits 10 i.natAbs, isNumberChar c = true := fun c hc =>
    isNumberChar_of_isDigit (isDigit_toDigits _ c hc)
  have hint : ((dropInt (Nat.toDigits 10 i.natAbs)).bind dropFrac).bind dropExp = some [] := by
    rw [dropInt_toDigits]; rfl
  unfold isNumber intText
  rw [Bool.and_eq_true, List.all_eq_true, beq_iff_eq]
  split_ifs with hi h h
  · exact ⟨List.forall_mem_cons.mpr ⟨by decide, hall⟩, hint⟩
  · exact absurd rfl h
  · -- a natural number is not written with a sign
    have hm : '-' ∈ Nat.toDigits 10 i.natAbs := List.mem_of_mem_head? (by rw [h]; rfl)
    exact absurd (isDigit_toDigits _ _ hm) (by decide)
  · exact ⟨hall, hint⟩

/-- The number of an integer. -/
def Number.ofInt (i : ℤ) : Number := ⟨intText i, isNumber_intText i⟩

/-- **An integer is read back from its number.** -/
theorem Number.toInt?_ofInt (i : ℤ) : (Number.ofInt i).toInt? = some i := by
  have hall : (Nat.toDigits 10 i.natAbs).all Char.isDigit = true :=
    List.all_eq_true.mpr (isDigit_toDigits _)
  have hval : Nat.ofDigitChars 10 (Nat.toDigits 10 i.natAbs) 0 = i.natAbs := Nat.ofDigitChars_ten_toDigits
  simp only [Number.toInt?, Number.ofInt, intText]
  split_ifs with hi
  · simp only [hall, hval, if_true]
    congr 1
    omega
  · split
    · next ds h =>
      have hm : '-' ∈ Nat.toDigits 10 i.natAbs := by rw [h]; exact List.mem_cons_self
      exact absurd (isDigit_toDigits _ _ hm) (by decide)
    · simp only [hall, hval, if_true]
      congr 1
      omega

/-! ## Strings -/

/-- The code units written as the characters they are: printable ASCII without the ones that HTML or
JavaScript could misread. -/
def isPlain (u : UInt16) : Bool :=
  0x20 ≤ u.toNat && u.toNat < 0x7F && !([0x22, 0x26, 0x27, 0x2B, 0x3C, 0x3E, 0x5C, 0x60].contains u.toNat)

/-- The letter of a two-character escape. -/
def shortEscape (u : UInt16) : Option Char :=
  match u.toNat with
  | 0x08 => some 'b'
  | 0x09 => some 't'
  | 0x0A => some 'n'
  | 0x0C => some 'f'
  | 0x0D => some 'r'
  | 0x5C => some backslash
  | _ => none

/-- The six-character escape of a code unit. -/
def unitEscape (u : UInt16) : List Char :=
  [backslash, 'u', hexDigit (u.toNat / 0x1000 % 16), hexDigit (u.toNat / 0x100 % 16),
    hexDigit (u.toNat / 0x10 % 16), hexDigit (u.toNat % 16)]

/-- A code unit inside a string. -/
def escape (u : UInt16) : List Char :=
  if isPlain u then [Char.ofNat u.toNat]
  else match shortEscape u with
    | some e => [backslash, e]
    | none => unitEscape u

/-- The text of a string, without the opening quote. -/
def strTail (s : List UInt16) : List Char := s.flatMap escape ++ [quote]

/-! ## Layouts -/

/-- The white space of a written value. -/
structure Layout where
  newline : List Char
  indent : List Char
  colon : List Char
  newline_ws : ∀ c ∈ newline, isWs c = true
  indent_ws : ∀ c ∈ indent, isWs c = true
  colon_ws : ∀ c ∈ colon, isWs c = true

namespace Layout

/-- No white space at all. -/
def compact : Layout := ⟨[], [], [], by simp, by simp, by simp⟩

/-- One line for each item and member, indented by two blanks a level; lines end in CR LF where
`crlf` is set. -/
def indented (crlf : Bool) : Layout where
  newline := if crlf then ['\r', '\n'] else ['\n']
  indent := [' ', ' ']
  colon := [' ']
  newline_ws := by cases crlf <;> simp [isWs]
  indent_ws := by simp [isWs]
  colon_ws := by simp [isWs]

variable (L : Layout)

/-- The start of a line at nesting `d`. -/
def line (d : ℕ) : List Char := L.newline ++ (List.replicate d L.indent).flatten

theorem line_ws (d : ℕ) : ∀ c ∈ L.line d, isWs c = true := by
  intro c hc
  rcases List.mem_append.mp hc with h | h
  · exact L.newline_ws c h
  · obtain ⟨l, hl, hcl⟩ := List.mem_flatten.mp h
    rw [List.eq_of_mem_replicate hl] at hcl
    exact L.indent_ws c hcl

end Layout

end Json

/-! ## Values -/

/-- A JSON value. A string and the name of a member are the code units of their text, which need not
be well formed; the members of an object stand in the order of the text, repeated names included. -/
inductive Json where
  | null
  | bool (b : Bool)
  | num (n : Json.Number)
  | str (s : List UInt16)
  | arr (items : List Json)
  | obj (members : List (List UInt16 × Json))

namespace Json

/-- **Induction on a value**, the items and members given by membership. -/
@[elab_as_elim, induction_eliminator]
theorem induct {P : Json → Prop} (null : P .null) (bool : ∀ b, P (.bool b)) (num : ∀ n, P (.num n))
    (str : ∀ s, P (.str s)) (arr : ∀ items, (∀ j ∈ items, P j) → P (.arr items))
    (obj : ∀ members, (∀ m ∈ members, P m.2) → P (.obj members)) (j : Json) : P j :=
  @Json.rec P (fun js => ∀ j ∈ js, P j) (fun ms => ∀ m ∈ ms, P m.2) (fun m => P m.2)
    null bool num str arr obj (fun _ h => absurd h List.not_mem_nil)
    (fun _ _ hj hjs => List.forall_mem_cons.mpr ⟨hj, hjs⟩) (fun _ h => absurd h List.not_mem_nil)
    (fun _ _ hm hms => List.forall_mem_cons.mpr ⟨hm, hms⟩) (fun _ _ h => h) j

mutual

/-- The nesting of the arrays and objects of a value. -/
def depth : Json → ℕ
  | .null | .bool _ | .num _ | .str _ => 0
  | .arr items => depthItems items + 1
  | .obj members => depthMembers members + 1

def depthItems : List Json → ℕ
  | [] => 0
  | j :: js => max (depth j) (depthItems js)

def depthMembers : List (List UInt16 × Json) → ℕ
  | [] => 0
  | (_, j) :: ms => max (depth j) (depthMembers ms)

end

theorem depth_le_items {js : List Json} : ∀ j ∈ js, depth j ≤ depthItems js := by
  induction js with
  | nil => exact fun _ h => absurd h List.not_mem_nil
  | cons i js ih =>
    refine List.forall_mem_cons.mpr ⟨le_max_left _ _, fun j hj => ?_⟩
    exact (ih j hj).trans (le_max_right _ _)

theorem depth_le_members {ms : List (List UInt16 × Json)} : ∀ m ∈ ms, depth m.2 ≤ depthMembers ms := by
  induction ms with
  | nil => exact fun _ h => absurd h List.not_mem_nil
  | cons i ms ih =>
    refine List.forall_mem_cons.mpr ⟨le_max_left _ _, fun m hm => ?_⟩
    exact (ih m hm).trans (le_max_right _ _)

/-! ## Writing -/

/-- The texts after the first one of an array or object, and the closing character. -/
def blockTail (L : Layout) (d : ℕ) (close : Char) : List (List Char) → List Char
  | [] => L.line d ++ [close]
  | t :: ts => ',' :: (L.line (d + 1) ++ t ++ blockTail L d close ts)

/-- The texts of an array or object at nesting `d`, between its brackets. -/
def block (L : Layout) (d : ℕ) (opening close : Char) : List (List Char) → List Char
  | [] => [opening, close]
  | t :: ts => opening :: (L.line (d + 1) ++ t ++ blockTail L d close ts)

mutual

/-- The text of a value at nesting `d`. -/
def write (L : Layout) (d : ℕ) : Json → List Char
  | .null => ['n', 'u', 'l', 'l']
  | .bool true => ['t', 'r', 'u', 'e']
  | .bool false => ['f', 'a', 'l', 's', 'e']
  | .num n => n.text
  | .str s => quote :: strTail s
  | .arr items => block L d '[' ']' (writeItems L (d + 1) items)
  | .obj members => block L d '{' '}' (writeMembers L (d + 1) members)

def writeItems (L : Layout) (d : ℕ) : List Json → List (List Char)
  | [] => []
  | j :: js => write L d j :: writeItems L d js

def writeMembers (L : Layout) (d : ℕ) : List (List UInt16 × Json) → List (List Char)
  | [] => []
  | (k, j) :: ms => (quote :: (strTail k ++ ':' :: (L.colon ++ write L d j))) :: writeMembers L d ms

end

/-- The text of a member at nesting `d`. -/
def writeMember (L : Layout) (d : ℕ) (m : List UInt16 × Json) : List Char :=
  quote :: (strTail m.1 ++ ':' :: (L.colon ++ write L d m.2))

theorem writeItems_eq (L : Layout) (d : ℕ) (js : List Json) :
    writeItems L d js = js.map (write L d) := by
  induction js with
  | nil => rfl
  | cons j js ih => rw [writeItems, ih, List.map_cons]

theorem writeMembers_eq (L : Layout) (d : ℕ) (ms : List (List UInt16 × Json)) :
    writeMembers L d ms = ms.map (writeMember L d) := by
  induction ms with
  | nil => rfl
  | cons m ms ih => rw [writeMembers, ih, List.map_cons, writeMember]

/-! ## The text is ASCII -/

theorem isWs_ascii {s : List Char} (h : ∀ c ∈ s, isWs c = true) : Utf8.IsAscii s := by
  intro c hc
  have := h c hc
  simp only [isWs, Bool.or_eq_true, decide_eq_true_eq] at this
  rcases this with ((rfl | rfl) | rfl) | rfl <;> decide

theorem unitEscape_ascii (u : UInt16) : Utf8.IsAscii (unitEscape u) := by
  intro c hc
  simp only [unitEscape, List.mem_cons, List.not_mem_nil, or_false] at hc
  rcases hc with rfl | rfl | rfl | rfl | rfl | rfl
  · decide
  · decide
  all_goals exact hexDigit_ascii _ (by omega)

theorem toNat_ofNat_of_isPlain {u : UInt16} (h : isPlain u = true) :
    0x20 ≤ u.toNat ∧ u.toNat < 0x80 ∧ (Char.ofNat u.toNat).toNat = u.toNat := by
  have hascii : ∀ n < 0x80, (Char.ofNat n).toNat = n := by decide
  simp only [isPlain, Bool.and_eq_true, decide_eq_true_eq] at h
  have hlt : u.toNat < 0x80 := by omega
  exact ⟨h.1.1, hlt, hascii _ hlt⟩

theorem escape_ascii (u : UInt16) : Utf8.IsAscii (escape u) := by
  unfold escape
  split_ifs with hp
  · obtain ⟨-, hlt, hn⟩ := toNat_ofNat_of_isPlain hp
    exact Utf8.isAscii_cons.mpr ⟨hn.trans_lt hlt, Utf8.isAscii_nil⟩
  · split
    · next e he =>
      unfold shortEscape at he
      refine Utf8.isAscii_cons.mpr ⟨by decide, Utf8.isAscii_cons.mpr ⟨?_, Utf8.isAscii_nil⟩⟩
      split at he <;> cases he <;> decide
    · exact unitEscape_ascii u

theorem strTail_ascii (s : List UInt16) : Utf8.IsAscii (strTail s) := by
  refine Utf8.isAscii_append.mpr ⟨fun c hc => ?_, Utf8.isAscii_cons.mpr ⟨by decide, Utf8.isAscii_nil⟩⟩
  obtain ⟨a, -, ha⟩ := List.mem_flatMap.mp hc
  exact escape_ascii a c ha

theorem isNumberChar_ascii {c : Char} (h : isNumberChar c = true) : c.toNat < 0x80 := by
  simp only [isNumberChar, Bool.or_eq_true, decide_eq_true_eq] at h
  rcases h with ((((h | rfl) | rfl) | rfl) | rfl) | rfl
  · exact lt_of_le_of_lt (Char.isDigit_iff_toNat.mp h).2 (by decide)
  all_goals decide

theorem blockTail_ascii (L : Layout) (d : ℕ) {close : Char} (hc : close.toNat < 0x80)
    {ts : List (List Char)} (h : ∀ t ∈ ts, Utf8.IsAscii t) : Utf8.IsAscii (blockTail L d close ts) := by
  induction ts with
  | nil =>
    exact Utf8.isAscii_append.mpr ⟨isWs_ascii (L.line_ws d), Utf8.isAscii_cons.mpr ⟨hc, Utf8.isAscii_nil⟩⟩
  | cons t ts ih =>
    obtain ⟨ht, hts⟩ := List.forall_mem_cons.mp h
    simp only [blockTail, Utf8.isAscii_cons, Utf8.isAscii_append]
    exact ⟨by decide, ⟨isWs_ascii (L.line_ws _), ht⟩, ih hts⟩

theorem block_ascii (L : Layout) (d : ℕ) {opening close : Char} (ho : opening.toNat < 0x80)
    (hc : close.toNat < 0x80) {ts : List (List Char)} (h : ∀ t ∈ ts, Utf8.IsAscii t) :
    Utf8.IsAscii (block L d opening close ts) := by
  cases ts with
  | nil => exact Utf8.isAscii_cons.mpr ⟨ho, Utf8.isAscii_cons.mpr ⟨hc, Utf8.isAscii_nil⟩⟩
  | cons t ts =>
    obtain ⟨ht, hts⟩ := List.forall_mem_cons.mp h
    simp only [block, Utf8.isAscii_cons, Utf8.isAscii_append]
    exact ⟨ho, ⟨isWs_ascii (L.line_ws _), ht⟩, blockTail_ascii L d hc hts⟩

/-- **A written value is ASCII.** -/
theorem write_ascii (L : Layout) (d : ℕ) (j : Json) : Utf8.IsAscii (write L d j) := by
  induction j generalizing d with
  | null => rw [write]; decide
  | bool b => cases b <;> rw [write] <;> decide
  | num n => exact fun c hc => isNumberChar_ascii (n.all_isNumberChar c (by rwa [write] at hc))
  | str s => exact Utf8.isAscii_cons.mpr ⟨by decide, strTail_ascii s⟩
  | arr items ih =>
    rw [write, writeItems_eq]
    refine block_ascii L d (by decide) (by decide) fun t ht => ?_
    obtain ⟨j, hj, rfl⟩ := List.mem_map.mp ht
    exact ih j hj (d + 1)
  | obj members ih =>
    rw [write, writeMembers_eq]
    refine block_ascii L d (by decide) (by decide) fun t ht => ?_
    obtain ⟨m, hm, rfl⟩ := List.mem_map.mp ht
    simp only [writeMember, Utf8.isAscii_cons, Utf8.isAscii_append]
    exact ⟨by decide, strTail_ascii m.1, by decide, isWs_ascii L.colon_ws, ih m hm (d + 1)⟩

end Json
