import Mathlib.Data.List.Basic
import Mathlib.Tactic.SplitIfs

/-!
# UTF-8 with replacement

* `Utf8.encode`: the bytes of a text.
* `Utf8.decode`: the text of any byte sequence, an ill-formed part reading as `U+FFFD`; the decoder
  is a machine over single bytes (`first`, `next`, `decodeFrom`).
* **`Utf8.decode_encode`**: an ASCII text is read back unchanged.
-/

namespace Utf8

/-- The text written for the ill-formed parts of the input. -/
def replacement : Char := Char.ofNat 0xFFFD

/-- The bytes of a text. -/
def encode (s : List Char) : List UInt8 := s.flatMap String.utf8EncodeChar

/-- A character under way: the bytes still owed, the range of the next one, the code point so far. -/
structure Pending where
  owed : ℕ
  low : ℕ
  high : ℕ
  acc : ℕ
  deriving DecidableEq, Repr

/-- Byte `b` between two characters: the text it completes and the character it opens. -/
def first (b : ℕ) : List Char × Option Pending :=
  if b < 0x80 then ([Char.ofNat b], none)
  else if 0xC2 ≤ b ∧ b ≤ 0xDF then ([], some ⟨1, 0x80, 0xBF, b - 0xC0⟩)
  else if b = 0xE0 then ([], some ⟨2, 0xA0, 0xBF, 0⟩)
  else if b = 0xED then ([], some ⟨2, 0x80, 0x9F, 0xD⟩)
  else if 0xE1 ≤ b ∧ b ≤ 0xEF then ([], some ⟨2, 0x80, 0xBF, b - 0xE0⟩)
  else if b = 0xF0 then ([], some ⟨3, 0x90, 0xBF, 0⟩)
  else if 0xF1 ≤ b ∧ b ≤ 0xF3 then ([], some ⟨3, 0x80, 0xBF, b - 0xF0⟩)
  else if b = 0xF4 then ([], some ⟨3, 0x80, 0x8F, 4⟩)
  else ([replacement], none)

/-- Byte `b` inside a character. A byte out of range ends the character as ill formed and is read
again between two characters. -/
def next (p : Pending) (b : ℕ) : List Char × Option Pending :=
  if p.low ≤ b ∧ b ≤ p.high then
    if p.owed ≤ 1 then ([Char.ofNat (p.acc * 64 + (b - 0x80))], none)
    else ([], some ⟨p.owed - 1, 0x80, 0xBF, p.acc * 64 + (b - 0x80)⟩)
  else (replacement :: (first b).1, (first b).2)

/-- One byte in any state of the decoder. -/
def feed : Option Pending → ℕ → List Char × Option Pending
  | none, b => first b
  | some p, b => next p b

/-- The text of the remaining bytes. -/
def decodeFrom : Option Pending → List UInt8 → List Char
  | none, [] => []
  | some _, [] => [replacement]
  | p, b :: bs => (feed p b.toNat).1 ++ decodeFrom (feed p b.toNat).2 bs

/-- The text of a byte sequence. -/
def decode (bs : List UInt8) : List Char := decodeFrom none bs

/-- A text of ASCII characters. -/
def IsAscii (s : List Char) : Prop := ∀ c ∈ s, c.toNat < 0x80

instance : DecidablePred IsAscii := fun s => List.decidableBAll _ s

theorem isAscii_nil : IsAscii [] := fun _ h => absurd h List.not_mem_nil

theorem isAscii_cons {c : Char} {s : List Char} : IsAscii (c :: s) ↔ c.toNat < 0x80 ∧ IsAscii s :=
  List.forall_mem_cons

theorem isAscii_append {s t : List Char} : IsAscii (s ++ t) ↔ IsAscii s ∧ IsAscii t :=
  List.forall_mem_append

theorem encode_cons (c : Char) (s : List Char) :
    encode (c :: s) = String.utf8EncodeChar c ++ encode s := List.flatMap_cons

/-- An ASCII character is one byte. -/
theorem encodeChar_ascii {c : Char} (h : c.toNat < 0x80) :
    String.utf8EncodeChar c = [UInt8.ofNat c.toNat] := by
  have h' : c.val.toNat ≤ 0x7f := Nat.le_of_lt_succ h
  unfold String.utf8EncodeChar
  rw [if_pos h']
  rfl

theorem first_ascii {b : ℕ} (h : b < 0x80) : first b = ([Char.ofNat b], none) := if_pos h

/-- **ASCII round trip.** -/
theorem decode_encode {s : List Char} (h : IsAscii s) : decode (encode s) = s := by
  unfold decode
  induction s with
  | nil => rfl
  | cons c s ih =>
    obtain ⟨hc, hs⟩ := isAscii_cons.mp h
    have hb : (UInt8.ofNat c.toNat).toNat = c.toNat := by
      rw [UInt8.toNat_ofNat']
      exact Nat.mod_eq_of_lt (by omega)
    rw [encode_cons, encodeChar_ascii hc, List.singleton_append, decodeFrom, feed, hb,
      first_ascii hc, ih hs, Char.ofNat_toNat, List.singleton_append]

end Utf8
