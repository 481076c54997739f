import Mathlib.Data.List.Basic
import Mathlib.Tactic.SplitIfs

/-!
# UTF-16 code units

* `Utf16.encode`: the code units of a text.
* `Utf16.decode`: the text of a sequence of code units; there is none where a surrogate stands alone.
* **`Utf16.decode_encode`**: a text is read back from its code units.
-/

namespace Utf16

/-- The code units of a character: one, or a pair of surrogates. -/
def units (c : Char) : List UInt16 :=
  if c.toNat < 0x10000 then [UInt16.ofNat c.toNat]
  else [UInt16.ofNat (0xD800 + (c.toNat - 0x10000) / 0x400),
    UInt16.ofNat (0xDC00 + (c.toNat - 0x10000) % 0x400)]

/-- The code units of a text. -/
def encode (s : List Char) : List UInt16 := s.flatMap units

/-- A high surrogate, the first of a pair. -/
def isHigh (u : UInt16) : Bool := 0xD800 ≤ u.toNat && u.toNat ≤ 0xDBFF

/-- A low surrogate, the second of a pair. -/
def isLow (u : UInt16) : Bool := 0xDC00 ≤ u.toNat && u.toNat ≤ 0xDFFF

/-- The character of a pair of surrogates. -/
def pair (high low : UInt16) : Char :=
  Char.ofNat (0x10000 + (high.toNat - 0xD800) * 0x400 + (low.toNat - 0xDC00))

/-- The text of a sequence of code units. -/
def decode : List UInt16 → Option (List Char)
  | [] => some []
  | u :: us =>
    if isHigh u then
      match us with
      | l :: vs => if isLow l then (decode vs).map (pair u l :: ·) else none
      | [] => none
    else if isLow u then none
    else (decode us).map (Char.ofNat u.toNat :: ·)

theorem toNat_ofNat {n : ℕ} (h : n < 0x10000) : (UInt16.ofNat n).toNat = n :=
  UInt16.toNat_ofNat_of_lt' h

theorem units_of_lt {c : Char} (h : c.toNat < 0x10000) : units c = [UInt16.ofNat c.toNat] := if_pos h

/-- A character is read back from its code units, whatever follows them. -/
theorem decode_units (c : Char) (us : List UInt16) :
    decode (units c ++ us) = (decode us).map (c :: ·) := by
  have hv : c.toNat < 0xD800 ∨ 0xDFFF < c.toNat ∧ c.toNat < 0x110000 := c.valid
  unfold units
  split_ifs with hc
  · have hu := toNat_ofNat hc
    have hh : isHigh (UInt16.ofNat c.toNat) = false := by
      simp only [isHigh, hu, Bool.and_eq_false_iff, decide_eq_false_iff_not]; omega
    have hl : isLow (UInt16.ofNat c.toNat) = false := by
      simp only [isLow, hu, Bool.and_eq_false_iff, decide_eq_false_iff_not]; omega
    rw [List.singleton_append, decode.eq_def]
    simp only [hh, hl, hu, Bool.false_eq_true, if_false, Char.ofNat_toNat]
  · have hu := toNat_ofNat (n := 0xD800 + (c.toNat - 0x10000) / 0x400) (by omega)
    have hw := toNat_ofNat (n := 0xDC00 + (c.toNat - 0x10000) % 0x400) (by omega)
    have hh : isHigh (UInt16.ofNat (0xD800 + (c.toNat - 0x10000) / 0x400)) = true := by
      simp only [isHigh, hu, Bool.and_eq_true, decide_eq_true_eq]; omega
    have hl : isLow (UInt16.ofNat (0xDC00 + (c.toNat - 0x10000) % 0x400)) = true := by
      simp only [isLow, hw, Bool.and_eq_true, decide_eq_true_eq]; omega
    have hpair : pair (UInt16.ofNat (0xD800 + (c.toNat - 0x10000) / 0x400))
        (UInt16.ofNat (0xDC00 + (c.toNat - 0x10000) % 0x400)) = c := by
      have hsum : 0x10000 + (0xD800 + (c.toNat - 0x10000) / 0x400 - 0xD800) * 0x400 +
          (0xDC00 + (c.toNat - 0x10000) % 0x400 - 0xDC00) = c.toNat := by omega
      rw [pair, hu, hw, hsum, Char.ofNat_toNat]
    simp only [List.cons_append, List.nil_append, decode, hh, hl, if_true, hpair]

/-- **A text is read back from its code units.** -/
theorem decode_encode (s : List Char) : decode (encode s) = some s := by
  induction s with
  | nil => rfl
  | cons c s ih => rw [encode, List.flatMap_cons, decode_units, ← encode, ih, Option.map_some]

end Utf16
