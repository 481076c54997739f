import MqttServices.Common.Text

/-!
# Fingerprints

* `Digest`: a SHA-256 digest; `Digest.toHexString`: as `GetCertHashString` renders it.
* `IsAsciiHexDigit`: the digits of either case.
* **`Digest.toHexString_injective`**: a digest is known by its text.
-/

namespace MqttServices

/-- A SHA-256 digest. -/
structure Digest where
  bytes : List UInt8
  length_eq : bytes.length = 32
  deriving DecidableEq

/-- `char.IsAsciiHexDigit`. -/
def IsAsciiHexDigit (c : Char) : Bool := (Json.hexValue c).isSome

/-- A byte as two upper-case digits. -/
def hexByte (b : UInt8) : Str := [Json.hexDigit (b.toNat / 16), Json.hexDigit (b.toNat % 16)]

/-- Bytes as upper-case digits. -/
def toHexString (bs : List UInt8) : Str := bs.flatMap hexByte

/-- The text of a digest. -/
def Digest.toHexString (d : Digest) : Str := MqttServices.toHexString d.bytes

theorem hexDigit_isAsciiHexDigit : ∀ n < 16, IsAsciiHexDigit (Json.hexDigit n) = true := by decide

theorem hexDigit_toUpper : ∀ n < 16, ToUpperInvariant (Json.hexDigit n) = Json.hexDigit n := by decide

theorem toUpper_toUpper {c : Char} (h : IsAsciiHexDigit c = true) :
    ToUpperInvariant (ToUpperInvariant c) = ToUpperInvariant c := by
  have hall : ∀ n < 0x67, ToUpperInvariant (ToUpperInvariant (Char.ofNat n)) = ToUpperInvariant (Char.ofNat n) := by
    decide
  have hc : c.toNat < 0x67 := by
    simp only [IsAsciiHexDigit, Json.hexValue] at h
    split_ifs at h <;> first | omega | cases h
  rw [← Char.ofNat_toNat c]
  exact hall c.toNat hc

theorem toHexString_cons (b : UInt8) (bs : List UInt8) : toHexString (b :: bs) = hexByte b ++ toHexString bs :=
  List.flatMap_cons

theorem length_toHexString (bs : List UInt8) : (toHexString bs).length = 2 * bs.length := by
  induction bs with
  | nil => rfl
  | cons b bs ih =>
    rw [toHexString_cons, List.length_append, ih, List.length_cons]
    show 2 + 2 * bs.length = _
    omega

theorem mem_toHexString {bs : List UInt8} {c : Char} (h : c ∈ toHexString bs) : ∃ n < 16, c = Json.hexDigit n := by
  obtain ⟨b, -, hc⟩ := List.mem_flatMap.mp h
  have hb := b.toNat_lt
  rcases List.mem_cons.mp hc with rfl | hc
  · exact ⟨b.toNat / 16, by omega, rfl⟩
  · exact ⟨b.toNat % 16, by omega, List.mem_singleton.mp hc⟩

theorem hexDigit_injOn {m n : ℕ} (hm : m < 16) (hn : n < 16) (h : Json.hexDigit m = Json.hexDigit n) : m = n := by
  have hv := Json.hexValue_hexDigit m hm
  rw [h, Json.hexValue_hexDigit n hn] at hv
  exact (Option.some_inj.mp hv).symm

theorem hexByte_injective {a b : UInt8} (h : hexByte a = hexByte b) : a = b := by
  have ha := a.toNat_lt
  have hb := b.toNat_lt
  obtain ⟨hhigh, hrest⟩ := List.cons.inj h
  have hlow := (List.cons.inj hrest).1
  have h₁ : a.toNat / 16 = b.toNat / 16 := hexDigit_injOn (by omega) (by omega) hhigh
  have h₂ : a.toNat % 16 = b.toNat % 16 := hexDigit_injOn (by omega) (by omega) hlow
  exact UInt8.toNat_inj.mp (by omega)

theorem toHexString_injective {as bs : List UInt8} (h : toHexString as = toHexString bs) : as = bs := by
  induction as generalizing bs with
  | nil =>
    cases bs with
    | nil => rfl
    | cons b bs => cases h
  | cons a as ih =>
    cases bs with
    | nil => cases h
    | cons b bs =>
      rw [toHexString_cons, toHexString_cons] at h
      obtain ⟨hbyte, hrest⟩ := List.append_inj h rfl
      rw [hexByte_injective hbyte, ih hrest]

namespace Digest

/-- **A digest is known by its text.** -/
theorem toHexString_injective {d e : Digest} (h : d.toHexString = e.toHexString) : d = e := by
  cases d
  cases e
  congr
  exact MqttServices.toHexString_injective h

theorem length_toHexString (d : Digest) : d.toHexString.length = 64 := by
  rw [toHexString, MqttServices.length_toHexString, d.length_eq]

theorem isAsciiHexDigit_of_mem {d : Digest} {c : Char} (h : c ∈ d.toHexString) : IsAsciiHexDigit c = true := by
  obtain ⟨n, hn, rfl⟩ := mem_toHexString h
  exact hexDigit_isAsciiHexDigit n hn

theorem toUpper_of_mem {d : Digest} {c : Char} (h : c ∈ d.toHexString) : ToUpperInvariant c = c := by
  obtain ⟨n, hn, rfl⟩ := mem_toHexString h
  exact hexDigit_toUpper n hn

end Digest

end MqttServices
