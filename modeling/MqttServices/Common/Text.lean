import Mathlib.Data.List.DropRight
import MqttServices.Common.Payload

/-!
# Texts of the settings

* `Trim`, and **`Trim_eq_nil_iff`**: what a blank setting is trimmed to.
* **`Trim_eq_self_iff`**: a text that neither begins nor ends with a blank is left as it is.
* `ToUpperInvariant`, `EqualsOrdinalIgnoreCase`: comparison without case.
* `TlsVersions.Parse`: the configured TLS version.
-/

namespace MqttServices

/-- `string.Trim()`. -/
def Trim (s : Str) : Str := (s.dropWhile IsWhiteSpace).rdropWhile IsWhiteSpace

/-- `char.ToUpperInvariant`, on ASCII. -/
def ToUpperInvariant (c : Char) : Char := c.toUpper

/-- `string.Equals(.., StringComparison.OrdinalIgnoreCase)`, for texts of which one is ASCII. -/
def EqualsOrdinalIgnoreCase (s t : Str) : Bool := s.map ToUpperInvariant = t.map ToUpperInvariant

/-- **Just the blank texts are trimmed to nothing.** -/
theorem Trim_eq_nil_iff (s : Str) : Trim s = [] ↔ s.all IsWhiteSpace = true := by
  rw [Trim, List.rdropWhile_eq_nil_iff, List.all_eq_true]
  constructor
  · intro h c hc
    rw [← List.takeWhile_append_dropWhile (p := IsWhiteSpace) (l := s)] at hc
    rcases List.mem_append.mp hc with hc | hc
    · exact List.mem_takeWhile_imp hc
    · exact h c hc
  · intro h c hc
    exact h c ((List.dropWhile_sublist IsWhiteSpace).subset hc)

theorem head_of_Trim (s : Str) : ∀ c ∈ (Trim s).head?, IsWhiteSpace c = false := by
  intro c hc
  obtain ⟨t, ht⟩ := List.head?_eq_some_iff.mp hc
  obtain ⟨rest, hrest⟩ : Trim s <+: s.dropWhile IsWhiteSpace := List.rdropWhile_prefix ..
  have h := List.head?_dropWhile_not IsWhiteSpace s
  rw [← hrest, ht] at h
  exact h

theorem last_of_Trim (s : Str) : ∀ c ∈ (Trim s).getLast?, IsWhiteSpace c = false := by
  intro c hc
  obtain ⟨hne, hlast⟩ := List.mem_getLast?_eq_getLast hc
  rw [hlast]
  exact Bool.eq_false_iff.mpr (List.rdropWhile_last_not IsWhiteSpace _ hne)

/-- **What has no blank at either end is trimmed to itself.** -/
theorem Trim_eq_self_iff (s : Str) :
    Trim s = s ↔ (∀ c ∈ s.head?, IsWhiteSpace c = false) ∧ ∀ c ∈ s.getLast?, IsWhiteSpace c = false := by
  constructor
  · intro h
    rw [← h]
    exact ⟨head_of_Trim s, last_of_Trim s⟩
  · rintro ⟨hhead, hlast⟩
    have hdrop : s.dropWhile IsWhiteSpace = s := by
      cases s with
      | nil => rfl
      | cons c s => exact List.dropWhile_cons_of_neg (Bool.eq_false_iff.mp (hhead c rfl))
    rw [Trim, hdrop, List.rdropWhile_eq_self_iff]
    exact fun hne => Bool.eq_false_iff.mp (hlast _ (List.getLast?_eq_getLast_of_ne_nil hne))

theorem Trim_Trim (s : Str) : Trim (Trim s) = Trim s := (Trim_eq_self_iff _).mpr ⟨head_of_Trim s, last_of_Trim s⟩

inductive SslProtocols where
  | None
  | Tls
  | Tls11
  | Tls12
  | Tls13
  deriving DecidableEq

namespace TlsVersions

def OperatingSystemDefault : SslProtocols := .None

/-- `Parse`: the version, and whether the value is reported as unknown. -/
def Parse (configuredVersion : Option Str) : SslProtocols × Bool :=
  let value := Trim (orEmpty configuredVersion)
  if value = [] ∨ EqualsOrdinalIgnoreCase value "auto".toList then (OperatingSystemDefault, false)
  else if value = "1.0".toList then (.Tls, false)
  else if value = "1.1".toList then (.Tls11, false)
  else if value = "1.2".toList then (.Tls12, false)
  else if value = "1.3".toList then (.Tls13, false)
  else (OperatingSystemDefault, true)

theorem Parse_reported {v : Option Str} (h : (Parse v).2 = true) : (Parse v).1 = OperatingSystemDefault := by
  revert h
  unfold Parse
  dsimp only
  split_ifs <;> simp

end TlsVersions

end MqttServices
