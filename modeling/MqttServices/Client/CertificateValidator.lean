import MqttServices.Client.Settings
import MqttServices.Common.Fingerprint
import MqttServices.Lib.Spelling

/-!
# The certificate of the broker

* `NormalizeThumbprint`: the configured fingerprint in the form it is compared in.
* `IsAcceptable`: the decision of `MqttCertificateValidator` with what it logs.
* **`pin_fails_closed_iff`**: the configured values that never let another certificate pass.
* **`pin_spelling`**: how a fingerprint is written makes no difference.
* `rejection_logged`: a rejected certificate is logged with a reason.
-/

namespace MqttServices

/-- What the validator logs. -/
inductive CertificateLog where
  | acceptedWithoutValidation
  | notAFingerprint (length : ℕ)
  | noCertificate
  | mismatch (expected actual : Str)
  | nameMismatch
  | chainErrors (thumbprint : Option Str)
  deriving DecidableEq

namespace SslPolicyErrors

/-- `SslPolicyErrors.None`. -/
def None : Int32 := 0

/-- `SslPolicyErrors.RemoteCertificateNotAvailable`. -/
def RemoteCertificateNotAvailable : Int32 := 1

/-- `SslPolicyErrors.RemoteCertificateNameMismatch`. -/
def RemoteCertificateNameMismatch : Int32 := 2

/-- `SslPolicyErrors.RemoteCertificateChainErrors`. -/
def RemoteCertificateChainErrors : Int32 := 4

/-- `Enum.HasFlag`. -/
def HasFlag (sslPolicyErrors flag : Int32) : Bool := sslPolicyErrors &&& flag == flag

end SslPolicyErrors

namespace MqttCertificateValidator

def NormalizeThumbprint (thumbprint : Option Str) : Str :=
  if IsNullOrEmpty thumbprint then []
  else (orEmpty thumbprint).foldl
    (fun normalized c => if IsAsciiHexDigit c then normalized ++ [ToUpperInvariant c] else normalized) []

section Decision

variable {C : Type} (Sha256 : C → Digest) (settings : MqttClientSettings)

/-- `GetCertHashString(HashAlgorithmName.SHA256)`. -/
def GetCertHashString (certificate : C) : Str := (Sha256 certificate).toHexString

def IsPinnedCertificate (certificate : Option C) (expected : Str) : Bool × List CertificateLog :=
  if expected.length ≠ 64 then (false, [.notAFingerprint expected.length])
  else
    match certificate with
    | none => (false, [.noCertificate])
    | some certificate =>
      let actual := GetCertHashString Sha256 certificate
      if EqualsOrdinalIgnoreCase actual expected then (true, [])
      else (false, [.mismatch expected actual])

def LogRejection (certificate : Option C) (sslPolicyErrors : Int32) : List CertificateLog :=
  (if SslPolicyErrors.HasFlag sslPolicyErrors SslPolicyErrors.RemoteCertificateNameMismatch then [.nameMismatch]
    else []) ++
  (if SslPolicyErrors.HasFlag sslPolicyErrors SslPolicyErrors.RemoteCertificateChainErrors then
    [.chainErrors (certificate.map (GetCertHashString Sha256))] else []) ++
  (if SslPolicyErrors.HasFlag sslPolicyErrors SslPolicyErrors.RemoteCertificateNotAvailable then [.noCertificate]
    else [])

/-- `IsAcceptable`, with what it logs. -/
def IsAcceptable (certificate : Option C) (sslPolicyErrors : Int32) : Bool × List CertificateLog :=
  if settings.AllowUntrustedCertificates then (true, [.acceptedWithoutValidation])
  else
    let expected := NormalizeThumbprint settings.TrustedCertificateThumbprint
    if 0 < expected.length then IsPinnedCertificate Sha256 certificate expected
    else if sslPolicyErrors = SslPolicyErrors.None then (true, [])
    else (false, LogRejection Sha256 certificate sslPolicyErrors)

/-- The certificate is presented, and the hex digits of the configured value are 64 and spell its fingerprint. -/
def Pinned (certificate : Option C) : Prop :=
  ∃ c, certificate = some c ∧
    ((orEmpty settings.TrustedCertificateThumbprint).filter IsAsciiHexDigit).length = 64 ∧
    ((orEmpty settings.TrustedCertificateThumbprint).filter IsAsciiHexDigit).map ToUpperInvariant =
      GetCertHashString Sha256 c

/-- Only the pinned certificate passes, whatever the platform makes of the one presented. -/
def FailsClosed : Prop := ∀ certificate sslPolicyErrors,
  (IsAcceptable Sha256 settings certificate sslPolicyErrors).1 = true → Pinned Sha256 settings certificate

end Decision

/-! ## The normal form -/

/-- What counts of a fingerprint. -/
def digits (s : Str) : Str := Spelling.reduce IsAsciiHexDigit ToUpperInvariant s

theorem foldl_digits (s acc : Str) :
    s.foldl (fun normalized c => if IsAsciiHexDigit c then normalized ++ [ToUpperInvariant c] else normalized) acc =
      acc ++ digits s := by
  induction s generalizing acc with
  | nil => exact (List.append_nil acc).symm
  | cons c s ih =>
    rw [List.foldl_cons, ih, digits, digits]
    cases hc : IsAsciiHexDigit c with
    | true => rw [if_pos rfl, Spelling.reduce_cons_of_pos hc, List.append_assoc, List.singleton_append]
    | false => rw [if_neg Bool.false_ne_true, Spelling.reduce_cons_of_neg hc]

/-- **The normal form of a fingerprint is what counts of it.** -/
theorem NormalizeThumbprint_eq (thumbprint : Option Str) :
    NormalizeThumbprint thumbprint = digits (orEmpty thumbprint) := by
  rw [NormalizeThumbprint]
  split_ifs with h
  · rw [IsNullOrEmpty, List.isEmpty_iff] at h
    rw [h]
    rfl
  · exact foldl_digits _ []

theorem digits_toHexString (d : Digest) : digits d.toHexString = d.toHexString :=
  Spelling.reduce_eq_self (fun _ => Digest.isAsciiHexDigit_of_mem) fun _ => Digest.toUpper_of_mem

theorem length_digits (s : Str) : (digits s).length = (s.filter IsAsciiHexDigit).length := List.length_map _

theorem equalsOrdinalIgnoreCase_iff (d : Digest) (s : Str) :
    EqualsOrdinalIgnoreCase d.toHexString (digits s) = true ↔ digits s = d.toHexString := by
  have hd : d.toHexString.map ToUpperInvariant = d.toHexString :=
    (List.map_congr_left fun _ => Digest.toUpper_of_mem).trans (List.map_id' _)
  have hs : (digits s).map ToUpperInvariant = digits s := by
    rw [digits, Spelling.reduce, List.map_map]
    exact List.map_congr_left fun c hc => toUpper_toUpper (List.mem_filter.mp hc).2
  rw [EqualsOrdinalIgnoreCase, hd, hs, decide_eq_true_eq]
  exact eq_comm

/-! ## The pinned certificate -/

section Pin

variable {C : Type} {Sha256 : C → Digest} {settings : MqttClientSettings} {certificate : Option C}
  {sslPolicyErrors : Int32}

/-- **The pin accepts the certificate whose fingerprint is spelled, and no other.** -/
theorem IsPinnedCertificate_iff (s : Str) :
    (IsPinnedCertificate Sha256 certificate (digits s)).1 = true ↔
      ∃ c, certificate = some c ∧ digits s = (Sha256 c).toHexString := by
  by_cases hlen : (digits s).length ≠ 64
  · rw [IsPinnedCertificate.eq_def, if_pos hlen]
    refine iff_of_false Bool.false_ne_true ?_
    rintro ⟨c, -, h⟩
    exact hlen (h ▸ (Sha256 c).length_toHexString)
  · rw [IsPinnedCertificate.eq_def, if_neg hlen]
    cases certificate with
    | none => exact iff_of_false Bool.false_ne_true fun ⟨_, h, _⟩ => nomatch h
    | some c =>
      have heq := equalsOrdinalIgnoreCase_iff (Sha256 c) s
      dsimp only [GetCertHashString]
      split_ifs with h
      · exact iff_of_true rfl ⟨c, rfl, heq.mp h⟩
      · refine iff_of_false not_false ?_
        rintro ⟨d, hd, hs⟩
        cases hd
        exact h (heq.mpr hs)

/-- What the pin rejects is logged. -/
theorem IsPinnedCertificate_logged (expected : Str)
    (h : (IsPinnedCertificate Sha256 certificate expected).1 = false) :
    (IsPinnedCertificate Sha256 certificate expected).2 ≠ [] := by
  revert h
  unfold IsPinnedCertificate
  split_ifs
  · simp
  · cases certificate with
    | none => simp
    | some c =>
      dsimp only
      split_ifs <;> simp

theorem pinned_iff : Pinned Sha256 settings certificate ↔
    ∃ c, certificate = some c ∧ digits (orEmpty settings.TrustedCertificateThumbprint) = (Sha256 c).toHexString := by
  refine exists_congr fun c => and_congr_right fun _ => ⟨fun h => h.2, fun h => ⟨?_, h⟩⟩
  rw [← length_digits, h, Digest.length_toHexString]

theorem IsAcceptable_of_digit (hallow : settings.AllowUntrustedCertificates = false)
    (hdigit : digits (orEmpty settings.TrustedCertificateThumbprint) ≠ []) :
    IsAcceptable Sha256 settings certificate sslPolicyErrors =
      IsPinnedCertificate Sha256 certificate (digits (orEmpty settings.TrustedCertificateThumbprint)) := by
  rw [IsAcceptable, hallow, NormalizeThumbprint_eq, if_neg Bool.false_ne_true]
  exact if_pos (List.length_pos_of_ne_nil hdigit)

/-- Where it has none, the platform does. -/
theorem IsAcceptable_of_no_digit (hallow : settings.AllowUntrustedCertificates = false)
    (hdigit : digits (orEmpty settings.TrustedCertificateThumbprint) = []) :
    IsAcceptable Sha256 settings certificate sslPolicyErrors =
      if sslPolicyErrors = SslPolicyErrors.None then (true, [])
      else (false, LogRejection Sha256 certificate sslPolicyErrors) := by
  rw [IsAcceptable, hallow, NormalizeThumbprint_eq, if_neg Bool.false_ne_true]
  simp [hdigit]

theorem digits_ne_nil_iff (s : Str) : digits s ≠ [] ↔ ∃ c ∈ s, IsAsciiHexDigit c = true := by
  rw [digits, Ne, Spelling.reduce_eq_nil_iff]
  simp

/-- **The configured values that let only the pinned certificate pass**: those with at least one hex digit. -/
theorem pin_fails_closed_iff (hallow : settings.AllowUntrustedCertificates = false) :
    FailsClosed Sha256 settings ↔
      ∃ c ∈ orEmpty settings.TrustedCertificateThumbprint, IsAsciiHexDigit c = true := by
  rw [← digits_ne_nil_iff]
  constructor
  · intro h hnil
    have hnone : (IsAcceptable Sha256 settings none SslPolicyErrors.None).1 = true := by
      rw [IsAcceptable_of_no_digit hallow hnil, if_pos rfl]
    obtain ⟨c, hc, -⟩ := h none _ hnone
    cases hc
  · intro hdigit certificate e haccepted
    rw [IsAcceptable_of_digit hallow hdigit, IsPinnedCertificate_iff] at haccepted
    exact pinned_iff.mpr haccepted

/-- Settings that pin a certificate. -/
def pinSettings (thumbprint : Str) : MqttClientSettings := { TrustedCertificateThumbprint := some thumbprint }

/-- A digest. -/
def pinDigest : Digest := ⟨List.replicate 32 0xAB, by decide⟩

theorem pin_fails_closed_iff_lower :
    (pinSettings "ab".toList).AllowUntrustedCertificates = false ∧
      FailsClosed (id : Digest → Digest) (pinSettings "ab".toList) :=
  ⟨rfl, (pin_fails_closed_iff rfl).mpr ⟨'a', by decide, by decide⟩⟩

/-- **A configured value without a digit falls back to the platform's decision.** -/
theorem no_digit_falls_back :
    IsNullOrWhiteSpace (pinSettings "unknown".toList).TrustedCertificateThumbprint = false ∧
      (pinSettings "unknown".toList).AllowUntrustedCertificates = false ∧
      ¬ FailsClosed (id : Digest → Digest) (pinSettings "unknown".toList) := by
  refine ⟨by decide, rfl, fun h => ?_⟩
  obtain ⟨-, -, hlen, -⟩ := h (some pinDigest) SslPolicyErrors.None (by decide)
  exact absurd hlen (by decide)

/-- **How a fingerprint is written makes no difference**: every spelling of one pins the certificate that has it,
and configured values with the same digits decide alike. -/
theorem pin_spelling (hallow : settings.AllowUntrustedCertificates = false) :
    (∀ (f : Digest) (s : Str), Spelling.Spells IsAsciiHexDigit ToUpperInvariant f.toHexString s →
      settings.TrustedCertificateThumbprint = some s → ∀ certificate e,
        (IsAcceptable Sha256 settings certificate e).1 = true ↔ ∃ c, certificate = some c ∧ Sha256 c = f) ∧
    ∀ s t : Option Str, EqualsOrdinalIgnoreCase ((orEmpty s).filter IsAsciiHexDigit)
        ((orEmpty t).filter IsAsciiHexDigit) = true → ∀ certificate e,
      IsAcceptable Sha256 { settings with TrustedCertificateThumbprint := s } certificate e =
        IsAcceptable Sha256 { settings with TrustedCertificateThumbprint := t } certificate e := by
  constructor
  · intro f s hspell hs certificate e
    have hdigits : digits (orEmpty settings.TrustedCertificateThumbprint) = f.toHexString := by
      rw [hs]
      exact hspell.reduce_eq.trans (digits_toHexString f)
    have hne : digits (orEmpty settings.TrustedCertificateThumbprint) ≠ [] := by
      rw [hdigits]
      exact List.ne_nil_of_length_pos (by rw [f.length_toHexString]; decide)
    rw [IsAcceptable_of_digit hallow hne, IsPinnedCertificate_iff, hdigits]
    exact exists_congr fun c => and_congr_right fun _ =>
      ⟨fun h => (Digest.toHexString_injective h).symm, fun h => congrArg Digest.toHexString h.symm⟩
  · intro s t hst certificate e
    have hdigits : NormalizeThumbprint s = NormalizeThumbprint t := by
      rw [NormalizeThumbprint_eq, NormalizeThumbprint_eq]
      exact of_decide_eq_true hst
    simp only [IsAcceptable, hdigits]

theorem pin_spelling_lower :
    (pinSettings (pinDigest.toHexString.map Char.toLower)).AllowUntrustedCertificates = false ∧
      Spelling.Spells IsAsciiHexDigit ToUpperInvariant pinDigest.toHexString
        (pinDigest.toHexString.map Char.toLower) ∧
      (∀ certificate e, (IsAcceptable id (pinSettings (pinDigest.toHexString.map Char.toLower)) certificate e).1 = true ↔
        ∃ c, certificate = some c ∧ c = pinDigest) ∧
      ∀ certificate e, IsAcceptable (id : Digest → Digest) (pinSettings "a:b".toList) certificate e =
        IsAcceptable id (pinSettings "AB".toList) certificate e := by
  have hspell : Spelling.Spells IsAsciiHexDigit ToUpperInvariant pinDigest.toHexString
      (pinDigest.toHexString.map Char.toLower) :=
    (Spelling.spells_iff fun _ => Digest.isAsciiHexDigit_of_mem).mpr (by decide)
  have h := @pin_spelling Digest id (pinSettings (pinDigest.toHexString.map Char.toLower)) rfl
  exact ⟨rfl, hspell, h.1 pinDigest _ hspell rfl, h.2 (some "a:b".toList) (some "AB".toList) (by decide)⟩

/-- **A rejected certificate is logged with a reason**, where the platform has one of its own. -/
theorem rejection_logged
    (hknown : SslPolicyErrors.HasFlag sslPolicyErrors SslPolicyErrors.RemoteCertificateNameMismatch ∨
      SslPolicyErrors.HasFlag sslPolicyErrors SslPolicyErrors.RemoteCertificateChainErrors ∨
      SslPolicyErrors.HasFlag sslPolicyErrors SslPolicyErrors.RemoteCertificateNotAvailable)
    (h : (IsAcceptable Sha256 settings certificate sslPolicyErrors).1 = false) :
    (IsAcceptable Sha256 settings certificate sslPolicyErrors).2 ≠ [] := by
  revert h
  unfold IsAcceptable
  dsimp only
  split_ifs
  · exact fun h => nomatch h
  · exact IsPinnedCertificate_logged _
  · exact fun h => nomatch h
  · intro _
    rcases hknown with h | h | h
    · simp [LogRejection, h]
    · simp [LogRejection, h]
    · simp [LogRejection, h]

end Pin

end MqttCertificateValidator

end MqttServices
