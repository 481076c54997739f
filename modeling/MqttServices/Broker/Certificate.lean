import MqttServices.Broker.Settings
import MqttServices.Common.Clock
import MqttServices.Common.Fingerprint

/-!
# The generated certificate

* `CertificateRequest`: the name, the alternative names and the extensions asked for.
* `X509Platform`: what the platform's certificate classes compute.
* `BrokerCertificateProvider.Create`, and **`BrokerCertificateProvider.Create_eq_ok_iff`**: the certificates it creates.
-/

namespace MqttServices

inductive IPAddress where
  | v4 (bits : BitVec 32)
  | v6 (bits : BitVec 128)
  deriving DecidableEq

namespace IPAddress

/-- `IPAddress.Loopback`. -/
def Loopback : IPAddress := .v4 0x7F000001

/-- `IPAddress.IPv6Loopback`. -/
def IPv6Loopback : IPAddress := .v6 1

end IPAddress

/-- An entry of a `SubjectAlternativeNameBuilder`. -/
inductive SubjectAlternativeName where
  | ip (address : IPAddress)
  | dns (name : Str)
  deriving DecidableEq

/-- `X509KeyUsageFlags`, as far as they are used. -/
inductive X509KeyUsageFlags where
  | DataEncipherment
  | KeyEncipherment
  | DigitalSignature
  | KeyCertSign
  deriving DecidableEq

/-- The extensions of a request. -/
inductive X509Extension where
  | basicConstraints (certificateAuthority hasPathLengthConstraint : Bool) (pathLengthConstraint : ℕ) (critical : Bool)
  | keyUsage (keyUsages : List X509KeyUsageFlags) (critical : Bool)
  | subjectKeyIdentifier (critical : Bool)
  | enhancedKeyUsage (enhancedKeyUsages : List Str) (critical : Bool)
  | subjectAlternativeName (names : List SubjectAlternativeName)
  deriving DecidableEq

/-- A distinguished name, as its attributes. -/
abbrev DistinguishedName := List (Str × Str)

structure CertificateRequest where
  SubjectName : DistinguishedName
  CertificateExtensions : List X509Extension
  deriving DecidableEq

/-! ## The platform -/

/-- What the platform's certificate classes compute. `K` is what the random number generator gives a call, `C` a
certificate with its private key. Times are ticks, of UTC for `CreateSelfSigned` and of local time for `NotAfter`. -/
structure X509Platform (K C : Type) where
  TryParse : Str → Option IPAddress
  AddDnsName : Str → Except Exception Unit
  X500DistinguishedName : Str → Except Exception DistinguishedName
  CreateSelfSigned : K → CertificateRequest → (notBefore notAfter : ℤ) → Except Exception C
  Export : K → C → (password : Option Str) → Except Exception (List UInt8)
  LoadPkcs12 : List UInt8 → (password : Option Str) → Except Exception C
  NotAfter : C → ℤ
  Sha256 : C → Digest

namespace BrokerCertificateProvider

variable {K C : Type} (platform : X509Platform K C)

def ServerAuthenticationOid : Str := "1.3.6.1.5.5.7.3.1".toList

def AddSubjectAlternativeName (sanBuilder : List SubjectAlternativeName) (name : Option Str) :
    Except Exception (List SubjectAlternativeName) :=
  let value := Trim (orEmpty name)
  if value = [] ∨ value = "localhost".toList then .ok sanBuilder
  else
    match platform.TryParse value with
    | some address => .ok (sanBuilder ++ [.ip address])
    | none => (platform.AddDnsName value).map fun _ => sanBuilder ++ [.dns value]

/-- The common name of a generated certificate. -/
def subjectName (settings : BrokerCertificateSettings) : Str :=
  if IsNullOrWhiteSpace settings.SubjectName then "localhost".toList else Trim (orEmpty settings.SubjectName)

/-- The names the builder starts with. -/
def loopbackNames : List SubjectAlternativeName :=
  [.ip IPAddress.Loopback, .ip IPAddress.IPv6Loopback, .dns "localhost".toList]

/-- The alternative names of a generated certificate. -/
def subjectAlternativeNames (settings : BrokerCertificateSettings) : Except Exception (List SubjectAlternativeName) :=
  match settings.HostNames with
  | none => .error ⟨.ArgumentNullException, []⟩
  | some names => (names ++ [some (subjectName settings)]).foldlM (AddSubjectAlternativeName platform) loopbackNames

/-- The request of a generated certificate. -/
def certRequest (settings : BrokerCertificateSettings) : Except Exception CertificateRequest := do
  let names ← subjectAlternativeNames platform settings
  let subject ← platform.X500DistinguishedName ("CN=".toList ++ subjectName settings)
  pure ⟨subject,
    [.basicConstraints true true 0 true,
      .keyUsage [.DataEncipherment, .KeyEncipherment, .DigitalSignature, .KeyCertSign] false,
      .subjectKeyIdentifier false,
      .enhancedKeyUsage [ServerAuthenticationOid] false,
      .subjectAlternativeName names]⟩

/-- The validity of a generated certificate, in days. -/
def validityDays (settings : BrokerCertificateSettings) : ℤ :=
  if 0 < settings.ValidityDays then settings.ValidityDays.toInt else 3650

/-- `Create`, where the clock reads `UtcNow₁` and then `UtcNow₂`. -/
def Create (key : K) (UtcNow₁ UtcNow₂ : ℤ) (settings : BrokerCertificateSettings) : Except Exception C := do
  let request ← certRequest platform settings
  let notBefore ← AddDays UtcNow₁ (-1)
  let notAfter ← AddDays UtcNow₂ (validityDays settings)
  let created ← platform.CreateSelfSigned key request notBefore notAfter
  let pfx ← platform.Export key created none
  platform.LoadPkcs12 pfx none

theorem one_le_validityDays (settings : BrokerCertificateSettings) : 1 ≤ validityDays settings := by
  rw [validityDays]
  split_ifs with h
  · have hpos := Int32.lt_iff_toInt_lt.mp h
    rw [Int32.toInt_zero] at hpos
    omega
  · decide

theorem ticksPerDay_le_validity (settings : BrokerCertificateSettings) :
    ticksPerDay ≤ validityDays settings * ticksPerDay := by
  have hdays := one_le_validityDays settings
  simp only [ticksPerDay]
  omega

variable {platform}

/-- **The certificates created**: one the platform created for the period computed, exported and loaded again. -/
theorem Create_eq_ok_iff {key : K} {UtcNow₁ UtcNow₂ : ℤ} {settings : BrokerCertificateSettings} {c : C} :
    Create platform key UtcNow₁ UtcNow₂ settings = .ok c ↔
      ∃ request, certRequest platform settings = .ok request ∧ ∃ notBefore, AddDays UtcNow₁ (-1) = .ok notBefore ∧
        ∃ notAfter, AddDays UtcNow₂ (validityDays settings) = .ok notAfter ∧
          ∃ created, platform.CreateSelfSigned key request notBefore notAfter = .ok created ∧
            ∃ pfx, platform.Export key created none = .ok pfx ∧ platform.LoadPkcs12 pfx none = .ok c := by
  simp only [Create, bind_eq_ok_iff]

end BrokerCertificateProvider

end MqttServices
