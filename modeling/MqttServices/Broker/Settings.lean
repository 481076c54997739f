import MqttServices.Common.Exceptions
import MqttServices.Common.Text

/-!
# Broker settings

* `MqttBrokerSettings`, `BrokerCertificateSettings`: the settings with their defaults.
* `MqttBrokerSettings.IsValid`, and **`MqttBrokerSettings.IsValid_eq_ok_iff`**: what the checks let pass.
-/

namespace MqttServices

structure BrokerCertificateSettings where
  Path : Option Str := some []
  Password : Option Str := some []
  SubjectName : Option Str := some "localhost".toList
  HostNames : Option (List (Option Str)) := some []
  ValidityDays : Int32 := 3650
  deriving DecidableEq

structure MqttUser where
  UserName : Option Str := some []
  Password : Option Str := some []
  deriving DecidableEq

/-- `DiscoverySettings` of the broker. -/
structure Broker.DiscoverySettings where
  Enabled : Bool := false
  OpenFirewall : Bool := false
  Port : Int32 := 5005
  deriving DecidableEq

structure MqttBrokerSettings where
  EnableBroker : Bool := false
  Port : Option Int32 := none
  Users : Option (List (Option MqttUser)) := some []
  DelayInMilliSeconds : Int32 := 30000
  TlsPort : Int32 := 8883
  TlsVersion : Option Str := some []
  Certificate : Option BrokerCertificateSettings := some {}
  Discovery : Option Broker.DiscoverySettings := some {}
  OpenFirewall : Bool := false
  deriving DecidableEq

/-- `throw new Exception(message)`. -/
def throwException {α : Type} (message : String) : Except Exception α := .error ⟨.other message.toList, []⟩

namespace MqttBrokerSettings

/-- `port is <= 0 or > 65535`. -/
def PortOutOfRange (port : Int32) : Bool := port ≤ 0 || 65535 < port

def IsValid (s : MqttBrokerSettings) : Except Exception Bool :=
  if s.Port.any PortOutOfRange then throwException "The port is invalid"
  else
    match s.Users with
    | none => .error ⟨.ArgumentNullException, []⟩
    | some users =>
      if users.isEmpty then throwException "The users are invalid"
      else if s.DelayInMilliSeconds ≤ 0 then throwException "The heartbeat delay is invalid"
      else if PortOutOfRange s.TlsPort then throwException "The TLS port is invalid"
      else .ok true

/-- **What the checks let pass.** -/
theorem IsValid_eq_ok_iff (s : MqttBrokerSettings) (b : Bool) :
    s.IsValid = .ok b ↔ b = true ∧ s.Port.any PortOutOfRange = false ∧ (∃ users, s.Users = some users ∧ users ≠ []) ∧
      0 < s.DelayInMilliSeconds ∧ PortOutOfRange s.TlsPort = false := by
  have hdelay : 0 < s.DelayInMilliSeconds ↔ ¬ s.DelayInMilliSeconds ≤ 0 := Int32.not_le.symm
  rw [IsValid, hdelay]
  by_cases hport : s.Port.any PortOutOfRange = true
  · simp [hport, throwException]
  · cases hu : s.Users with
    | none => simp [hport]
    | some users =>
      rw [if_neg hport]
      dsimp only
      split_ifs <;> simp_all [throwException]

end MqttBrokerSettings

end MqttServices
