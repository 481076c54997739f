import MqttServices.Common.Payload

/-!
# Client settings

* `MqttClientSettings`, `DiscoverySettings`: the settings with their defaults.
* `MqttClientSettings.toJson`, `MqttClientSettings.read`: the two directions of `JsonSerializer`, and
  **`MqttClientSettings.read_toJson`**.
-/

namespace MqttServices

structure DiscoverySettings where
  SearchForDiscoveryServer : Bool := false
  Port : Int32 := 5005
  ResponseTimeoutSeconds : Int32 := 2
  deriving DecidableEq

structure MqttClientSettings where
  Enabled : Bool := true
  ApplicationKey : Option Str := some []
  ServiceName : Option Str := some []
  BrokerHost : Option Str := some []
  BrokerPort : Int32 := 0
  Timeout : Int32 := 10000
  UserName : Option Str := some []
  Password : Option Str := some []
  TlsVersion : Option Str := some []
  EncryptWithTls : Bool := true
  TrustedCertificateThumbprint : Option Str := some []
  AllowUntrustedCertificates : Bool := false
  Discovery : Option DiscoverySettings := some {}
  deriving DecidableEq

namespace DiscoverySettings

def toJson (d : DiscoverySettings) : Json :=
  .object [("SearchForDiscoveryServer".toList, .bool d.SearchForDiscoveryServer), ("Port".toList, Json.ofInt32 d.Port),
    ("ResponseTimeoutSeconds".toList, Json.ofInt32 d.ResponseTimeoutSeconds)]

def properties : List (Json.Property DiscoverySettings) :=
  [.of "SearchForDiscoveryServer".toList Json.readBool fun b d => { d with SearchForDiscoveryServer := b },
    .of "Port".toList Json.readInt32 fun i d => { d with Port := i },
    .of "ResponseTimeoutSeconds".toList Json.readInt32 fun i d => { d with ResponseTimeoutSeconds := i }]

def read (j : Json) : Option (Option DiscoverySettings) := Json.readRecord properties {} j

theorem read_toJson (d : DiscoverySettings) : read d.toJson = some (some d) := by
  rw [read, toJson, Json.readRecord_object, Json.readMembers_cons rfl (Json.readBool_bool _),
    Json.readMembers_cons rfl (Json.readInt32_ofInt32 _), Json.readMembers_cons rfl (Json.readInt32_ofInt32 _)]
  rfl

/-- Settings that may be missing. -/
def toJson? : Option DiscoverySettings → Json
  | none => .null
  | some d => d.toJson

theorem read_toJson? (d : Option DiscoverySettings) : read (toJson? d) = some d := by
  cases d with
  | none => rfl
  | some d => exact read_toJson d

theorem depth_toJson? (d : Option DiscoverySettings) : (toJson? d).depth ≤ 1 := by
  cases d with
  | none => exact Nat.zero_le 1
  | some d => exact Nat.le_refl 1

end DiscoverySettings

namespace MqttClientSettings

/-- The settings as JSON. -/
def toJson (s : MqttClientSettings) : Json :=
  .object [("Enabled".toList, .bool s.Enabled), ("ApplicationKey".toList, Json.ofText s.ApplicationKey),
    ("ServiceName".toList, Json.ofText s.ServiceName), ("BrokerHost".toList, Json.ofText s.BrokerHost),
    ("BrokerPort".toList, Json.ofInt32 s.BrokerPort), ("Timeout".toList, Json.ofInt32 s.Timeout),
    ("UserName".toList, Json.ofText s.UserName), ("Password".toList, Json.ofText s.Password),
    ("TlsVersion".toList, Json.ofText s.TlsVersion), ("EncryptWithTls".toList, .bool s.EncryptWithTls),
    ("TrustedCertificateThumbprint".toList, Json.ofText s.TrustedCertificateThumbprint),
    ("AllowUntrustedCertificates".toList, .bool s.AllowUntrustedCertificates),
    ("Discovery".toList, DiscoverySettings.toJson? s.Discovery)]

def properties : List (Json.Property MqttClientSettings) :=
  [.of "Enabled".toList Json.readBool fun b s => { s with Enabled := b },
    .of "ApplicationKey".toList Json.readText fun t s => { s with ApplicationKey := t },
    .of "ServiceName".toList Json.readText fun t s => { s with ServiceName := t },
    .of "BrokerHost".toList Json.readText fun t s => { s with BrokerHost := t },
    .of "BrokerPort".toList Json.readInt32 fun i s => { s with BrokerPort := i },
    .of "Timeout".toList Json.readInt32 fun i s => { s with Timeout := i },
    .of "UserName".toList Json.readText fun t s => { s with UserName := t },
    .of "Password".toList Json.readText fun t s => { s with Password := t },
    .of "TlsVersion".toList Json.readText fun t s => { s with TlsVersion := t },
    .of "EncryptWithTls".toList Json.readBool fun b s => { s with EncryptWithTls := b },
    .of "TrustedCertificateThumbprint".toList Json.readText fun t s => { s with TrustedCertificateThumbprint := t },
    .of "AllowUntrustedCertificates".toList Json.readBool fun b s => { s with AllowUntrustedCertificates := b },
    .of "Discovery".toList DiscoverySettings.read fun d s => { s with Discovery := d }]

/-- `JsonSerializer.Deserialize<MqttClientSettings>` on a parsed text. -/
def read (j : Json) : Option (Option MqttClientSettings) := Json.readRecord properties {} j

/-- **Settings are read back.** -/
theorem read_toJson (s : MqttClientSettings) : read s.toJson = some (some s) := by
  rw [read, toJson, Json.readRecord_object, Json.readMembers_cons rfl (Json.readBool_bool _),
    Json.readMembers_cons rfl (Json.readText_ofText _),
    Json.readMembers_cons rfl (Json.readText_ofText _), Json.readMembers_cons rfl (Json.readText_ofText _),
    Json.readMembers_cons rfl (Json.readInt32_ofInt32 _), Json.readMembers_cons rfl (Json.readInt32_ofInt32 _),
    Json.readMembers_cons rfl (Json.readText_ofText _), Json.readMembers_cons rfl (Json.readText_ofText _),
    Json.readMembers_cons rfl (Json.readText_ofText _), Json.readMembers_cons rfl (Json.readBool_bool _),
    Json.readMembers_cons rfl (Json.readText_ofText _), Json.readMembers_cons rfl (Json.readBool_bool _),
    Json.readMembers_cons rfl (DiscoverySettings.read_toJson? _)]
  rfl

theorem depth_toJson (s : MqttClientSettings) : s.toJson.depth ≤ 2 := by
  have hDiscovery := DiscoverySettings.depth_toJson? s.Discovery
  have hBool : ∀ b, (Json.bool b).depth = 0 := fun _ => rfl
  simp only [toJson, Json.depth_object_cons, Json.depth_object_nil, Json.depth_ofText, Json.depth_ofInt32, hBool]
  omega

end MqttClientSettings

end MqttServices
