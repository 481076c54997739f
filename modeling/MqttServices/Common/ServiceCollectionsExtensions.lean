import MqttServices.Broker.Settings
import MqttServices.Client.Settings

/-!
# Registration

* `ServiceCollection`: what is registered, with the actions that configure the settings.
* `AddMqttBrokerService`, `AddMqttClientService`, each by an action and by settings, `AddMqttMessagingService`,
  `AddMqttClientReconnectService`.
* **`copied_iff`**: the settings that an overload takes over in every property.
-/

namespace MqttServices

/-- The services registered as singletons. -/
inductive Singleton where
  | IMqttBrokerService
  | DiscoveryServer
  | IMqttClientService
  | IMessagingManager
  | IDiscoveryClient
  deriving DecidableEq

/-- The hosted services. -/
inductive HostedService where
  | MqttBrokerHostedService
  | DiscoveryServerHostedService
  | MqttClientReconnectService
  deriving DecidableEq

/-- `IServiceCollection`. -/
structure ServiceCollection where
  configureBroker : List (MqttBrokerSettings → MqttBrokerSettings) := []
  configureClient : List (MqttClientSettings → MqttClientSettings) := []
  singletons : List Singleton := []
  hostedServices : List HostedService := []

namespace ServiceCollection

/-- The value of options: the defaults, configured by every action in order. -/
def options {S : Type} (default : S) (configure : List (S → S)) : S :=
  configure.foldl (fun options action => action options) default

/-- `IOptions<MqttBrokerSettings>.Value`. -/
def brokerOptions (services : ServiceCollection) : MqttBrokerSettings := options {} services.configureBroker

/-- `IOptions<MqttClientSettings>.Value`. -/
def clientOptions (services : ServiceCollection) : MqttClientSettings := options {} services.configureClient

/-- An argument that must not be null. -/
def argument {α : Type} : Option α → Except Exception α
  | none => .error ⟨.ArgumentNullException, []⟩
  | some a => .ok a

/-- What both overloads register for the broker. -/
def addBroker (services : ServiceCollection) (configure : MqttBrokerSettings → MqttBrokerSettings) : ServiceCollection :=
  { services with
    configureBroker := services.configureBroker ++ [configure]
    singletons := services.singletons ++ [.IMqttBrokerService, .DiscoveryServer]
    hostedServices := services.hostedServices ++ [.MqttBrokerHostedService, .DiscoveryServerHostedService] }

/-- What both overloads register for the client. -/
def addClient (services : ServiceCollection) (configure : MqttClientSettings → MqttClientSettings) : ServiceCollection :=
  { services with
    configureClient := services.configureClient ++ [configure]
    singletons := services.singletons ++ [.IMqttClientService, .IDiscoveryClient] }

/-- `AddMqttBrokerService(setupAction)`. -/
def AddMqttBrokerService (services : Option ServiceCollection)
    (setupAction : Option (MqttBrokerSettings → MqttBrokerSettings)) : Except Exception ServiceCollection := do
  let services ← argument services
  let setupAction ← argument setupAction
  pure (services.addBroker setupAction)

/-- The properties that `AddMqttBrokerService(mqttBrokerSettings)` copies. -/
def copyBroker (mqttBrokerSettings options : MqttBrokerSettings) : MqttBrokerSettings :=
  { options with
    EnableBroker := mqttBrokerSettings.EnableBroker
    Users := mqttBrokerSettings.Users
    DelayInMilliSeconds := mqttBrokerSettings.DelayInMilliSeconds
    Port := mqttBrokerSettings.Port
    TlsPort := mqttBrokerSettings.TlsPort
    TlsVersion := mqttBrokerSettings.TlsVersion
    Certificate := mqttBrokerSettings.Certificate
    Discovery := mqttBrokerSettings.Discovery }

/-- `AddMqttBrokerService(mqttBrokerSettings)`. -/
def AddMqttBrokerServiceSettings (services : Option ServiceCollection) (mqttBrokerSettings : MqttBrokerSettings) :
    Except Exception ServiceCollection := do
  let services ← argument services
  pure (services.addBroker (copyBroker mqttBrokerSettings))

/-- `AddMqttClientService(setupAction)`. -/
def AddMqttClientService (services : Option ServiceCollection)
    (setupAction : Option (MqttClientSettings → MqttClientSettings)) : Except Exception ServiceCollection := do
  let services ← argument services
  let setupAction ← argument setupAction
  pure (services.addClient setupAction)

/-- The properties that `AddMqttClientService(mqttClientSettings)` copies. -/
def copyClient (mqttClientSettings options : MqttClientSettings) : MqttClientSettings :=
  { options with
    Enabled := mqttClientSettings.Enabled
    BrokerPort := mqttClientSettings.BrokerPort
    BrokerHost := mqttClientSettings.BrokerHost
    UserName := mqttClientSettings.UserName
    Password := mqttClientSettings.Password
    ServiceName := mqttClientSettings.ServiceName
    TlsVersion := mqttClientSettings.TlsVersion
    EncryptWithTls := mqttClientSettings.EncryptWithTls
    TrustedCertificateThumbprint := mqttClientSettings.TrustedCertificateThumbprint
    AllowUntrustedCertificates := mqttClientSettings.AllowUntrustedCertificates
    ApplicationKey := mqttClientSettings.ApplicationKey
    Discovery := mqttClientSettings.Discovery }

/-- `AddMqttClientService(mqttClientSettings)`. -/
def AddMqttClientServiceSettings (services : Option ServiceCollection) (mqttClientSettings : MqttClientSettings) :
    Except Exception ServiceCollection := do
  let services ← argument services
  pure (services.addClient (copyClient mqttClientSettings))

def AddMqttMessagingService (services : Option ServiceCollection)
    (setupAction : Option (MqttClientSettings → MqttClientSettings)) : Except Exception ServiceCollection := do
  let services ← argument services
  let setupAction ← argument setupAction
  pure { services with
    configureClient := services.configureClient ++ [setupAction]
    singletons := services.singletons ++ [.IMqttClientService, .IMessagingManager, .IDiscoveryClient]
    hostedServices := services.hostedServices ++ [.MqttClientReconnectService] }

/-! ## The options -/

theorem options_concat {S : Type} (default : S) (configure : List (S → S)) (action : S → S) :
    options default (configure ++ [action]) = action (options default configure) := by
  rw [options, List.foldl_append]
  rfl

/-- Every property set from `s`. -/
def setBroker (s options : MqttBrokerSettings) : MqttBrokerSettings :=
  { options with
    EnableBroker := s.EnableBroker
    Port := s.Port
    Users := s.Users
    DelayInMilliSeconds := s.DelayInMilliSeconds
    TlsPort := s.TlsPort
    TlsVersion := s.TlsVersion
    Certificate := s.Certificate
    Discovery := s.Discovery
    OpenFirewall := s.OpenFirewall }

/-- Every property set from `c`. -/
def setClient (c options : MqttClientSettings) : MqttClientSettings :=
  { options with
    Enabled := c.Enabled
    ApplicationKey := c.ApplicationKey
    ServiceName := c.ServiceName
    BrokerHost := c.BrokerHost
    BrokerPort := c.BrokerPort
    Timeout := c.Timeout
    UserName := c.UserName
    Password := c.Password
    TlsVersion := c.TlsVersion
    EncryptWithTls := c.EncryptWithTls
    TrustedCertificateThumbprint := c.TrustedCertificateThumbprint
    AllowUntrustedCertificates := c.AllowUntrustedCertificates
    Discovery := c.Discovery }

theorem copyBroker_eq_iff (s options : MqttBrokerSettings) :
    copyBroker s options = setBroker s options ↔ options.OpenFirewall = s.OpenFirewall := by
  constructor
  · intro h
    have hfirewall := congrArg MqttBrokerSettings.OpenFirewall h
    exact hfirewall
  · intro h
    simp only [copyBroker, setBroker, h]

theorem copyClient_eq_iff (c options : MqttClientSettings) :
    copyClient c options = setClient c options ↔ options.Timeout = c.Timeout := by
  constructor
  · intro h
    have htimeout := congrArg MqttClientSettings.Timeout h
    exact htimeout
  · intro h
    simp only [copyClient, setClient, h]

/-- The two overloads for the broker yield the same options. -/
def BrokerOverloadsAgree (services : ServiceCollection) (s : MqttBrokerSettings) : Prop :=
  (AddMqttBrokerServiceSettings (some services) s).map brokerOptions =
    (AddMqttBrokerService (some services) (some (setBroker s))).map brokerOptions

/-- The two overloads for the client yield the same options. -/
def ClientOverloadsAgree (services : ServiceCollection) (c : MqttClientSettings) : Prop :=
  (AddMqttClientServiceSettings (some services) c).map clientOptions =
    (AddMqttClientService (some services) (some (setClient c))).map clientOptions

/-- **The settings that the overloads take over in every property**: those whose `OpenFirewall`, and whose `Timeout`, is
what the options have before. -/
theorem copied_iff (services : ServiceCollection) (s : MqttBrokerSettings) (c : MqttClientSettings) :
    (BrokerOverloadsAgree services s ↔ services.brokerOptions.OpenFirewall = s.OpenFirewall) ∧
      (ClientOverloadsAgree services c ↔ services.clientOptions.Timeout = c.Timeout) := by
  constructor
  · rw [← copyBroker_eq_iff, brokerOptions]
    change Except.ok (options _ _) = Except.ok (options _ _) ↔ _
    rw [Except.ok.injEq, addBroker, addBroker, options_concat, options_concat]
  · rw [← copyClient_eq_iff, clientOptions]
    change Except.ok (options _ _) = Except.ok (options _ _) ↔ _
    rw [Except.ok.injEq, addClient, addClient, options_concat, options_concat]

/-- Where nothing is configured before, they are the defaults. -/
theorem copied_iff_of_nil {services : ServiceCollection} (hbroker : services.configureBroker = [])
    (hclient : services.configureClient = []) (s : MqttBrokerSettings) (c : MqttClientSettings) :
    (BrokerOverloadsAgree services s ↔ s.OpenFirewall = false) ∧
      (ClientOverloadsAgree services c ↔ c.Timeout = 10000) := by
  have hb : services.brokerOptions = {} := by
    rw [brokerOptions, hbroker]
    rfl
  have hc : services.clientOptions = {} := by
    rw [clientOptions, hclient]
    rfl
  obtain ⟨h₁, h₂⟩ := copied_iff services s c
  rw [h₁, h₂, hb, hc]
  exact ⟨eq_comm, eq_comm⟩

/-- A timeout of a second is lost. -/
theorem timeout_lost : ¬ ClientOverloadsAgree {} { Timeout := 1000 } := by
  rw [(copied_iff_of_nil rfl rfl {} _).2]
  decide

end ServiceCollection

end MqttServices
