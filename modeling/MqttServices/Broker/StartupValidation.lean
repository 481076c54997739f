import MqttServices.Broker.BrokerService

/-!
# The validation at startup

* `StartupValidation.Validate`: the checks before the host is built, with the texts of its errors.
* **`Validate_eq_ok_iff`**: what they let pass.
* `Starts`: what they let pass, the broker does not reject.
* **`starts_iff`**: the settings for which this is so.
-/

namespace MqttServices.StartupValidation

/-- What `Validate` throws. -/
inductive Failure where
  | InvalidOperationException (message : Str)
  | NullReferenceException
  deriving DecidableEq

/-- `environment.IsDevelopment()`. -/
def IsDevelopment (EnvironmentName : Str) : Bool := EqualsOrdinalIgnoreCase EnvironmentName "Development".toList

def UserSecretsHint (EnvironmentName : Str) : Str :=
  if IsDevelopment EnvironmentName then []
  else
    " Note that the environment is '".toList ++ EnvironmentName ++ ("': user secrets are " ++
      "read in Development only, so accounts configured there are not being loaded. Set " ++
      "DOTNET_ENVIRONMENT=Development to use them.").toList

/-- The message for a broker that is switched off. -/
def disabledMessage : Str :=
  ("MqttBrokerSettings:EnableBroker is false. This service does nothing else, so " ++
    "running it with the broker switched off is a configuration mistake rather than " ++
    "a state worth keeping alive.").toList

/-- The message for an empty list of accounts. -/
def emptyMessage (EnvironmentName : Str) : Str :=
  ("MqttBrokerSettings:Users is empty. Configure the accounts in user secrets " ++
    "during development, or in appsettings.Production.json in the data directory on " ++
    "a server. The shipped appsettings.json deliberately carries no account: " ++
    "configuration arrays are merged per index rather than replaced, so an entry " ++
    "there would survive every later source that does not overwrite that exact " ++
    "index.").toList ++ UserSecretsHint EnvironmentName

/-- The message for accounts without a usable password. -/
def placeholdersMessage (EnvironmentName : Str) (placeholders : List (Option Str)) : Str :=
  "These broker accounts have no usable password: ".toList ++
    List.intercalate ", ".toList (placeholders.map orEmpty) ++
    (". " ++
      "Configuration arrays are merged per index rather than replaced, so an account " ++
      "defined further up -- in appsettings.json, say -- stays in the list unless a " ++
      "later source overwrites that same index. Check which index each account sits " ++
      "on: MqttBrokerSettings:Users:0:UserName, MqttBrokerSettings:Users:1:UserName " ++
      "and so on.").toList ++ UserSecretsHint EnvironmentName

/-- `string.IsNullOrWhiteSpace(user.Password) || user.Password == "changeme"`. -/
def placeholder (user : MqttUser) : Bool := IsNullOrWhiteSpace user.Password || user.Password = some "changeme".toList

/-- `placeholders`: the names of the accounts without a usable password. -/
def placeholders : List (Option MqttUser) → Except Failure (List (Option Str))
  | [] => .ok []
  | none :: _ => .error .NullReferenceException
  | some user :: users =>
    (placeholders users).map fun names => if placeholder user then user.UserName :: names else names

def Validate (settings : MqttBrokerSettings) (EnvironmentName : Str) : Except Failure Unit :=
  if !settings.EnableBroker then .error (.InvalidOperationException disabledMessage)
  else
    match settings.Users with
    | none => .error .NullReferenceException
    | some users =>
      if users.length = 0 then .error (.InvalidOperationException (emptyMessage EnvironmentName))
      else
        match placeholders users with
        | .error e => .error e
        | .ok names =>
          if 0 < names.length then .error (.InvalidOperationException (placeholdersMessage EnvironmentName names))
          else .ok ()

/-! ## What passes -/

variable {settings : MqttBrokerSettings}

/-- Every account has a usable password. -/
def Usable (users : List (Option MqttUser)) : Prop :=
  ∀ entry ∈ users, ∃ user, entry = some user ∧ placeholder user = false

/-- The broker is enabled and has accounts, each with a usable password. -/
structure HasAccounts (settings : MqttBrokerSettings) : Prop where
  enabled : settings.EnableBroker = true
  users : ∃ users, settings.Users = some users ∧ users ≠ [] ∧ Usable users

theorem placeholders_eq_nil_iff (users : List (Option MqttUser)) : placeholders users = .ok [] ↔ Usable users := by
  induction users with
  | nil => exact iff_of_true rfl fun _ h => absurd h List.not_mem_nil
  | cons entry users ih =>
    rw [Usable, List.forall_mem_cons]
    cases entry with
    | none => simp [placeholders]
    | some user =>
      have hhead : (∃ user', some user = some user' ∧ placeholder user' = false) ↔ placeholder user = false := by
        simp
      rw [hhead, ← Usable, ← ih, placeholders]
      cases hrest : placeholders users with
      | error e => simp [Except.map]
      | ok names => cases placeholder user <;> simp [Except.map]

/-- **What the validation lets pass**, in every environment. -/
theorem Validate_eq_ok_iff (settings : MqttBrokerSettings) (EnvironmentName : Str) :
    Validate settings EnvironmentName = .ok () ↔ HasAccounts settings := by
  cases henabled : settings.EnableBroker with
  | false =>
    refine iff_of_false (by simp [Validate, henabled]) fun h => ?_
    rw [h.enabled] at henabled
    cases henabled
  | true =>
    have hiff : HasAccounts settings ↔ ∃ users, settings.Users = some users ∧ users ≠ [] ∧ Usable users :=
      ⟨HasAccounts.users, HasAccounts.mk henabled⟩
    rw [hiff, Validate, henabled]
    cases hUsers : settings.Users with
    | none => simp
    | some users =>
      have hone : (∃ users', some users = some users' ∧ users' ≠ [] ∧ Usable users') ↔ users ≠ [] ∧ Usable users := by
        simp
      rw [hone, ← placeholders_eq_nil_iff]
      cases hp : placeholders users with
      | error e =>
        by_cases hempty : users = []
        · simp [hempty]
        · simp [hempty, hp]
      | ok names =>
        by_cases hempty : users = []
        · simp [hempty]
        · cases names with
          | nil => simp [hempty, hp]
          | cons name names => simp [hempty, hp]

/-! ## What can start -/

/-- The ports and the heartbeat delay are what `IsValid` asks for. -/
def InRange (settings : MqttBrokerSettings) : Prop :=
  settings.Port.any MqttBrokerSettings.PortOutOfRange = false ∧ 0 < settings.DelayInMilliSeconds ∧
    MqttBrokerSettings.PortOutOfRange settings.TlsPort = false

/-- The settings that pass are valid, so that a start goes on to the server. -/
def Starts (settings : MqttBrokerSettings) (EnvironmentName : Str) : Prop :=
  Validate settings EnvironmentName = .ok () →
    settings.IsValid = .ok true ∧
      ∀ (K C : Type) (platform : X509Platform K C) (b : MqttBrokerService C) (call : StartCall K C),
        call.settings = settings → b.StartBroker platform call = b.StartMqttServer platform call

theorem StartBroker_of_valid (henabled : settings.EnableBroker = true) (hvalid : settings.IsValid = .ok true)
    {K C : Type} (platform : X509Platform K C) (b : MqttBrokerService C) {call : StartCall K C} (hcall : call.settings = settings) :
    b.StartBroker platform call = b.StartMqttServer platform call := by
  rw [MqttBrokerService.StartBroker, hcall, if_pos henabled, hvalid]

theorem HasAccounts.isValid_iff (h : HasAccounts settings) : settings.IsValid = .ok true ↔ InRange settings := by
  obtain ⟨users, hUsers, hne, -⟩ := h.users
  rw [MqttBrokerSettings.IsValid_eq_ok_iff, InRange]
  constructor
  · rintro ⟨-, hport, -, hdelay, htls⟩
    exact ⟨hport, hdelay, htls⟩
  · rintro ⟨hport, hdelay, htls⟩
    exact ⟨rfl, hport, ⟨users, hUsers, hne⟩, hdelay, htls⟩

/-- **The settings that start where they pass**: with usable accounts the ports and the delay are in range. -/
theorem starts_iff (settings : MqttBrokerSettings) (EnvironmentName : Str) :
    Starts settings EnvironmentName ↔ (HasAccounts settings → InRange settings) := by
  rw [Starts, Validate_eq_ok_iff]
  constructor
  · exact fun h haccounts => haccounts.isValid_iff.mp (h haccounts).1
  · intro h haccounts
    have hvalid := haccounts.isValid_iff.mpr (h haccounts)
    exact ⟨hvalid, fun K C platform b call hcall => StartBroker_of_valid haccounts.enabled hvalid platform b hcall⟩

/-- Settings with an account, and no heartbeat delay. -/
def noDelaySettings : MqttBrokerSettings where
  EnableBroker := true
  Users := some [some { UserName := some "core".toList, Password := some "secret".toList }]
  DelayInMilliSeconds := 0

/-- A delay of zero passes the validation, and the broker rejects it. -/
theorem no_delay_rejected : ¬ Starts noDelaySettings "Production".toList := by
  intro h
  exact absurd (h (by decide)).1 (by decide)

end MqttServices.StartupValidation
