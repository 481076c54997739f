import MqttServices.Broker.Credentials
import MqttServices.Broker.DataDirectory
import MqttServices.Broker.StartupValidation
import MqttServices.Lib.Layers

/-!
# The program of the broker service

* `environmentSource`: the configuration that `AddEnvironmentVariables` reads; `Deployment`: the sources of a start.
* `DataDirectory.Resolve`, `Program.dataDirectory`: the data directory, from the sources of the host builder.
* **`variables_override`**: the `MQTTBROKER_` variables cover every other source and leave the data directory alone.
* `accounts`: the list of accounts that is bound; `Program.main`: the program up to its validation.
* **`main_ok_iff`**: the deployments that pass: every account that any source mentions has a usable password.
* **`logins_iff`**: what a client of such a deployment logs in with.
-/

namespace MqttServices

/-! ## The sources -/

/-- A source of the configuration, its keys in upper case, since names that differ only in case are one. -/
abbrev Source := Layers.Source Str (Option Str)

/-- `Replace("__", ":")`. -/
def normalizeKey : Str → Str
  | '_' :: '_' :: s => ':' :: normalizeKey s
  | c :: s => c :: normalizeKey s
  | [] => []

/-- The name of a variable as a key. -/
def variableKey (name : Str) : Str := (normalizeKey name).map ToUpperInvariant

/-- `AddEnvironmentVariables`, for the variables whose names begin with `start`. -/
def environmentSource (start : Str) (environment : List (Str × Str)) : Source :=
  environment.filterMap fun v =>
    if start.isPrefixOf (variableKey v.1) then
      some (((variableKey v.1).drop start.length).splitOnP (· = ':'), some v.2)
    else none

/-- `"MQTTBROKER_"`, with which the names of the broker's own variables begin. -/
def brokerStart : Str := "MQTTBROKER_".toList

/-- What a start of the service finds: the sources of the host builder before and after its environment variables, these
variables, and what loading `appsettings.Production.json` from a directory gives, where a missing file has no keys. -/
structure Deployment where
  before : List Source
  after : List Source
  environment : List (Str × Str)
  production : Str → Except Exception Source
  EnvironmentName : Str

/-- The machine, with its current directory. `CreateLogger` is the logger that the configuration describes, with a file
in a directory. -/
structure Machine where
  platform : Platform
  CommonApplicationData : Str
  GetFullPath : Str → Str
  CreateDirectory : Str → Except Exception Unit
  CreateLogger : List Source → Str → Except Exception Unit

namespace DataDirectory

/-- `"DataDirectory"`. -/
def ConfigurationKey : List Str := ["DATADIRECTORY".toList]

def Default (m : Machine) : Str :=
  match m.platform with
  | .Windows _ => m.platform.pathRules.Combine m.CommonApplicationData "MqttBroker".toList
  | .Unix => "/var/lib/mqttbroker".toList

/-- `Resolve` up to the creation of the directory. -/
def Resolve (m : Machine) (configured : Option (Option Str)) : Str :=
  let configured := Trim (orEmpty configured.join)
  if configured = [] then Default m else m.GetFullPath configured

end DataDirectory

namespace Program

/-- `builder.Configuration` as the host builder leaves it. -/
def builderSources (d : Deployment) : List Source := d.before ++ environmentSource [] d.environment :: d.after

def dataDirectory (m : Machine) (d : Deployment) : Str :=
  DataDirectory.Resolve m (Layers.read (builderSources d) DataDirectory.ConfigurationKey)

def logDirectory (m : Machine) (d : Deployment) : Str :=
  m.platform.pathRules.Combine (dataDirectory m d) "logs".toList

/-- The keys of a file; one that cannot be loaded stops the program. -/
def keys : Except Exception Source → Source
  | .ok source => source
  | .error _ => []

/-- `builder.Configuration` with the file of the data directory and the `MQTTBROKER_` variables. -/
def configuration (m : Machine) (d : Deployment) : List Source :=
  builderSources d ++ [keys (d.production (dataDirectory m d)), environmentSource brokerStart d.environment]

/-! ## The data directory -/

/-- The variable is one of the broker's own. -/
def Own (v : Str × Str) : Bool := brokerStart.isPrefixOf (variableKey v.1)

/-- The deployment without the `MQTTBROKER_` variables. -/
def withoutOwn (d : Deployment) : Deployment := { d with environment := d.environment.filter (!Own ·) }

theorem ConfigurationKey_ne_of_own {v : Str × Str} (h : Own v = true) :
    (variableKey v.1).splitOnP (· = ':') ≠ DataDirectory.ConfigurationKey := by
  obtain ⟨rest, hrest⟩ := List.isPrefixOf_iff_prefix.mp h
  have hhead : variableKey v.1 = 'M' :: ("QTTBROKER_".toList ++ rest) := hrest.symm
  rw [hhead, List.splitOnP_cons_eq_if_modifyHead, if_neg (by decide)]
  cases hsplit : ("QTTBROKER_".toList ++ rest).splitOnP (· = ':') with
  | nil => exact absurd hsplit (List.splitOnP_ne_nil _ _)
  | cons name names =>
    intro heq
    have hname : 'M' :: name = "DATADIRECTORY".toList := (List.cons.inj heq).1
    exact absurd (List.cons.inj hname).1 (by decide)

theorem layer_cons (v : Str × Str) (environment : List (Str × Str)) (path : List Str) :
    (environmentSource [] (v :: environment)).layer path =
      if (variableKey v.1).splitOnP (· = ':') = path then some (some v.2)
      else (environmentSource [] environment).layer path := by
  have hsource : environmentSource [] (v :: environment) =
      ((variableKey v.1).splitOnP (· = ':'), some v.2) :: environmentSource [] environment := by
    simp only [environmentSource, List.filterMap_cons, List.isPrefixOf_nil_left, if_true, List.length_nil, List.drop_zero]
  rw [hsource, Layers.Source.layer_cons]

/-- The broker's own variables do not say where the data directory is. -/
theorem layer_environmentSource (environment : List (Str × Str)) :
    (environmentSource [] environment).layer DataDirectory.ConfigurationKey =
      (environmentSource [] (environment.filter (!Own ·))).layer DataDirectory.ConfigurationKey := by
  induction environment with
  | nil => rfl
  | cons v environment ih =>
    by_cases hown : Own v = true
    · rw [layer_cons, if_neg (ConfigurationKey_ne_of_own hown), ih, List.filter_cons_of_neg (by simpa using hown)]
    · rw [List.filter_cons_of_pos (by simpa using hown), layer_cons, layer_cons, ih]

/-- **The `MQTTBROKER_` variables cover every other source and leave the data directory alone**: a key that one of them
sets has its value, and the directory, which is resolved before they are read, is the same without them. -/
theorem variables_override (m : Machine) (d : Deployment) :
    (∀ path value, (environmentSource brokerStart d.environment).layer path = some value →
      Layers.read (configuration m d) path = some value) ∧
    dataDirectory m d = dataDirectory m (withoutOwn d) := by
  constructor
  · intro path value h
    rw [configuration, Layers.read_append]
    have hread : Layers.read [keys (d.production (dataDirectory m d)), environmentSource brokerStart d.environment] path =
        some value := by
      rw [Layers.read_eq_some_iff]
      exact ⟨[_], _, [], rfl, h, fun _ h => absurd h List.not_mem_nil⟩
    rw [hread, Option.some_or]
  · have hread : Layers.read (builderSources d) DataDirectory.ConfigurationKey =
        Layers.read (builderSources (withoutOwn d)) DataDirectory.ConfigurationKey := by
      simp only [builderSources, withoutOwn, Layers.read, List.map_append, List.map_cons, Layers.get_append, Layers.get,
        layer_environmentSource d.environment]
    rw [dataDirectory, dataDirectory, hread]

/-! ## The accounts -/

/-- `"MqttBrokerSettings:Users"`. -/
def usersPath : List Str := ["MQTTBROKERSETTINGS".toList, "USERS".toList]

/-- An element of the list. -/
def accountPath (name : Str) : List Str := usersPath ++ [name]

def userNamePath (name : Str) : List Str := usersPath ++ [name, "USERNAME".toList]

def passwordPath (name : Str) : List Str := usersPath ++ [name, "PASSWORD".toList]

/-- A text that is bound, `""` where no source has it. -/
def text (sources : List Source) (path : List Str) : Option Str := (Layers.read sources path).getD (some [])

/-- The account of a section, with what the last source to set it says of its name and of its password. -/
def account (sources : List Source) (name : Str) : MqttUser where
  UserName := text sources (userNamePath name)
  Password := text sources (passwordPath name)

/-- What binds the configuration: the order of the names of its sections, and all settings but the accounts. -/
structure Binder where
  Compare : Str → Str → Bool
  Bind : (List Str → Option (Option Str)) → Except Exception MqttBrokerSettings

/-- The binder makes an account of an element that has keys below it, and of one whose own key has no value or an empty
one; any other value is not an account. -/
def isAccount (sources : List Source) (name : Str) : Bool :=
  !(Layers.children sources (accountPath name)).isEmpty || IsNullOrEmpty (Layers.read sources (accountPath name)).join

/-- The names of the accounts in the order in which they are bound: the elements that any source has. -/
def accountNames (binder : Binder) (sources : List Source) : List Str :=
  ((Layers.children sources usersPath).filter (isAccount sources)).mergeSort binder.Compare

/-- The accounts that are bound. -/
def accounts (binder : Binder) (sources : List Source) : List (Option MqttUser) :=
  (accountNames binder sources).map fun name => some (account sources name)

/-- The last source that sets a key sets it to `v`. -/
def LastSets (sources : List Source) (path : List Str) (v : Option Str) : Prop :=
  ∃ before source after, sources = before ++ source :: after ∧ Layers.Source.layer source path = some v ∧
    ∀ later ∈ after, Layers.Source.layer later path = none

/-- The configuration mentions an account: some source has a key below its element, or the last one that sets the key
of the element itself leaves it null or empty. -/
def Mentioned (sources : List Source) (name : Str) : Prop :=
  (∃ source ∈ sources, ∃ n rest v, (usersPath ++ name :: n :: rest, v) ∈ source) ∨
    ∃ v, LastSets sources (accountPath name) v ∧ IsNullOrEmpty v = true

/-- A password that an account can have: neither blank nor the one of the shipped configuration. -/
def UsablePassword (password : Str) : Prop := IsNullOrWhiteSpace (some password) = false ∧ password ≠ "changeme".toList

theorem accountPath_append (name : Str) (rest : List Str) : accountPath name ++ rest = usersPath ++ name :: rest := by
  rw [accountPath, List.append_assoc, List.singleton_append]

theorem isAccount_iff {sources : List Source} {name : Str} : isAccount sources name = true ↔
    (∃ source ∈ sources, ∃ n rest v, (usersPath ++ name :: n :: rest, v) ∈ source) ∨
      IsNullOrEmpty (Layers.read sources (accountPath name)).join = true := by
  have hchildren : (!(Layers.children sources (accountPath name)).isEmpty) = true ↔
      Layers.children sources (accountPath name) ≠ [] := by
    rw [Bool.not_eq_true', ne_eq, ← List.isEmpty_iff, Bool.not_eq_true]
  rw [isAccount, Bool.or_eq_true, hchildren, Layers.children_ne_nil_iff]
  simp only [accountPath_append]

/-- **The accounts that are bound are those that the configuration mentions.** -/
theorem mem_accountNames {binder : Binder} {sources : List Source} {name : Str} :
    name ∈ accountNames binder sources ↔ Mentioned sources name := by
  rw [accountNames, List.mem_mergeSort, List.mem_filter, isAccount_iff, Layers.mem_children]
  constructor
  · rintro ⟨⟨source, hs, rest, v, hv⟩, hbelow | hempty⟩
    · exact .inl hbelow
    · cases rest with
      | cons n rest => exact .inl ⟨source, hs, n, rest, v, hv⟩
      | nil =>
        -- the key ends at the element, so that some source sets it
        have hkey : (accountPath name, v) ∈ source := hv
        obtain ⟨w, hw⟩ := Layers.exists_read_of_mem hs hkey
        rw [hw] at hempty
        exact .inr ⟨w, Layers.read_eq_some_iff.mp hw, hempty⟩
  · rintro (hbelow | ⟨v, hlast, hempty⟩)
    · obtain ⟨source, hs, n, rest, v, hv⟩ := hbelow
      exact ⟨⟨source, hs, n :: rest, v, hv⟩, .inl ⟨source, hs, n, rest, v, hv⟩⟩
    · have hread : Layers.read sources (accountPath name) = some v := Layers.read_eq_some_iff.mpr hlast
      obtain ⟨before, source, after, rfl, hlayer, -⟩ := hlast
      refine ⟨⟨source, List.mem_append_right before List.mem_cons_self, [], v, Layers.Source.mem_of_layer hlayer⟩, .inr ?_⟩
      rw [hread]
      exact hempty

theorem mem_accounts {binder : Binder} {sources : List Source} {entry : Option MqttUser} :
    entry ∈ accounts binder sources ↔ ∃ name, Mentioned sources name ∧ entry = some (account sources name) := by
  rw [accounts, List.mem_map]
  refine exists_congr fun name => ?_
  rw [mem_accountNames, eq_comm]

theorem placeholder_eq_false_iff (user : MqttUser) : StartupValidation.placeholder user = false ↔
    IsNullOrWhiteSpace user.Password = false ∧ user.Password ≠ some "changeme".toList := by
  rw [StartupValidation.placeholder, Bool.or_eq_false_iff, decide_eq_false_iff_not]

/-- **An account has a usable password just where the last source to set it sets one.** -/
theorem placeholder_account_iff (sources : List Source) (name : Str) :
    StartupValidation.placeholder (account sources name) = false ↔
      ∃ password, LastSets sources (passwordPath name) (some password) ∧ UsablePassword password := by
  have hlast : ∀ v, LastSets sources (passwordPath name) v ↔ Layers.read sources (passwordPath name) = some v :=
    fun v => Layers.read_eq_some_iff.symm
  have hpassword : (account sources name).Password = (Layers.read sources (passwordPath name)).getD (some []) := rfl
  simp only [placeholder_eq_false_iff, hlast, hpassword]
  cases Layers.read sources (passwordPath name) with
  | none => exact iff_of_false (fun h => absurd h.1 (by decide)) (by simp)
  | some value =>
    cases value with
    | none => exact iff_of_false (fun h => absurd h.1 (by decide)) (by rintro ⟨password, h, -⟩; cases h)
    | some password =>
      constructor
      · exact fun h => ⟨password, rfl, h.1, fun heq => h.2 (congrArg some heq)⟩
      · rintro ⟨_, heq, husable⟩
        cases heq
        exact ⟨husable.1, fun heq => husable.2 (Option.some_inj.mp heq)⟩

/-! ## The start -/

/-- `configuredSettings`, bound and anchored; the delegate of `AddMqttBrokerService` does the same. -/
def configuredSettings (binder : Binder) (m : Machine) (d : Deployment) : Except Exception MqttBrokerSettings :=
  match binder.Bind (Layers.read (configuration m d)) with
  | .error e => .error e
  | .ok settings =>
    match settings.Certificate with
    | none => .error ⟨.NullReferenceException, []⟩
    | some certificate => .ok { settings with
        Users := some (accounts binder (configuration m d))
        Certificate := some (DataDirectory.anchorCertificate m.platform.pathRules certificate (dataDirectory m d)) }

/-- What stops the program. -/
inductive Failure where
  | threw (e : Exception)
  | invalid (failure : StartupValidation.Failure)

/-- What comes before the validation: the directories, the file of the data directory, the logger and the settings. -/
def prepare (binder : Binder) (m : Machine) (d : Deployment) : Except Exception MqttBrokerSettings := do
  m.CreateDirectory (dataDirectory m d)
  m.CreateDirectory (logDirectory m d)
  let _ ← d.production (dataDirectory m d)
  m.CreateLogger (configuration m d) (logDirectory m d)
  configuredSettings binder m d

/-- The program up to its validation, with the settings that it goes on with. -/
def main (binder : Binder) (m : Machine) (d : Deployment) : Except Failure MqttBrokerSettings :=
  match prepare binder m d with
  | .error e => .error (.threw e)
  | .ok settings =>
    match StartupValidation.Validate settings d.EnvironmentName with
    | .error failure => .error (.invalid failure)
    | .ok () => .ok settings

theorem users_of_configuredSettings {binder : Binder} {m : Machine} {d : Deployment} {settings : MqttBrokerSettings}
    (h : configuredSettings binder m d = .ok settings) : settings.Users = some (accounts binder (configuration m d)) := by
  rw [configuredSettings] at h
  split at h
  · cases h
  · split at h
    · cases h
    · cases h
      rfl

theorem hasAccounts_iff {binder : Binder} {m : Machine} {d : Deployment} {settings : MqttBrokerSettings}
    (h : configuredSettings binder m d = .ok settings) : StartupValidation.HasAccounts settings ↔
      settings.EnableBroker = true ∧ (∃ name, Mentioned (configuration m d) name) ∧
        ∀ name, Mentioned (configuration m d) name →
          ∃ password, LastSets (configuration m d) (passwordPath name) (some password) ∧ UsablePassword password := by
  have husers := users_of_configuredSettings h
  have hne : accounts binder (configuration m d) ≠ [] ↔ ∃ name, Mentioned (configuration m d) name := by
    constructor
    · intro hne
      obtain ⟨entry, hentry⟩ := List.exists_mem_of_ne_nil _ hne
      obtain ⟨name, hname, -⟩ := mem_accounts.mp hentry
      exact ⟨name, hname⟩
    · rintro ⟨name, hname⟩
      exact List.ne_nil_of_mem (mem_accounts.mpr ⟨name, hname, rfl⟩)
  have husable : StartupValidation.Usable (accounts binder (configuration m d)) ↔
      ∀ name, Mentioned (configuration m d) name →
        ∃ password, LastSets (configuration m d) (passwordPath name) (some password) ∧ UsablePassword password := by
    constructor
    · intro husable name hname
      obtain ⟨user, huser, hplaceholder⟩ := husable _ (mem_accounts.mpr ⟨name, hname, rfl⟩)
      cases huser
      exact (placeholder_account_iff _ name).mp hplaceholder
    · intro hall entry hentry
      obtain ⟨name, hname, rfl⟩ := mem_accounts.mp hentry
      exact ⟨_, rfl, (placeholder_account_iff _ name).mpr (hall name hname)⟩
  rw [← hne, ← husable]
  constructor
  · rintro ⟨henabled, users, husers', hne, husable⟩
    cases husers.symm.trans husers'
    exact ⟨henabled, hne, husable⟩
  · rintro ⟨henabled, hne, husable⟩
    exact ⟨henabled, _, husers, hne, husable⟩

theorem prepare_ok_iff (binder : Binder) (m : Machine) (d : Deployment) (settings : MqttBrokerSettings) :
    prepare binder m d = .ok settings ↔ m.CreateDirectory (dataDirectory m d) = .ok () ∧
      m.CreateDirectory (logDirectory m d) = .ok () ∧ (∃ file, d.production (dataDirectory m d) = .ok file) ∧
      m.CreateLogger (configuration m d) (logDirectory m d) = .ok () ∧ configuredSettings binder m d = .ok settings := by
  simp only [prepare, bind_eq_ok_iff]
  constructor
  · rintro ⟨_, hdata, _, hlogs, file, hfile, _, hlogger, hsettings⟩
    exact ⟨hdata, hlogs, ⟨file, hfile⟩, hlogger, hsettings⟩
  · rintro ⟨hdata, hlogs, ⟨file, hfile⟩, hlogger, hsettings⟩
    exact ⟨(), hdata, (), hlogs, file, hfile, (), hlogger, hsettings⟩

/-- **The deployments that pass**: the directories can be created, the file of the data directory can be loaded, the
logger can be made and the settings can be bound; the broker is enabled, and every account that the configuration
mentions, of which there is one, has a usable password from the last source that sets it. -/
theorem main_ok_iff (binder : Binder) (m : Machine) (d : Deployment) (settings : MqttBrokerSettings) :
    main binder m d = .ok settings ↔
      (m.CreateDirectory (dataDirectory m d) = .ok () ∧ m.CreateDirectory (logDirectory m d) = .ok () ∧
        (∃ file, d.production (dataDirectory m d) = .ok file) ∧
        m.CreateLogger (configuration m d) (logDirectory m d) = .ok () ∧
        configuredSettings binder m d = .ok settings) ∧
      settings.EnableBroker = true ∧ (∃ name, Mentioned (configuration m d) name) ∧
      ∀ name, Mentioned (configuration m d) name →
        ∃ password, LastSets (configuration m d) (passwordPath name) (some password) ∧ UsablePassword password := by
  rw [← prepare_ok_iff, main]
  cases hprepare : prepare binder m d with
  | error e => exact iff_of_false (by simp) fun h => absurd h.1 (by simp)
  | ok prepared =>
    have hsettings := ((prepare_ok_iff binder m d prepared).mp hprepare).2.2.2.2
    rw [Except.ok.injEq]
    dsimp only
    constructor
    · intro h
      split at h
      · cases h
      · rename_i hvalid
        cases h
        exact ⟨rfl, (hasAccounts_iff hsettings).mp ((StartupValidation.Validate_eq_ok_iff _ _).mp hvalid)⟩
    · rintro ⟨rfl, haccounts⟩
      rw [(StartupValidation.Validate_eq_ok_iff _ d.EnvironmentName).mpr ((hasAccounts_iff hsettings).mpr haccounts)]

/-! ## The logins -/

/-- The first account of a user name. -/
def FirstAccount (binder : Binder) (sources : List Source) (userName : Option Str) (name : Str) : Prop :=
  text sources (userNamePath name) = userName ∧ ∃ before after, accountNames binder sources = before ++ name :: after ∧
    ∀ w ∈ before, text sources (userNamePath w) ≠ userName

open MqttBrokerService (FirstNamed ValidateConnectionAsync ValidateConnectionAsync_eq reasonCode_eq_success_iff)

theorem firstNamed_accounts_iff {binder : Binder} {sources : List Source} {userName : Option Str} {v : MqttUser} :
    FirstNamed ((accountNames binder sources).map (account sources)) userName v ↔
      ∃ name, FirstAccount binder sources userName name ∧ account sources name = v := by
  constructor
  · rintro ⟨hname, before, after, heq, hbefore⟩
    obtain ⟨names, rest, hnames, rfl, hrest⟩ := List.map_eq_append_iff.mp heq
    obtain ⟨name, names', rfl, rfl, rfl⟩ := List.map_eq_cons_iff.mp hrest
    exact ⟨name, ⟨hname, names, names', hnames, fun w hw => hbefore _ (List.mem_map_of_mem hw)⟩, rfl⟩
  · rintro ⟨name, ⟨hname, before, after, heq, hbefore⟩, rfl⟩
    refine ⟨hname, before.map (account sources), after.map (account sources), ?_, List.forall_mem_map.mpr hbefore⟩
    rw [heq, List.map_append, List.map_cons]

/-- The first account of a user name is one that some source mentions. -/
theorem FirstAccount.mentioned {binder : Binder} {sources : List Source} {userName : Option Str} {name : Str}
    (h : FirstAccount binder sources userName name) : Mentioned sources name := by
  obtain ⟨-, before, after, heq, -⟩ := h
  have hmem : name ∈ accountNames binder sources := by
    rw [heq]
    exact List.mem_append_right before List.mem_cons_self
  exact mem_accountNames.mp hmem

theorem settings_of_main {binder : Binder} {m : Machine} {d : Deployment} {settings : MqttBrokerSettings}
    (h : main binder m d = .ok settings) :
    configuredSettings binder m d = .ok settings ∧ StartupValidation.HasAccounts settings := by
  rw [main] at h
  split at h
  · cases h
  · rename_i hprepare
    split at h
    · cases h
    · rename_i hvalid
      cases h
      exact ⟨((prepare_ok_iff _ _ _ _).mp hprepare).2.2.2.2, (StartupValidation.Validate_eq_ok_iff _ _).mp hvalid⟩

/-- **What a client of a deployment that started logs in with**: the user name of an account and the password that the
last source to set it sets, where no account that is bound before has the user name; this password is a usable one. -/
theorem logins_iff {binder : Binder} {m : Machine} {d : Deployment} {settings : MqttBrokerSettings}
    (h : main binder m d = .ok settings) (args : ValidatingConnectionEventArgs) :
    (ValidateConnectionAsync settings args).2 = .ok () ∧
      ((ValidateConnectionAsync settings args).1.ReasonCode = .Success ↔
        ∃ name password, FirstAccount binder (configuration m d) args.UserName name ∧
          LastSets (configuration m d) (passwordPath name) (some password) ∧ args.Password = some password ∧
          UsablePassword password) := by
  obtain ⟨hsettings, haccounts⟩ := settings_of_main h
  have hall := ((hasAccounts_iff hsettings).mp haccounts).2.2
  have husers : settings.Users =
      some (((accountNames binder (configuration m d)).map (account (configuration m d))).map some) := by
    rw [users_of_configuredSettings hsettings, accounts, List.map_map]
    rfl
  have hpassword : ∀ name password, LastSets (configuration m d) (passwordPath name) (some password) →
      (account (configuration m d) name).Password = some password := by
    intro name password hlast
    have hread : Layers.read (configuration m d) (passwordPath name) = some (some password) :=
      Layers.read_eq_some_iff.mpr hlast
    exact congrArg (fun value : Option (Option Str) => value.getD (some [])) hread
  rw [ValidateConnectionAsync_eq husers, reasonCode_eq_success_iff]
  refine ⟨rfl, ?_⟩
  constructor
  · rintro ⟨v, hv, hpasses⟩
    obtain ⟨name, hfirst, rfl⟩ := firstNamed_accounts_iff.mp hv
    obtain ⟨password, hlast, husable⟩ := hall name hfirst.mentioned
    exact ⟨name, password, hfirst, hlast, hpasses.symm.trans (hpassword name password hlast), husable⟩
  · rintro ⟨name, password, hfirst, hlast, hsent, -⟩
    exact ⟨_, firstNamed_accounts_iff.mpr ⟨name, hfirst, rfl⟩, (hpassword name password hlast).trans hsent.symm⟩

/-- One account, whose password of the shipped configuration a variable of the broker's own replaces. -/
def smallDeployment : Deployment where
  before := [[(userNamePath "0".toList, some "core".toList), (passwordPath "0".toList, some "changeme".toList)]]
  after := []
  environment := [("MQTTBROKER_MqttBrokerSettings__Users__0__Password".toList, "secret".toList)]
  production _ := .ok []
  EnvironmentName := "Production".toList

def smallMachine : Machine where
  platform := .Unix
  CommonApplicationData := []
  GetFullPath := id
  CreateDirectory _ := .ok ()
  CreateLogger _ _ := .ok ()

def smallBinder : Binder where
  Compare _ _ := true
  Bind _ := .ok { EnableBroker := true }

theorem accountNames_small :
    accountNames smallBinder (configuration smallMachine smallDeployment) = ["0".toList] := by
  have hfilter : (Layers.children (configuration smallMachine smallDeployment) usersPath).filter
      (isAccount (configuration smallMachine smallDeployment)) = ["0".toList] := by decide
  rw [accountNames, hfilter, List.mergeSort_singleton]

theorem lastSets_small : LastSets (configuration smallMachine smallDeployment) (passwordPath "0".toList)
    (some "secret".toList) := Layers.read_eq_some_iff.mp (by decide)

theorem main_small : ∃ settings, main smallBinder smallMachine smallDeployment = .ok settings := by
  obtain ⟨settings, hsettings, henabled⟩ : ∃ settings, configuredSettings smallBinder smallMachine smallDeployment =
    .ok settings ∧ settings.EnableBroker = true := ⟨_, rfl, rfl⟩
  have hmentioned : ∀ name, Mentioned (configuration smallMachine smallDeployment) name ↔ name = "0".toList := by
    intro name
    rw [← @mem_accountNames smallBinder, accountNames_small, List.mem_singleton]
  have haccounts : StartupValidation.HasAccounts settings := by
    refine (hasAccounts_iff hsettings).mpr ⟨henabled, ⟨_, (hmentioned _).mpr rfl⟩, fun name hname => ?_⟩
    rw [(hmentioned name).mp hname]
    exact ⟨_, lastSets_small, by decide, by decide⟩
  refine ⟨settings, ?_⟩
  rw [main, (prepare_ok_iff _ _ _ _).mpr ⟨rfl, rfl, ⟨_, rfl⟩, rfl, hsettings⟩]
  dsimp only
  rw [(StartupValidation.Validate_eq_ok_iff _ _).mpr haccounts]

theorem logins_iff_small : ∃ settings, main smallBinder smallMachine smallDeployment = .ok settings ∧
    (ValidateConnectionAsync settings ⟨some "core".toList, some "secret".toList, .BadUserNameOrPassword⟩).1.ReasonCode =
      .Success := by
  obtain ⟨settings, hmain⟩ := main_small
  refine ⟨settings, hmain, (logins_iff hmain _).2.mpr ⟨"0".toList, "secret".toList, ?_, lastSets_small, rfl, ?_⟩⟩
  · exact ⟨by decide, [], [], accountNames_small, fun _ h => absurd h List.not_mem_nil⟩
  · exact ⟨by decide, by decide⟩

end Program

end MqttServices
