import MqttServices.Broker.Settings

/-!
# The login

* `ValidateConnectionAsync`: what the broker answers to the user name and the password of a client.
* `ValidateConnectionAsync_eq`: the account it decides by is the first one of that name.
* `AcceptsConfigured`: the login succeeds just for the credentials of some account.
* **`acceptsConfigured_iff`**: the credentials for which it does; **`forall_acceptsConfigured_iff`**: the lists of
  accounts for which it does so for every client.
-/

namespace MqttServices

/-- `MqttConnectReasonCode`, as far as the login sets it. -/
inductive MqttConnectReasonCode where
  | Success
  | BadUserNameOrPassword
  deriving DecidableEq

/-- `ValidatingConnectionEventArgs`, as far as the login reads and sets it. -/
structure ValidatingConnectionEventArgs where
  UserName : Option Str
  Password : Option Str
  ReasonCode : MqttConnectReasonCode := .Success
  deriving DecidableEq

namespace MqttBrokerService

/-- `Users.FirstOrDefault(u => u.UserName == userName)`. -/
def firstOrDefault (userName : Option Str) : List (Option MqttUser) → Except Exception (Option MqttUser)
  | [] => .ok none
  | none :: _ => .error ⟨.NullReferenceException, []⟩
  | some u :: users => if u.UserName = userName then .ok (some u) else firstOrDefault userName users

def currentUser (settings : MqttBrokerSettings) (args : ValidatingConnectionEventArgs) :
    Except Exception (Option MqttUser) :=
  match settings.Users with
  | none => .error ⟨.ArgumentNullException, []⟩
  | some users => firstOrDefault args.UserName users

/-- The reason code for the account found. -/
def reasonCode (args : ValidatingConnectionEventArgs) : Option MqttUser → MqttConnectReasonCode
  | none => .BadUserNameOrPassword
  | some currentUser =>
    if args.UserName ≠ currentUser.UserName then .BadUserNameOrPassword
    else if args.Password ≠ currentUser.Password then .BadUserNameOrPassword
    else .Success

/-- `ValidateConnectionAsync`: the arguments it leaves, and the task it returns. -/
def ValidateConnectionAsync (settings : MqttBrokerSettings) (args : ValidatingConnectionEventArgs) :
    ValidatingConnectionEventArgs × Except Exception Unit :=
  match currentUser settings args with
  | .error e => (args, .error e)
  | .ok user => ({ args with ReasonCode := reasonCode args user }, .ok ())

/-! ## The account found -/

section Accounts

variable {settings : MqttBrokerSettings} {users : List MqttUser} {args : ValidatingConnectionEventArgs}

/-- The first account of a name. -/
def FirstNamed (users : List MqttUser) (name : Option Str) (v : MqttUser) : Prop :=
  v.UserName = name ∧ ∃ before after, users = before ++ v :: after ∧ ∀ w ∈ before, w.UserName ≠ name

/-- An account has the user name and the password that the client sends. -/
def Matches (args : ValidatingConnectionEventArgs) (u : MqttUser) : Prop :=
  u.UserName = args.UserName ∧ u.Password = args.Password

instance (args : ValidatingConnectionEventArgs) : DecidablePred (Matches args) := fun u =>
  inferInstanceAs (Decidable (u.UserName = args.UserName ∧ u.Password = args.Password))

theorem firstOrDefault_map_some (userName : Option Str) (users : List MqttUser) :
    firstOrDefault userName (users.map some) = .ok (users.find? fun u => u.UserName = userName) := by
  induction users with
  | nil => rfl
  | cons u users ih =>
    rw [List.map_cons, firstOrDefault, List.find?_cons]
    by_cases h : u.UserName = userName
    · simp [h]
    · simpa [h] using ih

theorem find?_eq_some_iff {name : Option Str} {v : MqttUser} :
    (users.find? fun u => u.UserName = name) = some v ↔ FirstNamed users name v := by
  rw [List.find?_eq_some_iff_append, FirstNamed, decide_eq_true_iff]
  simp only [Bool.not_eq_true', decide_eq_false_iff_not]

theorem exists_firstNamed {u : MqttUser} (hu : u ∈ users) : ∃ v, FirstNamed users u.UserName v := by
  cases h : users.find? fun w => w.UserName = u.UserName with
  | none => exact absurd (decide_eq_true rfl) (List.find?_eq_none.mp h u hu)
  | some v => exact ⟨v, find?_eq_some_iff.mp h⟩

theorem FirstNamed.unique {name : Option Str} {v w : MqttUser} (hv : FirstNamed users name v)
    (hw : FirstNamed users name w) : v = w :=
  Option.some_inj.mp ((find?_eq_some_iff.mpr hv).symm.trans (find?_eq_some_iff.mpr hw))

theorem FirstNamed.mem {name : Option Str} {v : MqttUser} (h : FirstNamed users name v) : v ∈ users := by
  obtain ⟨-, before, after, rfl, -⟩ := h
  exact List.mem_append_right before List.mem_cons_self

/-- **The account the login decides by** is the first one of the name. -/
theorem ValidateConnectionAsync_eq (hUsers : settings.Users = some (users.map some)) :
    ValidateConnectionAsync settings args =
      ({ args with ReasonCode := reasonCode args (users.find? fun u => u.UserName = args.UserName) }, .ok ()) := by
  simp only [ValidateConnectionAsync, currentUser, hUsers, firstOrDefault_map_some]

theorem reasonCode_eq_success_iff :
    reasonCode args (users.find? fun u => u.UserName = args.UserName) = .Success ↔
      ∃ v, FirstNamed users args.UserName v ∧ v.Password = args.Password := by
  cases h : users.find? fun u => u.UserName = args.UserName with
  | none =>
    refine iff_of_false (by simp [reasonCode]) ?_
    rintro ⟨v, hv, -⟩
    rw [find?_eq_some_iff.mpr hv] at h
    cases h
  | some v =>
    have hv := find?_eq_some_iff.mp h
    rw [reasonCode, if_neg (not_not.mpr hv.1.symm)]
    constructor
    · intro hcode
      refine ⟨v, hv, ?_⟩
      by_contra hne
      rw [if_pos (Ne.symm hne)] at hcode
      cases hcode
    · rintro ⟨w, hw, hpassword⟩
      rw [hv.unique hw]
      exact if_neg (not_not.mpr hpassword.symm)

theorem reasonCode_ne_success_iff {user : Option MqttUser} :
    reasonCode args user = .BadUserNameOrPassword ↔ reasonCode args user ≠ .Success := by
  cases reasonCode args user <;> simp

/-! ## The accounts configured -/

/-- The login completes, and succeeds just for the credentials of some account. -/
structure AcceptsConfigured (settings : MqttBrokerSettings) (users : List MqttUser)
    (args : ValidatingConnectionEventArgs) : Prop where
  completes : (ValidateConnectionAsync settings args).2 = .ok ()
  success : (ValidateConnectionAsync settings args).1.ReasonCode = .Success ↔ ∃ u ∈ users, Matches args u
  refused : (ValidateConnectionAsync settings args).1.ReasonCode = .BadUserNameOrPassword ↔ ¬ ∃ u ∈ users, Matches args u

/-- **The credentials that are judged by the accounts configured**: where an account has them, the first account of
that name has the password too. -/
theorem acceptsConfigured_iff (hUsers : settings.Users = some (users.map some)) (args : ValidatingConnectionEventArgs) :
    AcceptsConfigured settings users args ↔
      ∀ u ∈ users, Matches args u → ∀ v, FirstNamed users args.UserName v → v.Password = args.Password := by
  have hsuccess : (ValidateConnectionAsync settings args).1.ReasonCode = .Success ↔
      ∃ v, FirstNamed users args.UserName v ∧ v.Password = args.Password := by
    rw [ValidateConnectionAsync_eq hUsers]
    exact reasonCode_eq_success_iff
  constructor
  · intro h u hu hmatches v hv
    obtain ⟨w, hw, hpassword⟩ := hsuccess.mp (h.success.mpr ⟨u, hu, hmatches⟩)
    rw [hv.unique hw]
    exact hpassword
  · intro h
    have hiff : (ValidateConnectionAsync settings args).1.ReasonCode = .Success ↔ ∃ u ∈ users, Matches args u := by
      rw [hsuccess]
      constructor
      · rintro ⟨v, hv, hpassword⟩
        exact ⟨v, hv.mem, hv.1, hpassword⟩
      · rintro ⟨u, hu, hmatches⟩
        obtain ⟨v, hv⟩ := exists_firstNamed hu
        rw [hmatches.1] at hv
        exact ⟨v, hv, h u hu hmatches v hv⟩
    refine ⟨by rw [ValidateConnectionAsync_eq hUsers], hiff, ?_⟩
    rw [← hiff, ValidateConnectionAsync_eq hUsers]
    exact reasonCode_ne_success_iff

/-- **The accounts by which every client is judged**: those of one name have one password. -/
theorem forall_acceptsConfigured_iff (hUsers : settings.Users = some (users.map some)) :
    (∀ args, AcceptsConfigured settings users args) ↔
      ∀ u ∈ users, ∀ v ∈ users, u.UserName = v.UserName → u.Password = v.Password := by
  have hfirst : (∀ args, AcceptsConfigured settings users args) ↔
      ∀ u ∈ users, ∀ v, FirstNamed users u.UserName v → v.Password = u.Password := by
    constructor
    · intro h u hu
      exact (acceptsConfigured_iff hUsers ⟨u.UserName, u.Password, .Success⟩).mp (h _) u hu ⟨rfl, rfl⟩
    · refine fun h args => (acceptsConfigured_iff hUsers args).mpr fun u hu hmatches v hv => ?_
      rw [← hmatches.1] at hv
      exact (h u hu v hv).trans hmatches.2
  rw [hfirst]
  constructor
  · intro h u hu v hv hname
    obtain ⟨w, hw⟩ := exists_firstNamed hu
    exact (h u hu w hw).symm.trans (h v hv w (hname ▸ hw))
  · exact fun h u hu v hv => h v hv.mem u hu hv.1

end Accounts

/-! ## An account left over -/

/-- An account of the shipped configuration, and one of the same name in a later source, at another index. -/
def leftOverUsers : List MqttUser :=
  [{ UserName := some "core".toList, Password := some "old".toList },
    { UserName := some "core".toList, Password := some "new".toList }]

/-- Settings with these accounts. -/
def leftOverSettings : MqttBrokerSettings := { Users := some (leftOverUsers.map some) }

/-- The second account cannot log in. -/
theorem left_over_account_refuses : ¬ AcceptsConfigured leftOverSettings leftOverUsers
    { UserName := some "core".toList, Password := some "new".toList } := by
  intro h
  exact absurd (h.success.mpr ⟨_, List.mem_cons_of_mem _ List.mem_cons_self, rfl, rfl⟩) (by decide)

theorem acceptsConfigured_iff_first :
    AcceptsConfigured leftOverSettings leftOverUsers { UserName := some "core".toList, Password := some "old".toList } ∧
      (ValidateConnectionAsync leftOverSettings
        { UserName := some "core".toList, Password := some "old".toList }).1.ReasonCode = .Success := by
  have hfirst : FirstNamed leftOverUsers (some "core".toList)
      { UserName := some "core".toList, Password := some "old".toList } := find?_eq_some_iff.mp rfl
  have haccepts : AcceptsConfigured leftOverSettings leftOverUsers
      { UserName := some "core".toList, Password := some "old".toList } :=
    (acceptsConfigured_iff rfl _).mpr fun _ _ _ v hv => by rw [hv.unique hfirst]
  exact ⟨haccepts, haccepts.success.mpr ⟨_, hfirst.mem, rfl, rfl⟩⟩

end MqttBrokerService

end MqttServices
