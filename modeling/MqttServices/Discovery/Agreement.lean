import MqttServices.Discovery.Client

/-!
# Settings discovered and settings used

* `Application`, `connectOptions`: the settings the next connect uses.
* `quietStep`, **`sets_target`**: once a reply has been handled its host and port are set.
* `latest`: what is expected after a reply; `Agrees`: the configuration has the same entries.
* **`discovered_iff`**: the runs in which the client uses what was discovered.
-/

namespace MqttServices

open MqttClientService

/-- The settings a connect uses. -/
structure ConnectOptions where
  BrokerHost : Option Str
  BrokerPort : Int32
  UserName : Option Str
  Password : Option Str
  deriving DecidableEq

/-- The service and the configuration, with the other fields of the service's settings that a connect reads. -/
structure Application where
  discovery : DiscoveryState
  UserName : Option Str
  Password : Option Str

/-- What `Connect` gives to `WithTcpServer` and to `WithCredentials`. -/
def Application.connectOptions (s : Application) : ConnectOptions where
  BrokerHost := s.discovery.service.BrokerHost
  BrokerPort := s.discovery.service.BrokerPort
  UserName := s.UserName
  Password := s.Password

/-- **Every attempt of a connect uses these options.** -/
theorem Connect_uses (s : Application) (i : ℕ) : ∃ l, (s.discovery.service.Connect i).1.attempts =
    s.discovery.service.attempts ++ l ∧ ∀ e ∈ l, e = (s.connectOptions.BrokerHost, s.connectOptions.BrokerPort) :=
  (aims_Connect i s.discovery.service).attempts

/-! ## A reply is handled -/

/-- The step sets a target of its own: `ReConnect` or `Reconnect` is called, or goes on after its disconnect. -/
def MqttClientService.setsTarget (s : MqttClientService) : ServiceAction → Bool
  | .call (.ReConnect _ _) | .call (.Reconnect _ _) => true
  | .resume i =>
    match s.tasks[i]? with
    | some (.disconnected k) => k ≠ .nothing
    | _ => false
  | _ => false

/-- A step while call `n` is handled: no other call sets a target. -/
def quietStep (n : ℕ) (s : MqttClientService) (a : ServiceAction) : Option MqttClientService :=
  if a = .resume n ∨ s.setsTarget a = false then MqttClientService.step s a else none

/-- Call `n` has ended. -/
def MqttClientService.Ended (n : ℕ) (s : MqttClientService) : Prop :=
  s.tasks[n]? = some .completed ∨ s.tasks[n]? = some .threw

instance (n : ℕ) : DecidablePred (MqttClientService.Ended n) := fun s =>
  inferInstanceAs (Decidable (s.tasks[n]? = some .completed ∨ s.tasks[n]? = some .threw))

theorem keepsTarget_of_not_setsTarget {s : MqttClientService} {a : ServiceAction} (h : s.setsTarget a = false) :
    s.KeepsTarget a := by
  cases a with
  | call op =>
    cases op with
    | ReConnect host port => cases h
    | Reconnect host port => cases h
    | Connect => trivial
    | Disconnect => trivial
  | resume i =>
    intro k hk
    simpa [setsTarget, hk] using h
  | disconnectDone i => trivial
  | connectResult i ok => trivial
  | connectedCallback i => trivial
  | connectFinally i => trivial
  | drop => trivial
  | disconnectedCallback => trivial

/-- Call `n` awaits its disconnect, or goes on after it, with `k` to follow. -/
def Awaits (n : ℕ) (k : Then) (s : MqttClientService) : Prop :=
  s.tasks[n]? = some (.disconnecting k) ∨ s.tasks[n]? = some (.disconnected k)

/-- Call `n` was made; it will set the target, or the target is set. -/
structure OnTheWay (host : Option Str) (port : Int32) (n : ℕ) (s : MqttClientService) : Prop where
  called : n < s.tasks.length
  target : Awaits n (.reConnect host port) s ∨ (∀ k, ¬ Awaits n k s) ∧ s.BrokerHost = host ∧ s.BrokerPort = port

section Handling

variable {s s' : MqttClientService} {host : Option Str} {port : Int32} {n : ℕ}

theorem length_tasks_step {a : ServiceAction} (hs : step s a = some s') : s.tasks.length ≤ s'.tasks.length := by
  rcases tasks_step hs with ⟨pc, ht⟩ | ht | ⟨i, old, new, -, -, ht⟩
  · simp [ht]
  · simp [ht]
  · simp [ht]

theorem not_awaits_step (hn : n < s.tasks.length) (hpc : ∀ k, ¬ Awaits n k s) {a : ServiceAction}
    (hs : step s a = some s') : ∀ k, ¬ Awaits n k s' := by
  intro k
  rcases tasks_step hs with ⟨new, ht⟩ | ht | ⟨i, old, new, hi, hadv, ht⟩
  · rw [Awaits, ht, List.getElem?_append_left hn]
    exact hpc k
  · rw [Awaits, ht]
    exact hpc k
  · by_cases hin : i = n
    · subst hin
      rw [Awaits, ht, List.getElem?_set_self hn]
      cases hadv with
      | disconnected k' => exact absurd (Or.inl hi) (hpc k')
      | resumed k' pc => exact absurd (Or.inr hi) (hpc k')
      | established => simp
      | failed => simp
      | raised => simp
      | finished => simp
    · rw [Awaits, ht, List.getElem?_set_ne hin]
      exact hpc k

theorem Awaits.set {k : Then} {i : ℕ} {old : Pc} (h : Awaits n k s) (hi : s.tasks[i]? = some old)
    (hold : old ≠ .disconnecting k ∧ old ≠ .disconnected k) (t : MqttClientService) (new : Pc) :
    Awaits n k { t with tasks := s.tasks.set i new } := by
  have hin : i ≠ n := by
    rintro rfl
    rcases h with h | h
    · exact hold.1 (Option.some_inj.mp (hi.symm.trans h))
    · exact hold.2 (Option.some_inj.mp (hi.symm.trans h))
  rw [Awaits, List.getElem?_set_ne hin]
  exact h

theorem Awaits.step {k : Then} (h : Awaits n k s) {a : ServiceAction} (ha : a ≠ .resume n) (hs : step s a = some s') :
    Awaits n k s' := by
  have hn : n < s.tasks.length := by
    rcases h with h | h
    · exact (List.getElem?_eq_some_iff.mp h).1
    · exact (List.getElem?_eq_some_iff.mp h).1
  cases a with
  | call op =>
    rw [step_call.mp hs]
    simpa only [Awaits, called, List.getElem?_append_left hn] using h
  | disconnectDone i =>
    obtain ⟨k', hk', rfl⟩ := step_disconnectDone.mp hs
    by_cases hin : i = n
    · subst hin
      rcases h with h | h
      · cases hk'.symm.trans h
        exact Or.inr (List.getElem?_set_self hn)
      · cases hk'.symm.trans h
    · simpa only [Awaits, setTask, closed, List.getElem?_set_ne hin] using h
  | resume i =>
    obtain ⟨k', hk', rfl⟩ := step_resume.mp hs
    have hin : i ≠ n := fun hin => ha (hin ▸ rfl)
    simpa only [Awaits, setTask, goOn_tasks, List.getElem?_set_ne hin] using h
  | connectResult i ok =>
    obtain ⟨hi, ⟨-, -, rfl⟩ | ⟨-, -, rfl⟩ | ⟨-, rfl⟩⟩ := step_connectResult.mp hs
    · exact h.set hi (by simp) _ _
    · exact h.set hi (by simp) _ _
    · exact h.set hi (by simp) _ _
  | connectedCallback i =>
    obtain ⟨hi, rfl⟩ := step_connectedCallback.mp hs
    exact h.set hi (by simp) _ _
  | connectFinally i =>
    obtain ⟨hi, rfl⟩ := step_connectFinally.mp hs
    exact h.set hi (by simp) _ _
  | drop =>
    obtain ⟨-, rfl⟩ := step_drop.mp hs
    exact h
  | disconnectedCallback =>
    obtain ⟨-, rfl⟩ := step_disconnectedCallback.mp hs
    exact h

theorem onTheWay_resume (hn : s.tasks[n]? = some (.disconnected (.reConnect host port)))
    (hs : step s (.resume n) = some s') : OnTheWay host port n s' := by
  obtain ⟨k, hk, rfl⟩ := step_resume.mp hs
  cases hn.symm.trans hk
  have hlt := (List.getElem?_eq_some_iff.mp hn).1
  have haims := aims_Connect n (s.setEndpoint host port)
  refine ⟨by simpa [setTask, goOn_tasks] using hlt, Or.inr ⟨fun k => ?_, haims.BrokerHost, haims.BrokerPort⟩⟩
  rw [Awaits, setTask, goOn_tasks, List.getElem?_set_self hlt]
  have hpc := Connect_pc n (s.setEndpoint host port) k
  rintro (h | h)
  · exact hpc.1 (Option.some_inj.mp h)
  · exact hpc.2 (Option.some_inj.mp h)

theorem OnTheWay.step (h : OnTheWay host port n s) {a : ServiceAction} (hs : quietStep n s a = some s') :
    OnTheWay host port n s' := by
  rw [quietStep] at hs
  split_ifs at hs with hquiet
  have hlength := Nat.lt_of_lt_of_le h.called (length_tasks_step hs)
  rcases h.target with hawaits | ⟨hnot, hhost, hport⟩
  · by_cases ha : a = .resume n
    · subst ha
      obtain ⟨k, hk, -⟩ := step_resume.mp hs
      rcases hawaits with hn | hn
      · cases hn.symm.trans hk
      · exact onTheWay_resume hn hs
    · exact ⟨hlength, Or.inl (hawaits.step ha hs)⟩
  · refine ⟨hlength, Or.inr ⟨not_awaits_step h.called hnot hs, ?_⟩⟩
    have ha : a ≠ .resume n := by
      rintro rfl
      obtain ⟨k, hk, -⟩ := step_resume.mp hs
      exact hnot k (Or.inr hk)
    have haims := aims_step (keepsTarget_of_not_setsTarget (hquiet.resolve_left ha)) hs
    exact ⟨haims.BrokerHost.trans hhost, haims.BrokerPort.trans hport⟩

theorem onTheWay_called (s : MqttClientService) (host : Option Str) (port : Int32) :
    OnTheWay host port s.tasks.length (s.called (.ReConnect host port)) := by
  have hget : ∀ pc, (s.tasks ++ [pc])[s.tasks.length]? = some pc := fun pc => List.getElem?_concat_length
  refine ⟨by simp [called], ?_⟩
  rw [called, start]
  rcases Disconnect_cases s.tasks.length (.reConnect host port) s with ⟨-, h⟩ | h
  · have haims := aims_Connect s.tasks.length (s.setEndpoint host port)
    rw [h]
    refine Or.inr ⟨fun k => ?_, haims.BrokerHost, haims.BrokerPort⟩
    have hpc := Connect_pc s.tasks.length (s.setEndpoint host port) k
    simp only [Awaits, hget, Option.some_inj]
    rintro (h | h)
    · exact hpc.1 h
    · exact hpc.2 h
  · rw [h]
    exact Or.inl (Or.inl (hget _))

/-- **Once a reply has been handled its host and port are set.** -/
theorem sets_target {as : List ServiceAction} {t : MqttClientService}
    (hrun : Run.exec (quietStep s.tasks.length) (s.called (.ReConnect host port)) as = some t)
    (hended : t.Ended s.tasks.length) : t.BrokerHost = host ∧ t.BrokerPort = port := by
  have hway : OnTheWay host port s.tasks.length t :=
    Run.invariant (fun _ _ _ h hs => h.step hs) (onTheWay_called s host port) hrun
  rcases hway.target with hawaits | ⟨-, hset⟩
  · rcases hawaits with hn | hn <;> rcases hended with h | h <;> cases hn.symm.trans h
  · exact hset

end Handling

/-! ## What is expected -/

/-- The options after a reply: its host and port, and its user name and password where they are not blank. -/
def latest (o : ConnectOptions) (st : MqttClientSettings) : ConnectOptions where
  BrokerHost := st.BrokerHost
  BrokerPort := st.BrokerPort
  UserName := if IsNullOrWhiteSpace st.UserName then o.UserName else st.UserName
  Password := if IsNullOrWhiteSpace st.Password then o.Password else st.Password

/-- The entries of the configuration that hold the options. -/
structure Agrees (entries : Entries) (o : ConnectOptions) : Prop where
  BrokerHost : entries "MqttClientSettings:BrokerHost".toList = some o.BrokerHost
  BrokerPort : entries "MqttClientSettings:BrokerPort".toList = some (some (Json.intText o.BrokerPort.toInt))
  UserName : entries "MqttClientSettings:UserName".toList = some o.UserName
  Password : entries "MqttClientSettings:Password".toList = some o.Password

theorem foldl_set_of_mem {us : List (Str × Option Str)} (hnodup : (us.map Prod.fst).Nodup) {u : Str × Option Str}
    (hu : u ∈ us) (entries : Entries) : us.foldl Entries.set entries u.1 = some u.2 := by
  induction us generalizing entries with
  | nil => cases hu
  | cons v us ih =>
    obtain ⟨hv, hnodup⟩ := List.nodup_cons.mp hnodup
    rw [List.foldl_cons]
    rcases List.mem_cons.mp hu with rfl | hu
    · rw [foldl_set_of_notMem hv, Entries.set, Function.update_self]
    · exact ih hnodup hu _

theorem updates_keys (st : MqttClientSettings) : (updates st).map Prod.fst =
    ["MqttClientSettings:BrokerHost".toList, "MqttClientSettings:BrokerPort".toList] ++
      (if IsNullOrWhiteSpace st.UserName then [] else ["MqttClientSettings:UserName".toList]) ++
      (if IsNullOrWhiteSpace st.Password then [] else ["MqttClientSettings:Password".toList]) := by
  rw [updates, List.map_append, List.map_append, apply_ite (List.map Prod.fst), apply_ite (List.map Prod.fst)]
  rfl

/-- **The entries that a reply sets** are the ones expected. -/
theorem Agrees.updates {entries : Entries} {o : ConnectOptions} (h : Agrees entries o) (st : MqttClientSettings) :
    Agrees ((updates st).foldl Entries.set entries) (latest o st) := by
  have hset : ∀ u ∈ MqttServices.updates st, (MqttServices.updates st).foldl Entries.set entries u.1 = some u.2 :=
    fun u hu => foldl_set_of_mem (updates_nodup st) hu entries
  refine ⟨?_, ?_, ?_, ?_⟩
  · exact hset _ (List.mem_append_left _ (List.mem_append_left _ List.mem_cons_self))
  · exact hset _ (List.mem_append_left _ (List.mem_append_left _ (List.mem_cons_of_mem _ List.mem_cons_self)))
  · cases hblank : IsNullOrWhiteSpace st.UserName with
    | true =>
      have hnotMem : ∀ b : Bool, "MqttClientSettings:UserName".toList ∉
          ["MqttClientSettings:BrokerHost".toList, "MqttClientSettings:BrokerPort".toList] ++
            (if true then [] else ["MqttClientSettings:UserName".toList]) ++
            (if b then [] else ["MqttClientSettings:Password".toList]) := by decide
      rw [latest, hblank, foldl_set_of_notMem (by rw [updates_keys, hblank]; exact hnotMem _)]
      exact h.UserName
    | false =>
      rw [latest, hblank]
      refine hset ("MqttClientSettings:UserName".toList, st.UserName) ?_
      rw [MqttServices.updates, hblank]
      exact List.mem_append_left _ (List.mem_append_right _ (List.mem_singleton_self _))
  · cases hblank : IsNullOrWhiteSpace st.Password with
    | true =>
      have hnotMem : ∀ b : Bool, "MqttClientSettings:Password".toList ∉
          ["MqttClientSettings:BrokerHost".toList, "MqttClientSettings:BrokerPort".toList] ++
            (if b then [] else ["MqttClientSettings:UserName".toList]) ++
            (if true then [] else ["MqttClientSettings:Password".toList]) := by decide
      rw [latest, hblank, foldl_set_of_notMem (by rw [updates_keys, hblank]; exact hnotMem _)]
      exact h.Password
    | false =>
      rw [latest, hblank]
      refine hset ("MqttClientSettings:Password".toList, st.Password) ?_
      rw [MqttServices.updates, hblank]
      exact List.mem_append_right _ (List.mem_singleton_self _)

/-! ## Runs -/

/-- A reply, with the steps until it has been handled, and until the next one. -/
structure Handling where
  reply : List UInt8
  steps : List ServiceAction

/-- The application, with the options that the replies so far let expect. -/
structure Discovered where
  application : Application
  expected : ConnectOptions

/-- `SendBroadcastDiscoveryRequest` with its reply, up to the end of `ReConnect` and beyond; `none` where the bytes are
no settings or the steps cannot be taken. -/
def Discovered.step (s : Discovered) (x : Handling) : Option Discovered :=
  match decodeReply x.reply with
  | some (some st) =>
    let called := SendBroadcastDiscoveryRequest (some x.reply) s.application.discovery
    (Run.exec (quietStep s.application.discovery.service.tasks.length) called.service x.steps).bind fun service =>
      if service.Ended s.application.discovery.service.tasks.length then
        some ⟨{ s.application with discovery := ⟨service, called.configuration⟩ }, latest s.expected st⟩
      else none
  | _ => none

/-- What the client uses is what was discovered, and the configuration, where it agreed at first, agrees with it. -/
structure UsesDiscovered (agreed : Prop) (s : Discovered) : Prop where
  options : s.application.connectOptions = s.expected
  entries : agreed → ∀ entries ∈ s.application.discovery.configuration, Agrees entries s.application.connectOptions

/-- The user name and the password of the reply are blank, or the ones the client uses. -/
def KeepsCredentials (s : Discovered) (x : Handling) : Prop :=
  ∀ st, decodeReply x.reply = some (some st) →
    (IsNullOrWhiteSpace st.UserName = false → st.UserName = s.application.UserName) ∧
      (IsNullOrWhiteSpace st.Password = false → st.Password = s.application.Password)

section Runs

variable {s s' : Discovered} {x : Handling}

/-- **What the handling of a reply leaves**: its host and port, the credentials as they were, and its entries. -/
theorem step_eq_some (h : s.step x = some s') : ∃ st, decodeReply x.reply = some (some st) ∧
    s'.application.connectOptions = ⟨st.BrokerHost, st.BrokerPort, s.application.UserName, s.application.Password⟩ ∧
    s'.application.discovery.configuration = setAll (updates st) s.application.discovery.configuration ∧
    s'.expected = latest s.expected st := by
  rw [Discovered.step] at h
  split at h
  · rename_i st hst
    rw [SendBroadcastDiscoveryRequest_settings hst] at h
    obtain ⟨service, hrun, h⟩ := Option.bind_eq_some_iff.mp h
    split_ifs at h with hended
    cases h
    obtain ⟨hhost, hport⟩ := sets_target hrun hended
    refine ⟨st, hst, ?_, by dsimp only, by dsimp only⟩
    rw [Application.connectOptions, hhost, hport]
  · cases h

theorem step_of_ended {st : MqttClientSettings} (hst : decodeReply x.reply = some (some st)) {service : MqttClientService}
    (hrun : Run.exec (quietStep s.application.discovery.service.tasks.length)
      (s.application.discovery.service.called (.ReConnect st.BrokerHost st.BrokerPort)) x.steps = some service)
    (hended : service.Ended s.application.discovery.service.tasks.length) :
    s.step x = some ⟨{ s.application with
      discovery := ⟨service, setAll (updates st) s.application.discovery.configuration⟩ }, latest s.expected st⟩ := by
  simp only [Discovered.step, hst, SendBroadcastDiscoveryRequest_settings hst, hrun, Option.bind_some, if_pos hended]

/-- **A reply keeps the client on what was discovered just where it keeps the credentials.** -/
theorem keepsCredentials_iff {agreed : Prop} (hs : UsesDiscovered agreed s) (h : s.step x = some s') :
    KeepsCredentials s x ↔ UsesDiscovered agreed s' := by
  obtain ⟨st, hst, hoptions, hconfiguration, hexpected⟩ := step_eq_some h
  have hkeeps : KeepsCredentials s x ↔ s'.application.connectOptions = s'.expected := by
    have hall : KeepsCredentials s x ↔ (IsNullOrWhiteSpace st.UserName = false → st.UserName = s.application.UserName) ∧
        (IsNullOrWhiteSpace st.Password = false → st.Password = s.application.Password) := by
      constructor
      · exact fun h => h st hst
      · intro h st' hst'
        cases hst.symm.trans hst'
        exact h
    have huser : s.expected.UserName = s.application.UserName := by rw [← hs.options]; rfl
    have hpassword : s.expected.Password = s.application.Password := by rw [← hs.options]; rfl
    rw [hall, hoptions, hexpected, latest, huser, hpassword, ConnectOptions.mk.injEq]
    cases IsNullOrWhiteSpace st.UserName <;> cases IsNullOrWhiteSpace st.Password <;> simp [eq_comm]
  rw [hkeeps]
  refine ⟨fun heq => ⟨heq, fun hagreed entries hentries => ?_⟩, fun h => h.options⟩
  rw [heq, hexpected]
  rw [hconfiguration] at hentries
  cases hc : s.application.discovery.configuration with
  | none =>
    rw [hc, setAll_none] at hentries
    cases hentries
  | some before =>
    rw [hc, setAll_some, Option.mem_some_iff] at hentries
    rw [← hentries, ← hs.options]
    exact (hs.entries hagreed before hc).updates st

/-- **The runs in which the client uses what was discovered**: every reply leaves the user name and the password blank,
or sends the ones the client uses. -/
theorem discovered_iff {application : Application} {replies : List Handling}
    (hrun : Run.exec Discovered.step ⟨application, application.connectOptions⟩ replies = some s) :
    Run.Always Discovered.step (UsesDiscovered (∀ entries ∈ application.discovery.configuration,
        Agrees entries application.connectOptions)) ⟨application, application.connectOptions⟩ replies ↔
      Run.Meets Discovered.step KeepsCredentials ⟨application, application.connectOptions⟩ replies :=
  Run.always_iff_meets (fun _ _ _ hs h => keepsCredentials_iff hs h) ⟨rfl, fun hagreed => hagreed⟩ hrun

end Runs

/-! ## One reply -/

theorem exists_reply (st : MqttClientSettings) : ∃ bytes, decodeReply bytes = some (some st) := by
  obtain ⟨bytes, hbytes⟩ :=
    (exists_jsonBytes (L := .compact)).mpr ((MqttClientSettings.depth_toJson st).trans (by decide))
  exact ⟨bytes, by rw [decodeReply, parse_jsonBytes hbytes, Option.bind_some, MqttClientSettings.read_toJson]⟩

/-- The entries that hold the options. -/
def entriesOf (o : ConnectOptions) : Entries := fun key =>
  if key = "MqttClientSettings:BrokerHost".toList then some o.BrokerHost
  else if key = "MqttClientSettings:BrokerPort".toList then some (some (Json.intText o.BrokerPort.toInt))
  else if key = "MqttClientSettings:UserName".toList then some o.UserName
  else if key = "MqttClientSettings:Password".toList then some o.Password
  else none

theorem agrees_entriesOf (o : ConnectOptions) : Agrees (entriesOf o) o := ⟨rfl, rfl, rfl, rfl⟩

/-- A client with credentials, which is not connected, and whose configuration holds what it uses. -/
def smallApplication : Application where
  discovery := ⟨new (some "old".toList) 1883,
    some (entriesOf ⟨some "old".toList, 1883, some "core".toList, some "secret".toList⟩)⟩
  UserName := some "core".toList
  Password := some "secret".toList

/-- `ReConnect` connects. -/
def connects : List ServiceAction := [.connectResult 0 true, .connectedCallback 0, .connectFinally 0]

theorem exists_handling (st : MqttClientSettings) (hhost : st.BrokerHost = some "new".toList)
    (hport : st.BrokerPort = 1883) :
    ∃ reply s, decodeReply reply = some (some st) ∧
      Run.exec Discovered.step ⟨smallApplication, smallApplication.connectOptions⟩ [⟨reply, connects⟩] = some s ∧
      s.application.UserName = some "core".toList ∧ s.expected = latest smallApplication.connectOptions st := by
  obtain ⟨reply, hst⟩ := exists_reply st
  have hrun : ∃ service, Run.exec (quietStep 0)
      ((new (some "old".toList) 1883).called (.ReConnect (some "new".toList) 1883)) connects = some service ∧
        service.Ended 0 := ⟨_, rfl, by decide⟩
  obtain ⟨service, hexec, hended⟩ := hrun
  rw [← hhost, ← hport] at hexec
  refine ⟨reply, _, hst, Run.exec_cons_eq_some.mpr ⟨_, step_of_ended hst hexec hended, rfl⟩, rfl, rfl⟩

theorem discovered_iff_small : ∃ reply s,
    Run.exec Discovered.step ⟨smallApplication, smallApplication.connectOptions⟩ [⟨reply, connects⟩] = some s ∧
      Run.Always Discovered.step (UsesDiscovered (∀ entries ∈ smallApplication.discovery.configuration,
        Agrees entries smallApplication.connectOptions)) ⟨smallApplication, smallApplication.connectOptions⟩
        [⟨reply, connects⟩] ∧
      s.expected = ⟨some "new".toList, 1883, some "core".toList, some "secret".toList⟩ := by
  obtain ⟨reply, s, hst, hexec, -, hexpected⟩ :=
    exists_handling { BrokerHost := some "new".toList, BrokerPort := 1883, Password := some "secret".toList } rfl rfl
  refine ⟨reply, s, hexec, (discovered_iff hexec).mpr ⟨fun st hst' => ?_, fun _ _ => trivial⟩, hexpected⟩
  cases hst.symm.trans hst'
  exact ⟨nofun, fun _ => rfl⟩

/-- A user name that is discovered is not used. -/
theorem discovered_user_unused : ∃ reply st s, decodeReply reply = some (some st) ∧ st.Useful ∧
    Run.exec Discovered.step ⟨smallApplication, smallApplication.connectOptions⟩ [⟨reply, connects⟩] = some s ∧
      ∀ agreed, ¬ UsesDiscovered agreed s := by
  obtain ⟨reply, s, hst, hexec, huser, hexpected⟩ :=
    exists_handling { BrokerHost := some "new".toList, BrokerPort := 1883, UserName := some "ui".toList } rfl rfl
  refine ⟨reply, _, s, hst, ⟨by decide, by decide, by decide⟩, hexec, fun agreed h => ?_⟩
  have hname : s.application.UserName = s.expected.UserName := congrArg ConnectOptions.UserName h.options
  rw [huser, hexpected] at hname
  exact absurd hname (by decide)

end MqttServices
