import MqttServices.Client.Settings
import MqttServices.Client.Target

/-!
# Discovery

* `discoveryReply`: what the discovery server answers with; `decodeReply`: what the client reads.
* `updates`, `TryUpdateSetting`: the configuration entries a reply changes.
* `SendBroadcastDiscoveryRequest`: what a reply does to the service and to the configuration.
* **`discovery_connects_iff`**: the states in which a usable reply leads to a connect.
* **`reply_changes_nothing_iff`**: the replies that change nothing.
-/

namespace MqttServices

/-! ## Replies -/

/-- The answer of the discovery server on the host `hostName`, for a broker on `brokerPort`. -/
def discoveryReply (hostName : Str) (brokerPort : Int32) : Option (List UInt8) :=
  jsonBytes .compact (MqttClientSettings.toJson { BrokerHost := some hostName, BrokerPort := brokerPort })

/-- The settings of a reply: `none` where reading throws, `some none` for `null`. -/
def decodeReply (bytes : List UInt8) : Option (Option MqttClientSettings) :=
  (Json.parse (Utf8.decode bytes)).bind MqttClientSettings.read

/-- **The client reads what the server wrote.** -/
theorem decodeReply_discoveryReply {hostName : Str} {brokerPort : Int32} {bytes : List UInt8}
    (h : discoveryReply hostName brokerPort = some bytes) :
    decodeReply bytes = some (some { BrokerHost := some hostName, BrokerPort := brokerPort }) := by
  rw [decodeReply, parse_jsonBytes h, Option.bind_some, MqttClientSettings.read_toJson]

theorem exists_discoveryReply (hostName : Str) (brokerPort : Int32) :
    ∃ bytes, discoveryReply hostName brokerPort = some bytes :=
  exists_jsonBytes.mpr ((MqttClientSettings.depth_toJson _).trans (by decide))

/-- The settings name a broker: a host that is not blank and a port. -/
def MqttClientSettings.Useful (st : MqttClientSettings) : Prop :=
  IsNullOrWhiteSpace st.BrokerHost = false ∧ 1 ≤ st.BrokerPort.toInt ∧ st.BrokerPort.toInt ≤ 65535

theorem MqttClientSettings.Useful.validEndpoint {st : MqttClientSettings} (h : st.Useful) :
    MqttClientService.validEndpoint st.BrokerHost st.BrokerPort = true := by
  obtain ⟨hblank, h₁, h₂⟩ := h
  have hempty : IsNullOrEmpty st.BrokerHost = false := by
    cases he : IsNullOrEmpty st.BrokerHost with
    | false => rfl
    | true =>
      rw [IsNullOrWhiteSpace, List.isEmpty_iff.mp he] at hblank
      cases hblank
  simp only [MqttClientService.validEndpoint, hempty, Bool.not_false, Bool.true_and, Bool.and_eq_true, decide_eq_true_eq]
  exact ⟨by omega, h₂⟩

/-! ## The configuration -/

/-- The entries of a configuration provider. -/
abbrev Entries := Str → Option (Option Str)

/-- `Set` of the provider. -/
def Entries.set (entries : Entries) (u : Str × Option Str) : Entries := Function.update entries u.1 (some u.2)

/-- The first memory provider; `none` where there is none. -/
abbrev Configuration := Option Entries

/-- `TryUpdateSetting` of a key and a value. -/
def TryUpdateSetting (c : Configuration) (u : Str × Option Str) : Configuration := c.map fun entries => entries.set u

/-- The entries a reply sets, in order. -/
def updates (st : MqttClientSettings) : List (Str × Option Str) :=
  [("MqttClientSettings:BrokerHost".toList, st.BrokerHost),
    ("MqttClientSettings:BrokerPort".toList, some (Json.intText st.BrokerPort.toInt))] ++
    (if IsNullOrWhiteSpace st.UserName then [] else [("MqttClientSettings:UserName".toList, st.UserName)]) ++
    (if IsNullOrWhiteSpace st.Password then [] else [("MqttClientSettings:Password".toList, st.Password)])

/-- The configuration after entries are set. -/
def setAll (us : List (Str × Option Str)) (c : Configuration) : Configuration :=
  us.foldl TryUpdateSetting c

/-- The entries are as they would be set. -/
def Configuration.Has (c : Configuration) (us : List (Str × Option Str)) : Prop :=
  ∀ entries ∈ c, ∀ u ∈ us, entries u.1 = some u.2

theorem setAll_none (us : List (Str × Option Str)) : setAll us none = none := by
  induction us with
  | nil => rfl
  | cons u us ih => exact ih

theorem setAll_some (us : List (Str × Option Str)) (entries : Entries) :
    setAll us (some entries) = some (us.foldl Entries.set entries) := by
  induction us generalizing entries with
  | nil => rfl
  | cons u us ih => exact ih _

theorem foldl_set_of_notMem {us : List (Str × Option Str)} {key : Str} (h : key ∉ us.map Prod.fst)
    (entries : Entries) :
    us.foldl Entries.set entries key = entries key := by
  induction us generalizing entries with
  | nil => rfl
  | cons u us ih =>
    rw [List.map_cons, List.mem_cons, not_or] at h
    rw [List.foldl_cons, ih h.2, Entries.set, Function.update_of_ne h.1]

theorem foldl_set_eq_iff {us : List (Str × Option Str)} (hnodup : (us.map Prod.fst).Nodup)
    (entries : Entries) :
    us.foldl Entries.set entries = entries ↔ ∀ u ∈ us, entries u.1 = some u.2 := by
  induction us generalizing entries with
  | nil => exact iff_of_true rfl fun _ h => absurd h List.not_mem_nil
  | cons u us ih =>
    obtain ⟨hu, hnodup⟩ := List.nodup_cons.mp hnodup
    rw [List.foldl_cons]
    constructor
    · intro h
      have hhead : entries u.1 = some u.2 := by
        rw [← congrFun h u.1, foldl_set_of_notMem hu, Entries.set, Function.update_self]
      rw [Entries.set, ← hhead, Function.update_eq_self, ih hnodup] at h
      exact List.forall_mem_cons.mpr ⟨hhead, h⟩
    · intro h
      obtain ⟨hhead, htail⟩ := List.forall_mem_cons.mp h
      rw [Entries.set, ← hhead, Function.update_eq_self]
      exact (ih hnodup entries).mpr htail

theorem updates_nodup (st : MqttClientSettings) : ((updates st).map Prod.fst).Nodup := by
  have hkeys : ∀ b c : Bool, (["MqttClientSettings:BrokerHost".toList, "MqttClientSettings:BrokerPort".toList] ++
      (if b then [] else ["MqttClientSettings:UserName".toList]) ++
      (if c then [] else ["MqttClientSettings:Password".toList])).Nodup := by decide
  rw [updates, List.map_append, List.map_append, apply_ite (List.map Prod.fst), apply_ite (List.map Prod.fst)]
  exact hkeys _ _

/-- **Setting the entries of a reply changes nothing just where they are there.** -/
theorem setAll_eq_iff (st : MqttClientSettings) (c : Configuration) : setAll (updates st) c = c ↔ c.Has (updates st) := by
  cases c with
  | none => exact iff_of_true (setAll_none _) fun _ h => absurd h (Option.not_mem_none _)
  | some entries =>
    rw [setAll_some, Option.some_inj, foldl_set_eq_iff (updates_nodup st)]
    exact ⟨fun h f hf => Option.mem_some_iff.mp hf ▸ h, fun h => h entries rfl⟩

/-! ## A discovery request -/

/-- A service with the configuration of its application. -/
structure DiscoveryState where
  service : MqttClientService
  configuration : Configuration

/-- `SendBroadcastDiscoveryRequest` up to the first await of `ReConnect`, for the reply received in time,
if any. All of it is under one `catch`. -/
def SendBroadcastDiscoveryRequest (reply : Option (List UInt8)) (s : DiscoveryState) : DiscoveryState :=
  match reply.bind decodeReply with
  | some (some st) =>
    { service := s.service.called (.ReConnect st.BrokerHost st.BrokerPort)
      configuration := setAll (updates st) s.configuration }
  | _ => s

theorem SendBroadcastDiscoveryRequest_settings {bytes : List UInt8} {st : MqttClientSettings}
    (h : decodeReply bytes = some (some st)) (s : DiscoveryState) :
    SendBroadcastDiscoveryRequest (some bytes) s =
      ⟨s.service.called (.ReConnect st.BrokerHost st.BrokerPort), setAll (updates st) s.configuration⟩ := by
  simp only [SendBroadcastDiscoveryRequest, Option.bind_some, h]

theorem SendBroadcastDiscoveryRequest_unread {bytes : List UInt8} (h : ∀ st, decodeReply bytes ≠ some (some st))
    (s : DiscoveryState) : SendBroadcastDiscoveryRequest (some bytes) s = s := by
  unfold SendBroadcastDiscoveryRequest
  split
  · rename_i st hst
    exact absurd hst (h st)
  · rfl

/-! ## A usable reply -/

open MqttClientService

/-- The MQTT client is neither connected nor connecting, nor does the service take it to be connecting. -/
def MqttClientService.Idle (s : MqttClientService) : Prop :=
  s.connected = false ∧ (∀ i, s.mqttClient ≠ some (.connecting i)) ∧ s.IsConnecting = false

/-- From `s` to `t` one attempt was made, for the host and the port, and every later one is for these too until
`ReConnect` or `Reconnect` sets another target. -/
def ConnectsTo (host : Option Str) (port : Int32) (s t : MqttClientService) : Prop :=
  t.attempts = s.attempts ++ [(host, port)] ∧
    ∀ as u, Run.Meets step KeepsTarget t as → Run.exec step t as = some u →
      ∃ l, u.attempts = t.attempts ++ l ∧ ∀ e ∈ l, e = (host, port)

theorem called_ReConnect_attempts {s : MqttClientService} (hs : s.Idle) {host : Option Str} {port : Int32}
    (hv : validEndpoint host port = true) :
    (s.called (.ReConnect host port)).attempts = s.attempts ++ [(host, port)] ↔ s.mqttClient = some .disconnected := by
  obtain ⟨hc, hconnecting, hflag⟩ := hs
  cases hm : s.mqttClient with
  | none => simp [called, start, Disconnect, goOn, Connect, setEndpoint, hm]
  | some status =>
    cases status with
    | disconnected => simp [called, start, Disconnect, goOn, Connect, setEndpoint, hm, hflag, hv]
    | disconnecting => simp [called, start, Disconnect, goOn, Connect, setEndpoint, hm, hflag]
    | connecting i => exact absurd hm (hconnecting i)
    | connected => simp [connected, hm] at hc

theorem called_ReConnect_target {s : MqttClientService} (hm : s.mqttClient = some .disconnected) (host : Option Str)
    (port : Int32) : (s.called (.ReConnect host port)).BrokerHost = host ∧
      (s.called (.ReConnect host port)).BrokerPort = port := by
  have haims := aims_Connect s.tasks.length (s.setEndpoint host port)
  simp only [called, start, Disconnect, goOn, hm]
  exact ⟨haims.BrokerHost, haims.BrokerPort⟩

/-- **The states in which a usable reply leads to a connect.** -/
theorem discovery_connects_iff {host : Option Str} {port : Int32} {as : List ServiceAction} {s : DiscoveryState}
    (hrun : Run.exec step (new host port) as = some s.service) (hidle : s.service.Idle) {bytes : List UInt8}
    {st : MqttClientSettings} (hst : decodeReply bytes = some (some st)) (huse : st.Useful) :
    ConnectsTo st.BrokerHost st.BrokerPort s.service (SendBroadcastDiscoveryRequest (some bytes) s).service ↔
      IsNullOrEmpty host = false ∧ s.service.mqttClient ≠ some .disconnecting := by
  have hdisc : s.service.mqttClient = some .disconnected ↔
      IsNullOrEmpty host = false ∧ s.service.mqttClient ≠ some .disconnecting := by
    rw [← client_iff hrun]
    obtain ⟨hc, hconnecting, -⟩ := hidle
    cases hm : s.service.mqttClient with
    | none => simp
    | some status =>
      cases status with
      | disconnected => simp
      | disconnecting => simp
      | connecting i => exact absurd hm (hconnecting i)
      | connected => simp [connected, hm] at hc
  rw [SendBroadcastDiscoveryRequest_settings hst, ← hdisc, ← called_ReConnect_attempts hidle huse.validEndpoint]
  refine ⟨fun h => h.1, fun h => ⟨h, fun as u hkeep hrun' => ?_⟩⟩
  obtain ⟨hh, hp⟩ := called_ReConnect_target ((called_ReConnect_attempts hidle huse.validEndpoint).mp h)
    st.BrokerHost st.BrokerPort
  obtain ⟨-, -, l, hl, he⟩ := aims_run hkeep hrun'
  exact ⟨l, hl, fun e hmem => by rw [he e hmem, hh, hp]⟩

theorem idle_new (host : Option Str) (port : Int32) : (new host port).Idle := by
  unfold new
  split_ifs
  · exact ⟨rfl, fun i h => (nomatch h), rfl⟩
  · exact ⟨rfl, fun i h => (nomatch h), rfl⟩

/-- With no host configured the reply of a discovery server leads to no connect. -/
theorem no_host_no_connect : ∃ bytes st, decodeReply bytes = some (some st) ∧ st.Useful ∧
    (new (some []) 0).Idle ∧
    ¬ ConnectsTo st.BrokerHost st.BrokerPort (new (some []) 0)
      (SendBroadcastDiscoveryRequest (some bytes) ⟨new (some []) 0, none⟩).service := by
  obtain ⟨bytes, hbytes⟩ := exists_discoveryReply "broker".toList 1883
  have hst := decodeReply_discoveryReply hbytes
  refine ⟨bytes, _, hst, ⟨by decide, by decide, by decide⟩, idle_new _ _, fun h => ?_⟩
  rw [SendBroadcastDiscoveryRequest_settings hst] at h
  exact absurd h.1 (by decide)

theorem discovery_connects_iff_configured : ∃ bytes st, decodeReply bytes = some (some st) ∧
    (ConnectsTo st.BrokerHost st.BrokerPort (new (some "old".toList) 1883)
        (SendBroadcastDiscoveryRequest (some bytes) ⟨new (some "old".toList) 1883, none⟩).service ↔
      IsNullOrEmpty (some "old".toList) = false ∧
        (new (some "old".toList) 1883).mqttClient ≠ some .disconnecting) := by
  obtain ⟨bytes, hbytes⟩ := exists_discoveryReply "broker".toList 1883
  have hst := decodeReply_discoveryReply hbytes
  have hrun : Run.exec step (new (some "old".toList) 1883) [] = some (new (some "old".toList) 1883) := rfl
  exact ⟨bytes, _, hst, discovery_connects_iff (s := ⟨new (some "old".toList) 1883, none⟩) hrun (idle_new _ _) hst
    ⟨by decide, by decide, by decide⟩⟩

/-! ## A useless reply -/

/-- A step of call `n`. -/
def OwnStep (n : ℕ) : ServiceAction → Prop
  | .disconnectDone i | .resume i | .connectResult i _ | .connectedCallback i | .connectFinally i => i = n
  | _ => False

/-- A reply that leaves the configuration, and while its call runs to its end the target and a connection that
stood. -/
def ChangesNothing (bytes : List UInt8) (s : DiscoveryState) : Prop :=
  (SendBroadcastDiscoveryRequest (some bytes) s).configuration = s.configuration ∧
    ∀ as t, (∀ a ∈ as, OwnStep s.service.tasks.length a) →
      Run.exec step (SendBroadcastDiscoveryRequest (some bytes) s).service as = some t →
      t.BrokerHost = s.service.BrokerHost ∧ t.BrokerPort = s.service.BrokerPort ∧
        (s.service.connected = true → t.connected = true)

theorem ownStep_length {s : MqttClientService} {as : List ServiceAction} {t : MqttClientService}
    (has : ∀ a ∈ as, OwnStep s.tasks.length a) (hrun : Run.exec step s as = some t) : t = s := by
  cases as with
  | nil => exact (Option.some_inj.mp hrun).symm
  | cons a as =>
    obtain ⟨u, hu, -⟩ := Run.exec_cons_eq_some.mp hrun
    have hnone : s.tasks[s.tasks.length]? = none := List.getElem?_eq_none (Nat.le_refl _)
    have hown := has a List.mem_cons_self
    cases a with
    | call op => exact hown.elim
    | drop => exact hown.elim
    | disconnectedCallback => exact hown.elim
    | disconnectDone i =>
      obtain ⟨k, hk, -⟩ := step_disconnectDone.mp hu
      exact absurd (hk.symm.trans (hown ▸ hnone)) (by simp)
    | resume i =>
      obtain ⟨k, hk, -⟩ := step_resume.mp hu
      exact absurd (hk.symm.trans (hown ▸ hnone)) (by simp)
    | connectResult i ok => exact absurd ((step_connectResult.mp hu).1.symm.trans (hown ▸ hnone)) (by simp)
    | connectedCallback i => exact absurd ((step_connectedCallback.mp hu).1.symm.trans (hown ▸ hnone)) (by simp)
    | connectFinally i => exact absurd ((step_connectFinally.mp hu).1.symm.trans (hown ▸ hnone)) (by simp)

/-- The target is set, and call `n`, where it awaits its disconnect, will set it again. -/
structure OnTarget (host : Option Str) (port : Int32) (n : ℕ) (s : MqttClientService) : Prop where
  BrokerHost : s.BrokerHost = host
  BrokerPort : s.BrokerPort = port
  goesOn : ∀ k, s.tasks[n]? = some (.disconnecting k) ∨ s.tasks[n]? = some (.disconnected k) → k = .reConnect host port

theorem Connect_pc (i : ℕ) (s : MqttClientService) :
    ∀ k, (s.Connect i).2 ≠ .disconnecting k ∧ (s.Connect i).2 ≠ .disconnected k := by
  intro k
  unfold Connect
  split
  · simp
  · split_ifs <;> simp

theorem OnTarget.of_set {host : Option Str} {port : Int32} {n : ℕ} {s : MqttClientService} {old pc : Pc}
    (hn : s.tasks[n]? = some old) (hpc : ∀ k, pc ≠ .disconnecting k ∧ pc ≠ .disconnected k) {t : MqttClientService}
    (hh : t.BrokerHost = host) (hp : t.BrokerPort = port) : OnTarget host port n { t with tasks := s.tasks.set n pc } := by
  refine ⟨hh, hp, fun k hk => ?_⟩
  rw [List.getElem?_set_self (List.getElem?_eq_some_iff.mp hn).1] at hk
  rcases hk with hk | hk
  · exact absurd (Option.some_inj.mp hk) (hpc k).1
  · exact absurd (Option.some_inj.mp hk) (hpc k).2

theorem OnTarget.step {host : Option Str} {port : Int32} {n : ℕ} {s s' : MqttClientService}
    (h : OnTarget host port n s) {a : ServiceAction} (ha : OwnStep n a) (hs : step s a = some s') :
    OnTarget host port n s' := by
  cases a with
  | call op => exact ha.elim
  | drop => exact ha.elim
  | disconnectedCallback => exact ha.elim
  | disconnectDone i =>
    cases ha
    obtain ⟨k, hk, rfl⟩ := step_disconnectDone.mp hs
    refine ⟨h.BrokerHost, h.BrokerPort, fun k' hk' => ?_⟩
    have hset : (s.tasks.set n (.disconnected k))[n]? = some (.disconnected k) :=
      List.getElem?_set_self (List.getElem?_eq_some_iff.mp hk).1
    rcases hk' with hk' | hk'
    · exact absurd (hset.symm.trans hk') (by simp)
    · cases hset.symm.trans hk'
      exact h.goesOn k (Or.inl hk)
  | resume i =>
    cases ha
    obtain ⟨k, hk, rfl⟩ := step_resume.mp hs
    cases h.goesOn k (Or.inr hk)
    have haims := aims_Connect n (s.setEndpoint host port)
    rw [setTask, goOn_tasks]
    exact .of_set hk (Connect_pc n _) haims.BrokerHost haims.BrokerPort
  | connectResult i ok =>
    cases ha
    obtain ⟨hi, ⟨-, -, rfl⟩ | ⟨-, -, rfl⟩ | ⟨-, rfl⟩⟩ := step_connectResult.mp hs
    · exact .of_set hi (by simp) h.BrokerHost h.BrokerPort
    · exact .of_set hi (by simp) h.BrokerHost h.BrokerPort
    · exact .of_set hi (by simp) h.BrokerHost h.BrokerPort
  | connectedCallback i =>
    cases ha
    obtain ⟨hi, rfl⟩ := step_connectedCallback.mp hs
    exact .of_set hi (by simp) h.BrokerHost h.BrokerPort
  | connectFinally i =>
    cases ha
    obtain ⟨hi, rfl⟩ := step_connectFinally.mp hs
    exact .of_set hi (by simp) h.BrokerHost h.BrokerPort

theorem onTarget_called (s : MqttClientService) :
    OnTarget s.BrokerHost s.BrokerPort s.tasks.length (s.called (.ReConnect s.BrokerHost s.BrokerPort)) := by
  have hget : ∀ pc, (s.tasks ++ [pc])[s.tasks.length]? = some pc := fun pc => List.getElem?_concat_length
  rw [called, start]
  rcases Disconnect_cases s.tasks.length (.reConnect s.BrokerHost s.BrokerPort) s with ⟨-, h⟩ | h
  · have haims := aims_Connect s.tasks.length (s.setEndpoint s.BrokerHost s.BrokerPort)
    rw [h]
    refine ⟨haims.BrokerHost, haims.BrokerPort, fun k hk => ?_⟩
    simp only [hget, Option.some_inj] at hk
    rcases hk with hk | hk
    · exact absurd hk (Connect_pc _ _ k).1
    · exact absurd hk (Connect_pc _ _ k).2
  · rw [h]
    refine ⟨rfl, rfl, fun k hk => ?_⟩
    simp only [hget, Option.some_inj] at hk
    rcases hk with hk | hk
    · exact (Pc.disconnecting.inj hk).symm
    · cases hk

/-- `ReConnect` sets its target, at once or after its disconnect, which takes a connection down. -/
theorem called_ReConnect_sets (s : MqttClientService) (host : Option Str) (port : Int32) :
    ∃ as t, (∀ a ∈ as, OwnStep s.tasks.length a) ∧ Run.exec step (s.called (.ReConnect host port)) as = some t ∧
      t.BrokerHost = host ∧ t.BrokerPort = port ∧ (s.connected = true → t.connected = false) := by
  rcases Disconnect_cases s.tasks.length (.reConnect host port) s with ⟨hc, h⟩ | h
  · have haims := aims_Connect s.tasks.length (s.setEndpoint host port)
    refine ⟨[], _, fun _ h => absurd h List.not_mem_nil, rfl, ?_⟩
    rw [called, start, h]
    exact ⟨haims.BrokerHost, haims.BrokerPort, fun hc' => absurd hc' (by simp [hc])⟩
  · -- the disconnect ends, and the call goes on
    let s₁ := (s.called (.ReConnect host port)).closed.setTask s.tasks.length (.disconnected (.reConnect host port))
    have hget : (s.called (.ReConnect host port)).tasks[s.tasks.length]? = some (.disconnecting (.reConnect host port)) := by
      rw [called, start, h]
      exact List.getElem?_concat_length
    have hget₁ : s₁.tasks[s.tasks.length]? = some (.disconnected (.reConnect host port)) :=
      List.getElem?_set_self (List.getElem?_eq_some_iff.mp hget).1
    have h₁ : step (s.called (.ReConnect host port)) (.disconnectDone s.tasks.length) = some s₁ :=
      step_disconnectDone.mpr ⟨_, hget, rfl⟩
    let s₂ := (goOn s.tasks.length (.reConnect host port) s₁).1.setTask s.tasks.length
      (goOn s.tasks.length (.reConnect host port) s₁).2
    have h₂ : step s₁ (.resume s.tasks.length) = some s₂ := step_resume.mpr ⟨_, hget₁, rfl⟩
    have haims := aims_Connect s.tasks.length (s₁.setEndpoint host port)
    have hkept := kept_Connect s.tasks.length (s₁.setEndpoint host port)
    refine ⟨[.disconnectDone s.tasks.length, .resume s.tasks.length], s₂, ?_, ?_, haims.BrokerHost, haims.BrokerPort,
      fun _ => hkept.connected⟩
    · intro a ha
      simp only [List.mem_cons, List.not_mem_nil, or_false] at ha
      rcases ha with rfl | rfl
      · exact rfl
      · exact rfl
    · rw [Run.exec_cons, h₁, Option.bind_some, Run.exec_cons, h₂]
      rfl

/-- **The replies that change nothing.** -/
theorem reply_changes_nothing_iff (bytes : List UInt8) (s : DiscoveryState) : ChangesNothing bytes s ↔
    ∀ st, decodeReply bytes = some (some st) → s.service.connected = false ∧ s.service.BrokerHost = st.BrokerHost ∧
      s.service.BrokerPort = st.BrokerPort ∧ s.configuration.Has (updates st) := by
  by_cases hdecode : ∃ st, decodeReply bytes = some (some st)
  · obtain ⟨st, hst⟩ := hdecode
    have hall : ∀ P : MqttClientSettings → Prop, (∀ st', decodeReply bytes = some (some st') → P st') ↔ P st :=
      fun P => ⟨fun h => h st hst, fun h st' hst' => by cases hst.symm.trans hst'; exact h⟩
    rw [hall, ChangesNothing, SendBroadcastDiscoveryRequest_settings hst, setAll_eq_iff]
    constructor
    · rintro ⟨hconf, hown⟩
      obtain ⟨as, t, has, hrun, hh, hp, hdown⟩ := called_ReConnect_sets s.service st.BrokerHost st.BrokerPort
      obtain ⟨hh', hp', hc⟩ := hown as t has hrun
      refine ⟨Bool.eq_false_iff.mpr fun h => ?_, hh'.symm.trans hh, hp'.symm.trans hp, hconf⟩
      rw [hdown h] at hc
      exact absurd (hc h) (by simp)
    · rintro ⟨hc, hh, hp, hconf⟩
      refine ⟨hconf, fun as t has hrun => ?_⟩
      rw [← hh, ← hp] at hrun
      have hinv : OnTarget s.service.BrokerHost s.service.BrokerPort s.service.tasks.length t :=
        Run.invariant_of_meets (fun _ _ _ h ha hs => h.step ha hs) (onTarget_called s.service)
          (Run.Meets.of_forall has _) hrun
      exact ⟨hinv.BrokerHost, hinv.BrokerPort, fun h => absurd h (by simp [hc])⟩
  · have hnone : ∀ st, decodeReply bytes ≠ some (some st) := fun st h => hdecode ⟨st, h⟩
    rw [ChangesNothing, SendBroadcastDiscoveryRequest_unread hnone]
    refine iff_of_true ⟨rfl, fun as t has hrun => ?_⟩ fun st hst => absurd hst (hnone st)
    rw [ownStep_length has hrun]
    exact ⟨rfl, rfl, id⟩

/-- The reply `{}`. -/
def emptyObject : List UInt8 := [0x7B, 0x7D]

theorem decodeReply_emptyObject : decodeReply emptyObject = some (some {}) := by decide

/-- The reply `{}` names no broker, and takes a connection down. -/
theorem emptyObject_disconnects : ∃ s : DiscoveryState,
    Run.exec step (new (some "broker".toList) 1883)
        [.call .Connect, .connectResult 0 true, .connectedCallback 0, .connectFinally 0] = some s.service ∧
      s.service.connected = true ∧ (∀ st, decodeReply emptyObject = some (some st) → ¬ st.Useful) ∧
      ¬ ChangesNothing emptyObject s := by
  refine ⟨⟨_, none⟩, rfl, rfl, fun st hst huse => ?_, fun h => ?_⟩
  · cases decodeReply_emptyObject.symm.trans hst
    exact absurd huse.2.1 (by decide)
  · have hown := h.2
    rw [SendBroadcastDiscoveryRequest_settings decodeReply_emptyObject] at hown
    exact absurd ((hown [] _ (fun _ h => absurd h List.not_mem_nil) rfl).2.2 rfl) (by decide)

end MqttServices
