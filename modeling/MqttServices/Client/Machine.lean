import MqttServices.Common.Payload
import MqttServices.Lib.Run

/-!
# The client service

* `MqttClientService`: its fields, the status of the MQTT client under it, its calls under way.
* `MqttClientService.new`: the constructor, which leaves no MQTT client where no host is set.
* `Connect`, `ReConnect`, `Reconnect`, `Disconnect`: the part of each call up to its first await, and
  `goOn` for the part after the await of `Disconnect`.
* `MqttClientService.step`: one step of a call, of the MQTT client or of a callback, and one lemma for each
  action that says what the step can do.
* `tasks_step`, `connected_step`: how calls move on, and where a connection comes from.
-/

namespace MqttServices

/-- The status of the MQTT client; `connecting i` is the work of call `i`. -/
inductive Status where
  | disconnected
  | connecting (i : ℕ)
  | connected
  | disconnecting
  deriving DecidableEq

/-- What follows the await of `Disconnect`. -/
inductive Then where
  | nothing
  | reConnect (brokerHost : Option Str) (brokerPort : Int32)
  | reconnect (brokerHost : Option Str) (brokerPort : Int32)
  deriving DecidableEq

/-- Where a call stands. -/
inductive Pc where
  /-- awaits `DisconnectAsync` -/
  | disconnecting (k : Then)
  /-- `DisconnectAsync` has ended, the call goes on with `k` -/
  | disconnected (k : Then)
  /-- awaits `ConnectAsync` -/
  | connecting
  /-- awaits `ConnectAsync`, which raises `ConnectedAsync` -/
  | connectedCallback
  /-- `ConnectAsync` has ended, the `finally` block is next -/
  | finishing
  | completed
  | threw
  deriving DecidableEq

/-- The service with its MQTT client. -/
structure MqttClientService where
  BrokerHost : Option Str
  BrokerPort : Int32
  mqttClient : Option Status
  IsConnected : Bool
  IsConnecting : Bool
  /-- the `DisconnectedAsync` callbacks raised and not yet run -/
  callbacks : ℕ
  /-- the hosts and ports that `ConnectAsync` set out for -/
  attempts : List (Option Str × Int32)
  tasks : List Pc
  deriving DecidableEq

/-- A public call. -/
inductive Op where
  | Connect
  | ReConnect (brokerHost : Option Str) (brokerPort : Int32)
  | Reconnect (brokerHost : Option Str) (brokerPort : Int32)
  | Disconnect
  deriving DecidableEq

/-- A step: of a caller, of a call, of the connection, of a callback. -/
inductive ServiceAction where
  | call (op : Op)
  | disconnectDone (i : ℕ)
  | resume (i : ℕ)
  | connectResult (i : ℕ) (ok : Bool)
  | connectedCallback (i : ℕ)
  | connectFinally (i : ℕ)
  | drop
  | disconnectedCallback
  deriving DecidableEq

namespace MqttClientService

/-- The constructor. -/
def new (BrokerHost : Option Str) (BrokerPort : Int32) : MqttClientService where
  BrokerHost := BrokerHost
  BrokerPort := BrokerPort
  mqttClient := if IsNullOrEmpty BrokerHost then none else some .disconnected
  IsConnected := false
  IsConnecting := false
  callbacks := 0
  attempts := []
  tasks := []

/-- `mqttClient.IsConnected`, where there is a client. -/
def connected (s : MqttClientService) : Bool := s.mqttClient = some .connected

/-- `WithTcpServer` takes the host and the port. -/
def validEndpoint (host : Option Str) (port : Int32) : Bool :=
  !IsNullOrEmpty host && 0 ≤ port.toInt && port.toInt ≤ 65535

/-- `Connect`, as call `i`. Options that cannot be built and a client that is not disconnected make
`ConnectAsync` or the lines before it throw; the exception is logged and the `finally` block runs. -/
def Connect (i : ℕ) (s : MqttClientService) : MqttClientService × Pc :=
  match s.mqttClient with
  | none => (s, .threw)
  | some status =>
    if status ≠ .connected ∧ s.IsConnecting = false then
      if validEndpoint s.BrokerHost s.BrokerPort ∧ status = .disconnected then
        ({ s with
            IsConnecting := true
            mqttClient := some (.connecting i)
            attempts := s.attempts ++ [(s.BrokerHost, s.BrokerPort)] }, .connecting)
      else ({ s with IsConnecting := false }, .completed)
    else (s, .completed)

/-- `mqttClientSettings.BrokerHost = brokerHost; mqttClientSettings.BrokerPort = brokerPort`. -/
def setEndpoint (brokerHost : Option Str) (brokerPort : Int32) (s : MqttClientService) : MqttClientService :=
  { s with BrokerHost := brokerHost, BrokerPort := brokerPort }

/-- `IsConnected = false; IsConnecting = false`. -/
def clearFlags (s : MqttClientService) : MqttClientService := { s with IsConnected := false, IsConnecting := false }

/-- The rest of a call after the await of `Disconnect`. -/
def goOn (i : ℕ) : Then → MqttClientService → MqttClientService × Pc
  | .nothing, s => (s, .completed)
  | .reConnect brokerHost brokerPort, s => (s.setEndpoint brokerHost brokerPort).Connect i
  | .reconnect brokerHost brokerPort, s => (s.clearFlags.setEndpoint brokerHost brokerPort).Connect i

/-- `await Disconnect()`, then `k`. `DisconnectAsync` returns at once where the client is disconnected
or about to be; without a client the null reference is caught. -/
def Disconnect (i : ℕ) (k : Then) (s : MqttClientService) : MqttClientService × Pc :=
  match s.mqttClient with
  | none | some .disconnected | some .disconnecting => goOn i k s
  | some (.connecting _) | some .connected => ({ s with mqttClient := some .disconnecting }, .disconnecting k)

/-- A call, up to its first await. -/
def start (i : ℕ) : Op → MqttClientService → MqttClientService × Pc
  | .Connect, s => s.Connect i
  | .ReConnect brokerHost brokerPort, s => s.Disconnect i (.reConnect brokerHost brokerPort)
  | .Reconnect brokerHost brokerPort, s =>
    match s.mqttClient with
    | none => (s, .threw)
    | some .connected => s.Disconnect i (.reconnect brokerHost brokerPort)
    | some _ => goOn i (.reconnect brokerHost brokerPort) s
  | .Disconnect, s => s.Disconnect i .nothing

/-- A call is made. -/
def called (op : Op) (s : MqttClientService) : MqttClientService :=
  { (s.start s.tasks.length op).1 with tasks := s.tasks ++ [(s.start s.tasks.length op).2] }

/-- Call `i` is at `pc`. -/
def setTask (i : ℕ) (pc : Pc) (s : MqttClientService) : MqttClientService := { s with tasks := s.tasks.set i pc }

/-- The client has become disconnected: `DisconnectedAsync` is raised in the background. -/
def closed (s : MqttClientService) : MqttClientService :=
  { s with mqttClient := some .disconnected, callbacks := s.callbacks + 1 }

/-- One step; `none` where the action cannot be taken. -/
def step (s : MqttClientService) : ServiceAction → Option MqttClientService
  | .call op => some (s.called op)
  | .disconnectDone i =>
    match s.tasks[i]? with
    | some (.disconnecting k) => some (s.closed.setTask i (.disconnected k))
    | _ => none
  | .resume i =>
    match s.tasks[i]? with
    | some (.disconnected k) => some ((goOn i k s).1.setTask i (goOn i k s).2)
    | _ => none
  | .connectResult i ok =>
    match s.tasks[i]? with
    | some .connecting =>
      -- a call whose connection was taken down meanwhile only learns that it failed
      if s.mqttClient = some (.connecting i) then
        if ok then some (setTask i .connectedCallback { s with mqttClient := some .connected })
        else some (s.closed.setTask i .finishing)
      else some (s.setTask i .finishing)
    | _ => none
  | .connectedCallback i =>
    match s.tasks[i]? with
    | some .connectedCallback => some (setTask i .finishing { s with IsConnected := true, IsConnecting := false })
    | _ => none
  | .connectFinally i =>
    match s.tasks[i]? with
    | some .finishing => some (setTask i .completed { s with IsConnecting := false })
    | _ => none
  | .drop => if s.mqttClient = some .connected then some s.closed else none
  | .disconnectedCallback =>
    if 0 < s.callbacks then some { s.clearFlags with callbacks := s.callbacks - 1 } else none

/-- No call is under way and no callback is due. -/
def Quiescent (s : MqttClientService) : Prop := (∀ pc ∈ s.tasks, pc = .completed ∨ pc = .threw) ∧ s.callbacks = 0

instance : DecidablePred Quiescent := fun s =>
  inferInstanceAs (Decidable ((∀ pc ∈ s.tasks, pc = .completed ∨ pc = .threw) ∧ s.callbacks = 0))

/-! ## What a step can do -/

section Steps

variable {s s' : MqttClientService} {i : ℕ}

theorem step_call {op : Op} : step s (.call op) = some s' ↔ s' = s.called op := by
  rw [step, Option.some_inj, eq_comm]

theorem step_disconnectDone : step s (.disconnectDone i) = some s' ↔
    ∃ k, s.tasks[i]? = some (.disconnecting k) ∧ s' = s.closed.setTask i (.disconnected k) := by
  simp only [step]
  constructor
  · intro h
    split at h
    · rename_i k hk
      cases h
      exact ⟨k, hk, rfl⟩
    · cases h
  · rintro ⟨k, hk, rfl⟩
    simp only [hk]

theorem step_resume : step s (.resume i) = some s' ↔
    ∃ k, s.tasks[i]? = some (.disconnected k) ∧ s' = (goOn i k s).1.setTask i (goOn i k s).2 := by
  simp only [step]
  constructor
  · intro h
    split at h
    · rename_i k hk
      cases h
      exact ⟨k, hk, rfl⟩
    · cases h
  · rintro ⟨k, hk, rfl⟩
    simp only [hk]

theorem step_connectResult {ok : Bool} : step s (.connectResult i ok) = some s' ↔ s.tasks[i]? = some .connecting ∧
    (s.mqttClient = some (.connecting i) ∧ ok = true ∧
        s' = setTask i .connectedCallback { s with mqttClient := some .connected } ∨
      s.mqttClient = some (.connecting i) ∧ ok = false ∧ s' = s.closed.setTask i .finishing ∨
      s.mqttClient ≠ some (.connecting i) ∧ s' = s.setTask i .finishing) := by
  simp only [step]
  constructor
  · intro h
    split at h
    · rename_i hi
      refine ⟨hi, ?_⟩
      split_ifs at h with hown hok
      · cases h
        exact Or.inl ⟨hown, hok, rfl⟩
      · cases h
        exact Or.inr (Or.inl ⟨hown, Bool.eq_false_iff.mpr hok, rfl⟩)
      · cases h
        exact Or.inr (Or.inr ⟨hown, rfl⟩)
    · cases h
  · rintro ⟨hi, ⟨hown, rfl, rfl⟩ | ⟨hown, rfl, rfl⟩ | ⟨hown, rfl⟩⟩
    · simp [hi, hown]
    · simp [hi, hown]
    · simp [hi, hown]

theorem step_connectedCallback : step s (.connectedCallback i) = some s' ↔ s.tasks[i]? = some .connectedCallback ∧
    s' = setTask i .finishing { s with IsConnected := true, IsConnecting := false } := by
  simp only [step]
  constructor
  · intro h
    split at h
    · rename_i hi
      cases h
      exact ⟨hi, rfl⟩
    · cases h
  · rintro ⟨hi, rfl⟩
    simp only [hi]

theorem step_connectFinally : step s (.connectFinally i) = some s' ↔ s.tasks[i]? = some .finishing ∧
    s' = setTask i .completed { s with IsConnecting := false } := by
  simp only [step]
  constructor
  · intro h
    split at h
    · rename_i hi
      cases h
      exact ⟨hi, rfl⟩
    · cases h
  · rintro ⟨hi, rfl⟩
    simp only [hi]

theorem step_drop : step s .drop = some s' ↔ s.mqttClient = some .connected ∧ s' = s.closed := by
  simp only [step]
  split_ifs with h
  · simp [h, eq_comm]
  · simp [h]

theorem step_disconnectedCallback : step s .disconnectedCallback = some s' ↔
    0 < s.callbacks ∧ s' = { s.clearFlags with callbacks := s.callbacks - 1 } := by
  simp only [step]
  split_ifs with h
  · simp [h, eq_comm]
  · simp [h]

end Steps

/-! ## Pieces of the steps -/

theorem mem_set_of_ne {l : List Pc} {i : ℕ} {pc old : Pc} (new : Pc) (hpc : pc ∈ l) (hi : l[i]? = some old)
    (hne : pc ≠ old) : pc ∈ l.set i new := by
  obtain ⟨j, hj⟩ := List.mem_iff_getElem?.mp hpc
  have hij : i ≠ j := fun h => hne (Option.some_inj.mp (by rw [← hj, ← h, hi]))
  exact List.mem_iff_getElem?.mpr ⟨j, by rw [List.getElem?_set_ne hij, hj]⟩

theorem mem_set_self {l : List Pc} {i : ℕ} {old : Pc} (new : Pc) (hi : l[i]? = some old) : new ∈ l.set i new :=
  List.mem_set (List.getElem?_eq_some_iff.mp hi).1 new

/-- What no part of `Connect` changes. -/
structure Kept (s t : MqttClientService) : Prop where
  IsConnected : t.IsConnected = s.IsConnected
  client : t.mqttClient = none ↔ s.mqttClient = none
  connected : t.connected = s.connected
  disconnecting : t.mqttClient = some .disconnecting ↔ s.mqttClient = some .disconnecting
  callbacks : t.callbacks = s.callbacks
  tasks : t.tasks = s.tasks

theorem Kept.refl (s : MqttClientService) : Kept s s := ⟨rfl, Iff.rfl, rfl, Iff.rfl, rfl, rfl⟩

theorem Kept.trans {s t u : MqttClientService} (h₁ : Kept s t) (h₂ : Kept t u) : Kept s u where
  IsConnected := h₂.IsConnected.trans h₁.IsConnected
  client := h₂.client.trans h₁.client
  connected := h₂.connected.trans h₁.connected
  disconnecting := h₂.disconnecting.trans h₁.disconnecting
  callbacks := h₂.callbacks.trans h₁.callbacks
  tasks := h₂.tasks.trans h₁.tasks

theorem kept_Connect (i : ℕ) (s : MqttClientService) : Kept s (s.Connect i).1 := by
  unfold Connect
  split
  · exact Kept.refl s
  · rename_i status hstatus
    split_ifs with h₁ h₂
    · obtain ⟨-, rfl⟩ := h₂
      exact ⟨rfl, by simp [hstatus], by simp [connected, hstatus], by simp [hstatus], rfl, rfl⟩
    · exact ⟨rfl, Iff.rfl, rfl, Iff.rfl, rfl, rfl⟩
    · exact Kept.refl s

theorem kept_setEndpoint (h : Option Str) (p : Int32) (s : MqttClientService) : Kept s (s.setEndpoint h p) :=
  ⟨rfl, Iff.rfl, rfl, Iff.rfl, rfl, rfl⟩

theorem kept_goOn (i : ℕ) (k : Then) (s : MqttClientService) :
    Kept s (goOn i k s).1 ∨ (∃ h p, k = .reconnect h p) ∧ Kept s.clearFlags (goOn i k s).1 := by
  cases k with
  | nothing => exact Or.inl (Kept.refl s)
  | reConnect h p => exact Or.inl ((kept_setEndpoint h p s).trans (kept_Connect i _))
  | reconnect h p => exact Or.inr ⟨⟨h, p, rfl⟩, (kept_setEndpoint h p s.clearFlags).trans (kept_Connect i _)⟩

/-- What `Disconnect` does up to its await, or beyond where there is nothing to await. -/
theorem Disconnect_cases (i : ℕ) (k : Then) (s : MqttClientService) :
    s.connected = false ∧ s.Disconnect i k = goOn i k s ∨
      s.Disconnect i k = ({ s with mqttClient := some .disconnecting }, .disconnecting k) := by
  unfold Disconnect
  split
  · exact Or.inl ⟨by simp [connected, *], rfl⟩
  · exact Or.inl ⟨by simp [connected, *], rfl⟩
  · exact Or.inl ⟨by simp [connected, *], rfl⟩
  · exact Or.inr rfl
  · exact Or.inr rfl

/-- What a call does up to its first await: nothing of this, a reset while there is no connection, or the
start of a disconnect. -/
theorem start_cases (i : ℕ) (op : Op) (s : MqttClientService) :
    Kept s (s.start i op).1 ∨ s.connected = false ∧ Kept s.clearFlags (s.start i op).1 ∨
      ∃ k, s.start i op = ({ s with mqttClient := some .disconnecting }, .disconnecting k) := by
  have hgo : ∀ k, s.connected = false → Kept s (goOn i k s).1 ∨ s.connected = false ∧ Kept s.clearFlags (goOn i k s).1 :=
    fun k hc => (kept_goOn i k s).imp_right fun h => ⟨hc, h.2⟩
  have hdis : ∀ k, Kept s (s.Disconnect i k).1 ∨ s.connected = false ∧ Kept s.clearFlags (s.Disconnect i k).1 ∨
      ∃ k', s.Disconnect i k = ({ s with mqttClient := some .disconnecting }, .disconnecting k') := by
    intro k
    rcases Disconnect_cases i k s with ⟨hc, h⟩ | h
    · rw [h]
      exact or_assoc.mp (Or.inl (hgo k hc))
    · exact Or.inr (Or.inr ⟨k, h⟩)
  cases op with
  | Connect => exact Or.inl (kept_Connect i s)
  | ReConnect h p => exact hdis (.reConnect h p)
  | Disconnect => exact hdis .nothing
  | Reconnect h p =>
    rw [start]
    split
    · exact Or.inl (Kept.refl s)
    · exact hdis (.reconnect h p)
    · rename_i status hne hstatus
      have hc : s.connected = false := by
        simp only [connected, hstatus, decide_eq_false_iff_not]
        exact fun h => hne (Option.some_inj.mp h)
      exact or_assoc.mp (Or.inl (hgo _ hc))

/-! ## The calls under way -/

/-- How a call moves on. -/
inductive Advance : Pc → Pc → Prop
  | disconnected (k : Then) : Advance (.disconnecting k) (.disconnected k)
  | resumed (k : Then) (pc : Pc) : Advance (.disconnected k) pc
  | established : Advance .connecting .connectedCallback
  | failed : Advance .connecting .finishing
  | raised : Advance .connectedCallback .finishing
  | finished : Advance .finishing .completed

theorem start_Reconnect {s : MqttClientService} (hclient : s.mqttClient ≠ none) (hc : s.connected = false) (i : ℕ)
    (host : Option Str) (port : Int32) : s.start i (.Reconnect host port) = goOn i (.reconnect host port) s := by
  rw [start]
  split
  · rename_i hnone
    exact absurd hnone hclient
  · rename_i hconn
    simp [connected, hconn] at hc
  · rfl

theorem goOn_tasks (i : ℕ) (k : Then) (s : MqttClientService) : (goOn i k s).1.tasks = s.tasks := by
  rcases kept_goOn i k s with h | ⟨-, h⟩
  · exact h.tasks
  · exact h.tasks

section Tasks

variable {s s' : MqttClientService}

theorem tasks_step {a : ServiceAction} (h : step s a = some s') :
    (∃ pc, s'.tasks = s.tasks ++ [pc]) ∨ s'.tasks = s.tasks ∨
      ∃ i old new, s.tasks[i]? = some old ∧ Advance old new ∧ s'.tasks = s.tasks.set i new := by
  cases a with
  | call op =>
    rw [step_call.mp h]
    exact Or.inl ⟨_, rfl⟩
  | disconnectDone i =>
    obtain ⟨k, hk, rfl⟩ := step_disconnectDone.mp h
    exact Or.inr (Or.inr ⟨i, _, _, hk, .disconnected k, rfl⟩)
  | resume i =>
    obtain ⟨k, hk, rfl⟩ := step_resume.mp h
    exact Or.inr (Or.inr ⟨i, _, _, hk, .resumed k _, by rw [setTask, goOn_tasks]⟩)
  | connectResult i ok =>
    obtain ⟨hi, ⟨-, -, rfl⟩ | ⟨-, -, rfl⟩ | ⟨-, rfl⟩⟩ := step_connectResult.mp h
    · exact Or.inr (Or.inr ⟨i, _, _, hi, .established, rfl⟩)
    · exact Or.inr (Or.inr ⟨i, _, _, hi, .failed, rfl⟩)
    · exact Or.inr (Or.inr ⟨i, _, _, hi, .failed, rfl⟩)
  | connectedCallback i =>
    obtain ⟨hi, rfl⟩ := step_connectedCallback.mp h
    exact Or.inr (Or.inr ⟨i, _, _, hi, .raised, rfl⟩)
  | connectFinally i =>
    obtain ⟨hi, rfl⟩ := step_connectFinally.mp h
    exact Or.inr (Or.inr ⟨i, _, _, hi, .finished, rfl⟩)
  | drop =>
    obtain ⟨-, rfl⟩ := step_drop.mp h
    exact Or.inr (Or.inl rfl)
  | disconnectedCallback =>
    obtain ⟨-, rfl⟩ := step_disconnectedCallback.mp h
    exact Or.inr (Or.inl rfl)

/-- Call `i` has raised `ConnectedAsync`. -/
def Raised (s : MqttClientService) (i : ℕ) : Prop := s.tasks[i]? = some .finishing ∨ s.tasks[i]? = some .completed

theorem Raised.step {i : ℕ} (hi : s.Raised i) {a : ServiceAction} (h : step s a = some s') : s'.Raised i := by
  rcases tasks_step h with ⟨pc, ht⟩ | ht | ⟨j, old, new, hj, hadv, ht⟩
  · have hlt : i < s.tasks.length := by
      rcases hi with hi | hi
      · exact (List.getElem?_eq_some_iff.mp hi).1
      · exact (List.getElem?_eq_some_iff.mp hi).1
    simpa only [Raised, ht, List.getElem?_append_left hlt] using hi
  · simpa only [Raised, ht] using hi
  · by_cases hij : j = i
    · subst hij
      have hlt := (List.getElem?_eq_some_iff.mp hj).1
      rcases hi with hi | hi
      · cases hj.symm.trans hi
        cases hadv
        exact Or.inr (by rw [ht, List.getElem?_set_self hlt])
      · cases hj.symm.trans hi
        cases hadv
    · simpa only [Raised, ht, List.getElem?_set_ne hij] using hi

/-- A connection comes from a connect that succeeds. -/
theorem connected_step {a : ServiceAction} (h : step s a = some s') (hc : s'.connected = true) :
    s.connected = true ∨ ∃ i, a = .connectResult i true ∧ s.mqttClient = some (.connecting i) := by
  cases a with
  | call op =>
    rw [step_call.mp h] at hc
    rcases start_cases s.tasks.length op s with hk | ⟨-, hk⟩ | ⟨k, hk⟩
    · exact Or.inl (hk.connected.symm.trans hc)
    · exact Or.inl (hk.connected.symm.trans hc)
    · rw [called, hk] at hc
      cases hc
  | disconnectDone i =>
    obtain ⟨k, -, rfl⟩ := step_disconnectDone.mp h
    cases hc
  | resume i =>
    obtain ⟨k, -, rfl⟩ := step_resume.mp h
    rcases kept_goOn i k s with hk | ⟨-, hk⟩
    · exact Or.inl (hk.connected.symm.trans hc)
    · exact Or.inl (hk.connected.symm.trans hc)
  | connectResult i ok =>
    obtain ⟨-, ⟨hown, rfl, -⟩ | ⟨-, -, rfl⟩ | ⟨-, rfl⟩⟩ := step_connectResult.mp h
    · exact Or.inr ⟨i, rfl, hown⟩
    · cases hc
    · exact Or.inl hc
  | connectedCallback i =>
    obtain ⟨-, rfl⟩ := step_connectedCallback.mp h
    exact Or.inl hc
  | connectFinally i =>
    obtain ⟨-, rfl⟩ := step_connectFinally.mp h
    exact Or.inl hc
  | drop =>
    obtain ⟨-, rfl⟩ := step_drop.mp h
    cases hc
  | disconnectedCallback =>
    obtain ⟨-, rfl⟩ := step_disconnectedCallback.mp h
    exact Or.inl hc

end Tasks

end MqttClientService

end MqttServices
