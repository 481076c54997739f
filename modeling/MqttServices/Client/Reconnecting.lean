import MqttServices.Client.Endpoint
import MqttServices.Client.Exclusion
import MqttServices.Client.ReconnectService
import MqttServices.Discovery.Agreement

/-!
# A client under its reconnect service

The service and the loop that `AddMqttMessagingService` registers, with no other caller.

* `ReconnectingClient`: the client service with its configuration, the loop, and where the loop stands in its turn,
  with what the turn has done so far.
* `ReconnectingClient.step`: a turn of the loop between its awaits, or a step of the MQTT client or of a callback;
  **`step_cases`**: what it does to the client service.
* `TurnInv`: a turn does what its `try` block says; `calls_step`: what it does is what it calls.
* `CallInv`: every call but the one the loop awaits has ended.
* **`disciplined_run`**: one connect at a time, to the present target, and the loop well behaved, in every run.
* **`connects_next`**: a connection that was lost is sought again in the next turn.
-/

namespace MqttServices

open MqttClientReconnectService MqttClientService

/-- A turn with what it has done so far. -/
abbrev Underway := Turn × List MqttClientReconnectService.Effect

/-- Where the loop stands. -/
inductive LoopPc where
  /-- between two turns, or in the delay of one -/
  | idle
  /-- awaits the answer to its broadcast -/
  | receiving (u : Underway)
  /-- awaits the `ReConnect` that a reply led to -/
  | reConnecting (u : Underway) (i : ℕ)
  /-- awaits its `Connect` -/
  | connecting (u : Underway) (i : ℕ)
  deriving DecidableEq

/-- The call that is awaited. -/
def LoopPc.awaited : LoopPc → Option ℕ
  | idle | receiving _ => none
  | reConnecting _ i | connecting _ i => some i

/-- The turn under way. -/
def LoopPc.underway? : LoopPc → Option Underway
  | idle => none
  | receiving u | reConnecting u _ | connecting u _ => some u

/-- The client service with its configuration, and the loop. -/
structure ReconnectingClient where
  discovery : DiscoveryState
  loop : ReconnectLoop := {}
  pc : LoopPc := .idle

/-- A step: of the loop, or of the client other than by a call. -/
inductive LoopAction where
  /-- a turn begins; its flags are read from the service -/
  | turn (answers : Turn)
  /-- the wait for a reply ends, with one or without -/
  | answered (reply : Option (List UInt8))
  /-- the call that is awaited has ended -/
  | returned
  | client (a : ServiceAction)

def ServiceAction.isCall : ServiceAction → Bool
  | .call _ => true
  | _ => false

/-- The wait for a reply ends. -/
def LoopAction.ends : LoopAction → Bool
  | .answered _ => true
  | _ => false

/-- It ends with settings, so that the discovery client calls `ReConnect`. -/
def LoopAction.finds : LoopAction → Bool
  | .answered reply => (reply.bind decodeReply).join.isSome
  | _ => false

namespace ReconnectingClient

def service (s : ReconnectingClient) : MqttClientService := s.discovery.service

/-- The turn ends, and the log has what it did. -/
def finish (settings : MqttClientSettings) (u : Underway) (s : ReconnectingClient) : Option ReconnectingClient :=
  (MqttClientReconnectService.step settings s.loop u.1).map fun loop =>
    { s with loop := { loop with turns := s.loop.turns ++ [u] }, pc := .idle }

/-- The loop sends its broadcast. -/
def receivingIn (u : Underway) (s : ReconnectingClient) : ReconnectingClient :=
  { s with pc := .receiving (u.1, u.2 ++ [.SendBroadcastDiscoveryRequest]) }

/-- The loop calls `Connect`. -/
def connectingIn (u : Underway) (s : ReconnectingClient) : ReconnectingClient :=
  { s with
    discovery := { s.discovery with service := s.service.called .Connect }
    pc := .connecting (u.1, u.2 ++ [.Connect]) s.service.tasks.length }

/-- The turn goes on to the effect after those it has had. -/
def proceed (settings : MqttClientSettings) (u : Underway) (s : ReconnectingClient) : Option ReconnectingClient :=
  match (tryBlock settings s.loop.nextDiscoveryAttemptUtc u.1).effects[u.2.length]? with
  | none => s.finish settings u
  | some .SendBroadcastDiscoveryRequest => some (s.receivingIn u)
  | some .Connect => some (s.connectingIn u)

/-- The turn with the flags that are read after its broadcast. -/
def again (s : ReconnectingClient) (turn : Turn) : Turn :=
  { turn with IsConnectingAfter := s.service.IsConnecting, IsConnectedAfter := s.service.IsConnected }

/-- The broadcast is over: the flags are read again. -/
def afterBroadcast (settings : MqttClientSettings) (u : Underway) (s : ReconnectingClient) : Option ReconnectingClient :=
  s.proceed settings (s.again u.1, u.2)

/-- A turn with the flags as they are. The discovery client catches whatever happens in it. -/
def begun (answers : Turn) (s : ReconnectingClient) : Turn :=
  { answers with
    IsConnected := s.service.IsConnected
    IsConnecting := s.service.IsConnecting
    SendBroadcastDiscoveryRequest := .ok ()
    Connect := .ok () }

/-- What the awaited `Connect` gives. -/
def connectOutcome (i : ℕ) (s : ReconnectingClient) : Except Exception Unit :=
  if s.service.tasks[i]? = some .threw then .error ⟨.NullReferenceException, []⟩ else .ok ()

/-- The step function. -/
def step (settings : MqttClientSettings) (s : ReconnectingClient) : LoopAction → Option ReconnectingClient
  | .turn answers =>
    match s.pc with
    | .idle =>
      if s.loop.ended then none
      else if answers.IsCancellationRequested then s.finish settings (s.begun answers, [])
      else s.proceed settings (s.begun answers, [])
    | _ => none
  | .answered reply =>
    match s.pc with
    | .receiving u =>
      match reply.bind decodeReply with
      | some (some _) => some { s with
          discovery := SendBroadcastDiscoveryRequest reply s.discovery
          pc := .reConnecting u s.service.tasks.length }
      | _ => s.afterBroadcast settings u
    | _ => none
  | .returned =>
    match s.pc with
    | .reConnecting u i => if s.service.Ended i then s.afterBroadcast settings u else none
    | .connecting u i =>
      if s.service.Ended i then s.finish settings ({ u.1 with Connect := s.connectOutcome i }, u.2) else none
    | _ => none
  | .client a =>
    if a.isCall then none
    else (MqttClientService.step s.service a).map fun service =>
      { s with discovery := { s.discovery with service := service } }

/-- A client with its configuration, before the first turn. -/
def new (host : Option Str) (port : Int32) (configuration : Configuration) : ReconnectingClient :=
  { discovery := ⟨MqttClientService.new host port, configuration⟩ }

/-! ## What a step does -/

section Steps

variable {settings : MqttClientSettings} {s s' : ReconnectingClient} {u : Underway}

/-- The call that is awaited, if any, has ended. -/
def Returned (s : ReconnectingClient) : Prop := ∀ i, s.pc.awaited = some i → s.service.Ended i

/-- Why the loop makes a call, and what becomes of the configuration with it. -/
inductive Prompt (s s' : ReconnectingClient) (a : LoopAction) : Op → Prop
  | turn : s'.discovery.configuration = s.discovery.configuration → Prompt s s' a .Connect
  | reply (bytes : List UInt8) (st : MqttClientSettings) (u : Underway) : a = .answered (some bytes) →
      decodeReply bytes = some (some st) → s'.pc = .reConnecting u s.service.tasks.length →
      s'.discovery.configuration = setAll (updates st) s.discovery.configuration →
      Prompt s s' a (.ReConnect st.BrokerHost st.BrokerPort)

/-- What a step does to the client service: nothing, a call that the loop awaits from now on, or a step of its own. -/
inductive Effect (s s' : ReconnectingClient) (a : LoopAction) : Prop
  | none : s.Returned → s'.discovery = s.discovery → s'.pc.awaited = .none → Effect s s' a
  | call (op : Op) : s.Returned → Prompt s s' a op → s'.service = s.service.called op →
      s'.pc.awaited = some s.service.tasks.length → Effect s s' a
  | client (b : ServiceAction) : a = .client b → b.isCall = false →
      MqttClientService.step s.service b = some s'.service →
      s'.discovery.configuration = s.discovery.configuration → s'.pc = s.pc → Effect s s' a

theorem Prompt.ne_Reconnect {a : LoopAction} {op : Op} (h : Prompt s s' a op) (host : Option Str) (port : Int32) :
    op ≠ .Reconnect host port := by
  cases h with
  | turn _ => simp
  | reply _ _ _ _ _ _ _ => simp

theorem effect_finish (hreturned : s.Returned) (h : s.finish settings u = some s') (a : LoopAction) :
    Effect s s' a := by
  obtain ⟨loop, -, rfl⟩ := Option.map_eq_some_iff.mp h
  exact .none hreturned rfl rfl

theorem effect_proceed (hreturned : s.Returned) (h : s.proceed settings u = some s') (a : LoopAction) :
    Effect s s' a := by
  rw [proceed] at h
  split at h
  · exact effect_finish hreturned h _
  · cases h
    exact .none hreturned rfl rfl
  · cases h
    exact .call .Connect hreturned (.turn rfl) rfl rfl

/-- **What a step does to the client service.** -/
theorem step_cases {a : LoopAction} (h : step settings s a = some s') : Effect s s' a := by
  cases a with
  | turn answers =>
    simp only [step] at h
    split at h
    · rename_i hpc
      have hreturned : s.Returned := fun i hi => by
        rw [hpc] at hi
        cases hi
      split_ifs at h
      · exact effect_finish hreturned h _
      · exact effect_proceed hreturned h _
    · cases h
  | answered reply =>
    simp only [step] at h
    split at h
    · rename_i u hpc
      have hreturned : s.Returned := fun i hi => by
        rw [hpc] at hi
        cases hi
      split at h
      · rename_i st hst
        cases h
        obtain ⟨bytes, rfl, hbytes⟩ := Option.bind_eq_some_iff.mp hst
        have hdiscovery := SendBroadcastDiscoveryRequest_settings hbytes s.discovery
        refine .call (.ReConnect st.BrokerHost st.BrokerPort) hreturned ?_ ?_ ?_
        · refine .reply bytes st u ?_ hbytes ?_ ?_
          · rfl
          · rfl
          · dsimp only
            rw [hdiscovery]
        · dsimp only [service]
          rw [hdiscovery]
        · rfl
      · exact effect_proceed hreturned h _
    · cases h
  | returned =>
    simp only [step] at h
    split at h
    · rename_i u i hpc
      split_ifs at h with hended
      have hreturned : s.Returned := fun j hj => by
        rw [hpc] at hj
        cases hj
        exact hended
      exact effect_proceed hreturned h _
    · rename_i u i hpc
      split_ifs at h with hended
      have hreturned : s.Returned := fun j hj => by
        rw [hpc] at hj
        cases hj
        exact hended
      exact effect_finish hreturned h _
    · cases h
  | client a =>
    simp only [step] at h
    split_ifs at h with hcall
    obtain ⟨service, hservice, rfl⟩ := Option.map_eq_some_iff.mp h
    exact .client a rfl (Bool.eq_false_iff.mpr hcall) hservice rfl rfl

theorem service_step {a : LoopAction} (h : step settings s a = some s') :
    ∃ as, Run.exec MqttClientService.step s.service as = some s'.service := by
  rcases step_cases h with ⟨-, hs, -⟩ | ⟨op, -, -, hs, -⟩ | ⟨b, -, -, hs, -, -⟩
  · exact ⟨[], by rw [service, service, hs]; rfl⟩
  · exact ⟨[.call op], Run.exec_cons_eq_some.mpr ⟨_, step_call.mpr rfl, by rw [hs]; rfl⟩⟩
  · exact ⟨[b], Run.exec_cons_eq_some.mpr ⟨_, hs, rfl⟩⟩

/-- **A run of the whole is one of the client service.** -/
theorem service_run {host : Option Str} {port : Int32} {configuration : Configuration} {as : List LoopAction}
    (hrun : Run.exec (step settings) (new host port configuration) as = some s) :
    ∃ cs, Run.exec MqttClientService.step (MqttClientService.new host port) cs = some s.service := by
  refine Run.invariant (I := fun s => ∃ cs, Run.exec MqttClientService.step (MqttClientService.new host port) cs =
    some s.service) (fun s a s' hs hstep => ?_) ⟨[], rfl⟩ hrun
  obtain ⟨cs, hcs⟩ := hs
  obtain ⟨ds, hds⟩ := service_step hstep
  exact ⟨cs ++ ds, by rw [Run.exec_append, hcs]; exact hds⟩

end Steps

/-! ## The loop -/

section Loop

variable {settings : MqttClientSettings} {s s' : ReconnectingClient} {u : Underway} {next : ℤ} {turn : Turn}

/-- The loop with the turn under way. -/
def log (s : ReconnectingClient) : ReconnectLoop := { s.loop with turns := s.loop.turns ++ s.pc.underway?.toList }

/-- What a turn has done is what its `try` block does so far. -/
def Follows (settings : MqttClientSettings) (next : ℤ) : LoopPc → Prop
  | .idle => True
  | .receiving u | .reConnecting u _ =>
    u.2 = [.SendBroadcastDiscoveryRequest] ∧ u.2 <+: (tryBlock settings next u.1).effects
  | .connecting u _ => u.2 = (tryBlock settings next u.1).effects

theorem Follows.soFar {pc : LoopPc} (h : Follows settings next pc) :
    ∀ u ∈ pc.underway?, u.2 <+: (tryBlock settings next u.1).effects := by
  intro u hu
  cases pc with
  | idle => cases hu
  | receiving v =>
    cases hu
    exact h.2
  | reConnecting v i =>
    cases hu
    exact h.2
  | connecting v i =>
    cases hu
    rw [← h]

/-- The loop has behaved so far; the turn under way follows its `try` block, was not canceled, and its clock leaves
room. -/
structure TurnInv (settings : MqttClientSettings) (s : ReconnectingClient) : Prop where
  loop : LoopInv s.loop
  room : ∀ u ∈ s.pc.underway?, HasRoom u.1 ∧ u.1.IsCancellationRequested = false
  follows : Follows settings s.loop.nextDiscoveryAttemptUtc s.pc
  ended : s.loop.ended = true → s.pc = .idle

theorem finish_eq (hu : u.1.IsCancellationRequested = true ∧ u.2 = [] ∨
      u.1.IsCancellationRequested = false ∧ u.2 = (tryBlock settings s.loop.nextDiscoveryAttemptUtc u.1).effects) :
    s.finish settings u = (MqttClientReconnectService.step settings s.loop u.1).map fun loop =>
      { s with loop := loop, pc := .idle } := by
  rw [finish]
  cases hloop : MqttClientReconnectService.step settings s.loop u.1 with
  | none => rfl
  | some loop =>
    have hturns : loop.turns = s.loop.turns ++ [u] := by
      rcases MqttClientReconnectService.step_cases hloop with ⟨hcanceled, rfl⟩ | ⟨huncanceled, -, hturns, -⟩
      · rcases hu with ⟨-, hnone⟩ | ⟨h, -⟩
        · rw [← hnone]
        · cases hcanceled.symm.trans h
      · rcases hu with ⟨h, -⟩ | ⟨-, heffects⟩
        · cases huncanceled.symm.trans h
        · rw [hturns, ← heffects]
    rw [Option.map_some, Option.map_some, ← hturns]

theorem TurnInv.finish (h : LoopInv s.loop) (hroom : HasRoom u.1)
    (hu : u.1.IsCancellationRequested = true ∧ u.2 = [] ∨
      u.1.IsCancellationRequested = false ∧ u.2 = (tryBlock settings s.loop.nextDiscoveryAttemptUtc u.1).effects)
    (hs : s.finish settings u = some s') : TurnInv settings s' := by
  rw [finish_eq hu] at hs
  obtain ⟨loop, hloop, rfl⟩ := Option.map_eq_some_iff.mp hs
  exact ⟨h.step hroom hloop, fun _ h => absurd h (Option.not_mem_none _), trivial, fun _ => rfl⟩

theorem TurnInv.proceed (h : LoopInv s.loop) (hended : s.loop.ended = false) (hroom : HasRoom u.1)
    (huncanceled : u.1.IsCancellationRequested = false)
    (hu : u.2 <+: (tryBlock settings s.loop.nextDiscoveryAttemptUtc u.1).effects)
    (hs : s.proceed settings u = some s') : TurnInv settings s' := by
  have hnotEnded : ∀ pc, s.loop.ended = true → pc = LoopPc.idle := fun _ h => absurd (hended.symm.trans h) Bool.false_ne_true
  rw [ReconnectingClient.proceed] at hs
  split at hs
  · rename_i hnext
    have hall : u.2 = (tryBlock settings s.loop.nextDiscoveryAttemptUtc u.1).effects :=
      hu.eq_of_length_le (List.getElem?_eq_none_iff.mp hnext)
    exact TurnInv.finish h hroom (Or.inr ⟨huncanceled, hall⟩) hs
  · rename_i hnext
    cases hs
    obtain ⟨-, hnone, hfirst⟩ | ⟨heq, -⟩ := effect_after hroom hu hnext
    · refine ⟨h, fun v hv => ?_, ⟨?_, ?_⟩, hnotEnded _⟩
      · cases hv
        exact ⟨hroom, huncanceled⟩
      · rw [hnone, List.nil_append]
      · rw [hnone, List.nil_append]
        exact hfirst
    · cases heq
  · rename_i hnext
    cases hs
    obtain ⟨heq, -⟩ | ⟨-, hlast⟩ := effect_after hroom hu hnext
    · cases heq
    · refine ⟨h, fun v hv => ?_, hlast, hnotEnded _⟩
      cases hv
      exact ⟨hroom, huncanceled⟩

theorem TurnInv.afterBroadcast (h : TurnInv settings s) (hu : u ∈ s.pc.underway?)
    (hfollows : u.2 = [.SendBroadcastDiscoveryRequest] ∧
      u.2 <+: (tryBlock settings s.loop.nextDiscoveryAttemptUtc u.1).effects)
    (hs : s.afterBroadcast settings u = some s') : TurnInv settings s' := by
  obtain ⟨hroom, huncanceled⟩ := h.room u hu
  obtain ⟨hbroadcast, hsoFar⟩ := hfollows
  have hended : s.loop.ended = false := by
    by_contra hended
    rw [h.ended (Bool.eq_true_of_not_eq_false hended)] at hu
    cases hu
  have hroom' : HasRoom (s.again u.1) := hroom
  refine TurnInv.proceed (u := (s.again u.1, u.2)) h.loop hended hroom' huncanceled ?_ hs
  rw [hbroadcast] at hsoFar ⊢
  obtain ⟨hflags, hdue⟩ := (broadcasts_iff hroom).mp hsoFar
  exact (broadcasts_iff hroom').mpr ⟨hflags, hdue⟩

/-- **The loop is well behaved, the turn under way included.** -/
theorem TurnInv.wellBehaved (h : TurnInv settings s) : WellBehaved s.log := by
  cases hu : s.pc.underway? with
  | none =>
    have hlog : s.log = s.loop := by rw [log, hu, Option.toList_none, List.append_nil]
    rw [hlog]
    exact h.loop.wellBehaved
  | some u =>
    have hmem : u ∈ s.pc.underway? := hu
    have hended : s.loop.ended = true → False := fun hended => by
      rw [h.ended hended] at hu
      cases hu
    let after : ReconnectLoop :=
      ⟨(tryBlock settings s.loop.nextDiscoveryAttemptUtc u.1).nextDiscoveryAttemptUtc, s.loop.ended, s.loop.turns ++ [u]⟩
    have hafter : LoopInv after :=
      h.loop.append_block (h.room u hmem).1 (h.follows.soFar u hmem) rfl rfl fun h => (hended h).elim
    obtain ⟨hspaced, hguarded, honce, hskipped, hends⟩ := hafter.wellBehaved
    have hlog : s.log.turns = after.turns := by rw [log, hu]; rfl
    exact ⟨hlog ▸ hspaced, hlog ▸ hguarded, hlog ▸ honce, hlog ▸ hskipped, fun h => (hended h).elim⟩

end Loop

/-! ## The calls -/

section Calls

variable {settings : MqttClientSettings} {s s' : ReconnectingClient}

/-- A call under way is the one that is awaited. -/
def Calm (s : ReconnectingClient) : Prop :=
  ∀ i pc, s.service.tasks[i]? = some pc → s.pc.awaited = some i ∨ pc = .completed ∨ pc = .threw

/-- Every call but the awaited one has ended, and while that one goes on after its disconnect nothing is connected. -/
structure CallInv (s : ReconnectingClient) : Prop where
  calm : s.Calm
  gap : ∀ (i : ℕ) (k : Then), s.service.tasks[i]? = some (Pc.disconnected k) → s.service.live = false
  target : BoundInv s.service

theorem Calm.ended (h : s.Calm) (hreturned : s.Returned) {i : ℕ} {pc : Pc} (hi : s.service.tasks[i]? = some pc) :
    pc = .completed ∨ pc = .threw := by
  rcases h i pc hi with hawaited | hended
  · rcases hreturned i hawaited with h | h
    · exact Or.inl (Option.some_inj.mp (hi.symm.trans h))
    · exact Or.inr (Option.some_inj.mp (hi.symm.trans h))
  · exact hended

theorem Calm.awaited (h : s.Calm) {i : ℕ} {pc : Pc} (hi : s.service.tasks[i]? = some pc)
    (hpc : pc ≠ .completed ∧ pc ≠ .threw) : s.pc.awaited = some i :=
  (h i pc hi).resolve_right fun hended => hended.elim hpc.1 hpc.2

theorem Calm.called (h : s.Calm) (hreturned : s.Returned) {op : Op} (hs : s'.service = s.service.called op)
    (hpc : s'.pc.awaited = some s.service.tasks.length) : s'.Calm := by
  intro i pc hi
  rw [hs, MqttClientService.called] at hi
  by_cases hlt : i < s.service.tasks.length
  · rw [List.getElem?_append_left hlt] at hi
    exact Or.inr (h.ended hreturned hi)
  · have hle := (List.getElem?_eq_some_iff.mp hi).1
    rw [List.length_append, List.length_singleton] at hle
    have hlast : i = s.service.tasks.length := by omega
    exact Or.inl (hpc.trans (congrArg some hlast.symm))

theorem length_tasks_client {t t' : MqttClientService} {a : ServiceAction} (ha : a.isCall = false)
    (hs : MqttClientService.step t a = some t') : t'.tasks.length = t.tasks.length := by
  cases a with
  | call op => cases ha
  | disconnectDone i =>
    obtain ⟨k, -, rfl⟩ := step_disconnectDone.mp hs
    exact List.length_set
  | resume i =>
    obtain ⟨k, -, rfl⟩ := step_resume.mp hs
    rw [setTask, goOn_tasks]
    exact List.length_set
  | connectResult i ok =>
    obtain ⟨-, ⟨-, -, rfl⟩ | ⟨-, -, rfl⟩ | ⟨-, rfl⟩⟩ := step_connectResult.mp hs
    · exact List.length_set
    · exact List.length_set
    · exact List.length_set
  | connectedCallback i =>
    obtain ⟨-, rfl⟩ := step_connectedCallback.mp hs
    exact List.length_set
  | connectFinally i =>
    obtain ⟨-, rfl⟩ := step_connectFinally.mp hs
    exact List.length_set
  | drop =>
    obtain ⟨-, rfl⟩ := step_drop.mp hs
    rfl
  | disconnectedCallback =>
    obtain ⟨-, rfl⟩ := step_disconnectedCallback.mp hs
    rfl

theorem Calm.client (h : s.Calm) {a : ServiceAction} (ha : a.isCall = false)
    (hs : MqttClientService.step s.service a = some s'.service) (hpc : s'.pc = s.pc) : s'.Calm := by
  intro i pc hi
  rw [hpc]
  rcases tasks_step hs with ⟨new, ht⟩ | ht | ⟨j, old, new, hj, hadv, ht⟩
  · have hlength := length_tasks_client ha hs
    rw [ht, List.length_append, List.length_singleton] at hlength
    omega
  · rw [ht] at hi
    exact h i pc hi
  · by_cases hij : j = i
    · subst hij
      refine Or.inl (h.awaited hj ?_)
      cases hadv <;> simp
    · rw [ht, List.getElem?_set_ne hij] at hi
      exact h i pc hi

theorem goOn_ne_disconnected (i : ℕ) (k k' : Then) (t : MqttClientService) : (goOn i k t).2 ≠ .disconnected k' := by
  cases k with
  | nothing => simp [goOn]
  | reConnect host port => exact (Connect_pc i (t.setEndpoint host port) k').2
  | reconnect host port => exact (Connect_pc i (t.clearFlags.setEndpoint host port) k').2

theorem start_ne_disconnected (i : ℕ) {op : Op} (hop : ∀ host port, op ≠ .Reconnect host port) (k : Then)
    (t : MqttClientService) : (t.start i op).2 ≠ .disconnected k := by
  have hdis : ∀ k', (t.Disconnect i k').2 ≠ .disconnected k := by
    intro k'
    rcases Disconnect_cases i k' t with ⟨-, h⟩ | h
    · rw [h]
      exact goOn_ne_disconnected i k' k t
    · rw [h]
      simp
  cases op with
  | Connect => exact (Connect_pc i t k).2
  | ReConnect host port => exact hdis _
  | Reconnect host port => exact absurd rfl (hop host port)
  | Disconnect => exact hdis _

theorem Calm.no_gap (h : s.Calm) {i j : ℕ} {old new : Pc} {k : Then} (hi : s.service.tasks[i]? = some old)
    (hold : old ≠ .completed ∧ old ≠ .threw) (hnew : new ≠ .disconnected k) :
    (s.service.tasks.set i new)[j]? ≠ some (.disconnected k) := by
  intro hj
  by_cases hij : i = j
  · subst hij
    rw [List.getElem?_set_self (List.getElem?_eq_some_iff.mp hi).1] at hj
    exact hnew (Option.some_inj.mp hj)
  · rw [List.getElem?_set_ne hij] at hj
    have hawaited := (h.awaited hi hold).symm.trans (h.awaited hj (by simp))
    exact hij (Option.some_inj.mp hawaited)

/-- **While the awaited call is between its disconnect and its connect, nothing is connected.** -/
theorem CallInv.gap_client (h : CallInv s) {a : ServiceAction} (ha : a.isCall = false)
    (hs : MqttClientService.step s.service a = some s'.service) (j : ℕ) (k' : Then)
    (hj : s'.service.tasks[j]? = some (.disconnected k')) : s'.service.live = false := by
  cases a with
  | call op => cases ha
  | disconnectDone i =>
    obtain ⟨k, -, heq⟩ := step_disconnectDone.mp hs
    rw [heq]
    rfl
  | resume i =>
    obtain ⟨k, hk, heq⟩ := step_resume.mp hs
    rw [heq, setTask, goOn_tasks] at hj
    exact absurd hj (h.calm.no_gap hk (by simp) (goOn_ne_disconnected i k k' _))
  | connectResult i ok =>
    obtain ⟨hi, ⟨-, -, heq⟩ | ⟨-, -, heq⟩ | ⟨-, heq⟩⟩ := step_connectResult.mp hs
    · rw [heq] at hj
      exact absurd hj (h.calm.no_gap hi (by simp) (by simp))
    · rw [heq] at hj
      exact absurd hj (h.calm.no_gap hi (by simp) (by simp))
    · rw [heq] at hj
      exact absurd hj (h.calm.no_gap hi (by simp) (by simp))
  | connectedCallback i =>
    obtain ⟨hi, heq⟩ := step_connectedCallback.mp hs
    rw [heq] at hj
    exact absurd hj (h.calm.no_gap hi (by simp) (by simp))
  | connectFinally i =>
    obtain ⟨hi, heq⟩ := step_connectFinally.mp hs
    rw [heq] at hj
    exact absurd hj (h.calm.no_gap hi (by simp) (by simp))
  | drop =>
    obtain ⟨-, heq⟩ := step_drop.mp hs
    rw [heq]
    rfl
  | disconnectedCallback =>
    obtain ⟨-, heq⟩ := step_disconnectedCallback.mp hs
    rw [heq] at hj ⊢
    exact h.gap j k' hj

/-- In the gap a target may be set, since nothing is connected. -/
theorem CallInv.bound (h : CallInv s) {a : ServiceAction} (ha : a.isCall = false) : s.service.Bound a := by
  cases a with
  | call op => cases ha
  | resume i => exact fun k _ hk _ hlive => absurd ((h.gap i k hk).symm.trans hlive) Bool.false_ne_true
  | disconnectDone i => trivial
  | connectResult i ok => trivial
  | connectedCallback i => trivial
  | connectFinally i => trivial
  | drop => trivial
  | disconnectedCallback => trivial

theorem callInv_step (h : CallInv s) {a : LoopAction} (hs : step settings s a = some s') : CallInv s' := by
  cases step_cases hs with
  | none hreturned hdiscovery hawaited =>
    have hservice : s'.service = s.service := congrArg DiscoveryState.service hdiscovery
    refine ⟨fun i pc hi => ?_, ?_, ?_⟩
    · rw [hservice] at hi
      exact Or.inr (h.calm.ended hreturned hi)
    · rw [hservice]
      exact h.gap
    · rw [hservice]
      exact h.target
  | call op hreturned hprompt hservice hawaited =>
    refine ⟨h.calm.called hreturned hservice hawaited, fun i k hi => ?_, ?_⟩
    · rw [hservice, MqttClientService.called] at hi
      by_cases hlt : i < s.service.tasks.length
      · rw [List.getElem?_append_left hlt] at hi
        rcases h.calm.ended hreturned hi with h | h <;> cases h
      · rw [List.getElem?_append_right (Nat.not_lt.mp hlt)] at hi
        have hpc := List.mem_singleton.mp (List.mem_of_getElem? hi)
        exact absurd hpc.symm (start_ne_disconnected _ hprompt.ne_Reconnect k _)
    · rw [hservice]
      refine boundInv_step h.target (a := .call op) ?_ (step_call.mpr rfl)
      cases op with
      | Reconnect host port => exact absurd rfl (hprompt.ne_Reconnect host port)
      | Connect => trivial
      | ReConnect host port => trivial
      | Disconnect => trivial
  | client b _ hb hservice _ hpc =>
    exact ⟨h.calm.client hb hservice hpc, h.gap_client hb hservice, boundInv_step h.target (h.bound hb) hservice⟩

theorem callInv_new (host : Option Str) (port : Int32) (configuration : Configuration) :
    CallInv (new host port configuration) := by
  have htasks : (new host port configuration).service.tasks = [] := rfl
  refine ⟨fun i pc hi => ?_, fun i k hi => ?_, boundInv_new host port⟩
  · rw [htasks] at hi
    cases hi
  · rw [htasks] at hi
    cases hi

end Calls

/-! ## The log -/

section Log

variable {settings : MqttClientSettings} {s s' : ReconnectingClient} {u : Underway}

end Log

/-! ## Runs -/

variable {settings : MqttClientSettings} {s s' : ReconnectingClient}

/-- A client that connects. -/
def connectRun : List LoopAction :=
  [.turn { UtcNow := ticksPerDay }, .client (.connectResult 0 true), .client (.connectedCallback 0),
    .client (.connectFinally 0), .returned]

/-- The callback of a connection comes while it lasts, or before the one of its end. -/
def InOrder (s : ReconnectingClient) : LoopAction → Prop
  | .client (.connectedCallback _) => s.service.connected = true ∨ s.service.Closing
  | _ => True

/-- The flag is set only while there is a connection, or the callback of its end is to come. -/
def LiveInv (s : MqttClientService) : Prop := s.IsConnected = true → s.connected = true ∨ s.Closing

theorem LiveInv.of_kept {t u : MqttClientService} (h : LiveInv t) (hk : Kept t u) : LiveInv u := by
  intro hflag
  rcases h (hk.IsConnected.symm.trans hflag) with hc | ⟨hc, hclosing⟩
  · exact Or.inl (hk.connected.trans hc)
  · exact Or.inr ⟨hk.connected.trans hc, hclosing.imp (fun h => hk.callbacks ▸ h) hk.disconnecting.mpr⟩

theorem liveInv_cleared {t u : MqttClientService} (hk : Kept t.clearFlags u) : LiveInv u :=
  fun hflag => absurd (hk.IsConnected.symm.trans hflag) Bool.false_ne_true

theorem liveInv_closed (t : MqttClientService) : LiveInv t.closed := fun _ => Or.inr ⟨rfl, Or.inl (Nat.succ_pos _)⟩

theorem liveInv_service {t u : MqttClientService} (h : LiveInv t) {a : ServiceAction}
    (horder : ∀ i, a = .connectedCallback i → t.connected = true ∨ t.Closing)
    (hs : MqttClientService.step t a = some u) : LiveInv u := by
  cases a with
  | call op =>
    rw [step_call.mp hs]
    rcases start_cases t.tasks.length op t with hk | ⟨-, hk⟩ | ⟨k, hk⟩
    · have hkept := h.of_kept hk
      exact fun hflag => hkept hflag
    · have hcleared := liveInv_cleared hk
      exact fun hflag => hcleared hflag
    · rw [MqttClientService.called, hk]
      exact fun _ => Or.inr ⟨rfl, Or.inr rfl⟩
  | disconnectDone i =>
    obtain ⟨k, -, rfl⟩ := step_disconnectDone.mp hs
    exact liveInv_closed t
  | resume i =>
    obtain ⟨k, -, rfl⟩ := step_resume.mp hs
    rcases kept_goOn i k t with hk | ⟨-, hk⟩
    · have hkept := h.of_kept hk
      exact fun hflag => hkept hflag
    · have hcleared := liveInv_cleared hk
      exact fun hflag => hcleared hflag
  | connectResult i ok =>
    obtain ⟨-, ⟨-, -, rfl⟩ | ⟨-, -, rfl⟩ | ⟨-, rfl⟩⟩ := step_connectResult.mp hs
    · exact fun _ => Or.inl rfl
    · exact liveInv_closed t
    · exact h
  | connectedCallback i =>
    obtain ⟨-, rfl⟩ := step_connectedCallback.mp hs
    exact fun _ => horder i rfl
  | connectFinally i =>
    obtain ⟨-, rfl⟩ := step_connectFinally.mp hs
    exact h
  | drop =>
    obtain ⟨-, rfl⟩ := step_drop.mp hs
    exact liveInv_closed t
  | disconnectedCallback =>
    obtain ⟨-, rfl⟩ := step_disconnectedCallback.mp hs
    exact fun hflag => absurd hflag Bool.false_ne_true

theorem liveInv_step {a : LoopAction} (h : LiveInv s.service) (horder : s.InOrder a) (hs : step settings s a = some s') :
    LiveInv s'.service := by
  cases step_cases hs with
  | none _ hdiscovery _ =>
    rw [service, hdiscovery]
    exact h
  | call op _ _ hservice _ =>
    rw [hservice]
    refine liveInv_service (a := .call op) h (fun i hi => ?_) (step_call.mpr rfl)
    cases hi
  | client b hb _ hservice _ _ =>
    subst hb
    exact liveInv_service h (fun i hi => by subst hi; exact horder) hservice

theorem called_Connect_attempts {t : MqttClientService} (hm : t.mqttClient = some .disconnected)
    (hconnecting : t.IsConnecting = false) (hv : validEndpoint t.BrokerHost t.BrokerPort = true) :
    (t.called .Connect).attempts = t.attempts ++ [t.target] ∧ (t.called .Connect).live = true := by
  simp [MqttClientService.called, start, Connect, hm, hconnecting, hv, target, live]

/-- Between two turns every call has ended, so the flag of a connect is clear. -/
theorem not_connecting_of_idle (hcalm : s.Calm) (hbusy : BusyInv s.service) (hidle : s.pc = .idle) :
    s.service.IsConnecting = false := by
  by_contra h
  obtain ⟨pc, hmem, hpc⟩ := hbusy (Bool.eq_true_of_not_eq_false h)
  obtain ⟨i, hi⟩ := List.mem_iff_getElem?.mp hmem
  have hreturned : s.Returned := fun j hj => by
    rw [hidle] at hj
    cases hj
  rcases hcalm.ended hreturned hi with rfl | rfl
  · simp at hpc
  · simp at hpc

/-- Between two turns the client is connected or disconnected. -/
theorem disconnected_of_idle (hcalm : s.Calm) (hstatus : StatusInv s.service) (hidle : s.pc = .idle)
    (hclient : s.service.mqttClient ≠ none) (hlost : s.service.connected = false) :
    s.service.mqttClient = some .disconnected := by
  have hreturned : s.Returned := fun j hj => by
    rw [hidle] at hj
    cases hj
  cases hm : s.service.mqttClient with
  | none => exact absurd hm hclient
  | some status =>
    cases status with
    | disconnected => rfl
    | connecting i => rcases hcalm.ended hreturned (hstatus.connecting i hm) with h | h <;> cases h
    | connected => simp [connected, hm] at hlost
    | disconnecting =>
      obtain ⟨i, k, hk⟩ := hstatus.disconnecting hm
      rcases hcalm.ended hreturned hk with h | h <;> cases h

theorem disconnected_of_lost {host : Option Str} {port : Int32} {configuration : Configuration} {as : List LoopAction}
    (hrun : Run.exec (step settings) (new host port configuration) as = some s)
    (horder : Run.Meets (step settings) InOrder (new host port configuration) as)
    (hhost : IsNullOrEmpty host = false) (hidle : s.pc = .idle) (hcallbacks : s.service.callbacks = 0)
    (hlost : s.service.connected = false) :
    s.service.mqttClient = some .disconnected ∧ s.service.IsConnected = false ∧ s.service.IsConnecting = false := by
  obtain ⟨cs, hcs⟩ := service_run hrun
  have hcalm : s.Calm :=
    (Run.invariant (fun _ _ _ h hs => callInv_step h hs) (callInv_new host port configuration) hrun).calm
  have hstatus : StatusInv s.service := Run.invariant (fun _ _ _ h hs => statusInv_step h hs) (statusInv_new host port) hcs
  have hbusy : BusyInv s.service := Run.invariant (fun _ _ _ h hs => busyInv_step h hs) (busyInv_new host port) hcs
  have hlive : LiveInv s.service := Run.invariant_of_meets (I := fun s => LiveInv s.service)
    (fun _ _ _ h ho hs => liveInv_step h ho hs) (fun hflag => by
      unfold new MqttClientService.new service at hflag
      cases hflag) horder hrun
  have hm := disconnected_of_idle hcalm hstatus hidle ((client_iff hcs).mpr hhost) hlost
  refine ⟨hm, ?_, not_connecting_of_idle hcalm hbusy hidle⟩
  by_contra hflag
  rcases hlive (Bool.eq_true_of_not_eq_false hflag) with hc | ⟨-, hpos | hdis⟩
  · exact Bool.false_ne_true (hlost.symm.trans hc)
  · omega
  · cases hm.symm.trans hdis

theorem step_turn (hidle : s.pc = .idle) (hended : s.loop.ended = false) {answers : Turn}
    (huncanceled : answers.IsCancellationRequested = false) :
    step settings s (.turn answers) = s.proceed settings (s.begun answers, []) := by
  simp only [step, hidle, hended, huncanceled, Bool.false_eq_true, if_false]

theorem step_turn_of_due (hidle : s.pc = .idle) (hended : s.loop.ended = false) {answers : Turn}
    (huncanceled : answers.IsCancellationRequested = false) (hflags : Unflagged (s.begun answers))
    (hroom : HasRoom answers) (hdue : Due settings s.loop.nextDiscoveryAttemptUtc answers) :
    step settings s (.turn answers) = some (s.receivingIn (s.begun answers, [])) := by
  have hroom' : HasRoom (s.begun answers) := hroom
  have hdue' : Due settings s.loop.nextDiscoveryAttemptUtc (s.begun answers) := hdue
  rw [step_turn hidle hended huncanceled, proceed, effects_of_due hflags hroom' hdue']
  rfl

theorem step_answered_of_not_finds {u : Underway} (hpc : s.pc = .receiving u) {reply : Option (List UInt8)}
    (hnone : (LoopAction.answered reply).finds = false) :
    step settings s (.answered reply) = s.afterBroadcast settings u := by
  simp only [step, hpc]
  split
  · rename_i st hst
    rw [LoopAction.finds, hst] at hnone
    cases hnone
  · rfl

/-- **A connection that was lost is sought again in the next turn**, where the callbacks came in order and have all run:
whatever happened before, an idle client with a valid target sets out for it; where a broadcast is due, once the wait
for its answer has ended without settings. -/
theorem connects_next {host : Option Str} {port : Int32} {configuration : Configuration} {as : List LoopAction}
    (hrun : Run.exec (step settings) (new host port configuration) as = some s)
    (horder : Run.Meets (step settings) InOrder (new host port configuration) as)
    (hhost : IsNullOrEmpty host = false) (hidle : s.pc = .idle) (hended : s.loop.ended = false)
    (hcallbacks : s.service.callbacks = 0) (hlost : s.service.connected = false)
    (hv : validEndpoint s.service.BrokerHost s.service.BrokerPort = true) {answers : Turn} (hroom : HasRoom answers)
    (huncanceled : answers.IsCancellationRequested = false) :
    (¬ Due settings s.loop.nextDiscoveryAttemptUtc answers → ∃ s', step settings s (.turn answers) = some s' ∧
      s'.service.attempts = s.service.attempts ++ [s.service.target] ∧ s'.service.live = true) ∧
    (Due settings s.loop.nextDiscoveryAttemptUtc answers → ∀ reply, (LoopAction.answered reply).finds = false →
      ∃ s', Run.exec (step settings) s [.turn answers, .answered reply] = some s' ∧
        s'.service.attempts = s.service.attempts ++ [s.service.target] ∧ s'.service.live = true) := by
  obtain ⟨hm, hconnected, hconnecting⟩ := disconnected_of_lost hrun horder hhost hidle hcallbacks hlost
  have hattempts := called_Connect_attempts hm hconnecting hv
  have hflags : Unflagged (s.begun answers) := ⟨hconnected, hconnecting⟩
  constructor
  · intro hdue
    refine ⟨s.connectingIn (s.begun answers, []), ?_, hattempts⟩
    have hdue' : ¬ Due settings s.loop.nextDiscoveryAttemptUtc (s.begun answers) := hdue
    rw [step_turn hidle hended huncanceled, proceed, effects_of_not_due hflags hdue']
    rfl
  · intro hdue reply hnone
    have hreceives := step_turn_of_due hidle hended huncanceled hflags hroom hdue
    let t := s.receivingIn (s.begun answers, [])
    let u : Underway := (t.again (s.begun answers), [.SendBroadcastDiscoveryRequest])
    have hafter : (u.1.IsConnectingAfter || u.1.IsConnectedAfter) = false := by
      change (s.service.IsConnecting || s.service.IsConnected) = false
      rw [hconnecting, hconnected, Bool.or_self]
    have hflags' : Unflagged u.1 := hflags
    have hroom' : HasRoom u.1 := hroom
    have hdue' : Due settings t.loop.nextDiscoveryAttemptUtc u.1 := hdue
    have heffects : (tryBlock settings t.loop.nextDiscoveryAttemptUtc u.1).effects =
        [.SendBroadcastDiscoveryRequest, .Connect] := by
      rw [effects_of_due hflags' hroom' hdue', hafter]
      rfl
    have hconnects : step settings t (.answered reply) = some (t.connectingIn u) := by
      rw [step_answered_of_not_finds (u := (s.begun answers, [.SendBroadcastDiscoveryRequest])) rfl hnone]
      change t.proceed settings u = _
      rw [proceed, heffects]
      rfl
    exact ⟨t.connectingIn u, Run.exec_cons_eq_some.mpr ⟨t, hreceives, Run.exec_cons_eq_some.mpr ⟨_, hconnects, rfl⟩⟩,
      hattempts⟩

/-- The connection is dropped, and the callback of its end runs. -/
def lostRun : List LoopAction := connectRun ++ [.client .drop, .client .disconnectedCallback]

theorem connects_next_lost :
    (∃ s s', Run.exec (step {}) (new (some "broker".toList) 1883 none) lostRun = some s ∧
      step {} s (.turn { UtcNow := ticksPerDay }) = some s' ∧
      s'.service.attempts = s.service.attempts ++ [(some "broker".toList, 1883)] ∧ s'.service.live = true) ∧
    ∃ s', Run.exec (step searchingSettings) (new (some "broker".toList) 1883 none)
        [.turn { UtcNow := ticksPerDay }, .answered none] = some s' ∧
      s'.service.attempts = [(some "broker".toList, 1883)] ∧ s'.service.live = true := by
  have hroom : HasRoom { UtcNow := ticksPerDay } := by decide
  constructor
  · have hrun : ∃ s, Run.exec (step {}) (new (some "broker".toList) 1883 none) lostRun = some s ∧ s.pc = .idle ∧
        s.loop.ended = false ∧ s.service.callbacks = 0 ∧ s.service.connected = false ∧
        s.service.target = (some "broker".toList, 1883) := ⟨_, rfl, rfl, rfl, rfl, rfl, rfl⟩
    have horder : Run.Meets (step {}) InOrder (new (some "broker".toList) 1883 none) lostRun := by
      refine Run.Meets.cons (a := LoopAction.turn _) rfl trivial ?_
      refine Run.Meets.cons (a := LoopAction.client (.connectResult 0 true)) rfl trivial ?_
      refine Run.Meets.cons (a := LoopAction.client (.connectedCallback 0)) rfl (Or.inl rfl) ?_
      refine Run.Meets.cons (a := LoopAction.client (.connectFinally 0)) rfl trivial ?_
      refine Run.Meets.cons (a := LoopAction.returned) rfl trivial ?_
      refine Run.Meets.cons (a := LoopAction.client .drop) rfl trivial ?_
      exact Run.Meets.cons (a := LoopAction.client .disconnectedCallback) rfl trivial trivial
    obtain ⟨s, hs, hidle, hended, hcallbacks, hlost, htarget⟩ := hrun
    have hv : validEndpoint s.service.BrokerHost s.service.BrokerPort = true := by
      rw [target, Prod.mk.injEq] at htarget
      rw [htarget.1, htarget.2]
      decide
    obtain ⟨s', hstep, hattempts, hlive⟩ := (connects_next hs horder (by decide) hidle hended hcallbacks hlost hv hroom
      rfl).1 fun hdue => Bool.false_ne_true hdue.1
    rw [htarget] at hattempts
    exact ⟨s, s', hs, hstep, hattempts, hlive⟩
  · have hrun : Run.exec (step searchingSettings) (new (some "broker".toList) 1883 none) [] =
        some (new (some "broker".toList) 1883 none) := rfl
    exact (connects_next hrun trivial (by decide) rfl rfl rfl rfl (by decide) hroom rfl).2 ⟨rfl, by decide⟩ none rfl

end ReconnectingClient

end MqttServices
