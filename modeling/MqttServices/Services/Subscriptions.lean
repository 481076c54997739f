import MqttServices.Client.Flags
import MqttServices.Services.Exchange

/-!
# Subscriptions over reconnects

* `Requester`: a messaging manager over its client service, the subscriptions of the present broker
  session, the runs of the `ClientConnected` handler and the calls of `SendMessageRequest`.
* `Requester.step`: a step of the client service, of a handler or of a call.
* **`base_topics_restored`**: in every run a finished handler leaves its session with the base topics.
* **`responses_restored`**: the response topics survive in the runs that connect only while no request
  is past its `Subscribe`.
* `connect_loses_response`: after any other connect, finishing what is under way shows the loss.
-/

namespace MqttServices

/-- A run of `MqttClientService_ClientConnected`. -/
structure HandlerRun where
  /-- the call that established the connection the run belongs to -/
  connection : ℕ
  pending : List Str
  /-- every topic so far was subscribed -/
  acknowledged : Bool
  deriving DecidableEq

/-- Where a call of `SendMessageRequest` for an exchange stands. -/
inductive RequestPc where
  | gate (exchangeName : Option Str)
  | subscribe (exchangeName : Option Str)
  | publish (exchangeName : Option Str)
  /-- returned its identifier -/
  | returned (exchangeName : Option Str)
  /-- returned `Guid.Empty` -/
  | refused
  | threw
  deriving DecidableEq

/-- A messaging manager that sends requests. -/
structure Requester where
  service : MqttClientService
  /-- the call that established the present or last connection -/
  connection : Option ℕ
  /-- the topics subscribed over that connection -/
  session : List Str
  handlers : List HandlerRun
  requests : List RequestPc
  deriving DecidableEq

namespace Requester

/-- A step. The answer to a subscription is `none` where `SubscribeAsync` throws, and else whether the
broker granted it. -/
inductive Action (V : Type) where
  | service (a : ServiceAction)
  | handler (j : ℕ) (answer : Option Bool)
  | request (c : RequestCall V)
  | gate (r : ℕ)
  | subscribe (r : ℕ) (answer : Option Bool)
  | publish (r : ℕ)

/-- A manager over a new service. -/
def new (host : Option Str) (port : Int32) : Requester := ⟨MqttClientService.new host port, none, [], [], []⟩

/-- Call `i` has established a connection: a new session, without subscriptions. -/
def established (i : ℕ) (s : Requester) : Requester := { s with connection := some i, session := [] }

/-- `ClientConnected` is raised on behalf of call `i`. -/
def clientConnected (k : Str) (i : ℕ) (s : Requester) : Requester :=
  { s with handlers := s.handlers ++ [⟨i, baseTopics k, true⟩] }

/-- What a step of the service means for the manager. -/
def notice (k : Str) (s : Requester) : ServiceAction → Requester
  | .connectResult i true => if s.service.mqttClient = some (.connecting i) then s.established i else s
  | .connectedCallback i => s.clientConnected k i
  | _ => s

/-- `Subscribe` of a topic: without a connection nothing is sent. -/
def subscribed (topic : Str) (answer : Option Bool) (s : Requester) : Requester :=
  if s.service.connected = true ∧ answer = some true then { s with session := topic :: s.session } else s

/-- One await of the handler; an exception ends it. -/
def handlerStep (h : HandlerRun) (answer : Option Bool) (s : Requester) : HandlerRun :=
  if s.service.connected = true ∧ answer = none then { h with pending := [], acknowledged := false }
  else { h with
    pending := h.pending.tail
    acknowledged := h.acknowledged && s.service.connected && answer = some true }

/-- One step; `none` where the action cannot be taken. -/
def step {V : Type} (rt : Runtime V) (k : Str) (s : Requester) : Action V → Option Requester
  | .service a => (s.service.step a).map fun service => { s.notice k a with service := service }
  | .handler j answer =>
    match s.handlers[j]? with
    | none => none
    | some h =>
      match h.pending with
      | [] => none
      | topic :: _ => some { s.subscribed topic answer with handlers := s.handlers.set j (s.handlerStep h answer) }
  | .request c =>
    match c.request rt with
    | none => some { s with requests := s.requests ++ [.threw] }
    | some q => some { s with requests := s.requests ++ [.gate q.exchangeName] }
  | .gate r =>
    match s.requests[r]? with
    | some (.gate x) =>
      some { s with requests := s.requests.set r (if s.service.IsConnected then .subscribe x else .refused) }
    | _ => none
  | .subscribe r answer =>
    match s.requests[r]? with
    | some (.subscribe x) =>
      if s.service.mqttClient = none ∨ s.service.connected = true ∧ answer = none then
        some { s with requests := s.requests.set r .threw }
      else some { s.subscribed (GetResponseTopic k x) answer with requests := s.requests.set r (.publish x) }
    | _ => none
  | .publish r =>
    match s.requests[r]? with
    | some (.publish x) =>
      if s.service.mqttClient = none then some { s with requests := s.requests.set r .threw }
      else some { s with requests := s.requests.set r (.returned x) }
    | _ => none

/-- The handler of the present connection has run to its end, every topic subscribed. -/
def HandlerDone (s : Requester) : Prop :=
  ∃ h ∈ s.handlers, s.connection = some h.connection ∧ h.pending = [] ∧ h.acknowledged = true

/-- A request for the exchange is past its `Subscribe`. -/
def Past (s : Requester) (x : Option Str) : Prop := .publish x ∈ s.requests ∨ .returned x ∈ s.requests

/-! ## What a step can do -/

section Steps

variable {V : Type} {rt : Runtime V} {k : Str} {s s' : Requester}

theorem step_service {a : ServiceAction} : step rt k s (.service a) = some s' ↔
    ∃ service, s.service.step a = some service ∧ s' = { s.notice k a with service := service } := by
  rw [step, Option.map_eq_some_iff]
  exact exists_congr fun _ => and_congr_right fun _ => eq_comm

theorem step_handler {j : ℕ} {answer : Option Bool} (h : step rt k s (.handler j answer) = some s') :
    ∃ run topic rest, s.handlers[j]? = some run ∧ run.pending = topic :: rest ∧
      s' = { s.subscribed topic answer with handlers := s.handlers.set j (s.handlerStep run answer) } := by
  simp only [step] at h
  split at h
  · cases h
  · rename_i run hrun
    split at h
    · cases h
    · rename_i topic rest hpending
      cases h
      exact ⟨run, topic, rest, hrun, hpending, rfl⟩

theorem step_request {c : RequestCall V} (h : step rt k s (.request c) = some s') :
    ∃ pc, (∀ x, pc ≠ .publish x ∧ pc ≠ .returned x) ∧ s' = { s with requests := s.requests ++ [pc] } := by
  simp only [step] at h
  split at h
  · cases h
    exact ⟨_, by simp, rfl⟩
  · cases h
    exact ⟨_, by simp, rfl⟩

theorem step_gate {r : ℕ} (h : step rt k s (.gate r) = some s') :
    ∃ pc, (∀ x, pc ≠ .publish x ∧ pc ≠ .returned x) ∧ s' = { s with requests := s.requests.set r pc } := by
  simp only [step] at h
  split at h
  · rename_i x hx
    cases h
    refine ⟨_, fun y => ?_, rfl⟩
    split_ifs <;> simp
  · cases h

theorem step_subscribe {r : ℕ} {answer : Option Bool} (h : step rt k s (.subscribe r answer) = some s') :
    s' = { s with requests := s.requests.set r .threw } ∨
      ∃ x, (s.service.connected = true → answer ≠ none) ∧
        s' = { s.subscribed (GetResponseTopic k x) answer with requests := s.requests.set r (.publish x) } := by
  simp only [step] at h
  split at h
  · rename_i x hx
    split_ifs at h with hthrow
    · cases h
      exact Or.inl rfl
    · cases h
      exact Or.inr ⟨x, fun hc ha => hthrow (Or.inr ⟨hc, ha⟩), rfl⟩
  · cases h

theorem step_publish {r : ℕ} (h : step rt k s (.publish r) = some s') :
    s' = { s with requests := s.requests.set r .threw } ∨
      ∃ x, s.requests[r]? = some (.publish x) ∧ s' = { s with requests := s.requests.set r (.returned x) } := by
  simp only [step] at h
  split at h
  · rename_i x hx
    split_ifs at h
    · cases h
      exact Or.inl rfl
    · cases h
      exact Or.inr ⟨x, hx, rfl⟩
  · cases h

/-! ## Pieces of the steps -/

theorem notice_handlers (a : ServiceAction) :
    (s.notice k a).handlers = s.handlers ∨
      ∃ i, a = .connectedCallback i ∧ s.notice k a = s.clientConnected k i := by
  unfold notice
  split
  · split_ifs
    · exact Or.inl rfl
    · exact Or.inl rfl
  · exact Or.inr ⟨_, rfl, rfl⟩
  · exact Or.inl rfl

/-- A step of the service starts a new session or leaves the session as it is. -/
theorem notice_session (a : ServiceAction) :
    (∃ i, a = .connectResult i true ∧ s.service.mqttClient = some (.connecting i) ∧ s.notice k a = s.established i) ∨
      (s.notice k a).connection = s.connection ∧ (s.notice k a).session = s.session := by
  unfold notice
  split
  · rename_i i
    split_ifs with h
    · exact Or.inl ⟨i, rfl, h, rfl⟩
    · exact Or.inr ⟨rfl, rfl⟩
  · exact Or.inr ⟨rfl, rfl⟩
  · exact Or.inr ⟨rfl, rfl⟩

theorem notice_requests (a : ServiceAction) : (s.notice k a).requests = s.requests := by
  unfold notice
  split
  · split_ifs <;> rfl
  · rfl
  · rfl

theorem subscribed_eq (topic : Str) (answer : Option Bool) :
    s.subscribed topic answer = { s with session := (s.subscribed topic answer).session } := by
  unfold subscribed
  split_ifs <;> rfl

theorem mem_subscribed {topic t : Str} {answer : Option Bool} (h : t ∈ s.session) :
    t ∈ (s.subscribed topic answer).session := by
  unfold subscribed
  split_ifs
  · exact List.mem_cons_of_mem topic h
  · exact h

theorem mem_subscribed_self {topic : Str} {answer : Option Bool} (hc : s.service.connected = true)
    (ha : answer = some true) : topic ∈ (s.subscribed topic answer).session := by
  rw [subscribed, if_pos ⟨hc, ha⟩]
  exact List.mem_cons_self

end Steps

/-! ## The base topics -/

section Invariants

variable {V : Type} {rt : Runtime V} {k : Str} {s s' : Requester}

/-- The handler of the present connection has each base topic still before it or in the session. -/
structure BaseInv (k : Str) (s : Requester) : Prop where
  covered : ∀ h ∈ s.handlers, s.connection = some h.connection → h.acknowledged = true →
    ∀ t ∈ baseTopics k, t ∈ h.pending ∨ t ∈ s.session
  raised : ∀ h ∈ s.handlers, s.service.Raised h.connection

theorem BaseInv.service (h : BaseInv k s) {a : ServiceAction} (hs : step rt k s (.service a) = some s') : BaseInv k s' := by
  obtain ⟨service, hstep, rfl⟩ := step_service.mp hs
  rcases notice_handlers (s := s) (k := k) a with hh | ⟨i, rfl, hn⟩
  · refine ⟨fun run hrun => ?_, fun run hrun => ((h.raised run (hh ▸ hrun)).step hstep)⟩
    have hrun' : run ∈ s.handlers := hh ▸ hrun
    rcases notice_session (s := s) (k := k) a with ⟨i, rfl, hown, hn⟩ | ⟨hc, hses⟩
    · -- no handler belongs to a connection that is only now established
      intro hconn
      have hi : s.service.tasks[i]? = some .connecting := (MqttClientService.step_connectResult.mp hstep).1
      have hrunconn : i = run.connection := Option.some_inj.mp ((congrArg connection hn).symm.trans hconn)
      rcases h.raised run hrun' with hr | hr
      · rw [← hrunconn, hi] at hr
        cases hr
      · rw [← hrunconn, hi] at hr
        cases hr
    · intro hconn hack t ht
      have hcov := h.covered run hrun' (hc.symm.trans hconn) hack t ht
      exact hcov.imp_right fun hmem => hses.symm ▸ hmem
  · obtain ⟨hi, rfl⟩ := MqttClientService.step_connectedCallback.mp hstep
    have hnew : ∀ run ∈ s.handlers ++ [⟨i, baseTopics k, true⟩], run ∈ s.handlers ∨ run = ⟨i, baseTopics k, true⟩ :=
      fun run hrun => (List.mem_append.mp hrun).imp_right List.mem_singleton.mp
    rw [hn]
    refine ⟨fun run hrun hconn hack t ht => ?_, fun run hrun => ?_⟩
    · rcases hnew run hrun with hrun | rfl
      · exact h.covered run hrun hconn hack t ht
      · exact Or.inl ht
    · rcases hnew run hrun with hrun | rfl
      · exact (h.raised run hrun).step hstep
      · exact Or.inl (List.getElem?_set_self (List.getElem?_eq_some_iff.mp hi).1)

theorem BaseInv.handler (h : BaseInv k s) {j : ℕ} {answer : Option Bool}
    (hs : step rt k s (.handler j answer) = some s') : BaseInv k s' := by
  obtain ⟨run, topic, rest, hrun, hpending, rfl⟩ := step_handler hs
  have hmem : run ∈ s.handlers := List.mem_of_getElem? hrun
  rw [subscribed_eq]
  refine ⟨fun run' hrun' hconn hack t ht => ?_, fun run' hrun' => ?_⟩
  · rcases List.mem_or_eq_of_mem_set hrun' with hrun' | rfl
    · exact (h.covered run' hrun' hconn hack t ht).imp_right mem_subscribed
    · unfold handlerStep at hconn hack ⊢
      split_ifs at hconn hack ⊢
      simp only [Bool.and_eq_true, decide_eq_true_eq] at hack
      obtain ⟨⟨hack, hc⟩, ha⟩ := hack
      rcases h.covered run hmem hconn hack t ht with hp | hses
      · rw [hpending] at hp ⊢
        rcases List.mem_cons.mp hp with rfl | hp
        · exact Or.inr (mem_subscribed_self hc ha)
        · exact Or.inl hp
      · exact Or.inr (mem_subscribed hses)
  · rcases List.mem_or_eq_of_mem_set hrun' with hrun' | rfl
    · exact h.raised run' hrun'
    · have hsame : (s.handlerStep run answer).connection = run.connection := by
        unfold handlerStep
        split_ifs <;> rfl
      rw [hsame]
      exact h.raised run hmem

theorem BaseInv.of_session (h : BaseInv k s) {session : List Str} (hsub : ∀ t ∈ s.session, t ∈ session)
    (requests : List RequestPc) : BaseInv k { s with session := session, requests := requests } :=
  ⟨fun run hrun hconn hack t ht => (h.covered run hrun hconn hack t ht).imp_right (hsub t), h.raised⟩

theorem BaseInv.step (h : BaseInv k s) {a : Action V} (hs : step rt k s a = some s') : BaseInv k s' := by
  cases a with
  | service a => exact h.service hs
  | handler j answer => exact h.handler hs
  | request c =>
    obtain ⟨pc, -, rfl⟩ := step_request hs
    exact h.of_session (fun _ => id) _
  | gate r =>
    obtain ⟨pc, -, rfl⟩ := step_gate hs
    exact h.of_session (fun _ => id) _
  | subscribe r answer =>
    rcases step_subscribe hs with rfl | ⟨x, -, rfl⟩
    · exact h.of_session (fun _ => id) _
    · rw [subscribed_eq]
      exact h.of_session (fun _ => mem_subscribed) _
  | publish r =>
    rcases step_publish hs with rfl | ⟨x, -, rfl⟩
    · exact h.of_session (fun _ => id) _
    · exact h.of_session (fun _ => id) _

theorem baseInv_new (k : Str) (host : Option Str) (port : Int32) : BaseInv k (new host port) :=
  ⟨fun _ h => absurd h List.not_mem_nil, fun _ h => absurd h List.not_mem_nil⟩

/-- **A finished handler leaves its session with the base topics**, in every run. -/
theorem base_topics_restored {host : Option Str} {port : Int32} {as : List (Action V)}
    (hrun : Run.exec (Requester.step rt k) (new host port) as = some s) (hdone : s.HandlerDone) :
    baseTopics k ⊆ s.session := by
  have hinv : BaseInv k s := Run.invariant (fun _ _ _ h hs => h.step hs) (baseInv_new k host port) hrun
  obtain ⟨run, hmem, hconn, hpending, hack⟩ := hdone
  intro t ht
  rcases hinv.covered run hmem hconn hack t ht with h | h
  · rw [hpending] at h
    exact absurd h List.not_mem_nil
  · exact h

/-! ## The response topics -/

/-- No connect succeeds while a request is past its `Subscribe`, and no response filter is refused. -/
def Undisturbed (s : Requester) : Action V → Prop
  | .service (.connectResult i true) => s.service.mqttClient = some (.connecting i) → ∀ x, ¬ s.Past x
  | .subscribe _ answer => s.service.connected = true → answer ≠ some false
  | _ => True

/-- A request past its `Subscribe` has its response topic in the session, or there is no connection. -/
def ResponseInv (k : Str) (s : Requester) : Prop :=
  ∀ x, s.Past x → GetResponseTopic k x ∈ s.session ∨ s.service.connected = false

theorem past_set {r : ℕ} {pc : RequestPc} (hpc : ∀ x, pc ≠ .publish x ∧ pc ≠ .returned x) {x : Option Str}
    (h : .publish x ∈ s.requests.set r pc ∨ .returned x ∈ s.requests.set r pc) : s.Past x :=
  h.imp (fun h => (List.mem_or_eq_of_mem_set h).resolve_right (hpc x).1.symm)
    fun h => (List.mem_or_eq_of_mem_set h).resolve_right (hpc x).2.symm

theorem ResponseInv.service (h : ResponseInv k s) {a : ServiceAction} (hP : s.Undisturbed (.service a : Action V))
    (hs : step rt k s (.service a) = some s') : ResponseInv k s' := by
  obtain ⟨service, hstep, rfl⟩ := step_service.mp hs
  intro x hx
  have hpast : s.Past x := by simpa only [Past, notice_requests] using hx
  by_cases hc : service.connected = true
  · rcases MqttClientService.connected_step hstep hc with hc' | ⟨i, rfl, hown⟩
    · rcases notice_session (s := s) (k := k) a with ⟨i, rfl, hown, -⟩ | ⟨-, hses⟩
      · exact absurd hpast (hP hown x)
      · refine Or.inl (hses.symm ▸ (h x hpast).resolve_right fun hf => ?_)
        rw [hf] at hc'
        cases hc'
    · exact absurd hpast (hP hown x)
  · exact Or.inr (Bool.eq_false_iff.mpr hc)

theorem ResponseInv.subscribe (h : ResponseInv k s) {r : ℕ} {answer : Option Bool}
    (hP : s.Undisturbed (.subscribe r answer : Action V)) (hs : step rt k s (.subscribe r answer) = some s') :
    ResponseInv k s' := by
  rcases step_subscribe hs with rfl | ⟨y, hy, rfl⟩
  · exact fun x hx => h x (past_set (fun _ => ⟨by simp, by simp⟩) hx)
  · rw [subscribed_eq]
    intro x hx
    have hcases : s.Past x ∨ x = y := by
      rcases hx with hx | hx
      · rcases List.mem_or_eq_of_mem_set hx with hx | hx
        · exact Or.inl (Or.inl hx)
        · exact Or.inr (RequestPc.publish.inj hx)
      · exact Or.inl (Or.inr ((List.mem_or_eq_of_mem_set hx).resolve_right (by simp)))
    rcases hcases with hx | rfl
    · exact (h x hx).imp_left mem_subscribed
    · by_cases hc : s.service.connected = true
      · refine Or.inl (mem_subscribed_self hc ?_)
        cases hans : answer with
        | none => exact absurd hans (hy hc)
        | some b =>
          cases b with
          | false => exact absurd hans (hP hc)
          | true => rfl
      · exact Or.inr (Bool.eq_false_iff.mpr hc)

theorem ResponseInv.step (h : ResponseInv k s) {a : Action V} (hP : s.Undisturbed a) (hs : step rt k s a = some s') :
    ResponseInv k s' := by
  cases a with
  | service a => exact h.service hP hs
  | handler j answer =>
    obtain ⟨run, topic, rest, -, -, rfl⟩ := step_handler hs
    rw [subscribed_eq]
    exact fun x hx => (h x hx).imp_left mem_subscribed
  | request c =>
    obtain ⟨pc, hpc, rfl⟩ := step_request hs
    intro x hx
    refine h x (hx.imp (fun hx => ?_) fun hx => ?_)
    · exact (List.mem_append.mp hx).resolve_right fun h => (hpc x).1 (List.mem_singleton.mp h).symm
    · exact (List.mem_append.mp hx).resolve_right fun h => (hpc x).2 (List.mem_singleton.mp h).symm
  | gate r =>
    obtain ⟨pc, hpc, rfl⟩ := step_gate hs
    exact fun x hx => h x (past_set hpc hx)
  | subscribe r answer => exact h.subscribe hP hs
  | publish r =>
    rcases step_publish hs with rfl | ⟨y, hy, rfl⟩
    · exact fun x hx => h x (past_set (fun _ => ⟨by simp, by simp⟩) hx)
    · intro x hx
      rcases hx with hx | hx
      · exact h x (Or.inl ((List.mem_or_eq_of_mem_set hx).resolve_right (by simp)))
      · rcases List.mem_or_eq_of_mem_set hx with hx | hx
        · exact h x (Or.inr hx)
        · cases hx
          exact h _ (Or.inl (List.mem_of_getElem? hy))

variable (rt k) in
/-- The session has the base topics and the response topic of every request that returned its identifier,
and a decodable response published there raises `ResponseReceived`. -/
structure Restored (s : Requester) : Prop where
  base : baseTopics k ⊆ s.session
  responses : ∀ x, .returned x ∈ s.requests → GetResponseTopic k x ∈ s.session
  dispatched : ∀ x, .returned x ∈ s.requests → Topic.ValidName (GetResponseTopic k x) → ∀ fresh fresh' bytes p,
    DeserializePayloadObject rt fresh fresh' bytes = some p →
      deliver rt k s.session fresh fresh' (GetResponseTopic k x) bytes = some [⟨.ResponseReceived, .payload p⟩]

/-- **Response topics survive in the runs that connect only while no request is past its `Subscribe`.** -/
theorem responses_restored {host : Option Str} {port : Int32} {as : List (Action V)}
    (hrun : Run.exec (Requester.step rt k) (new host port) as = some s)
    (hP : Run.Meets (Requester.step rt k) Undisturbed (new host port) as) (hc : s.service.connected = true)
    (hdone : s.HandlerDone) : s.Restored rt k := by
  have hnew : ResponseInv k (new host port) := fun x hx => (hx.elim List.not_mem_nil List.not_mem_nil).elim
  have hinv : ResponseInv k s := Run.invariant_of_meets (fun _ _ _ h hP hs => h.step hP hs) hnew hP hrun
  have hresponses : ∀ x, .returned x ∈ s.requests → GetResponseTopic k x ∈ s.session := fun x hx =>
    (hinv x (Or.inr hx)).resolve_right (by simp [hc])
  refine ⟨base_topics_restored hrun hdone, hresponses, fun x hx hname fresh fresh' bytes p hp => ?_⟩
  rw [deliver_of_mem hname.2 (hresponses x hx), MessageReceived_response, hp]
  rfl

/-! ## Any other connect loses them -/

/-- The last handler finishes over a connection that stays. -/
theorem handler_catches_up (hc : s.service.connected = true) (i : ℕ) (ts : List Str) (hs : List HandlerRun)
    (hh : s.handlers = hs ++ [⟨i, ts, true⟩]) :
    Run.exec (Requester.step rt k) s (ts.map fun _ => (.handler hs.length (some true) : Action V)) =
      some { s with session := ts.reverse ++ s.session, handlers := hs ++ [⟨i, [], true⟩] } := by
  induction ts generalizing s with
  | nil =>
    cases s
    cases hh
    rfl
  | cons t ts ih =>
    have hstep : Requester.step rt k s (.handler hs.length (some true)) =
        some { s with session := t :: s.session, handlers := hs ++ [⟨i, ts, true⟩] } := by
      simp [Requester.step, subscribed, handlerStep, hc, hh]
    rw [List.map_cons, Run.exec_cons, hstep, Option.bind_some,
      ih (s := { s with session := t :: s.session, handlers := hs ++ [⟨i, ts, true⟩] }) hc rfl]
    simp

theorem mem_set_returned {r : ℕ} {x : Option Str} (hr : s.requests[r]? = some (.publish x)) :
    RequestPc.returned x ∈ s.requests.set r (.returned x) :=
  List.mem_set (List.getElem?_eq_some_iff.mp hr).1 _

theorem publish_returns (hclient : s.service.mqttClient ≠ none) {r : ℕ} {x : Option Str}
    (hr : s.requests[r]? = some (.publish x)) :
    Requester.step rt k s (.publish r : Action V) = some { s with requests := s.requests.set r (.returned x) } := by
  simp only [Requester.step, hr, if_neg hclient]

/-- **A connect while a request is past its `Subscribe` loses its response topic**: once the handler and the
call have finished, the connection stands without it. -/
theorem connect_loses_response {i : ℕ} (hown : s.service.mqttClient = some (.connecting i))
    (hi : s.service.tasks[i]? = some .connecting) {x : Option Str} (hx : s.Past x) :
    ∃ as s', Run.exec (Requester.step rt k) s ((.service (.connectResult i true) : Action V) :: as) = some s' ∧
      s'.service.connected = true ∧ s'.HandlerDone ∧ .returned x ∈ s'.requests ∧
      GetResponseTopic k x ∉ s'.session := by
  have hlt : i < s.service.tasks.length := (List.getElem?_eq_some_iff.mp hi).1
  -- the connection, its callback and the handler it starts
  let service₁ := MqttClientService.setTask i .connectedCallback { s.service with mqttClient := some .connected }
  let service₂ := MqttClientService.setTask i .finishing { service₁ with IsConnected := true, IsConnecting := false }
  have h₁ : Requester.step rt k s (.service (.connectResult i true) : Action V) =
      some { s.established i with service := service₁ } := by
    refine step_service.mpr ⟨service₁, ?_, by simp [notice, hown]⟩
    exact MqttClientService.step_connectResult.mpr ⟨hi, Or.inl ⟨hown, rfl, rfl⟩⟩
  have h₂ : Requester.step rt k { s.established i with service := service₁ } (.service (.connectedCallback i) : Action V) =
      some { (s.established i).clientConnected k i with service := service₂ } := by
    refine step_service.mpr ⟨service₂, ?_, rfl⟩
    exact MqttClientService.step_connectedCallback.mpr ⟨List.getElem?_set_self hlt, rfl⟩
  let s₃ : Requester := { (s.established i).clientConnected k i with
    service := service₂, session := (baseTopics k).reverse ++ [], handlers := s.handlers ++ [⟨i, [], true⟩] }
  let handler : List (Action V) := (baseTopics k).map fun _ => .handler s.handlers.length (some true)
  have h₃ : Run.exec (Requester.step rt k) { (s.established i).clientConnected k i with service := service₂ } handler =
      some s₃ := handler_catches_up rfl i (baseTopics k) s.handlers rfl
  have hrun : Run.exec (Requester.step rt k) s
      (.service (.connectResult i true) :: .service (.connectedCallback i) :: handler) = some s₃ := by
    rw [Run.exec_cons, h₁, Option.bind_some, Run.exec_cons, h₂, Option.bind_some, h₃]
  have hdone : s₃.HandlerDone := ⟨_, List.mem_append_right _ (List.mem_singleton.mpr rfl), rfl, rfl, rfl⟩
  have hlost : GetResponseTopic k x ∉ s₃.session := by
    rw [show s₃.session = (baseTopics k).reverse ++ [] from rfl, List.append_nil, List.mem_reverse]
    exact GetResponseTopic_notMem_base k k x
  rcases hx with hx | hx
  · -- the call has still to return
    obtain ⟨r, hr⟩ := List.mem_iff_getElem?.mp hx
    have hclient : s₃.service.mqttClient ≠ none := fun h => nomatch h
    refine ⟨.service (.connectedCallback i) :: handler ++ [.publish r],
      { s₃ with requests := s.requests.set r (.returned x) }, ?_, rfl, hdone, mem_set_returned hr, hlost⟩
    rw [← List.cons_append, Run.exec_append, hrun, Option.bind_some, Run.exec_cons, publish_returns hclient hr]
    rfl
  · exact ⟨_, s₃, hrun, rfl, hdone, hx, hlost⟩

end Invariants

/-! ## A request and a reconnect -/

/-- Call `i` connects, and the handler it starts subscribes. -/
def connectAs (i : ℕ) : List (Action Str) :=
  [.service (.call .Connect), .service (.connectResult i true), .service (.connectedCallback i),
    .service (.connectFinally i), .handler i (some true), .handler i (some true), .handler i (some true)]

/-- A request for the exchange `orders` that returns its identifier. -/
def requestOrders : List (Action Str) :=
  [.request (.name (some "orders".toList)), .gate 0, .subscribe 0 (some true), .publish 0]

theorem request_undisturbed : Run.Meets (step Runtime.strings "app".toList) Undisturbed
    (new (some "broker".toList) 1883) (connectAs 0 ++ requestOrders) := by
  refine Run.Meets.cons (a := Action.service (.call .Connect)) rfl trivial ?_
  refine Run.Meets.cons (a := Action.service (.connectResult 0 true)) rfl ?_ ?_
  · exact fun _ x hx => (hx.elim List.not_mem_nil List.not_mem_nil).elim
  refine Run.Meets.cons (a := Action.service (.connectedCallback 0)) rfl trivial ?_
  refine Run.Meets.cons (a := Action.service (.connectFinally 0)) rfl trivial ?_
  refine Run.Meets.cons (a := Action.handler 0 (some true)) rfl trivial ?_
  refine Run.Meets.cons (a := Action.handler 0 (some true)) rfl trivial ?_
  refine Run.Meets.cons (a := Action.handler 0 (some true)) rfl trivial ?_
  refine Run.Meets.cons (a := Action.request (.name (some "orders".toList))) rfl trivial ?_
  refine Run.Meets.cons (a := Action.gate 0) rfl trivial ?_
  refine Run.Meets.cons (a := Action.subscribe 0 (some true)) rfl (fun _ => by decide) ?_
  exact Run.Meets.cons (a := Action.publish 0) rfl trivial trivial

theorem responses_restored_orders : ∃ s, Run.exec (step Runtime.strings "app".toList) (new (some "broker".toList) 1883)
    (connectAs 0 ++ requestOrders) = some s ∧ .returned (some "orders".toList) ∈ s.requests ∧
      s.Restored Runtime.strings "app".toList :=
  ⟨_, rfl, List.mem_singleton.mpr rfl, responses_restored rfl request_undisturbed rfl
    ⟨⟨0, [], true⟩, List.mem_singleton.mpr rfl, rfl, rfl, rfl⟩⟩

/-- A request, a lost connection and a new one. -/
def reconnectRun : List (Action Str) :=
  connectAs 0 ++ requestOrders ++ [.service .drop, .service .disconnectedCallback] ++ connectAs 1

/-- After it the handler has finished and the response topic of the request is not subscribed. -/
theorem reconnect_loses_response : ∃ s, Run.exec (step Runtime.strings "app".toList)
    (new (some "broker".toList) 1883) reconnectRun = some s ∧ s.service.connected = true ∧ s.HandlerDone ∧
      ¬ s.Restored Runtime.strings "app".toList :=
  ⟨_, rfl, rfl, ⟨⟨1, [], true⟩, by decide, rfl, rfl, rfl⟩,
    fun h => absurd (h.responses (some "orders".toList) (by decide)) (by decide)⟩

end Requester

end MqttServices
