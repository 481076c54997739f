import Mathlib.Data.List.Dedup
import MqttServices.Lib.Overlap
import MqttServices.Lib.Run
import MqttServices.Services.Exchange

/-!
# Applications on one broker

* `OwnTopic`, **`SendCall.run_own`**: what a sending method subscribes and publishes.
* `Network`: the subscriptions of all sessions, the calls under way, the messages in flight and the
  events raised so far; `Network.step`: one effect of a call, one delivery, one event of a connection.
* `Network.step_effect`, `Network.step_deliver` and the other inversions: what a step does.
-/

namespace MqttServices

/-- A topic of the messaging manager under the key `k`. -/
def OwnTopic (k t : Str) : Prop := t ∈ baseTopics k ∨ ∃ x, t = GetResponseTopic k x

section Own

variable {V : Type} {rt : Runtime V} {k : Str} {guid : Guid} {c : SendCall V}

theorem SendCall.publication_own {t : Str} {body : Body V} (h : c.publication rt k guid = some (t, body)) :
    OwnTopic k t := by
  have hbase : ∀ t ∈ baseTopics k, OwnTopic k t := fun _ ht => Or.inl ht
  cases c with
  | request c =>
    obtain ⟨q, -, heq⟩ := Option.map_eq_some_iff.mp h
    cases heq
    exact hbase _ (by simp [baseTopics])
  | responseName payload x =>
    have hresponse : t = GetResponseTopic k x := by
      cases payload with
      | inl v =>
        rw [publication] at h
        split_ifs at h
        cases h
        rfl
      | inr p =>
        rw [publication] at h
        split_ifs at h
        cases h
        rfl
    exact Or.inr ⟨x, hresponse⟩
  | response payload =>
    obtain ⟨p, -, heq⟩ := Option.map_eq_some_iff.mp h
    cases heq
    exact Or.inr ⟨_, rfl⟩
  | messageName v x =>
    rw [publication] at h
    split_ifs at h
    cases h
    exact hbase _ (by simp [baseTopics])
  | message v =>
    obtain ⟨v, -, heq⟩ := Option.map_eq_some_iff.mp h
    cases heq
    exact hbase _ (by simp [baseTopics])
  | string s x =>
    rw [publication] at h
    split_ifs at h
    cases h
    exact hbase _ (by simp [baseTopics])

/-- **Whatever a sending method subscribes or publishes is a topic of its key.** -/
theorem SendCall.run_own {sch : Schedule} {e : Effect V} (h : e ∈ (c.run rt k guid sch).1) : OwnTopic k e.topic := by
  rcases mem_run h with ⟨x, rfl⟩ | ⟨topic, body, bytes, rfl, hpublication, -⟩
  · exact Or.inr ⟨x, rfl⟩
  · exact publication_own hpublication

end Own

namespace Network

/-- A call under way: its effects so far, those still to come, and how it ends. -/
structure Call (ι V : Type) where
  party : ι
  call : SendCall V
  guid : Guid
  done : List (Effect V)
  todo : List (Effect V)
  outcome : Outcome
  /-- the caller has been given the outcome -/
  ended : Bool

/-- A message on its way to a session. -/
structure Mail (ι : Type) where
  sender : ι
  receiver : ι
  topic : Str
  bytes : List UInt8

/-- An event raised at a party, and the party whose message raised it. -/
structure Occurrence (ι V : Type) where
  sender : ι
  receiver : ι
  event : Event V

/-- One step of the network. -/
inductive Action (ι V : Type) where
  /-- a sending method is called -/
  | start (i : ι) (c : SendCall V) (guid : Guid) (s : Schedule)
  /-- the next effect of call `n` takes place at the broker -/
  | effect (n : ℕ)
  /-- call `n` ends -/
  | finish (n : ℕ)
  /-- `MqttClientService_ClientConnected` gets one of its subscriptions -/
  | clientConnected (i : ι) (topic : Str)
  /-- a session ends -/
  | lost (i : ι)
  /-- message `m` is handled by its receiver -/
  | deliver (m : ℕ) (fresh fresh' : Guid)

end Network

/-- Parties `ι` on one broker. -/
structure Network (ι V : Type) where
  subscriptions : List (ι × Str)
  calls : List (Network.Call ι V)
  mail : List (Network.Mail ι)
  raised : List (Network.Occurrence ι V)

namespace Network

variable {ι V : Type} [DecidableEq ι] (rt : Runtime V) (key : ι → Str)

/-- Nothing has happened. -/
def new : Network ι V := ⟨[], [], [], []⟩

/-- A call at its start. -/
def Call.of (i : ι) (c : SendCall V) (guid : Guid) (s : Schedule) : Call ι V where
  party := i
  call := c
  guid := guid
  done := []
  todo := (c.run rt (key i) guid s).1
  outcome := (c.run rt (key i) guid s).2
  ended := false

/-- A call after its next effect. -/
def Call.next (c : Call ι V) (e : Effect V) (todo : List (Effect V)) : Call ι V :=
  { c with done := c.done ++ [e], todo := todo }

/-- The sessions a message on the topic goes to. -/
def receivers (s : Network ι V) (topic : Str) : List ι :=
  ((s.subscriptions.filter fun p => Topic.covers p.2 topic).map Prod.fst).dedup

/-- An effect at the broker, which takes valid filters and topics only. -/
def perform (s : Network ι V) (i : ι) : Effect V → Option (Network ι V)
  | .subscribed f => if Topic.ValidFilter f then some { s with subscriptions := s.subscriptions ++ [(i, f)] } else none
  | .published t _ bytes =>
    if Topic.ValidName t then
      some { s with mail := s.mail ++ (s.receivers t).map fun j => ⟨i, j, t, bytes⟩ }
    else none

/-- The step function. -/
def step (s : Network ι V) : Action ι V → Option (Network ι V)
  | .start i c guid sch => some { s with calls := s.calls ++ [Call.of rt key i c guid sch] }
  | .effect n => do
    let c ← s.calls[n]?
    match c.todo with
    | [] => none
    | e :: todo => (s.perform c.party e).map fun t => { t with calls := s.calls.set n (c.next e todo) }
  | .finish n => do
    let c ← s.calls[n]?
    if c.todo = [] ∧ ¬ c.ended then some { s with calls := s.calls.set n { c with ended := true } } else none
  | .clientConnected i topic =>
    if topic ∈ baseTopics (key i) then s.perform i (.subscribed topic) else none
  | .lost i =>
    some { s with
      subscriptions := s.subscriptions.filter fun p => p.1 ≠ i
      mail := s.mail.filter fun m => m.receiver ≠ i }
  | .deliver m fresh fresh' => do
    let mail ← s.mail[m]?
    let events := MqttClientService_MessageReceived rt (key mail.receiver) fresh fresh' mail.topic mail.bytes
    some { s with
      mail := s.mail.eraseIdx m
      raised := s.raised ++ (events.getD []).map fun e => ⟨mail.sender, mail.receiver, e⟩ }

/-! ## What a step does -/

variable {rt key} {s s' : Network ι V}

theorem step_start {i : ι} {c : SendCall V} {guid : Guid} {sch : Schedule}
    (h : step rt key s (.start i c guid sch) = some s') :
    s' = { s with calls := s.calls ++ [Call.of rt key i c guid sch] } := (Option.some_inj.mp h).symm

theorem step_effect {n : ℕ} (h : step rt key s (.effect n) = some s') : ∃ c e todo t, s.calls[n]? = some c ∧
    c.todo = e :: todo ∧ s.perform c.party e = some t ∧ s' = { t with calls := s.calls.set n (c.next e todo) } := by
  obtain ⟨c, hc, h⟩ := Option.bind_eq_some_iff.mp h
  cases htodo : c.todo with
  | nil =>
    rw [htodo] at h
    cases h
  | cons e todo =>
    rw [htodo] at h
    obtain ⟨t, ht, rfl⟩ := Option.map_eq_some_iff.mp h
    exact ⟨c, e, todo, t, hc, htodo, ht, rfl⟩

theorem step_effect_of {n : ℕ} {c : Call ι V} {e : Effect V} {todo : List (Effect V)} (hc : s.calls[n]? = some c)
    (htodo : c.todo = e :: todo) (hp : s.perform c.party e = some s') :
    step rt key s (.effect n) = some { s' with calls := s.calls.set n (c.next e todo) } := by
  simp only [step, hc, htodo, hp, Option.bind_eq_bind, Option.bind_some, Option.map_some]

theorem step_finish {n : ℕ} (h : step rt key s (.finish n) = some s') : ∃ c, s.calls[n]? = some c ∧ c.todo = [] ∧
    s' = { s with calls := s.calls.set n { c with ended := true } } := by
  obtain ⟨c, hc, h⟩ := Option.bind_eq_some_iff.mp h
  split_ifs at h with htodo
  cases h
  exact ⟨c, hc, htodo.1, rfl⟩

theorem step_clientConnected {i : ι} {topic : Str} (h : step rt key s (.clientConnected i topic) = some s') :
    topic ∈ baseTopics (key i) ∧ s.perform i (.subscribed topic) = some s' := by
  rw [step] at h
  split_ifs at h with hmem
  exact ⟨hmem, h⟩

theorem step_lost {i : ι} (h : step rt key s (.lost i) = some s') :
    s' = { s with subscriptions := s.subscriptions.filter fun p => p.1 ≠ i
                  mail := s.mail.filter fun m => m.receiver ≠ i } := (Option.some_inj.mp h).symm

theorem step_deliver {m : ℕ} {fresh fresh' : Guid} (h : step rt key s (.deliver m fresh fresh') = some s') :
    ∃ mail, s.mail[m]? = some mail ∧ s' = { s with
      mail := s.mail.eraseIdx m
      raised := s.raised ++ ((MqttClientService_MessageReceived rt (key mail.receiver) fresh fresh' mail.topic
        mail.bytes).getD []).map fun e => ⟨mail.sender, mail.receiver, e⟩ } := by
  obtain ⟨mail, hmail, h⟩ := Option.bind_eq_some_iff.mp h
  exact ⟨mail, hmail, (Option.some_inj.mp h).symm⟩

theorem step_deliver_of {m : ℕ} (mail : Mail ι) (hm : s.mail[m]? = some mail) {fresh fresh' : Guid}
    {events : List (Event V)} (he : MqttClientService_MessageReceived rt (key mail.receiver) fresh fresh' mail.topic
      mail.bytes = some events) :
    step rt key s (.deliver m fresh fresh') = some { s with
      mail := s.mail.eraseIdx m
      raised := s.raised ++ events.map fun e => ⟨mail.sender, mail.receiver, e⟩ } := by
  simp only [step, hm, he, Option.bind_eq_bind, Option.bind_some, Option.getD_some]

theorem perform_subscribed {i : ι} {f : Str} (h : s.perform i (.subscribed f) = some s') :
    Topic.ValidFilter f ∧ s' = { s with subscriptions := s.subscriptions ++ [(i, f)] } := by
  rw [perform] at h
  split_ifs at h with hf
  cases h
  exact ⟨hf, rfl⟩

theorem perform_published {i : ι} {t : Str} {body : Body V} {bytes : List UInt8}
    (h : s.perform i (.published t body bytes) = some s') : Topic.ValidName t ∧
      s' = { s with mail := s.mail ++ (s.receivers t).map fun j => ⟨i, j, t, bytes⟩ } := by
  rw [perform] at h
  split_ifs at h with ht
  cases h
  exact ⟨ht, rfl⟩

theorem mem_receivers {j : ι} {topic : Str} :
    j ∈ s.receivers topic ↔ ∃ f, (j, f) ∈ s.subscriptions ∧ Topic.covers f topic = true := by
  simp [receivers]

end Network

end MqttServices
