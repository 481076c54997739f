import MqttServices.Services.Delivery
import MqttServices.Services.Handlers

/-!
# Where an event comes from

* `Handled`: what a message raises at its receiver; **`handled_of_mem`**.
* `Conveys`: what a published object becomes there; **`Handled.conveys`**.
* **`Handled.own`**: the kind of the call, and the key of the receiver.
* `Network.Scripted`: what the calls do is what their methods do.
* **`Network.raised_origin`**: every event stems from a call of its sender.
-/

namespace MqttServices

variable {V : Type}

/-! ## What a message raises -/

section Handler

variable (rt : Runtime V) (k : Str) (fresh fresh' : Guid) (topic : Str) (bytes : List UInt8)

/-- The event that a message on the topic raises under the key `k`. -/
inductive Handled : Event V → Prop
  | request (p : Payload V) (r : RequestType) : topic = SubscribeRequestTopic k →
      DeserializePayloadObject rt fresh fresh' bytes = some p → RequestType.ofInt32? p.RequestType = some r →
      Handled ⟨r.event, .payload p⟩
  | response (p : Payload V) : marked topic → DeserializePayloadObject rt fresh fresh' bytes = some p →
      Handled ⟨.ResponseReceived, .payload p⟩
  | message (p : Payload V) : ¬ marked topic → topic = SubscribeMessageTopic k →
      DeserializePayloadObject rt fresh fresh' bytes = some p → Handled ⟨.MessageReceived, .payload p⟩
  | string (p : StringPayload) : ¬ marked topic → topic = SubscribeStringTopic k →
      readString fresh bytes = some (some p) → Handled ⟨.StringReceived, .string p⟩

variable {rt k fresh fresh' topic bytes}

/-- **What the handler raises.** -/
theorem handled_of_mem {e : Event V}
    (he : e ∈ (MqttClientService_MessageReceived rt k fresh fresh' topic bytes).getD []) :
    Handled rt k fresh fresh' topic bytes e := by
  by_cases hreq : topic = SubscribeRequestTopic k
  · rw [hreq, MessageReceived_request, Option.getD_some] at he
    obtain ⟨p, hp, he⟩ := List.mem_flatMap.mp he
    obtain ⟨r, hr, rfl⟩ := Option.map_eq_some_iff.mp (Option.mem_toList.mp he)
    exact .request p r hreq (Option.mem_toList.mp hp) hr
  by_cases hm : marked topic
  · rw [MessageReceived_marked hreq hm, Option.getD_some] at he
    obtain ⟨p, hp, rfl⟩ := List.mem_map.mp he
    exact .response p hm (Option.mem_toList.mp hp)
  by_cases hmessage : topic = SubscribeMessageTopic k
  · have hk : ¬ marked k := fun h => hm (hmessage ▸ (marked_base_iff (by simp [baseTopics])).mpr h)
    rw [hmessage, MessageReceived_message hk, Option.getD_some] at he
    obtain ⟨p, hp, rfl⟩ := List.mem_map.mp he
    exact .message p hm hmessage (Option.mem_toList.mp hp)
  by_cases hstring : topic = SubscribeStringTopic k
  · have hk : ¬ marked k := fun h => hm (hstring ▸ (marked_base_iff (by simp [baseTopics])).mpr h)
    rw [hstring, MessageReceived_string hk] at he
    cases hread : readString fresh bytes with
    | none =>
      rw [hread] at he
      exact absurd he List.not_mem_nil
    | some p =>
      rw [hread, Option.map_some, Option.getD_some] at he
      obtain ⟨q, hq, rfl⟩ := List.mem_map.mp he
      rw [Option.mem_toList.mp hq] at hread
      exact .string q hm hstring hread
  · rw [MessageReceived_other hreq hm hmessage hstring] at he
    exact absurd he List.not_mem_nil

end Handler

/-! ## What an object becomes -/

/-- What a published object becomes at a receiver: a payload keeps its name, its identifier and its type, and its
value where that makes the round trip; a string stays as it is; read as the other, either loses what it carries. -/
def Conveys (rt : Runtime V) : Body V → Carried V → Prop
  | .payload q, .payload p => p.ExchangeName = q.ExchangeName ∧ p.MessageId = q.MessageId ∧
      p.RequestType = q.RequestType ∧ (q.RoundTrips rt → p = q)
  | .payload q, .string p => p = ⟨q.ExchangeName, none, q.MessageId⟩
  | .string q, .payload p => p = ⟨q.ExchangeName, none, none, q.MessageId, RequestType.Generic.toInt32⟩
  | .string q, .string p => p = q

section Objects

variable {rt : Runtime V} {k : Str} {fresh fresh' : Guid} {topic : Str} {bytes : List UInt8} {body : Body V} {e : Event V}

theorem conveys_payload (hb : body.bytes rt = some bytes) {p : Payload V}
    (hp : DeserializePayloadObject rt fresh fresh' bytes = some p) : Conveys rt body (.payload p) := by
  cases body with
  | payload q =>
    obtain ⟨hname, hid, htype⟩ := DeserializePayloadObject_fields hb hp
    refine ⟨hname, hid, htype, fun hround => ?_⟩
    obtain ⟨bytes', hb', hdecode⟩ := hround
    have hbytes : bytes = bytes' := Option.some_inj.mp (hb.symm.trans hb')
    rw [hbytes, hdecode] at hp
    exact (Option.some_inj.mp hp).symm
  | string q =>
    rw [DeserializePayloadObject, parse_jsonBytes hb, Option.bind_some, StringPayload.read_toJson_payload] at hp
    exact (Option.some_inj.mp hp).symm

theorem conveys_string (hb : body.bytes rt = some bytes) {p : StringPayload}
    (hp : readString fresh bytes = some (some p)) : Conveys rt body (.string p) := by
  cases body with
  | payload q =>
    obtain ⟨j, hj, hbytes⟩ := Option.bind_eq_some_iff.mp hb
    obtain ⟨j', -, rfl⟩ := Option.map_eq_some_iff.mp hj
    rw [readString, parse_jsonBytes hbytes, Option.bind_some, StringPayload.read_members] at hp
    exact (Option.some_inj.mp (Option.some_inj.mp hp)).symm
  | string q =>
    rw [readString_bytes hb] at hp
    exact (Option.some_inj.mp (Option.some_inj.mp hp)).symm

/-- **A handler hands on what the message says.** -/
theorem Handled.conveys (h : Handled rt k fresh fresh' topic bytes e) (hb : body.bytes rt = some bytes) :
    Conveys rt body e.carried := by
  cases h with
  | request p r _ hp _ => exact conveys_payload hb hp
  | response p _ hp => exact conveys_payload hb hp
  | message p _ _ hp => exact conveys_payload hb hp
  | string p _ _ hp => exact conveys_string hb hp

end Objects

/-! ## The kind of the call -/

section Kinds

variable {rt : Runtime V} {k k' : Str} {guid fresh fresh' : Guid} {c : SendCall V} {topic : Str} {body : Body V}
  {bytes : List UInt8} {e : Event V}

theorem SendCall.publication_cases (h : c.publication rt k guid = some (topic, body)) :
    (∃ p : Payload V, topic = SubscribeRequestTopic k ∧ body = .payload p ∧
      c.event rt = (RequestType.ofInt32? p.RequestType).map RequestType.event) ∨
    (∃ x, topic = GetResponseTopic k x ∧ c.event rt = some .ResponseReceived) ∨
    (topic = SubscribeMessageTopic k ∧ c.event rt = some .MessageReceived) ∨
    topic = SubscribeStringTopic k ∧ c.event rt = some .StringReceived := by
  cases c with
  | request c =>
    obtain ⟨q, hq, heq⟩ := Option.map_eq_some_iff.mp h
    cases heq
    exact Or.inl ⟨_, rfl, rfl, by rw [SendCall.event, hq]; rfl⟩
  | responseName payload x =>
    refine Or.inr (Or.inl ⟨x, ?_, rfl⟩)
    cases payload with
    | inl v =>
      rw [publication] at h
      split_ifs at h
      cases h
      rfl
    | inr p =>
      rw [publication] at h
      split_ifs at h
      cases h
      rfl
  | response payload =>
    obtain ⟨p, -, heq⟩ := Option.map_eq_some_iff.mp h
    cases heq
    exact Or.inr (Or.inl ⟨_, rfl, rfl⟩)
  | messageName v x =>
    rw [publication] at h
    split_ifs at h
    cases h
    exact Or.inr (Or.inr (Or.inl ⟨rfl, rfl⟩))
  | message v =>
    obtain ⟨v, -, heq⟩ := Option.map_eq_some_iff.mp h
    cases heq
    exact Or.inr (Or.inr (Or.inl ⟨rfl, rfl⟩))
  | string s x =>
    rw [publication] at h
    split_ifs at h
    cases h
    exact Or.inr (Or.inr (Or.inr ⟨rfl, rfl⟩))

theorem eq_of_base_eq {k k' s s' : Str} (hlast : s.getLast? = s'.getLast? → s = s') (hs : s ≠ []) (hs' : s' ≠ [])
    (h : exchangeTopicPrefix k ++ s = exchangeTopicPrefix k' ++ s') : s = s' ∧ k = k' := by
  have hgetLast : s.getLast? = s'.getLast? := by
    rw [← List.getLast?_append_of_ne_nil (exchangeTopicPrefix k) hs, h, List.getLast?_append_of_ne_nil _ hs']
  have hsuffix := hlast hgetLast
  subst hsuffix
  exact ⟨rfl, List.append_cancel_right (List.append_cancel_right h)⟩

theorem SubscribeRequestTopic_injective (h : SubscribeRequestTopic k = SubscribeRequestTopic k') : k = k' :=
  (eq_of_base_eq (fun _ => rfl) (by decide) (by decide) h).2

theorem SubscribeMessageTopic_injective (h : SubscribeMessageTopic k = SubscribeMessageTopic k') : k = k' :=
  (eq_of_base_eq (fun _ => rfl) (by decide) (by decide) h).2

theorem SubscribeStringTopic_injective (h : SubscribeStringTopic k = SubscribeStringTopic k') : k = k' :=
  (eq_of_base_eq (fun _ => rfl) (by decide) (by decide) h).2

theorem request_ne_message (k k' : Str) : SubscribeRequestTopic k ≠ SubscribeMessageTopic k' := fun h =>
  absurd (eq_of_base_eq (fun h => absurd h (by decide)) (by decide) (by decide) h).1 (by decide)

theorem request_ne_string (k k' : Str) : SubscribeRequestTopic k ≠ SubscribeStringTopic k' := fun h =>
  absurd (eq_of_base_eq (fun h => absurd h (by decide)) (by decide) (by decide) h).1 (by decide)

theorem message_ne_string (k k' : Str) : SubscribeMessageTopic k ≠ SubscribeStringTopic k' := fun h =>
  absurd (eq_of_base_eq (fun h => absurd h (by decide)) (by decide) (by decide) h).1 (by decide)

/-- **An event is the one its call is meant for**, under the key of the receiver unless it is that of a response; but
a key that carries the response marker makes a response of everything. -/
theorem Handled.own (h : Handled rt k' fresh fresh' topic bytes e)
    (hc : c.publication rt k guid = some (topic, body)) (hb : body.bytes rt = some bytes) :
    c.event rt = some e.name ∧ (e.name ≠ .ResponseReceived → k = k') ∨ e.name = .ResponseReceived ∧ marked k := by
  have hkinds := SendCall.publication_cases hc
  cases h with
  | request p r htopic hp hr =>
    subst htopic
    rcases hkinds with ⟨q, htopic, rfl, hevent⟩ | ⟨x, htopic, -⟩ | ⟨htopic, -⟩ | ⟨htopic, -⟩
    · refine Or.inl ⟨?_, fun _ => (SubscribeRequestTopic_injective htopic).symm⟩
      rw [hevent, ← (DeserializePayloadObject_fields hb hp).2.2, hr]
      rfl
    · exact absurd htopic.symm (GetResponseTopic_ne_request k k' x)
    · exact absurd htopic (request_ne_message k' k)
    · exact absurd htopic (request_ne_string k' k)
  | response p hm hp =>
    rcases hkinds with ⟨q, rfl, -, -⟩ | ⟨x, -, hevent⟩ | ⟨rfl, -⟩ | ⟨rfl, -⟩
    · exact Or.inr ⟨rfl, (marked_base_iff (by simp [baseTopics])).mp hm⟩
    · exact Or.inl ⟨hevent, fun hne => absurd rfl hne⟩
    · exact Or.inr ⟨rfl, (marked_base_iff (by simp [baseTopics])).mp hm⟩
    · exact Or.inr ⟨rfl, (marked_base_iff (by simp [baseTopics])).mp hm⟩
  | message p hm htopic hp =>
    subst htopic
    rcases hkinds with ⟨q, htopic, -, -⟩ | ⟨x, htopic, -⟩ | ⟨htopic, hevent⟩ | ⟨htopic, -⟩
    · exact absurd htopic.symm (request_ne_message k k')
    · exact absurd (htopic ▸ marked_response k x) hm
    · exact Or.inl ⟨hevent, fun _ => (SubscribeMessageTopic_injective htopic).symm⟩
    · exact absurd htopic (message_ne_string k' k)
  | string p hm htopic hp =>
    subst htopic
    rcases hkinds with ⟨q, htopic, -, -⟩ | ⟨x, htopic, -⟩ | ⟨htopic, -⟩ | ⟨htopic, hevent⟩
    · exact absurd htopic.symm (request_ne_string k k')
    · exact absurd (htopic ▸ marked_response k x) hm
    · exact absurd htopic.symm (message_ne_string k k')
    · exact Or.inl ⟨hevent, fun _ => (SubscribeStringTopic_injective htopic).symm⟩

end Kinds

namespace Network

variable {ι : Type} (rt : Runtime V) (key : ι → Str)

/-- What the calls have done and have to do is the run of their methods. -/
def Scripted (s : Network ι V) : Prop :=
  ∀ c ∈ s.calls, ∃ sch, c.done ++ c.todo = (c.call.run rt (key c.party) c.guid sch).1

/-- Where an event comes from: a publication that a call of its sender has made. -/
structure Origin (c : Call ι V) (o : Occurrence ι V) : Prop where
  party : c.party = o.sender
  published : ∃ topic body bytes, .published topic body bytes ∈ c.done ∧
    c.call.publication rt (key c.party) c.guid = some (topic, body) ∧ Conveys rt body o.event.carried
  own : c.call.event rt = some o.event.name ∧ (o.event.name ≠ .ResponseReceived → key o.sender = key o.receiver) ∨
    o.event.name = .ResponseReceived ∧ marked (key o.sender)

variable {rt key} {s s' : Network ι V}

theorem Scripted.set (h : Scripted rt key s) {n : ℕ} {c c' : Call ι V} (hc : s.calls[n]? = some c)
    (hcc : c.Continues c') : Scripted rt key { s with calls := s.calls.set n c' } := by
  intro d hd
  rcases List.mem_or_eq_of_mem_set hd with hd | rfl
  · exact h d hd
  · obtain ⟨sch, hrun⟩ := h c (List.mem_of_getElem? hc)
    exact ⟨sch, by rw [hcc.effects, hrun, hcc.call, hcc.party, hcc.guid]⟩

theorem Scripted.publication (h : Scripted rt key s) {c : Call ι V} (hc : c ∈ s.calls) {topic : Str} {body : Body V}
    {bytes : List UInt8} (hmem : .published topic body bytes ∈ c.done) :
    c.call.publication rt (key c.party) c.guid = some (topic, body) ∧ body.bytes rt = some bytes := by
  obtain ⟨sch, hrun⟩ := h c hc
  have hin : .published topic body bytes ∈ (c.call.run rt (key c.party) c.guid sch).1 :=
    hrun ▸ List.mem_append_left _ hmem
  rcases SendCall.mem_run hin with ⟨x, hx⟩ | ⟨_, _, _, heq, hpublication, hbytes⟩
  · cases hx
  · cases heq
    exact ⟨hpublication, hbytes⟩

theorem exists_call_of_published (h : Scripted rt key s) {m : Message ι V} (hm : m ∈ s.published) :
    ∃ c ∈ s.calls, c.party = m.sender ∧ .published m.topic m.body m.bytes ∈ c.done ∧
      c.call.publication rt (key c.party) c.guid = some (m.topic, m.body) := by
  obtain ⟨c, hc, hmem⟩ := List.mem_flatMap.mp hm
  obtain ⟨e, he, hof⟩ := List.mem_filterMap.mp hmem
  cases e with
  | subscribed f => cases hof
  | published topic body bytes =>
    cases hof
    exact ⟨c, hc, rfl, he, (h.publication hc he).1⟩

variable [DecidableEq ι]

theorem Scripted.step (h : Scripted rt key s) {a : Action ι V} (hs : step rt key s a = some s') :
    Scripted rt key s' := by
  cases a with
  | start i c guid sch =>
    rw [step_start hs]
    exact List.forall_mem_append.mpr ⟨h, List.forall_mem_singleton.mpr ⟨sch, rfl⟩⟩
  | effect n =>
    obtain ⟨c, e, todo, t, hc, htodo, hp, rfl⟩ := step_effect hs
    exact h.set hc (Call.next_continues htodo)
  | finish n =>
    obtain ⟨c, hc, -, rfl⟩ := step_finish hs
    exact h.set hc c.ended_continues
  | clientConnected i topic =>
    obtain ⟨-, rfl⟩ := perform_subscribed (step_clientConnected hs).2
    exact h
  | lost i =>
    rw [step_lost hs]
    exact h
  | deliver m fresh fresh' =>
    obtain ⟨mail, -, rfl⟩ := step_deliver hs
    exact h

theorem scripted_run {as : List (Action ι V)} (hrun : Run.exec (Network.step rt key) new as = some s) :
    Scripted rt key s :=
  Run.invariant (fun _ _ _ h hs => h.step hs) (fun _ h => absurd h List.not_mem_nil) hrun

/-- **Every event has its call**: in every run, what a party is handed was published by a call of the sender, says what
that call said as far as its text conveys it, and is the event that call is meant for, under the key of the receiver
unless it is a response. -/
theorem raised_origin {as : List (Action ι V)} (hrun : Run.exec (Network.step rt key) new as = some s)
    {o : Occurrence ι V} (ho : o ∈ s.raised) : ∃ c ∈ s.calls, Origin rt key c o := by
  obtain ⟨-, b, -, hrefines⟩ := refines_run hrun
  obtain ⟨handled, -, hraised, hhandled⟩ := hrefines.raised
  rw [← hraised] at ho
  obtain ⟨h, hh, ho⟩ := List.mem_flatMap.mp ho
  obtain ⟨m, fresh, fresh', hm, heq⟩ := hhandled h hh
  rw [heq] at ho
  obtain ⟨e, he, rfl⟩ := List.mem_map.mp ho
  have hmessage : m ∈ b.messages := List.mem_of_getElem? hm
  have hb := hrefines.encoded m hmessage
  have hevent := handled_of_mem he
  obtain ⟨c, hc, hparty, hdone, hpublication⟩ :=
    exists_call_of_published (scripted_run hrun) (hrefines.messages.mem_iff.mp hmessage)
  refine ⟨c, hc, hparty, ⟨m.topic, m.body, m.bytes, hdone, hpublication, hevent.conveys hb⟩, ?_⟩
  rw [← hparty]
  exact hevent.own hpublication hb

/-- The request and the response of a run, each with its call. -/
theorem raised_origin_orders : ∃ s : Network Bool Str,
    Run.exec (Network.step Runtime.strings Overtaking.sharedKey) new
        (Overtaking.actions (Guid.fill 1) (Guid.fill 2)) = some s ∧
      s.raised.length = 2 ∧ ∀ o ∈ s.raised, ∃ c ∈ s.calls, Origin Runtime.strings Overtaking.sharedKey c o := by
  obtain ⟨bytes, -, hrun⟩ := Overtaking.exists_run (Guid.fill 1) (Guid.fill 2)
  exact ⟨_, hrun, rfl, fun o ho => raised_origin hrun ho⟩

end Network

end MqttServices
