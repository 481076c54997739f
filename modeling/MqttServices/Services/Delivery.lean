import Mathlib.Algebra.Order.BigOperators.Group.List
import Mathlib.Data.List.InsertIdx
import MqttServices.Lib.Broadcast
import MqttServices.Services.Correlation

/-!
# Delivery

* `leadsTo`: the events that a message on a topic can raise; **`MessageReceived_single`**: it raises at most one.
* `Network.Message`, `Network.published`: the messages published so far.
* `Network.Refines`: the network as a broadcast medium; **`Network.refines_run`**: every run is one of the medium.
* **`Network.raised_le_published`**: no message is handled twice by one party.
-/

namespace MqttServices

variable {V : Type}

/-- The identifier of what a handler is called with. -/
def Carried.MessageId : Carried V → Guid
  | payload p => p.MessageId
  | string p => p.MessageId

/-- The events that a message on the topic can raise under the key `k`. -/
def leadsTo (k topic : Str) (name : EventName) : Bool :=
  if topic = SubscribeRequestTopic k then name ∉ [.ResponseReceived, .MessageReceived, .StringReceived]
  else if marked topic then name = .ResponseReceived
  else topic = SubscribeMessageTopic k && name = .MessageReceived ||
    topic = SubscribeStringTopic k && name = .StringReceived

/-! ## What one message raises -/

section Handler

variable {rt : Runtime V} {k : Str} {fresh fresh' : Guid} {bytes : List UInt8} {body : Body V}

/-- A payload read as a string keeps its name and its identifier. -/
theorem StringPayload.read_members (fresh : Guid) (p : Payload V) (j : Json) :
    StringPayload.read fresh (.object (p.members j)) = some (some ⟨p.ExchangeName, none, p.MessageId⟩) := by
  rw [StringPayload.read, Json.readRecord_object, Payload.members, Json.readMembers_cons rfl (Json.readText_ofText _),
    Json.readMembers_skip rfl, Json.readMembers_skip rfl, Json.readMembers_cons rfl (readGuid_toText _),
    Json.readMembers_skip rfl]
  rfl

/-- **What is read as a string from a published object bears its identifier.** -/
theorem readString_MessageId (hb : body.bytes rt = some bytes) {p : StringPayload}
    (hp : readString fresh bytes = some (some p)) : p.MessageId = body.MessageId := by
  cases body with
  | string q =>
    rw [readString_bytes hb] at hp
    cases hp
    rfl
  | payload q =>
    obtain ⟨j, hj, hbytes⟩ := Option.bind_eq_some_iff.mp hb
    obtain ⟨j', -, rfl⟩ := Option.map_eq_some_iff.mp hj
    rw [readString, parse_jsonBytes hbytes, Option.bind_some, StringPayload.read_members] at hp
    cases hp
    rfl

/-- At most one event, of a kind the topic leads to, with the identifier of the message. -/
structure Single (k topic : Str) (body : Body V) (es : List (Event V)) : Prop where
  one : es.length ≤ 1
  leads : ∀ e ∈ es, leadsTo k topic e.name = true
  id : ∀ e ∈ es, e.carried.MessageId = body.MessageId

theorem Single.nil {topic : Str} : Single k topic body [] :=
  ⟨Nat.zero_le 1, fun _ h => absurd h List.not_mem_nil, fun _ h => absurd h List.not_mem_nil⟩

theorem Single.singleton {topic : Str} {e : Event V} (hleads : leadsTo k topic e.name = true)
    (hid : e.carried.MessageId = body.MessageId) : Single k topic body [e] :=
  ⟨Nat.le_refl 1, List.forall_mem_singleton.mpr hleads, List.forall_mem_singleton.mpr hid⟩

/-- A decoded payload that is handed on as an event of one name. -/
theorem single_decoded {topic : Str} {name : EventName} (hb : body.bytes rt = some bytes)
    (hleads : leadsTo k topic name = true) :
    Single k topic body ((DeserializePayloadObject rt fresh fresh' bytes).toList.map fun p => ⟨name, .payload p⟩) := by
  cases hp : DeserializePayloadObject rt fresh fresh' bytes with
  | none => exact .nil
  | some p => exact .singleton hleads (DeserializePayloadObject_MessageId hb hp)

theorem RequestType.leadsTo_event (k : Str) (r : RequestType) : leadsTo k (SubscribeRequestTopic k) r.event = true := by
  rw [leadsTo, if_pos rfl]
  cases r <;> rfl

theorem single_request (hb : body.bytes rt = some bytes) :
    Single k (SubscribeRequestTopic k) body
      ((DeserializePayloadObject rt fresh fresh' bytes).toList.flatMap requestEvents) := by
  cases hp : DeserializePayloadObject rt fresh fresh' bytes with
  | none => exact .nil
  | some p =>
    rw [Option.toList_some, List.flatMap_singleton, requestEvents]
    cases RequestType.ofInt32? p.RequestType with
    | none => exact .nil
    | some r => exact .singleton (r.leadsTo_event k) (DeserializePayloadObject_MessageId hb hp)

/-- **A message raises at most one event**, whatever its topic and the key of its receiver. -/
theorem MessageReceived_single (hb : body.bytes rt = some bytes) (topic : Str) :
    Single k topic body ((MqttClientService_MessageReceived rt k fresh fresh' topic bytes).getD []) := by
  by_cases hreq : topic = SubscribeRequestTopic k
  · subst hreq
    rw [MessageReceived_request]
    exact single_request hb
  by_cases hm : marked topic
  · rw [MessageReceived_marked hreq hm]
    refine single_decoded hb ?_
    rw [leadsTo, if_neg hreq, if_pos hm]
    rfl
  have hleads : ∀ name, leadsTo k topic name = (topic = SubscribeMessageTopic k && name = .MessageReceived ||
      topic = SubscribeStringTopic k && name = .StringReceived : Bool) := fun name => by
    rw [leadsTo, if_neg hreq, if_neg hm]
  rw [MqttClientService_MessageReceived, if_neg hreq, if_neg hm]
  dsimp only
  by_cases hstring : topic = SubscribeStringTopic k
  · have hmessage : topic ≠ SubscribeMessageTopic k := fun h => SubscribeStringTopic_ne_message k (hstring.symm.trans h)
    rw [if_neg hmessage, if_pos hstring]
    cases hread : readString fresh bytes with
    | none => exact .nil
    | some p =>
      cases p with
      | none => exact .nil
      | some p => exact .singleton (by rw [hleads]; simp [hstring]) (readString_MessageId hb hread)
  · rw [if_neg hstring]
    by_cases hmessage : topic = SubscribeMessageTopic k
    · rw [if_pos hmessage]
      have hname : leadsTo k topic .MessageReceived = true := by
        rw [hleads]
        simp [hmessage]
      have hdecoded : Single k topic body ((DeserializePayloadObject rt fresh fresh' bytes).toList.map
          fun p => ⟨.MessageReceived, .payload p⟩) := single_decoded hb hname
      simpa using hdecoded
    · rw [if_neg hmessage]
      exact .nil

end Handler

namespace Network

/-! ## The messages published -/

/-- A message at its publication. -/
structure Message (ι V : Type) where
  sender : ι
  topic : Str
  body : Body V
  bytes : List UInt8

variable {ι : Type} {rt : Runtime V} {key : ι → Str} {s s' : Network ι V}

/-- The message of an effect. -/
def Message.of? (i : ι) : Effect V → Option (Message ι V)
  | .subscribed _ => none
  | .published topic body bytes => some ⟨i, topic, body, bytes⟩

/-- The messages a call has published. -/
def Call.messages (c : Call ι V) : List (Message ι V) := c.done.filterMap (Message.of? c.party)

/-- The messages published so far. -/
def published (s : Network ι V) : List (Message ι V) := s.calls.flatMap Call.messages

theorem Call.messages_next (c : Call ι V) (e : Effect V) (todo : List (Effect V)) :
    (c.next e todo).messages = c.messages ++ (Message.of? c.party e).toList := by
  rw [Call.messages, next, List.filterMap_append]
  cases e <;> rfl

theorem flatMap_set {calls : List (Call ι V)} {n : ℕ} {c c' : Call ι V} (hc : calls[n]? = some c)
    {xs : List (Message ι V)} (h : c'.messages = c.messages ++ xs) :
    ((calls.set n c').flatMap Call.messages).Perm (calls.flatMap Call.messages ++ xs) := by
  induction calls generalizing n with
  | nil => cases hc
  | cons d calls ih =>
    cases n with
    | zero =>
      cases hc
      rw [List.set_cons_zero, List.flatMap_cons, List.flatMap_cons, h, List.append_assoc, List.append_assoc]
      exact List.perm_append_comm.append_left _
    | succ n =>
      rw [List.set_cons_succ, List.flatMap_cons, List.flatMap_cons, List.append_assoc]
      exact (ih hc).append_left _

/-! ## The network as a medium -/

/-- The mail of message `p.1` to its receiver. -/
def IsMail (b : Broadcast.Medium ι (Message ι V)) (p : ℕ × Mail ι) : Prop :=
  ∃ m, b.messages[p.1]? = some m ∧ p.2.sender = m.sender ∧ p.2.topic = m.topic ∧ p.2.bytes = m.bytes

variable (rt key) in
/-- What the message raised when it was handed over. -/
def IsHandled (b : Broadcast.Medium ι (Message ι V)) (h : (ℕ × ι) × List (Occurrence ι V)) : Prop :=
  ∃ m fresh fresh', b.messages[h.1.1]? = some m ∧
    h.2 = ((MqttClientService_MessageReceived rt (key h.1.2) fresh fresh' m.topic m.bytes).getD []).map
      fun e => ⟨m.sender, h.1.2, e⟩

/-- The mail is what is pending, and the events are those of what was handed over. -/
structure Refines (rt : Runtime V) (key : ι → Str) (s : Network ι V) (b : Broadcast.Medium ι (Message ι V)) : Prop where
  todo : ∀ c ∈ s.calls, ∀ topic body bytes, .published topic body bytes ∈ c.todo → body.bytes rt = some bytes
  messages : b.messages.Perm s.published
  encoded : ∀ m ∈ b.messages, m.body.bytes rt = some m.bytes
  mail : ∃ tagged : List (ℕ × Mail ι), tagged.map Prod.snd = s.mail ∧
    (tagged.map fun p => (p.1, p.2.receiver)).Nodup ∧
    (∀ n i, (n, i) ∈ tagged.map (fun p => (p.1, p.2.receiver)) ↔ b.fate n i = .pending) ∧ ∀ p ∈ tagged, IsMail b p
  raised : ∃ handled : List ((ℕ × ι) × List (Occurrence ι V)), handled.map Prod.fst = b.log ∧
    handled.flatMap Prod.snd = s.raised ∧ ∀ h ∈ handled, IsHandled rt key b h

theorem refines_new [DecidableEq ι] : Refines rt key (new : Network ι V) .empty where
  todo := fun _ h => absurd h List.not_mem_nil
  messages := List.Perm.refl []
  encoded := fun _ h => absurd h List.not_mem_nil
  mail := ⟨[], rfl, List.nodup_nil, fun _ _ => iff_of_false List.not_mem_nil (by simp [Broadcast.Medium.empty]),
    fun _ h => absurd h List.not_mem_nil⟩
  raised := ⟨[], rfl, rfl, fun _ h => absurd h List.not_mem_nil⟩

theorem Refines.of_calls {b : Broadcast.Medium ι (Message ι V)} (h : Refines rt key s b) {calls : List (Call ι V)}
    {subscriptions : List (ι × Str)}
    (htodo : ∀ c ∈ calls, ∀ topic body bytes, .published topic body bytes ∈ c.todo → body.bytes rt = some bytes)
    (hmessages : (s.calls.flatMap Call.messages).Perm (calls.flatMap Call.messages)) :
    Refines rt key { s with calls := calls, subscriptions := subscriptions } b :=
  ⟨htodo, h.messages.trans hmessages, h.encoded, h.mail, h.raised⟩

theorem todo_set {calls : List (Call ι V)} {n : ℕ} {c : Call ι V} (hc : calls[n]? = some c) (c' : Call ι V)
    (h : c'.todo ⊆ c.todo)
    (htodo : ∀ c ∈ calls, ∀ topic body bytes, .published topic body bytes ∈ c.todo → body.bytes rt = some bytes) :
    ∀ c ∈ calls.set n c', ∀ topic body bytes, .published topic body bytes ∈ c.todo → body.bytes rt = some bytes := by
  intro d hd topic body bytes hmem
  rcases List.mem_or_eq_of_mem_set hd with hd | rfl
  · exact htodo d hd topic body bytes hmem
  · exact htodo c (List.mem_of_getElem? hc) topic body bytes (h hmem)

theorem IsMail.publish [DecidableEq ι] {b : Broadcast.Medium ι (Message ι V)} {p : ℕ × Mail ι} (h : IsMail b p)
    (m : Message ι V) (receivers : List ι) : IsMail (b.publish m receivers) p := by
  obtain ⟨m', hm', hrest⟩ := h
  exact ⟨m', List.getElem?_append_left (List.getElem?_eq_some_iff.mp hm').1 ▸ hm', hrest⟩

theorem IsHandled.publish [DecidableEq ι] {b : Broadcast.Medium ι (Message ι V)}
    {h : (ℕ × ι) × List (Occurrence ι V)} (hh : IsHandled rt key b h) (m : Message ι V) (receivers : List ι) :
    IsHandled rt key (b.publish m receivers) h := by
  obtain ⟨m', fresh, fresh', hm', hrest⟩ := hh
  exact ⟨m', fresh, fresh', List.getElem?_append_left (List.getElem?_eq_some_iff.mp hm').1 ▸ hm', hrest⟩

variable [DecidableEq ι]

/-- **A publication is one of the medium.** -/
theorem Refines.publish {b : Broadcast.Medium ι (Message ι V)} (h : Refines rt key s b) {m : Message ι V}
    (hm : m.body.bytes rt = some m.bytes) {calls : List (Call ι V)}
    (htodo : ∀ c ∈ calls, ∀ topic body bytes, .published topic body bytes ∈ c.todo → body.bytes rt = some bytes)
    (hcalls : (calls.flatMap Call.messages).Perm (s.calls.flatMap Call.messages ++ [m])) :
    Refines rt key
      { s with calls := calls
               mail := s.mail ++ (s.receivers m.topic).map fun j => ⟨m.sender, j, m.topic, m.bytes⟩ }
      (b.publish m (s.receivers m.topic)) where
  todo := htodo
  messages := (h.messages.append_right [m]).trans hcalls.symm
  encoded := List.forall_mem_append.mpr ⟨h.encoded, List.forall_mem_singleton.mpr hm⟩
  mail := by
    obtain ⟨tagged, hmap, hnodup, hpending, hmail⟩ := h.mail
    refine ⟨tagged ++ (s.receivers m.topic).map fun j => (b.messages.length, ⟨m.sender, j, m.topic, m.bytes⟩),
      ?_, ?_, fun n i => ?_, ?_⟩
    · rw [List.map_append, hmap, List.map_map]
      rfl
    · rw [List.map_append, List.map_map]
      refine hnodup.append ?_ ?_
      · exact (List.nodup_dedup _).map fun i j hij => (Prod.mk.inj hij).2
      · -- an index that is pending is one of an earlier message
        intro p hold hnew
        obtain ⟨j, -, rfl⟩ := List.mem_map.mp hnew
        exact absurd (Broadcast.Medium.lt_of_pending ((hpending _ _).mp hold)) (Nat.lt_irrefl _)
    · rw [List.map_append, List.mem_append, hpending, List.map_map]
      change _ ↔ (if n = b.messages.length ∧ i ∈ s.receivers m.topic then Broadcast.Fate.pending else b.fate n i) = _
      split_ifs with hnew
      · refine iff_of_true (Or.inr (List.mem_map.mpr ⟨i, hnew.2, ?_⟩)) rfl
        rw [hnew.1]
        rfl
      · refine or_iff_left fun hmem => hnew ?_
        obtain ⟨j, hj, heq⟩ := List.mem_map.mp hmem
        cases heq
        exact ⟨rfl, hj⟩
    · refine List.forall_mem_append.mpr ⟨fun p hp => (hmail p hp).publish m _, fun p hp => ?_⟩
      obtain ⟨j, -, rfl⟩ := List.mem_map.mp hp
      exact ⟨m, List.getElem?_concat_length, rfl, rfl, rfl⟩
  raised := by
    obtain ⟨handled, hlog, hraised, hhandled⟩ := h.raised
    exact ⟨handled, hlog, hraised, fun p hp => (hhandled p hp).publish m _⟩

/-- **The end of a session is a loss in the medium.** -/
theorem Refines.lost {b : Broadcast.Medium ι (Message ι V)} (h : Refines rt key s b) (i : ι) :
    Refines rt key
      { s with subscriptions := s.subscriptions.filter fun p => p.1 ≠ i
               mail := s.mail.filter fun m => m.receiver ≠ i }
      (b.drop i) where
  todo := h.todo
  messages := h.messages
  encoded := h.encoded
  mail := by
    obtain ⟨tagged, hmap, hnodup, hpending, hmail⟩ := h.mail
    refine ⟨tagged.filter fun p => p.2.receiver ≠ i, ?_, ?_, fun n j => ?_, fun p hp => ?_⟩
    · rw [← hmap, List.filter_map]
      rfl
    · exact (List.filter_sublist.map _).nodup hnodup
    · change _ ↔ (if j = i ∧ b.fate n j = .pending then Broadcast.Fate.dropped else b.fate n j) = _
      have hmem : (n, j) ∈ (tagged.filter fun p => decide (p.2.receiver ≠ i)).map (fun p => (p.1, p.2.receiver)) ↔
          (n, j) ∈ tagged.map (fun p => (p.1, p.2.receiver)) ∧ j ≠ i := by
        simp only [List.mem_map, List.mem_filter, decide_eq_true_eq, Prod.mk.injEq]
        constructor
        · rintro ⟨p, ⟨hp, hne⟩, rfl, rfl⟩
          exact ⟨⟨p, hp, rfl, rfl⟩, hne⟩
        · rintro ⟨⟨p, hp, rfl, rfl⟩, hne⟩
          exact ⟨p, ⟨hp, hne⟩, rfl, rfl⟩
      rw [hmem, hpending]
      split_ifs with hdrop
      · exact iff_of_false (fun hmem => hmem.2 hdrop.1) (by simp)
      · exact ⟨fun hmem => hmem.1, fun hp => ⟨hp, fun hj => hdrop ⟨hj, hp⟩⟩⟩
    · exact hmail p (List.mem_filter.mp hp).1
  raised := h.raised

/-- **A delivery hands a message over.** -/
theorem Refines.deliver {b : Broadcast.Medium ι (Message ι V)} (h : Refines rt key s b) {m : ℕ} {mail : Mail ι}
    (hm : s.mail[m]? = some mail) (fresh fresh' : Guid) : ∃ a b', b.step a = some b' ∧ Refines rt key { s with
      mail := s.mail.eraseIdx m
      raised := s.raised ++ ((MqttClientService_MessageReceived rt (key mail.receiver) fresh fresh' mail.topic
        mail.bytes).getD []).map fun e => ⟨mail.sender, mail.receiver, e⟩ } b' := by
  obtain ⟨tagged, hmap, hnodup, hpending, hmail⟩ := h.mail
  obtain ⟨handled, hlog, hraised, hhandled⟩ := h.raised
  rw [← hmap, List.getElem?_map] at hm
  obtain ⟨⟨n, mail'⟩, htag, rfl⟩ := Option.map_eq_some_iff.mp hm
  have hmem : (n, mail') ∈ tagged := List.mem_of_getElem? htag
  have hfate : b.fate n mail'.receiver = .pending := (hpending _ _).mp (List.mem_map.mpr ⟨_, hmem, rfl⟩)
  obtain ⟨message, hmessage, hsender, htopic, hbytes⟩ := hmail _ hmem
  refine ⟨.hand n mail'.receiver, b.hand n mail'.receiver hfate, Broadcast.Medium.step_hand hfate,
    h.todo, h.messages, h.encoded, ⟨tagged.eraseIdx m, ?_, ?_, fun n' j => ?_, ?_⟩,
    ⟨handled ++ [((n, mail'.receiver), ((MqttClientService_MessageReceived rt (key mail'.receiver) fresh fresh'
      mail'.topic mail'.bytes).getD []).map fun e => ⟨mail'.sender, mail'.receiver, e⟩)], ?_, ?_, ?_⟩⟩
  · rw [← hmap, List.eraseIdx_map]
  · rw [← List.eraseIdx_map]
    exact hnodup.eraseIdx m
  · -- the pair handed over was pending once
    have hget : (tagged.map fun p => (p.1, p.2.receiver))[m]? = some (n, mail'.receiver) := by
      rw [List.getElem?_map, htag]
      rfl
    obtain ⟨hlt, hget⟩ := List.getElem?_eq_some_iff.mp hget
    change _ ↔ (if n' = n ∧ j = mail'.receiver then Broadcast.Fate.handed else b.fate n' j) = _
    rw [← List.eraseIdx_map, ← hnodup.erase_getElem m hlt, hget, hnodup.mem_erase_iff, hpending, ne_eq, Prod.mk.injEq]
    split_ifs with heq
    · exact iff_of_false (fun hne => hne.1 heq) (by simp)
    · exact and_iff_right heq
  · exact fun p hp => hmail p (List.mem_of_mem_eraseIdx hp)
  · rw [List.map_append, hlog]
    rfl
  · rw [List.flatMap_append, hraised, List.flatMap_singleton]
  · refine List.forall_mem_append.mpr ⟨hhandled, List.forall_mem_singleton.mpr ?_⟩
    exact ⟨message, fresh, fresh', hmessage, by rw [← hsender, ← htopic, ← hbytes]⟩

theorem Refines.step {b : Broadcast.Medium ι (Message ι V)} (h : Refines rt key s b) {a : Action ι V}
    (hs : step rt key s a = some s') :
    ∃ as b', Run.exec Broadcast.Medium.step b as = some b' ∧ Refines rt key s' b' := by
  have hone : ∀ {a b'}, b.step a = some b' → Run.exec Broadcast.Medium.step b [a] = some b' :=
    fun hb => Run.exec_cons_eq_some.mpr ⟨_, hb, rfl⟩
  cases a with
  | start i c guid sch =>
    rw [step_start hs]
    refine ⟨[], b, rfl, h.of_calls (List.forall_mem_append.mpr ⟨h.todo, List.forall_mem_singleton.mpr ?_⟩) ?_⟩
    · intro topic body bytes hmem
      rcases SendCall.mem_run hmem with ⟨x, heq⟩ | ⟨_, _, _, heq, -, hb⟩
      · cases heq
      · cases heq
        exact hb
    · rw [List.flatMap_append, List.flatMap_singleton]
      exact List.Perm.of_eq (List.append_nil _).symm
  | effect n =>
    obtain ⟨c, e, todo, t, hc, htodo, hp, rfl⟩ := step_effect hs
    have hset := todo_set hc (c.next e todo) (fun x hx => htodo ▸ List.mem_cons_of_mem e hx) h.todo
    cases e with
    | subscribed f =>
      obtain ⟨-, rfl⟩ := perform_subscribed hp
      refine ⟨[], b, rfl, h.of_calls hset ?_⟩
      have hperm := flatMap_set hc (c.messages_next (.subscribed f) todo)
      rw [Message.of?, Option.toList_none, List.append_nil] at hperm
      exact hperm.symm
    | published topic body bytes =>
      obtain ⟨-, rfl⟩ := perform_published hp
      have hbytes := h.todo c (List.mem_of_getElem? hc) topic body bytes (htodo ▸ List.mem_cons_self)
      exact ⟨[.publish _ _], _, hone rfl, h.publish (m := ⟨c.party, topic, body, bytes⟩) hbytes hset
        (flatMap_set hc (c.messages_next (.published topic body bytes) todo))⟩
  | finish n =>
    obtain ⟨c, hc, -, rfl⟩ := step_finish hs
    refine ⟨[], b, rfl, h.of_calls (todo_set hc _ (List.Subset.refl c.todo) h.todo) ?_⟩
    have hsame : Call.messages { c with ended := true } = c.messages ++ [] := (List.append_nil _).symm
    have hperm := flatMap_set hc hsame
    rw [List.append_nil] at hperm
    exact hperm.symm
  | clientConnected i topic =>
    obtain ⟨-, rfl⟩ := perform_subscribed (step_clientConnected hs).2
    exact ⟨[], b, rfl, h.of_calls h.todo (List.Perm.refl _)⟩
  | lost i =>
    rw [step_lost hs]
    exact ⟨[.drop i], _, hone rfl, h.lost i⟩
  | deliver m fresh fresh' =>
    obtain ⟨mail, hm, rfl⟩ := step_deliver hs
    obtain ⟨a, b', hb', hrefines⟩ := h.deliver hm fresh fresh'
    exact ⟨_, _, hone hb', hrefines⟩

/-- **Every run of the network is a run of the medium.** -/
theorem refines_run {as : List (Action ι V)} (hrun : Run.exec (Network.step rt key) new as = some s) :
    ∃ bs b, Run.exec Broadcast.Medium.step .empty bs = some b ∧ Refines rt key s b := by
  refine Run.invariant (I := fun s => ∃ bs b, Run.exec Broadcast.Medium.step .empty bs = some b ∧ Refines rt key s b)
    (fun s a s' h hs => ?_) ⟨[], .empty, rfl, refines_new⟩ hrun
  obtain ⟨bs, b, hb, hrefines⟩ := h
  obtain ⟨cs, b', hcs, hrefines'⟩ := hrefines.step hs
  exact ⟨bs ++ cs, b', by rw [Run.exec_append, hb]; exact hcs, hrefines'⟩

/-! ## No message twice -/

/-- The event is raised at `j`, under the name and with the identifier. -/
def Occurrence.Is (j : ι) (name : EventName) (g : Guid) (o : Occurrence ι V) : Bool :=
  o.receiver = j && o.event.name = name && o.event.carried.MessageId = g

/-- The message has the identifier, and its topic leads to the event under the key `k`. -/
def Message.CanRaise (k : Str) (name : EventName) (g : Guid) (m : Message ι V) : Bool :=
  leadsTo k m.topic name && m.body.MessageId = g

theorem sum_map_le_countP {α : Type} {l : List α} {f : α → ℕ} {p : α → Bool}
    (h : ∀ x ∈ l, f x ≤ (p x).toNat) : (l.map f).sum ≤ l.countP p := by
  induction l with
  | nil => exact Nat.le_refl 0
  | cons x l ih =>
    rw [List.map_cons, List.sum_cons, List.countP_cons, Nat.add_comm]
    have hx := h x List.mem_cons_self
    refine Nat.add_le_add (ih fun y hy => h y (List.mem_cons_of_mem x hy)) ?_
    cases hp : p x <;> simpa [hp] using hx

/-- What a message raised when it was handed to `j`: at most one event, and only one it can raise. -/
theorem IsHandled.countP_le {b : Broadcast.Medium ι (Message ι V)}
    (hb : ∀ m ∈ b.messages, m.body.bytes rt = some m.bytes) {h : (ℕ × ι) × List (Occurrence ι V)}
    (hh : IsHandled rt key b h) (j : ι) (name : EventName) (g : Guid) :
    h.2.countP (Occurrence.Is j name g) ≤
      (decide (h.1.2 = j) && (b.messages[h.1.1]?).any (Message.CanRaise (key j) name g)).toNat := by
  obtain ⟨m, fresh, fresh', hm, heq⟩ := hh
  have hsingle : Single (key h.1.2) m.topic m.body
      ((MqttClientService_MessageReceived rt (key h.1.2) fresh fresh' m.topic m.bytes).getD []) :=
    MessageReceived_single (hb m (List.mem_of_getElem? hm)) m.topic
  rw [hm, Option.any_some]
  by_cases hpos : 0 < h.2.countP (Occurrence.Is j name g)
  · obtain ⟨o, ho, his⟩ := List.countP_pos_iff.mp hpos
    rw [heq] at ho
    obtain ⟨e, he, rfl⟩ := List.mem_map.mp ho
    simp only [Occurrence.Is, Bool.and_eq_true, decide_eq_true_eq] at his
    obtain ⟨⟨hj, hname⟩, hg⟩ := his
    have hcan : Message.CanRaise (key j) name g m = true := by
      rw [Message.CanRaise, ← hj, ← hname, hsingle.leads e he, ← hsingle.id e he, hg]
      simp
    rw [hcan, hj, decide_eq_true rfl]
    refine List.countP_le_length.trans ?_
    rw [heq, List.length_map]
    exact hsingle.one
  · exact (Nat.le_of_not_lt hpos).trans (Nat.zero_le _)

/-- **No message is handled twice by one party**: under any name and any identifier, a party raises at most as many
events as messages were published that have the identifier and whose topic leads to the event. -/
theorem raised_le_published {as : List (Action ι V)} (hrun : Run.exec (Network.step rt key) new as = some s) (j : ι)
    (name : EventName) (g : Guid) :
    s.raised.countP (Occurrence.Is j name g) ≤ s.published.countP (Message.CanRaise (key j) name g) := by
  obtain ⟨-, b, -, hrefines⟩ := refines_run hrun
  obtain ⟨handled, hlog, hraised, hhandled⟩ := hrefines.raised
  calc s.raised.countP (Occurrence.Is j name g)
      = (handled.map fun h => h.2.countP (Occurrence.Is j name g)).sum := by
        rw [← hraised, List.countP_flatMap]
        rfl
    _ ≤ handled.countP fun h => decide (h.1.2 = j) && (b.messages[h.1.1]?).any (Message.CanRaise (key j) name g) :=
        sum_map_le_countP fun h hh => (hhandled h hh).countP_le hrefines.encoded j name g
    _ = b.log.countP fun e => decide (e.2 = j) && (b.messages[e.1]?).any (Message.CanRaise (key j) name g) := by
        rw [← hlog, List.countP_map]
        rfl
    _ ≤ b.messages.countP (Message.CanRaise (key j) name g) := b.countP_log_le j _
    _ = s.published.countP (Message.CanRaise (key j) name g) := hrefines.messages.countP_eq _

/-- A request and its response, each raised once. -/
theorem raised_le_published_orders : ∃ s : Network Bool Str,
    Run.exec (Network.step Runtime.strings Overtaking.sharedKey) new
        (Overtaking.actions (Guid.fill 1) (Guid.fill 2)) = some s ∧
      s.raised.countP (Occurrence.Is false .ResponseReceived (Guid.fill 1)) = 1 ∧
      s.raised.countP (Occurrence.Is false .ResponseReceived (Guid.fill 1)) ≤
        s.published.countP (Message.CanRaise "app".toList .ResponseReceived (Guid.fill 1)) := by
  obtain ⟨bytes, -, hrun⟩ := Overtaking.exists_run (Guid.fill 1) (Guid.fill 2)
  exact ⟨_, hrun, rfl, raised_le_published hrun false .ResponseReceived (Guid.fill 1)⟩

end Network

end MqttServices
