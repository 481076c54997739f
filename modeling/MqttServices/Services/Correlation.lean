import MqttServices.Services.Network

/-!
# Requests and the events of their responses

* `Network.Proper`: identifiers are drawn once, and responses answer what their sender was handed.
* `Network.Caused`: what every step keeps: no message bears the identifier of a request that has not
  been published.
* **`Network.response_follows_publish`**: a response is raised after its request has been published.
* `Network.response_overtakes_return`: and before its identifier has been returned, in some run.
-/

namespace MqttServices

variable {V : Type}

/-- A call of an overload of `SendMessageRequest`. -/
def SendCall.IsRequest : SendCall V → Prop
  | request _ => True
  | _ => False

/-- A call of an overload of `SendMessageResponse`. -/
def SendCall.IsResponse : SendCall V → Prop
  | responseName _ _ | response _ => True
  | _ => False

theorem SendCall.IsRequest.not_isResponse {c : SendCall V} (hreq : c.IsRequest) : ¬ c.IsResponse := by
  cases c with
  | request c => exact id
  | responseName | response | messageName | message | string => exact hreq.elim

/-- The event carries a payload with the identifier `g`. -/
def Event.Carries (g : Guid) (e : Event V) : Prop := ∃ p, e.carried = .payload p ∧ p.MessageId = g

namespace Network

variable {ι : Type} (rt : Runtime V) (key : ι → Str)

/-- The identifier a call publishes under. -/
def Call.MessageId (c : Call ι V) : Option Guid :=
  (c.call.publication rt (key c.party) c.guid).map fun p => p.2.MessageId

/-- The call is a request under the identifier `g`. -/
def Call.Requests (c : Call ι V) (g : Guid) : Prop := c.call.IsRequest ∧ c.MessageId rt key = some g

/-- The publication of the call has taken place. -/
def Call.Published (c : Call ι V) : Prop := ∃ topic body bytes, .published topic body bytes ∈ c.done

/-- A call publishes under an identifier no call had before, or answers under one its party was handed. -/
def Proper (s : Network ι V) : Action ι V → Prop
  | .start i c guid sch => ∀ g, (Call.of rt key i c guid sch).MessageId rt key = some g →
      (∀ d ∈ s.calls, d.MessageId rt key ≠ some g) ∨
        c.IsResponse ∧ ∃ r ∈ s.raised, r.receiver = i ∧ r.event.Carries g
  | _ => True

/-- Some call has the identifier `g`, and where a request has it, it has been published. -/
def Launched (calls : List (Call ι V)) (g : Guid) : Prop :=
  (∃ c ∈ calls, c.MessageId rt key = some g) ∧ ∀ c ∈ calls, c.Requests rt key g → c.Published

/-- What the steps of a network keep. -/
structure Caused (s : Network ι V) : Prop where
  run : ∀ c ∈ s.calls, ∃ sch, (c.done ++ c.todo, c.outcome) = c.call.run rt (key c.party) c.guid sch
  unique : ∀ (m n : ℕ) (c d : Call ι V), s.calls[m]? = some c → s.calls[n]? = some d →
    ∀ g, c.Requests rt key g → d.Requests rt key g → m = n
  others : ∀ c ∈ s.calls, ¬ c.call.IsRequest → ∀ g, c.MessageId rt key = some g → Launched rt key s.calls g
  mail : ∀ m ∈ s.mail, ∃ body : Body V, body.bytes rt = some m.bytes ∧ Launched rt key s.calls body.MessageId
  raised : ∀ r ∈ s.raised, ∀ g, r.event.Carries g → Launched rt key s.calls g

variable {rt key} {s s' : Network ι V}

/-! ## Calls that move on -/

/-- The same call, with more of its effects done. -/
structure Call.Continues (c c' : Call ι V) : Prop where
  party : c'.party = c.party
  call : c'.call = c.call
  guid : c'.guid = c.guid
  done : c.done ⊆ c'.done
  effects : c'.done ++ c'.todo = c.done ++ c.todo
  outcome : c'.outcome = c.outcome

theorem Call.next_continues {c : Call ι V} {e : Effect V} {todo : List (Effect V)} (h : c.todo = e :: todo) :
    c.Continues (c.next e todo) where
  party := rfl
  call := rfl
  guid := rfl
  done := List.subset_append_left _ _
  effects := by rw [h, next, List.append_assoc]; rfl
  outcome := rfl

theorem Call.ended_continues (c : Call ι V) : c.Continues { c with ended := true } :=
  ⟨rfl, rfl, rfl, List.Subset.refl _, rfl, rfl⟩

theorem Call.Continues.MessageId {c c' : Call ι V} (h : c.Continues c') :
    c'.MessageId rt key = c.MessageId rt key := by
  rw [Call.MessageId, Call.MessageId, h.party, h.call, h.guid]

theorem Call.Continues.requests {c c' : Call ι V} (h : c.Continues c') {g : Guid} :
    c'.Requests rt key g ↔ c.Requests rt key g := by
  rw [Requests, Requests, h.MessageId, h.call]

theorem Call.Continues.published {c c' : Call ι V} (h : c.Continues c') (hp : c.Published) : c'.Published := by
  obtain ⟨topic, body, bytes, hmem⟩ := hp
  exact ⟨topic, body, bytes, h.done hmem⟩

theorem getElem?_set_cases {calls : List (Call ι V)} {m n : ℕ} {c' d : Call ι V}
    (h : (calls.set n c')[m]? = some d) : m = n ∧ d = c' ∨ m ≠ n ∧ calls[m]? = some d := by
  by_cases hmn : n = m
  · subst hmn
    have hlt : n < calls.length := by
      have := (List.getElem?_eq_some_iff.mp h).1
      rwa [List.length_set] at this
    rw [List.getElem?_set_self hlt] at h
    exact Or.inl ⟨rfl, (Option.some_inj.mp h).symm⟩
  · rw [List.getElem?_set_ne hmn] at h
    exact Or.inr ⟨Ne.symm hmn, h⟩

theorem getElem?_concat_cases {calls : List (Call ι V)} {m : ℕ} {c d : Call ι V} (h : (calls ++ [c])[m]? = some d) :
    calls[m]? = some d ∨ m = calls.length ∧ d = c := by
  have hlt := (List.getElem?_eq_some_iff.mp h).1
  rw [List.length_append, List.length_singleton] at hlt
  by_cases hm : m < calls.length
  · rw [List.getElem?_append_left hm] at h
    exact Or.inl h
  · have hlast : m = calls.length := by omega
    subst hlast
    rw [List.getElem?_concat_length] at h
    exact Or.inr ⟨rfl, (Option.some_inj.mp h).symm⟩

theorem exists_image {calls : List (Call ι V)} {n : ℕ} {c c' : Call ι V} (hc : calls[n]? = some c)
    (h : c.Continues c') {d : Call ι V} (hd : d ∈ calls) :
    ∃ d' ∈ calls.set n c', d'.MessageId rt key = d.MessageId rt key := by
  obtain ⟨m, hm⟩ := List.mem_iff_getElem?.mp hd
  by_cases hmn : n = m
  · subst hmn
    cases hc.symm.trans hm
    exact ⟨c', List.mem_set (List.getElem?_eq_some_iff.mp hc).1 _, h.MessageId⟩
  · have hget : (calls.set n c')[m]? = some d := by rw [List.getElem?_set_ne hmn, hm]
    exact ⟨d, List.mem_of_getElem? hget, rfl⟩

theorem Launched.set {calls : List (Call ι V)} {g : Guid} (hg : Launched rt key calls g) {n : ℕ} {c c' : Call ι V}
    (hc : calls[n]? = some c) (h : c.Continues c') : Launched rt key (calls.set n c') g := by
  obtain ⟨⟨d, hd, hid⟩, hpublished⟩ := hg
  obtain ⟨d', hd', hid'⟩ := exists_image hc h hd
  refine ⟨⟨d', hd', hid'.trans hid⟩, fun x hx hreq => ?_⟩
  rcases List.mem_or_eq_of_mem_set hx with hx | rfl
  · exact hpublished x hx hreq
  · exact h.published (hpublished c (List.mem_of_getElem? hc) (h.requests.mp hreq))

theorem Launched.append {calls : List (Call ι V)} {g : Guid} (hg : Launched rt key calls g) {d : Call ι V}
    (hd : ¬ d.Requests rt key g) : Launched rt key (calls ++ [d]) g := by
  obtain ⟨⟨c, hc, hid⟩, hpublished⟩ := hg
  refine ⟨⟨c, List.mem_append_left _ hc, hid⟩, fun x hx hreq => ?_⟩
  rcases List.mem_append.mp hx with hx | hx
  · exact hpublished x hx hreq
  · cases List.mem_singleton.mp hx
    exact absurd hreq hd

/-! ## Steps -/

theorem Caused.set (h : Caused rt key s) {n : ℕ} {c c' : Call ι V} (hc : s.calls[n]? = some c) (hcc : c.Continues c') :
    Caused rt key { s with calls := s.calls.set n c' } := by
  have hcs : c ∈ s.calls := List.mem_of_getElem? hc
  refine ⟨fun d hd => ?_, ?_, fun d hd hreq g hg => ?_, fun m hm => ?_, fun r hr g hg => (h.raised r hr g hg).set hc hcc⟩
  · rcases List.mem_or_eq_of_mem_set hd with hd | rfl
    · exact h.run d hd
    · obtain ⟨sch, hrun⟩ := h.run c hcs
      exact ⟨sch, by rw [hcc.effects, hcc.outcome, hrun, hcc.call, hcc.party, hcc.guid]⟩
  · intro m₁ m₂ d₁ d₂ h₁ h₂ g hg₁ hg₂
    rcases getElem?_set_cases h₁ with ⟨rfl, rfl⟩ | ⟨-, hold₁⟩
    · rcases getElem?_set_cases h₂ with ⟨rfl, rfl⟩ | ⟨-, hold₂⟩
      · rfl
      · exact h.unique _ _ _ _ hc hold₂ g (hcc.requests.mp hg₁) hg₂
    · rcases getElem?_set_cases h₂ with ⟨rfl, rfl⟩ | ⟨-, hold₂⟩
      · exact h.unique _ _ _ _ hold₁ hc g hg₁ (hcc.requests.mp hg₂)
      · exact h.unique _ _ _ _ hold₁ hold₂ g hg₁ hg₂
  · rcases List.mem_or_eq_of_mem_set hd with hd | rfl
    · exact (h.others d hd hreq g hg).set hc hcc
    · refine (h.others c hcs (hcc.call ▸ hreq) g (hcc.MessageId ▸ hg)).set hc hcc
  · obtain ⟨body, hb, hbody⟩ := h.mail m hm
    exact ⟨body, hb, hbody.set hc hcc⟩

theorem Proper.new_of_requests {i : ι} {c : SendCall V} {guid : Guid} {sch : Schedule}
    (h : Proper rt key s (.start i c guid sch)) {g : Guid} (hreq : (Call.of rt key i c guid sch).Requests rt key g) :
    ∀ d ∈ s.calls, d.MessageId rt key ≠ some g :=
  (h g hreq.2).resolve_right fun hresp => hreq.1.not_isResponse hresp.1

theorem Caused.start (h : Caused rt key s) {i : ι} {c : SendCall V} {guid : Guid} {sch : Schedule}
    (hproper : Proper rt key s (.start i c guid sch)) :
    Caused rt key { s with calls := s.calls ++ [Call.of rt key i c guid sch] } := by
  have hold : ∀ g, Launched rt key s.calls g → Launched rt key (s.calls ++ [Call.of rt key i c guid sch]) g := by
    intro g hg
    refine hg.append fun hreq => ?_
    obtain ⟨d, hd, hid⟩ := hg.1
    exact hproper.new_of_requests hreq d hd hid
  refine ⟨?_, ?_, fun d hd hreq g hg => ?_, fun m hm => ?_, fun r hr g hg => hold g (h.raised r hr g hg)⟩
  · exact List.forall_mem_append.mpr ⟨h.run, List.forall_mem_singleton.mpr ⟨sch, rfl⟩⟩
  · intro m₁ m₂ d₁ d₂ h₁ h₂ g hg₁ hg₂
    rcases getElem?_concat_cases h₁ with hold₁ | ⟨rfl, rfl⟩
    · rcases getElem?_concat_cases h₂ with hold₂ | ⟨rfl, rfl⟩
      · exact h.unique _ _ _ _ hold₁ hold₂ g hg₁ hg₂
      · exact absurd hg₁.2 (hproper.new_of_requests hg₂ d₁ (List.mem_of_getElem? hold₁))
    · rcases getElem?_concat_cases h₂ with hold₂ | ⟨rfl, rfl⟩
      · exact absurd hg₂.2 (hproper.new_of_requests hg₁ d₂ (List.mem_of_getElem? hold₂))
      · rfl
  · rcases List.mem_append.mp hd with hd | hd
    · exact hold g (h.others d hd hreq g hg)
    · cases List.mem_singleton.mp hd
      rcases hproper g hg with hnew | ⟨-, r, hr, -, hcarries⟩
      · -- no request has the identifier, which is new
        refine ⟨⟨_, List.mem_append_right _ (List.mem_singleton.mpr rfl), hg⟩, fun x hx hxreq => ?_⟩
        rcases List.mem_append.mp hx with hx | hx
        · exact absurd hxreq.2 (hnew x hx)
        · cases List.mem_singleton.mp hx
          exact absurd hxreq.1 hreq
      · exact hold g (h.raised r hr g hcarries)
  · obtain ⟨body, hb, hbody⟩ := h.mail m hm
    exact ⟨body, hb, hold _ hbody⟩

/-- **A call that publishes launches its identifier.** -/
theorem Caused.publish (h : Caused rt key s) {n : ℕ} {c : Call ι V} (hc : s.calls[n]? = some c) {topic : Str}
    {body : Body V} {bytes : List UInt8} {todo : List (Effect V)} (htodo : c.todo = .published topic body bytes :: todo) :
    body.bytes rt = some bytes ∧
      Launched rt key (s.calls.set n (c.next (.published topic body bytes) todo)) body.MessageId := by
  have hcs : c ∈ s.calls := List.mem_of_getElem? hc
  have hcc := Call.next_continues htodo
  obtain ⟨sch, hrun⟩ := h.run c hcs
  have hmem : .published topic body bytes ∈ (c.call.run rt (key c.party) c.guid sch).1 := by
    rw [← hrun, htodo]
    exact List.mem_append_right _ List.mem_cons_self
  rcases SendCall.mem_run hmem with ⟨x, hx⟩ | ⟨t, b, bs, heq, hpublication, hbytes⟩
  · cases hx
  cases heq
  have hid : c.MessageId rt key = some body.MessageId := congrArg (Option.map _) hpublication
  refine ⟨hbytes, ?_⟩
  by_cases hreq : c.call.IsRequest
  · -- the only request with the identifier is the call itself
    have hlt := (List.getElem?_eq_some_iff.mp hc).1
    refine ⟨⟨_, List.mem_set hlt _, hcc.MessageId.trans hid⟩, fun x hx hxreq => ?_⟩
    obtain ⟨m, hm⟩ := List.mem_iff_getElem?.mp hx
    rcases getElem?_set_cases hm with ⟨rfl, rfl⟩ | ⟨hne, hold⟩
    · exact ⟨topic, body, bytes, List.mem_append_right _ (List.mem_singleton.mpr rfl)⟩
    · exact absurd (h.unique _ _ _ _ hold hc _ hxreq ⟨hreq, hid⟩) hne
  · exact (h.others c hcs hreq _ hid).set hc hcc

theorem caused_new : Caused rt key (new : Network ι V) where
  run _ h := absurd h List.not_mem_nil
  unique _ _ _ _ h := absurd h (by simp [new])
  others _ h := absurd h List.not_mem_nil
  mail _ h := absurd h List.not_mem_nil
  raised _ h := absurd h List.not_mem_nil

section Steps

variable [DecidableEq ι]

theorem Caused.step (h : Caused rt key s) {a : Action ι V} (hproper : Proper rt key s a)
    (hs : step rt key s a = some s') : Caused rt key s' := by
  cases a with
  | start i c guid sch =>
    rw [step_start hs]
    exact h.start hproper
  | effect n =>
    obtain ⟨c, e, todo, t, hc, htodo, hp, rfl⟩ := step_effect hs
    have hset := h.set hc (Call.next_continues htodo)
    cases e with
    | subscribed f =>
      obtain ⟨-, rfl⟩ := perform_subscribed hp
      exact ⟨hset.run, hset.unique, hset.others, hset.mail, hset.raised⟩
    | published topic body bytes =>
      obtain ⟨-, rfl⟩ := perform_published hp
      refine ⟨hset.run, hset.unique, hset.others, fun m hm => ?_, hset.raised⟩
      rcases List.mem_append.mp hm with hm | hm
      · exact hset.mail m hm
      · obtain ⟨j, -, rfl⟩ := List.mem_map.mp hm
        exact ⟨body, h.publish hc htodo⟩
  | finish n =>
    obtain ⟨c, hc, -, rfl⟩ := step_finish hs
    exact h.set hc c.ended_continues
  | clientConnected i topic =>
    obtain ⟨-, hp⟩ := step_clientConnected hs
    obtain ⟨-, rfl⟩ := perform_subscribed hp
    exact ⟨h.run, h.unique, h.others, h.mail, h.raised⟩
  | lost i =>
    rw [step_lost hs]
    exact ⟨h.run, h.unique, h.others, fun m hm => h.mail m (List.mem_of_mem_filter hm), h.raised⟩
  | deliver m fresh fresh' =>
    obtain ⟨mail, hmail, rfl⟩ := step_deliver hs
    refine ⟨h.run, h.unique, h.others, fun m hm => h.mail m (List.mem_of_mem_eraseIdx hm), fun r hr g hg => ?_⟩
    rcases List.mem_append.mp hr with hr | hr
    · exact h.raised r hr g hg
    · obtain ⟨e, he, rfl⟩ := List.mem_map.mp hr
      obtain ⟨body, hb, hbody⟩ := h.mail mail (List.mem_of_getElem? hmail)
      obtain ⟨p, hp, rfl⟩ := hg
      cases hevents : MqttClientService_MessageReceived rt (key mail.receiver) fresh fresh' mail.topic mail.bytes with
      | none =>
        rw [hevents] at he
        exact absurd he List.not_mem_nil
      | some es =>
        rw [hevents] at he
        have hdecoded := MessageReceived_payload hevents he hp
        rw [DeserializePayloadObject_MessageId hb hdecoded]
        exact hbody

theorem caused_run {as : List (Action ι V)} (hproper : Run.Meets (Network.step rt key) (Proper rt key) new as)
    (hrun : Run.exec (Network.step rt key) new as = some s) : Caused rt key s :=
  Run.invariant_of_meets (fun _ _ _ h hP hs => h.step hP hs) caused_new hproper hrun

end Steps

/-! ## The order of publication and event -/

/-- The call has made all its effects, its publication the last of them, and returns `g`. -/
structure Call.Sent (key : ι → Str) (c : Call ι V) (g : Guid) : Prop where
  todo : c.todo = []
  outcome : c.outcome = .returned g
  published : ∃ before p bytes,
    c.done = before ++ [.published (SubscribeRequestTopic (key c.party)) (.payload p) bytes] ∧ p.MessageId = g

theorem Caused.sent (h : Caused rt key s) {c : Call ι V} (hc : c ∈ s.calls) {g : Guid} (hreq : c.Requests rt key g)
    (hpublished : c.Published) : c.Sent key g := by
  obtain ⟨topic, body, bytes, hmem⟩ := hpublished
  obtain ⟨sch, hrun⟩ := h.run c hc
  obtain ⟨hcall, hid⟩ := hreq
  cases hrequest : c.call with
  | request q =>
    rw [hrequest, SendCall.run, Prod.ext_iff] at hrun
    obtain ⟨heffects, houtcome⟩ := hrun
    obtain ⟨before, after, hdone⟩ := List.append_of_mem hmem
    have hsplit : (SendMessageRequest rt (key c.party) q c.guid sch).1 =
        before ++ .published topic body bytes :: (after ++ c.todo) := by
      rw [← heffects, hdone, List.append_assoc, List.cons_append]
    obtain ⟨hlast, rfl, hreturned⟩ := SendMessageRequest_last hsplit
    obtain ⟨rfl, htodo⟩ := List.append_eq_nil_iff.mp hlast
    -- what a request publishes is a payload under the identifier of the call
    have hpublication : ∃ p : Payload V, body = .payload p ∧ p.MessageId = c.guid ∧ g = c.guid := by
      have hin : .published (SubscribeRequestTopic (key c.party)) body bytes ∈
          ((SendCall.request q).run rt (key c.party) c.guid sch).1 := by
        rw [SendCall.run, hsplit]
        exact List.mem_append_right _ List.mem_cons_self
      rcases SendCall.mem_run hin with ⟨x, hx⟩ | ⟨t, b, bs, heq, hpub, -⟩
      · cases hx
      cases heq
      rw [Call.MessageId, hrequest, hpub] at hid
      obtain ⟨q', -, hq'⟩ := Option.map_eq_some_iff.mp hpub
      cases hq'
      exact ⟨_, rfl, rfl, (Option.some_inj.mp hid).symm⟩
    obtain ⟨p, rfl, hp, rfl⟩ := hpublication
    exact ⟨htodo, houtcome.trans hreturned, before, p, bytes, hdone, hp⟩
  | responseName | response | messageName | message | string =>
    rw [hrequest] at hcall
    exact hcall.elim

section Order

variable [DecidableEq ι]

/-- **A response is raised after its request has been published**: in every run whose identifiers are proper,
when an event carries the identifier of a request, the call has made all its effects and returns it. -/
theorem response_follows_publish {as : List (Action ι V)}
    (hproper : Run.Meets (Network.step rt key) (Proper rt key) new as)
    (hrun : Run.exec (Network.step rt key) new as = some s) {r : Occurrence ι V} (hr : r ∈ s.raised) {g : Guid}
    (hg : r.event.Carries g) {c : Call ι V} (hc : c ∈ s.calls) (hreq : c.Requests rt key g) : c.Sent key g := by
  have hcaused := caused_run hproper hrun
  exact hcaused.sent hc hreq ((hcaused.raised r hr g hg).2 c hc hreq)

variable (rt key) in
/-- Where the event of a response is raised at the party that made the request, the call has returned. -/
def ReturnedFirst (s : Network ι V) : Prop :=
  ∀ r ∈ s.raised, r.event.name = .ResponseReceived → ∀ g, r.event.Carries g →
    ∀ c ∈ s.calls, c.party = r.receiver → c.Requests rt key g → c.ended = true

end Order

/-! ## A response that comes first -/

namespace Overtaking

/-- The requester `false` and the responder `true` share the key `app`. -/
def sharedKey : Bool → Str := fun _ => "app".toList

def requestTopic : Str := SubscribeRequestTopic "app".toList

def responseTopic : Str := GetResponseTopic "app".toList (some "orders".toList)

def subscriptions : List (Bool × Str) := [(true, requestTopic), (false, responseTopic)]

section Run

-- the identifier of the request, and one that is drawn on the way and never looked at
variable (g g' : Guid)

/-- The payload of the request. -/
def orders : Payload Str := Payload.new Runtime.strings (some "orders".toList) none g RequestType.Generic.toInt32

/-- The responder answers, and the answer arrives, before the call of the requester has ended. -/
def actions : List (Action Bool Str) :=
  [.clientConnected true requestTopic,
    .start false (.request (.name (some "orders".toList))) g .lasting,
    .effect 0,
    .effect 0,
    .deliver 0 g' g',
    .start true (.response (some (orders g))) g' .lasting,
    .effect 1,
    .deliver 0 g' g']

def request : Call Bool Str := .of Runtime.strings sharedKey false (.request (.name (some "orders".toList))) g .lasting

def response : Call Bool Str := .of Runtime.strings sharedKey true (.response (some (orders g))) g' .lasting

variable (bytes : List UInt8)

/-- The request after its subscription. -/
def subscribed : Call Bool Str :=
  (request g).next (.subscribed responseTopic) [.published requestTopic (.payload (orders g)) bytes]

/-- The request after its publication. -/
def published : Call Bool Str := (subscribed g bytes).next (.published requestTopic (.payload (orders g)) bytes) []

def answered : Call Bool Str := (response g g').next (.published responseTopic (.payload (orders g)) bytes) []

/-- The request at the responder, or the response at the requester. -/
def arrived (name : EventName) (sender : Bool) : Occurrence Bool Str := ⟨sender, !sender, ⟨name, .payload (orders g)⟩⟩

/-- The last state of the run. -/
def last : Network Bool Str :=
  ⟨subscriptions, [published g bytes, answered g g' bytes], [],
    [arrived g .RequestReceived false, arrived g .ResponseReceived true]⟩

variable {g g' bytes}

theorem request_todo (hb : (orders g).bytes Runtime.strings = some bytes) :
    (request g).todo = [.subscribed responseTopic, .published requestTopic (.payload (orders g)) bytes] := by
  have hrun := SendMessageRequest_connected (k := "app".toList) (c := .name (some "orders".toList))
    (q := ⟨some "orders".toList, none, RequestType.Generic.toInt32⟩) rfl (s := .lasting) rfl ⟨rfl, rfl, rfl, rfl⟩ hb
  exact congrArg Prod.fst hrun

theorem response_todo (hb : (orders g).bytes Runtime.strings = some bytes) :
    (response g g').todo = [.published responseTopic (.payload (orders g)) bytes] := by
  have hrun := SendMessageResponse_connected (k := "app".toList) (s := .lasting) rfl ⟨rfl, rfl, rfl, rfl⟩ hb g'
  exact congrArg Prod.fst hrun

variable (g g') in
/-- **The run**: its steps are proper, and the call of the requester has not ended after it. -/
theorem exists_run : ∃ bytes, Run.Meets (Network.step Runtime.strings sharedKey) (Proper Runtime.strings sharedKey) new
      (actions g g') ∧
    Run.exec (Network.step Runtime.strings sharedKey) new (actions g g') = some (last g g' bytes) := by
  have hround : (orders g).RoundTrips Runtime.strings := roundTrips_null _ _ _
  obtain ⟨bytes, hb, hdecode⟩ := hround
  have hrequest : MqttClientService_MessageReceived Runtime.strings "app".toList g' g' requestTopic bytes =
      some [⟨.RequestReceived, .payload (orders g)⟩] := by
    rw [requestTopic, MessageReceived_request, hdecode]
    rfl
  have hresponse : MqttClientService_MessageReceived Runtime.strings "app".toList g' g' responseTopic bytes =
      some [⟨.ResponseReceived, .payload (orders g)⟩] := by
    rw [responseTopic, MessageReceived_response, hdecode]
    rfl
  have h₃ : Network.step Runtime.strings sharedKey ⟨[(true, requestTopic)], [request g], [], []⟩ (.effect 0) =
      some ⟨subscriptions, [subscribed g bytes], [], []⟩ := by
    rw [step_effect_of (n := 0) rfl (request_todo hb) rfl]
    rfl
  have h₄ : Network.step Runtime.strings sharedKey ⟨subscriptions, [subscribed g bytes], [], []⟩ (.effect 0) =
      some ⟨subscriptions, [published g bytes], [⟨false, true, requestTopic, bytes⟩], []⟩ := by
    rw [step_effect_of (n := 0) rfl rfl rfl]
    rfl
  have h₅ : Network.step Runtime.strings sharedKey
      ⟨subscriptions, [published g bytes], [⟨false, true, requestTopic, bytes⟩], []⟩ (.deliver 0 g' g') =
        some ⟨subscriptions, [published g bytes], [], [arrived g .RequestReceived false]⟩ := by
    rw [step_deliver_of ⟨false, true, requestTopic, bytes⟩ rfl hrequest]
    rfl
  have h₇ : Network.step Runtime.strings sharedKey
      ⟨subscriptions, [published g bytes, response g g'], [], [arrived g .RequestReceived false]⟩ (.effect 1) =
        some ⟨subscriptions, [published g bytes, answered g g' bytes], [⟨true, false, responseTopic, bytes⟩],
          [arrived g .RequestReceived false]⟩ := by
    rw [step_effect_of (n := 1) rfl (response_todo hb) rfl]
    rfl
  have h₈ : Network.step Runtime.strings sharedKey ⟨subscriptions, [published g bytes, answered g g' bytes],
      [⟨true, false, responseTopic, bytes⟩], [arrived g .RequestReceived false]⟩ (.deliver 0 g' g') =
        some (last g g' bytes) := by
    rw [step_deliver_of ⟨true, false, responseTopic, bytes⟩ rfl hresponse]
    rfl
  refine ⟨bytes, ?_⟩
  refine Run.meets_exec_cons rfl trivial (Run.meets_exec_cons rfl ?_ (Run.meets_exec_cons h₃ trivial
    (Run.meets_exec_cons h₄ trivial (Run.meets_exec_cons h₅ trivial (Run.meets_exec_cons rfl ?_
      (Run.meets_exec_cons h₇ trivial (Run.meets_exec_cons h₈ trivial ⟨trivial, rfl⟩)))))))
  · exact fun _ _ => Or.inl fun d hd => absurd hd List.not_mem_nil
  · -- the response answers the payload of the request
    intro _ hg
    cases hg
    exact Or.inr ⟨trivial, _, List.mem_singleton.mpr rfl, rfl, orders g, rfl, rfl⟩

end Run

end Overtaking

/-- The event of a response is raised before the call that made the request returns its identifier. -/
theorem response_overtakes_return : ∃ s : Network Bool Str,
    Run.Meets (Network.step Runtime.strings Overtaking.sharedKey) (Proper Runtime.strings Overtaking.sharedKey) new
      (Overtaking.actions (Guid.fill 1) (Guid.fill 2)) ∧
    Run.exec (Network.step Runtime.strings Overtaking.sharedKey) new
      (Overtaking.actions (Guid.fill 1) (Guid.fill 2)) = some s ∧
    ¬ ReturnedFirst Runtime.strings Overtaking.sharedKey s := by
  obtain ⟨bytes, hproper, hrun⟩ := Overtaking.exists_run (Guid.fill 1) (Guid.fill 2)
  refine ⟨_, hproper, hrun, fun h => ?_⟩
  have hr : Overtaking.arrived (Guid.fill 1) .ResponseReceived true ∈
      (Overtaking.last (Guid.fill 1) (Guid.fill 2) bytes).raised :=
    List.mem_cons_of_mem _ (List.mem_singleton.mpr rfl)
  have hended := h _ hr rfl (Guid.fill 1) ⟨Overtaking.orders (Guid.fill 1), rfl, rfl⟩
    (Overtaking.published (Guid.fill 1) bytes) List.mem_cons_self rfl ⟨trivial, rfl⟩
  exact absurd hended Bool.false_ne_true

theorem response_follows_publish_orders : ∃ (s : Network Bool Str) (r : Occurrence Bool Str) (c : Call Bool Str),
    Run.exec (Network.step Runtime.strings Overtaking.sharedKey) new
        (Overtaking.actions (Guid.fill 1) (Guid.fill 2)) = some s ∧
      r ∈ s.raised ∧ r.event.name = .ResponseReceived ∧ c ∈ s.calls ∧ c.Sent Overtaking.sharedKey (Guid.fill 1) := by
  obtain ⟨bytes, hproper, hrun⟩ := Overtaking.exists_run (Guid.fill 1) (Guid.fill 2)
  have hr : Overtaking.arrived (Guid.fill 1) .ResponseReceived true ∈
      (Overtaking.last (Guid.fill 1) (Guid.fill 2) bytes).raised :=
    List.mem_cons_of_mem _ (List.mem_singleton.mpr rfl)
  refine ⟨_, _, Overtaking.published (Guid.fill 1) bytes, hrun, hr, rfl, List.mem_cons_self, ?_⟩
  exact response_follows_publish hproper hrun hr ⟨Overtaking.orders (Guid.fill 1), rfl, rfl⟩ List.mem_cons_self
    ⟨trivial, rfl⟩

end Network

end MqttServices
