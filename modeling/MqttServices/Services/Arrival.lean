import MqttServices.Services.Delivery
import MqttServices.Services.Origin

/-!
# What arrives

* `Network.Accounted`: a message is on its way, or has been handled; **`Network.accounted_run`**: it is not lost.
* `Network.Kept`: what stays true of a party while its session does not end; **`Network.kept_run`**.
* `Network.exists_quiet`: what is on its way can be handled.
* `Network.Asks`, `Network.Answers`: a request and a response that have been published.
* **`Network.exchange_completes`**: both raise their events, in any order of the steps.
-/

namespace MqttServices.Network

variable {ι V : Type} (rt : Runtime V) (key : ι → Str)

/-- The message of `i` to `j` is on its way, or it has been handled there and every event of it raised. -/
def Accounted (s : Network ι V) (i j : ι) (topic : Str) (bytes : List UInt8) : Prop :=
  ⟨i, j, topic, bytes⟩ ∈ s.mail ∨ ∃ fresh fresh',
    ∀ e ∈ (MqttClientService_MessageReceived rt (key j) fresh fresh' topic bytes).getD [], ⟨i, j, e⟩ ∈ s.raised

variable [DecidableEq ι]

/-- What stays true of a call that is made after `u`: what it has subscribed, where it is one of `j`, and the account of
what it has published on a topic that `j` receives. -/
structure Call.Kept (u : Network ι V) (j : ι) (s : Network ι V) (c : Call ι V) : Prop where
  subscribed : c.party = j → ∀ f, .subscribed f ∈ c.done → (j, f) ∈ s.subscriptions
  valid : ∀ topic body bytes, .published topic body bytes ∈ c.done → Topic.ValidName topic
  arrived : ∀ topic body bytes, .published topic body bytes ∈ c.done → j ∈ u.receivers topic →
    Accounted rt key s c.party j topic bytes

/-- What stays true of `j` from `u` on. -/
structure Kept (u : Network ι V) (j : ι) (s : Network ι V) : Prop where
  length : u.calls.length ≤ s.calls.length
  subscriptions : ∀ f, (j, f) ∈ u.subscriptions → (j, f) ∈ s.subscriptions
  calls : ∀ n c, u.calls.length ≤ n → s.calls[n]? = some c → c.Kept rt key u j s

variable {rt key} {s s' t u : Network ι V} {i j : ι} {topic : Str} {bytes : List UInt8}

/-! ## One message -/

theorem subscriptions_step {a : Action ι V} (ha : a ≠ .lost j) (hs : step rt key s a = some s') {f : Str}
    (hf : (j, f) ∈ s.subscriptions) : (j, f) ∈ s'.subscriptions := by
  cases a with
  | start i c guid sch =>
    rw [step_start hs]
    exact hf
  | effect n =>
    obtain ⟨c, e, todo, t, -, -, hp, rfl⟩ := step_effect hs
    cases e with
    | subscribed g =>
      obtain ⟨-, rfl⟩ := perform_subscribed hp
      exact List.mem_append_left _ hf
    | published topic body bytes =>
      obtain ⟨-, rfl⟩ := perform_published hp
      exact hf
  | finish n =>
    obtain ⟨c, -, -, rfl⟩ := step_finish hs
    exact hf
  | clientConnected i topic =>
    obtain ⟨-, rfl⟩ := perform_subscribed (step_clientConnected hs).2
    exact List.mem_append_left _ hf
  | lost k =>
    rw [step_lost hs]
    refine List.mem_filter.mpr ⟨hf, decide_eq_true fun hjk => ha ?_⟩
    rw [← hjk]
  | deliver m fresh fresh' =>
    obtain ⟨mail, -, rfl⟩ := step_deliver hs
    exact hf

theorem accounted_step {a : Action ι V} (ha : a ≠ .lost j) (hs : step rt key s a = some s')
    (h : Accounted rt key s i j topic bytes) : Accounted rt key s' i j topic bytes := by
  have hmono : (⟨i, j, topic, bytes⟩ ∈ s.mail → ⟨i, j, topic, bytes⟩ ∈ s'.mail) → s.raised ⊆ s'.raised →
      Accounted rt key s' i j topic bytes := by
    intro hmail hraised
    rcases h with h | ⟨fresh, fresh', h⟩
    · exact Or.inl (hmail h)
    · exact Or.inr ⟨fresh, fresh', fun e he => hraised (h e he)⟩
  cases a with
  | start i c guid sch =>
    rw [step_start hs] at hmono
    exact step_start hs ▸ hmono id (List.Subset.refl _)
  | effect n =>
    obtain ⟨c, e, todo, t, -, -, hp, rfl⟩ := step_effect hs
    cases e with
    | subscribed g =>
      obtain ⟨-, rfl⟩ := perform_subscribed hp
      exact hmono id (List.Subset.refl _)
    | published topic body bytes =>
      obtain ⟨-, rfl⟩ := perform_published hp
      exact hmono (fun h => List.mem_append_left _ h) (List.Subset.refl _)
  | finish n =>
    obtain ⟨c, -, -, rfl⟩ := step_finish hs
    exact hmono id (List.Subset.refl _)
  | clientConnected i topic =>
    obtain ⟨-, rfl⟩ := perform_subscribed (step_clientConnected hs).2
    exact hmono id (List.Subset.refl _)
  | lost k =>
    obtain rfl := step_lost hs
    refine hmono (fun h => List.mem_filter.mpr ⟨h, decide_eq_true fun hjk => ha ?_⟩) (List.Subset.refl _)
    exact congrArg Action.lost hjk.symm
  | deliver m fresh fresh' =>
    obtain ⟨mail, hm, rfl⟩ := step_deliver hs
    by_cases hthis : mail = ⟨i, j, topic, bytes⟩
    · subst hthis
      exact Or.inr ⟨fresh, fresh', fun e he => List.mem_append_right _ (List.mem_map.mpr ⟨e, he, rfl⟩)⟩
    · refine hmono (fun h => ?_) (List.subset_append_left _ _)
      obtain ⟨n, hn⟩ := List.mem_iff_getElem?.mp h
      refine List.mem_eraseIdx_iff_getElem?.mpr ⟨n, fun hnm => hthis ?_, hn⟩
      rw [hnm, hm] at hn
      exact Option.some_inj.mp hn

/-- **A message is not lost** on its way to a party whose session goes on. -/
theorem accounted_run {as : List (Action ι V)} (has : ∀ a ∈ as, a ≠ .lost j)
    (hrun : Run.exec (step rt key) s as = some s') (h : Accounted rt key s i j topic bytes) :
    Accounted rt key s' i j topic bytes :=
  Run.invariant_of_meets (I := fun s => Accounted rt key s i j topic bytes)
    (fun _ _ _ h ha hs => accounted_step ha hs h) h (Run.Meets.of_forall has s) hrun

/-! ## From one state on -/

theorem Call.Kept.step {c : Call ι V} (h : c.Kept rt key u j s) {a : Action ι V} (ha : a ≠ .lost j)
    (hs : step rt key s a = some s') : c.Kept rt key u j s' where
  subscribed hparty f hf := subscriptions_step ha hs (h.subscribed hparty f hf)
  valid := h.valid
  arrived topic body bytes hmem hj := accounted_step ha hs (h.arrived topic body bytes hmem hj)

theorem Call.Kept.congr {c c' : Call ι V} (h : c.Kept rt key u j s) (hparty : c'.party = c.party)
    (hdone : c'.done = c.done) : c'.Kept rt key u j s :=
  ⟨by rw [hparty, hdone]; exact h.subscribed, by rw [hdone]; exact h.valid, by rw [hparty, hdone]; exact h.arrived⟩

theorem Call.kept_of (i : ι) (c : SendCall V) (guid : Guid) (sch : Schedule) :
    (Call.of rt key i c guid sch).Kept rt key u j s where
  subscribed _ _ hf := absurd hf List.not_mem_nil
  valid _ _ _ hmem := absurd hmem List.not_mem_nil
  arrived _ _ _ hmem := absurd hmem List.not_mem_nil

theorem Call.Kept.next {c : Call ι V} {calls : List (Call ι V)} (h : c.Kept rt key u j { t with calls := calls })
    (hreceives : ∀ topic, j ∈ u.receivers topic → j ∈ s.receivers topic) {e : Effect V}
    (hp : s.perform c.party e = some t) (todo : List (Effect V)) :
    (c.next e todo).Kept rt key u j { t with calls := calls } where
  subscribed hparty f hf := by
    rcases List.mem_append.mp hf with hf | hf
    · exact h.subscribed hparty f hf
    · rw [← List.mem_singleton.mp hf] at hp
      obtain ⟨-, rfl⟩ := perform_subscribed hp
      rw [← hparty]
      exact List.mem_append_right _ (List.mem_singleton.mpr rfl)
  valid topic body bytes hmem := by
    rcases List.mem_append.mp hmem with hmem | hmem
    · exact h.valid topic body bytes hmem
    · rw [← List.mem_singleton.mp hmem] at hp
      exact (perform_published hp).1
  arrived topic body bytes hmem hj := by
    rcases List.mem_append.mp hmem with hmem | hmem
    · exact h.arrived topic body bytes hmem hj
    · rw [← List.mem_singleton.mp hmem] at hp
      obtain ⟨-, rfl⟩ := perform_published hp
      exact Or.inl (List.mem_append_right _ (List.mem_map.mpr ⟨j, hreceives topic hj, rfl⟩))

theorem Kept.receivers (h : Kept rt key u j s) {topic : Str} (hj : j ∈ u.receivers topic) : j ∈ s.receivers topic := by
  obtain ⟨f, hf, hcovers⟩ := mem_receivers.mp hj
  exact mem_receivers.mpr ⟨f, h.subscriptions f hf, hcovers⟩

theorem Kept.step (h : Kept rt key u j s) {a : Action ι V} (ha : a ≠ .lost j) (hs : step rt key s a = some s') :
    Kept rt key u j s' := by
  have hsubscriptions : ∀ f, (j, f) ∈ u.subscriptions → (j, f) ∈ s'.subscriptions := fun f hf =>
    subscriptions_step ha hs (h.subscriptions f hf)
  have hcalls : ∀ n c, u.calls.length ≤ n → s.calls[n]? = some c → c.Kept rt key u j s' := fun n c hn hc =>
    (h.calls n c hn hc).step ha hs
  cases a with
  | start i c guid sch =>
    obtain rfl := step_start hs
    refine ⟨h.length.trans ?_, hsubscriptions, fun n d hn hd => ?_⟩
    · rw [List.length_append]
      exact Nat.le_add_right _ _
    · rcases getElem?_concat_cases hd with hold | ⟨-, rfl⟩
      · exact hcalls n d hn hold
      · exact Call.kept_of i c guid sch
  | effect n =>
    obtain ⟨c, e, todo, t, hc, -, hp, rfl⟩ := step_effect hs
    refine ⟨h.length.trans_eq List.length_set.symm, hsubscriptions, fun m d hm hd => ?_⟩
    rcases getElem?_set_cases hd with ⟨rfl, rfl⟩ | ⟨-, hold⟩
    · exact (hcalls m c hm hc).next (fun topic => h.receivers) hp todo
    · exact hcalls m d hm hold
  | finish n =>
    obtain ⟨c, hc, -, rfl⟩ := step_finish hs
    refine ⟨h.length.trans_eq List.length_set.symm, hsubscriptions, fun m d hm hd => ?_⟩
    rcases getElem?_set_cases hd with ⟨rfl, rfl⟩ | ⟨-, hold⟩
    · exact (hcalls m c hm hc).congr rfl rfl
    · exact hcalls m d hm hold
  | clientConnected i topic =>
    obtain ⟨-, rfl⟩ := perform_subscribed (step_clientConnected hs).2
    exact ⟨h.length, hsubscriptions, hcalls⟩
  | lost k =>
    obtain rfl := step_lost hs
    exact ⟨h.length, hsubscriptions, hcalls⟩
  | deliver m fresh fresh' =>
    obtain ⟨mail, -, rfl⟩ := step_deliver hs
    exact ⟨h.length, hsubscriptions, hcalls⟩

theorem Kept.refl (u : Network ι V) (j : ι) : Kept rt key u j u := by
  refine ⟨Nat.le_refl _, fun f hf => hf, fun n c hn hc => ?_⟩
  have hlt := (List.getElem?_eq_some_iff.mp hc).1
  omega

/-- **What a session that goes on keeps**, in any order of the steps. -/
theorem kept_run {as : List (Action ι V)} (has : ∀ a ∈ as, a ≠ .lost j)
    (hrun : Run.exec (Network.step rt key) u as = some s) : Kept rt key u j s :=
  Run.invariant_of_meets (fun _ _ _ h ha hs => h.step ha hs) (Kept.refl u j) (Run.Meets.of_forall has u) hrun

/-! ## A request and its response -/

theorem receives_of_subscribed (hvalid : Topic.ValidName topic) (hf : (j, topic) ∈ s.subscriptions) :
    j ∈ s.receivers topic :=
  mem_receivers.mpr ⟨topic, hf, (Topic.covers_iff_eq hvalid.2 topic).mpr rfl⟩

omit [DecidableEq ι] in
theorem Accounted.raised (h : Accounted rt key s i j topic bytes) (hquiet : ∀ mail ∈ s.mail, mail.receiver ≠ j)
    {e : Event V} (he : ∀ fresh fresh',
      MqttClientService_MessageReceived rt (key j) fresh fresh' topic bytes = some [e]) : ⟨i, j, e⟩ ∈ s.raised := by
  rcases h with h | ⟨fresh, fresh', h⟩
  · exact absurd rfl (hquiet _ h)
  · refine h e ?_
    rw [he fresh fresh', Option.getD_some]
    exact List.mem_singleton.mpr rfl

theorem MessageReceived_roundTrip_request {k : Str} {p : Payload V} (hround : p.RoundTrips rt)
    (hb : p.bytes rt = some bytes) {r : RequestType} (hr : RequestType.ofInt32? p.RequestType = some r)
    (fresh fresh' : Guid) : MqttClientService_MessageReceived rt k fresh fresh' (SubscribeRequestTopic k) bytes =
      some [⟨r.event, .payload p⟩] := by
  obtain ⟨bytes', hb', hdecode⟩ := hround
  cases hb.symm.trans hb'
  rw [MessageReceived_request, hdecode, Option.toList_some, List.flatMap_singleton, requestEvents, hr, Option.map_some,
    Option.toList_some]

theorem MessageReceived_roundTrip_response {k : Str} {x : Option Str} {p : Payload V} (hround : p.RoundTrips rt)
    (hb : p.bytes rt = some bytes) (fresh fresh' : Guid) :
    MqttClientService_MessageReceived rt k fresh fresh' (GetResponseTopic k x) bytes =
      some [⟨.ResponseReceived, .payload p⟩] := by
  obtain ⟨bytes', hb', hdecode⟩ := hround
  cases hb.symm.trans hb'
  rw [MessageReceived_response, hdecode, Option.toList_some, List.map_singleton]

theorem exists_quiet (s : Network ι V) : ∃ ds t, Run.exec (Network.step rt key) s ds = some t ∧
    (∀ a ∈ ds, ∃ m fresh fresh', a = .deliver m fresh fresh') ∧ t.mail = [] := by
  generalize hmail : s.mail = mails
  induction mails generalizing s with
  | nil => exact ⟨[], s, rfl, List.forall_mem_nil _, hmail⟩
  | cons mail mails ih =>
    obtain ⟨t, ht, hrest⟩ : ∃ t, Network.step rt key s (.deliver 0 Guid.Empty Guid.Empty) = some t ∧
        t.mail = mails := by
      rw [Network.step, hmail]
      exact ⟨_, rfl, rfl⟩
    obtain ⟨ds, u, hu, hds, hquiet⟩ := ih t hrest
    exact ⟨_ :: ds, u, Run.exec_cons_eq_some.mpr ⟨t, ht, hu⟩,
      List.forall_mem_cons.mpr ⟨⟨0, Guid.Empty, Guid.Empty, rfl⟩, hds⟩, hquiet⟩

variable (rt key)

/-- The call is a request of `i` that has subscribed its response topic and published `q`. -/
structure Asks (c : Call ι V) (i : ι) (q : Request V) : Prop where
  party : c.party = i
  request : ∃ call : RequestCall V, c.call = .request call ∧ call.request rt = some q
  subscribed : .subscribed (GetResponseTopic (key i) q.exchangeName) ∈ c.done
  published : c.Published

/-- The call has published `p` as a response of `j` to `q`. -/
structure Answers (c : Call ι V) (j : ι) (q : Request V) (p : Payload V) : Prop where
  party : c.party = j
  publication : c.call.publication rt (key j) c.guid = some (GetResponseTopic (key j) q.exchangeName, .payload p)
  published : c.Published

variable {rt key}

/-- The event of a request of `i` at `j`, and of its response. -/
def Exchanged (s : Network ι V) (i j : ι) (request response : Event V) : Prop :=
  ⟨i, j, request⟩ ∈ s.raised ∧ ⟨j, i, response⟩ ∈ s.raised

/-- A request arrives where its responder receives the requests of its key. -/
theorem Asks.accounted {c : Call ι V} {q : Request V} (h : Asks rt key c i q) (hscripted : Scripted rt key t)
    (hc : c ∈ t.calls) (hkept : c.Kept rt key u j t)
    (hsubscribed : (j, SubscribeRequestTopic (key i)) ∈ u.subscriptions) :
    ∃ bytes, (q.payload rt c.guid).bytes rt = some bytes ∧
      Accounted rt key t i j (SubscribeRequestTopic (key i)) bytes := by
  obtain ⟨call, hcall, hq⟩ := h.request
  obtain ⟨topic, body, bytes, hmem⟩ := h.published
  obtain ⟨hpublication, hbytes⟩ := hscripted.publication hc hmem
  rw [h.party, hcall, SendCall.publication, hq, Option.map_some] at hpublication
  cases hpublication
  have harrived := hkept.arrived _ _ _ hmem (receives_of_subscribed (hkept.valid _ _ _ hmem) hsubscribed)
  rw [h.party] at harrived
  exact ⟨bytes, hbytes, harrived⟩

/-- A response arrives where its requester has subscribed it. -/
theorem Answers.accounted {c : Call ι V} {q : Request V} {p : Payload V} (h : Answers rt key c j q p)
    (hscripted : Scripted rt key s) (hc : c ∈ s.calls) (hkept : c.Kept rt key t i s)
    (hsubscribed : (i, GetResponseTopic (key j) q.exchangeName) ∈ t.subscriptions) :
    ∃ bytes, p.bytes rt = some bytes ∧
      Accounted rt key s j i (GetResponseTopic (key j) q.exchangeName) bytes := by
  obtain ⟨topic, body, bytes, hmem⟩ := h.published
  obtain ⟨hpublication, hbytes⟩ := hscripted.publication hc hmem
  rw [h.party, h.publication] at hpublication
  cases hpublication
  have harrived := hkept.arrived _ _ _ hmem (receives_of_subscribed (hkept.valid _ _ _ hmem) hsubscribed)
  rw [h.party] at harrived
  exact ⟨bytes, hbytes, harrived⟩

/-- **An exchange completes**, in any order of the steps and whatever else is sent. From a state on in which `j`
receives the requests of the key it shares with `i`, and while neither session ends, a request of `i` and a response
that `j` publishes after it have each raised their event at the other, with their payload, as soon as nothing is on its
way to the two; and deliveries alone lead there. -/
theorem exchange_completes {as bs cs : List (Action ι V)} (has : Run.exec (Network.step rt key) new as = some u)
    (hbs : Run.exec (Network.step rt key) u bs = some t) (hcs : Run.exec (Network.step rt key) t cs = some s)
    (hi : ∀ a ∈ bs ++ cs, a ≠ .lost i) (hj : ∀ a ∈ bs ++ cs, a ≠ .lost j) (hkey : key i = key j)
    (hsubscribed : (j, SubscribeRequestTopic (key j)) ∈ u.subscriptions) {n : ℕ} {c : Call ι V}
    (hn : u.calls.length ≤ n) (hc : t.calls[n]? = some c) {q : Request V} (hasks : Asks rt key c i q)
    {r : RequestType} (hr : RequestType.ofInt32? q.requestType = some r) (hround : (q.payload rt c.guid).RoundTrips rt)
    {m : ℕ} {d : Call ι V} (hm : t.calls.length ≤ m) (hd : s.calls[m]? = some d) {p : Payload V}
    (hanswers : Answers rt key d j q p) (hround' : p.RoundTrips rt) :
    ((∀ mail ∈ s.mail, mail.receiver ≠ i ∧ mail.receiver ≠ j) →
      s.Exchanged i j ⟨r.event, .payload (q.payload rt c.guid)⟩ ⟨.ResponseReceived, .payload p⟩) ∧
    ∃ ds v, Run.exec (Network.step rt key) s ds = some v ∧ (∀ a ∈ ds, ∃ m fresh fresh', a = .deliver m fresh fresh') ∧
      v.Exchanged i j ⟨r.event, .payload (q.payload rt c.guid)⟩ ⟨.ResponseReceived, .payload p⟩ := by
  obtain ⟨hibs, hics⟩ := List.forall_mem_append.mp hi
  obtain ⟨hjbs, hjcs⟩ := List.forall_mem_append.mp hj
  have ht : Run.exec (Network.step rt key) new (as ++ bs) = some t := by rw [Run.exec_append, has]; exact hbs
  have hs : Run.exec (Network.step rt key) new (as ++ bs ++ cs) = some s := by rw [Run.exec_append, ht]; exact hcs
  obtain ⟨bytes, hbytes, hasked⟩ := hasks.accounted (scripted_run ht) (List.mem_of_getElem? hc)
    ((kept_run hjbs hbs).calls n c hn hc) (hkey ▸ hsubscribed)
  have hown := ((kept_run hibs hbs).calls n c hn hc).subscribed hasks.party _ hasks.subscribed
  rw [hkey] at hown
  obtain ⟨bytes', hbytes', hanswered⟩ := hanswers.accounted (scripted_run hs) (List.mem_of_getElem? hd)
    ((kept_run hics hcs).calls m d hm hd) hown
  have hexchanged : ∀ {ds v}, Run.exec (Network.step rt key) s ds = some v → (∀ a ∈ ds, a ≠ .lost i) →
      (∀ a ∈ ds, a ≠ .lost j) → (∀ mail ∈ v.mail, mail.receiver ≠ i ∧ mail.receiver ≠ j) →
      v.Exchanged i j ⟨r.event, .payload (q.payload rt c.guid)⟩ ⟨.ResponseReceived, .payload p⟩ := by
    intro ds v hds hids hjds hquiet
    have hrequest := accounted_run hjds hds (accounted_run hjcs hcs hasked)
    have hresponse := accounted_run hids hds hanswered
    rw [hkey] at hrequest
    rw [← hkey] at hresponse
    constructor
    · exact hrequest.raised (fun mail h => (hquiet mail h).2) (MessageReceived_roundTrip_request hround hbytes hr)
    · exact hresponse.raised (fun mail h => (hquiet mail h).1) (MessageReceived_roundTrip_response hround' hbytes')
  constructor
  · exact @hexchanged [] s rfl (List.forall_mem_nil _) (List.forall_mem_nil _)
  · obtain ⟨ds, v, hds, hdeliveries, hmail⟩ := @exists_quiet _ _ rt key _ s
    have hlost : ∀ k, ∀ a ∈ ds, a ≠ .lost k := by
      intro k a ha heq
      obtain ⟨m, fresh, fresh', rfl⟩ := hdeliveries a ha
      cases heq
    refine ⟨ds, v, hds, hdeliveries, hexchanged hds (hlost i) (hlost j) fun mail h => ?_⟩
    rw [hmail] at h
    exact absurd h List.not_mem_nil

namespace Overtaking

/-- The responder subscribes. -/
def connected : Network Bool Str := ⟨[(true, requestTopic)], [], [], []⟩

/-- The request reaches the responder. -/
def asked (g : Guid) (bytes : List UInt8) : Network Bool Str :=
  ⟨subscriptions, [published g bytes], [], [arrived g .RequestReceived false]⟩

/-- The requester asks. -/
def asking (g g' : Guid) : List (Action Bool Str) :=
  [.start false (.request (.name (some "orders".toList))) g .lasting, .effect 0, .effect 0, .deliver 0 g' g']

/-- The responder answers. -/
def answering (g g' : Guid) : List (Action Bool Str) :=
  [.start true (.response (some (orders g))) g' .lasting, .effect 1, .deliver 0 g' g']

theorem exists_halves (g g' : Guid) : ∃ bytes,
    Run.exec (Network.step Runtime.strings sharedKey) connected (asking g g') = some (asked g bytes) ∧
    Run.exec (Network.step Runtime.strings sharedKey) (asked g bytes) (answering g g') = some (last g g' bytes) := by
  have hround : (orders g).RoundTrips Runtime.strings := roundTrips_null _ _ _
  obtain ⟨bytes, hb, -⟩ := id hround
  refine ⟨bytes, ?_, ?_⟩
  · exact Run.exec_cons_eq_some.mpr ⟨_, rfl, Run.exec_cons_eq_some.mpr ⟨_, step_effect_of rfl (request_todo hb) rfl,
      Run.exec_cons_eq_some.mpr ⟨_, step_effect_of rfl rfl rfl, Run.exec_cons_eq_some.mpr ⟨_,
        step_deliver_of _ rfl (MessageReceived_roundTrip_request hround hb rfl g' g'), rfl⟩⟩⟩⟩
  · exact Run.exec_cons_eq_some.mpr ⟨_, rfl, Run.exec_cons_eq_some.mpr ⟨_, step_effect_of rfl (response_todo hb) rfl,
      Run.exec_cons_eq_some.mpr ⟨_, step_deliver_of _ rfl (MessageReceived_roundTrip_response hround hb g' g'), rfl⟩⟩⟩

end Overtaking

/-- The request and the response, each with its event. -/
theorem exchange_completes_orders : ∃ s : Network Bool Str,
    Run.exec (Network.step Runtime.strings Overtaking.sharedKey) new
        (.clientConnected true Overtaking.requestTopic :: (Overtaking.asking (Guid.fill 1) (Guid.fill 2) ++
          Overtaking.answering (Guid.fill 1) (Guid.fill 2))) = some s ∧
      Overtaking.arrived (Guid.fill 1) .RequestReceived false ∈ s.raised ∧
      Overtaking.arrived (Guid.fill 1) .ResponseReceived true ∈ s.raised := by
  obtain ⟨bytes, hbs, hcs⟩ := Overtaking.exists_halves (Guid.fill 1) (Guid.fill 2)
  have has : Run.exec (Network.step Runtime.strings Overtaking.sharedKey) new
    [.clientConnected true Overtaking.requestTopic] = some Overtaking.connected := rfl
  have hround : (Overtaking.orders (Guid.fill 1)).RoundTrips Runtime.strings := roundTrips_null _ _ _
  have hkept : ∀ i, ∀ a ∈ Overtaking.asking (Guid.fill 1) (Guid.fill 2) ++
      Overtaking.answering (Guid.fill 1) (Guid.fill 2), a ≠ .lost i := by
    intro i
    simp [Overtaking.asking, Overtaking.answering]
  have hrun : Run.exec (Network.step Runtime.strings Overtaking.sharedKey) Overtaking.connected
      (Overtaking.asking (Guid.fill 1) (Guid.fill 2) ++ Overtaking.answering (Guid.fill 1) (Guid.fill 2)) =
        some (Overtaking.last (Guid.fill 1) (Guid.fill 2) bytes) := by
    rw [Run.exec_append, hbs]
    exact hcs
  refine ⟨_, Run.exec_cons_eq_some.mpr ⟨_, rfl, hrun⟩, ?_⟩
  have hasks : Asks Runtime.strings Overtaking.sharedKey (Overtaking.published (Guid.fill 1) bytes) false
      ⟨some "orders".toList, none, RequestType.Generic.toInt32⟩ :=
    ⟨rfl, ⟨_, rfl, rfl⟩, List.mem_cons_self, _, _, _, List.mem_cons_of_mem _ (List.mem_singleton.mpr rfl)⟩
  have hanswers : Answers Runtime.strings Overtaking.sharedKey (Overtaking.answered (Guid.fill 1) (Guid.fill 2) bytes)
      true ⟨some "orders".toList, none, RequestType.Generic.toInt32⟩ (Overtaking.orders (Guid.fill 1)) :=
    ⟨rfl, rfl, _, _, _, List.mem_singleton.mpr rfl⟩
  exact (exchange_completes has hbs hcs (hkept false) (hkept true) rfl (List.mem_singleton.mpr rfl) (Nat.zero_le 0) rfl
    hasks (RequestType.ofInt32?_toInt32 .Generic) hround (Nat.le_refl 1) rfl hanswers hround).1
    fun _ h => absurd h List.not_mem_nil

end MqttServices.Network
