import MqttServices.Services.Network

/-!
# Isolation of application keys

* `Overlap`: the keys whose topics a filter of the other can cover; **`overlap_iff_eq`** for plain keys.
* `Confined`: what every step of the network keeps.
* `Network.exists_breach`: a response that arrives under another key.
* **`Network.isolated_iff`**: the keys that are isolated from each other, over all runs.
-/

namespace MqttServices

/-- Some filter under the key `k₂` covers some topic under the key `k₁`. -/
structure Overlap (k₁ k₂ : Str) : Prop where
  literal : Topic.Literal k₁
  plain : Topic.Plain (exchangeTopicPrefix k₂)
  overlaps : Topic.overlaps (exchangeTopicPrefix k₂) (exchangeTopicPrefix k₁) = true

theorem exchangeTopicPrefix_ne_nil (k : Str) : exchangeTopicPrefix k ≠ [] := by simp [exchangeTopicPrefix]

theorem getLast?_exchangeTopicPrefix (k : Str) : (exchangeTopicPrefix k).getLast? = some '_' :=
  List.getLast?_concat

theorem OwnTopic.exists_append {k t : Str} (h : OwnTopic k t) :
    ∃ w, t = exchangeTopicPrefix k ++ w ∧ t.getLast? ≠ some '#' := by
  have hend : ∀ u v : Str, v.getLast? ≠ some '#' → v ≠ [] → (u ++ v).getLast? ≠ some '#' := by
    intro u v hv hne
    rwa [List.getLast?_append_of_ne_nil u hne]
  rcases h with h | ⟨x, rfl⟩
  · simp only [baseTopics, List.mem_cons, List.not_mem_nil, or_false] at h
    rcases h with rfl | rfl | rfl
    · exact ⟨_, rfl, hend _ _ (by decide) (by decide)⟩
    · exact ⟨_, rfl, hend _ _ (by decide) (by decide)⟩
    · exact ⟨_, rfl, hend _ _ (by decide) (by decide)⟩
  · exact ⟨_, List.append_assoc _ _ _, hend _ _ (by decide) (by decide)⟩

/-- **A filter of one key covers a topic of another only where the keys overlap.** -/
theorem overlap_of_covers {k₁ k₂ t f : Str} (ht : OwnTopic k₁ t) (hname : Topic.ValidName t) (hf : OwnTopic k₂ f)
    (hfilter : Topic.ValidFilter f) (h : Topic.covers f t = true) : Overlap k₁ k₂ := by
  obtain ⟨u, rfl, -⟩ := ht.exists_append
  obtain ⟨w, rfl, hlast⟩ := hf.exists_append
  have hplain := ((Topic.validFilter_iff_plain hlast).mp hfilter).2
  refine ⟨?_, hplain.of_append, ?_⟩
  · exact (Topic.literal_append.mp (Topic.literal_append.mp hname.2).1).1
  · exact Topic.overlaps_of_covers (exchangeTopicPrefix_ne_nil k₂) (exchangeTopicPrefix_ne_nil k₁) hplain h

/-- **Keys that overlap have a response of the one that a filter of the other covers.** -/
theorem Overlap.exists_names {k₁ k₂ : Str} (h : Overlap k₁ k₂) : ∃ x y : Str,
    IsNullOrWhiteSpace (some y) = false ∧ Topic.ValidName (GetResponseTopic k₁ (some x)) ∧
      Topic.ValidFilter (GetResponseTopic k₂ (some y)) ∧
      Topic.covers (GetResponseTopic k₂ (some y)) (GetResponseTopic k₁ (some x)) = true := by
  have hlit : Topic.Literal (exchangeTopicPrefix k₁) := Topic.literal_append.mpr ⟨h.literal, by decide⟩
  have hlast : (exchangeTopicPrefix k₂).getLast? ≠ some '+' := by
    rw [getLast?_exchangeTopicPrefix]
    decide
  obtain ⟨u, v, hu, hv, huv⟩ := Topic.exists_covers_of_overlaps (exchangeTopicPrefix_ne_nil k₂)
    (exchangeTopicPrefix_ne_nil k₁) h.plain hlast hlit h.overlaps
  -- a letter behind the names makes sure that they are not blank
  have hsuffix : Topic.Literal ("x".toList ++ resonseTopicSuffix) := by decide
  have htopic : ∀ k w : Str, GetResponseTopic k (some (w ++ "x".toList)) =
      exchangeTopicPrefix k ++ (w ++ ("x".toList ++ resonseTopicSuffix)) := fun k w => by
    simp [GetResponseTopic, orEmpty]
  refine ⟨v ++ "x".toList, u ++ "x".toList, ?_, ?_, ?_, ?_⟩
  · simp [IsNullOrWhiteSpace, orEmpty]
    exact fun _ => by decide
  · rw [htopic]
    exact ⟨by simp [exchangeTopicPrefix], Topic.literal_append.mpr ⟨hlit, Topic.literal_append.mpr ⟨hv, hsuffix⟩⟩⟩
  · have hend : (GetResponseTopic k₂ (some (u ++ "x".toList))).getLast? ≠ some '#' :=
      (OwnTopic.exists_append (Or.inr ⟨_, rfl⟩)).choose_spec.2
    rw [Topic.validFilter_iff_plain hend, htopic]
    exact ⟨by simp [exchangeTopicPrefix], h.plain.append hlast (Topic.literal_append.mpr ⟨hu, hsuffix⟩)⟩
  · rw [htopic, htopic]
    exact huv _ hsuffix

/-! ## Keys without wildcards -/

theorem overlap_literal_iff {k₁ k₂ : Str} (h₁ : Topic.Literal k₁) (h₂ : Topic.Literal k₂) :
    Overlap k₁ k₂ ↔ exchangeTopicPrefix k₂ <+: exchangeTopicPrefix k₁ ∨
      exchangeTopicPrefix k₁ <+: exchangeTopicPrefix k₂ := by
  have hlit : Topic.Literal (exchangeTopicPrefix k₂) := Topic.literal_append.mpr ⟨h₂, by decide⟩
  rw [← Topic.agree_literal_iff hlit]
  constructor
  · intro h
    have hoverlaps := h.overlaps
    rw [Topic.overlaps, Bool.and_eq_true] at hoverlaps
    exact hoverlaps.2
  · intro h
    refine ⟨h₁, hlit.plain, ?_⟩
    rw [Topic.overlaps, h, Topic.startsWild_literal hlit]
    rfl

theorem eq_of_extends {k₁ k₂ : Str} (h : '_' ∉ k₂) (hpre : exchangeTopicPrefix k₁ <+: exchangeTopicPrefix k₂) : k₁ = k₂ := by
  obtain ⟨r, hr⟩ := hpre
  rcases List.eq_nil_or_concat' r with rfl | ⟨r, c, rfl⟩
  · rw [List.append_nil] at hr
    exact List.append_cancel_right hr
  · -- the separator of `k₁` would stand within `k₂`
    rw [← List.append_assoc] at hr
    obtain ⟨hk, -⟩ := List.append_inj' hr rfl
    have hmem : '_' ∈ exchangeTopicPrefix k₁ ++ r := by simp [exchangeTopicPrefix]
    exact absurd (hk ▸ hmem) h

/-- **Keys without wildcards and without the separator overlap only when they are equal.** -/
theorem overlap_iff_eq {k₁ k₂ : Str} (h₁ : Topic.Literal k₁) (h₂ : Topic.Literal k₂) (hs₁ : '_' ∉ k₁)
    (hs₂ : '_' ∉ k₂) : Overlap k₁ k₂ ↔ k₁ = k₂ := by
  rw [overlap_literal_iff h₁ h₂]
  constructor
  · rintro (h | h)
    · exact (eq_of_extends hs₁ h).symm
    · exact eq_of_extends hs₂ h
  · rintro rfl
    exact Or.inl (List.prefix_refl _)

namespace Network

variable {ι V : Type} [DecidableEq ι] {rt : Runtime V} {key : ι → Str} {s s' : Network ι V}

/-! ## Without overlap -/

/-- Subscriptions and publications stay under the own key, and mail and events go where the keys overlap. -/
structure Confined (key : ι → Str) (s : Network ι V) : Prop where
  subscriptions : ∀ p ∈ s.subscriptions, OwnTopic (key p.1) p.2 ∧ Topic.ValidFilter p.2
  todo : ∀ c ∈ s.calls, ∀ e ∈ c.todo, OwnTopic (key c.party) e.topic
  mail : ∀ m ∈ s.mail, Overlap (key m.sender) (key m.receiver)
  raised : ∀ r ∈ s.raised, Overlap (key r.sender) (key r.receiver)

theorem perform_calls (s : Network ι V) (calls : List (Call ι V)) (i : ι) (e : Effect V) :
    perform { s with calls := calls } i e = (s.perform i e).map fun t => { t with calls := calls } := by
  cases e with
  | subscribed f =>
    simp only [perform]
    split_ifs <;> rfl
  | published t body bytes =>
    simp only [perform]
    split_ifs <;> rfl

theorem Confined.perform (h : Confined key s) {i : ι} {e : Effect V} (he : OwnTopic (key i) e.topic)
    (hp : s.perform i e = some s') : Confined key s' := by
  cases e with
  | subscribed f =>
    obtain ⟨hf, rfl⟩ := perform_subscribed hp
    refine ⟨?_, h.todo, h.mail, h.raised⟩
    exact List.forall_mem_append.mpr ⟨h.subscriptions, List.forall_mem_singleton.mpr ⟨he, hf⟩⟩
  | published t body bytes =>
    obtain ⟨ht, rfl⟩ := perform_published hp
    refine ⟨h.subscriptions, h.todo, fun m hmem => ?_, h.raised⟩
    rcases List.mem_append.mp hmem with hmem | hmem
    · exact h.mail m hmem
    · obtain ⟨j, hj, rfl⟩ := List.mem_map.mp hmem
      obtain ⟨f, hf, hcovers⟩ := mem_receivers.mp hj
      obtain ⟨hown, hvalid⟩ := h.subscriptions (j, f) hf
      exact overlap_of_covers he ht hown hvalid hcovers

theorem Confined.step (h : Confined key s) {a : Action ι V} (hs : step rt key s a = some s') : Confined key s' := by
  cases a with
  | start i c guid sch =>
    rw [step_start hs]
    refine ⟨h.subscriptions, ?_, h.mail, h.raised⟩
    exact List.forall_mem_append.mpr ⟨h.todo, List.forall_mem_singleton.mpr fun e he => SendCall.run_own he⟩
  | effect n =>
    obtain ⟨c, e, todo, t, hc, htodo, hp, rfl⟩ := step_effect hs
    have hcs : c ∈ s.calls := List.mem_of_getElem? hc
    have ht := h.perform (h.todo c hcs e (htodo ▸ List.mem_cons_self)) hp
    refine ⟨ht.subscriptions, fun d hd => ?_, ht.mail, ht.raised⟩
    rcases List.mem_or_eq_of_mem_set hd with hd | rfl
    · exact h.todo d hd
    · exact fun e' he' => h.todo c hcs e' (htodo ▸ List.mem_cons_of_mem e he')
  | finish n =>
    obtain ⟨c, hc, -, rfl⟩ := step_finish hs
    refine ⟨h.subscriptions, fun d hd => ?_, h.mail, h.raised⟩
    rcases List.mem_or_eq_of_mem_set hd with hd | rfl
    · exact h.todo d hd
    · exact h.todo c (List.mem_of_getElem? hc)
  | clientConnected i topic =>
    obtain ⟨hmem, hp⟩ := step_clientConnected hs
    exact h.perform (Or.inl hmem) hp
  | lost i =>
    rw [step_lost hs]
    exact ⟨fun p hp => h.subscriptions p (List.mem_of_mem_filter hp), h.todo,
      fun m hm => h.mail m (List.mem_of_mem_filter hm), h.raised⟩
  | deliver m fresh fresh' =>
    obtain ⟨mail, hmail, rfl⟩ := step_deliver hs
    refine ⟨h.subscriptions, h.todo, fun m hm => h.mail m (List.mem_of_mem_eraseIdx hm), fun r hr => ?_⟩
    rcases List.mem_append.mp hr with hr | hr
    · exact h.raised r hr
    · obtain ⟨e, -, rfl⟩ := List.mem_map.mp hr
      exact h.mail mail (List.mem_of_getElem? hmail)

theorem confined_reachable (h : Run.Reachable (Network.step rt key) new s) : Confined key s := by
  obtain ⟨as, has⟩ := h
  have hnew : Confined key (new : Network ι V) :=
    ⟨fun _ h => absurd h List.not_mem_nil, fun _ h => absurd h List.not_mem_nil,
      fun _ h => absurd h List.not_mem_nil, fun _ h => absurd h List.not_mem_nil⟩
  exact Run.invariant (fun _ _ _ h hs => h.step hs) hnew has

/-! ## With overlap -/

/-- No message of `i` has raised an event at `j`. -/
def Isolated (i j : ι) (s : Network ι V) : Prop := ∀ r ∈ s.raised, r.sender = i → r.receiver ≠ j

theorem start_effect (s : Network ι V) (i : ι) (c : SendCall V) (guid : Guid) (sch : Schedule) {e : Effect V}
    {todo : List (Effect V)} (he : (c.run rt (key i) guid sch).1 = e :: todo) (hp : s.perform i e = some s') :
    ∃ calls, Run.Reachable (Network.step rt key) s { s' with calls := calls } := by
  let d := Call.of rt key i c guid sch
  have hstart : Network.step rt key s (.start i c guid sch) = some { s with calls := s.calls ++ [d] } := rfl
  have hd : (s.calls ++ [d])[s.calls.length]? = some d := List.getElem?_concat_length
  have hp' : perform { s with calls := s.calls ++ [d] } d.party e = some { s' with calls := s.calls ++ [d] } := by
    rw [perform_calls, show d.party = i from rfl, hp, Option.map_some]
  have heffect : Network.step rt key { s with calls := s.calls ++ [d] } (.effect s.calls.length) =
      some { s' with calls := (s.calls ++ [d]).set s.calls.length (d.next e todo) } := by
    rw [step_effect_of hd he hp']
  exact ⟨_, ((Run.Reachable.refl s).tail hstart).tail heffect⟩

theorem exists_subscribed (s : Network ι V) (j : ι) {y : Str} (hy : IsNullOrWhiteSpace (some y) = false)
    (hfilter : Topic.ValidFilter (GetResponseTopic (key j) (some y))) :
    ∃ t, Run.Reachable (Network.step rt key) s t ∧ (j, GetResponseTopic (key j) (some y)) ∈ t.subscriptions := by
  have hreq : RequestCall.request rt (.name (some y)) = some ⟨some y, none, RequestType.Generic.toInt32⟩ :=
    if_neg (by rw [hy]; exact Bool.false_ne_true)
  have hround : (Payload.new rt (some y) none Guid.Empty RequestType.Generic.toInt32).RoundTrips rt :=
    roundTrips_null _ _ _
  obtain ⟨bytes, hb, -⟩ := hround
  have hrun := SendMessageRequest_connected (k := key j) hreq (s := .lasting) rfl ⟨rfl, rfl, rfl, rfl⟩ hb
  obtain ⟨calls, h⟩ := start_effect s j (.request (.name (some y))) Guid.Empty .lasting (congrArg Prod.fst hrun)
    (if_pos hfilter)
  exact ⟨_, h, List.mem_append_right _ (List.mem_singleton.mpr rfl)⟩

/-- **A response on a topic that a filter of another party covers raises an event there.** -/
theorem exists_raised (i : ι) {j : ι} {f : Str} (hf : (j, f) ∈ s.subscriptions) {p : Payload V} (hp : p.RoundTrips rt)
    (hname : Topic.ValidName (GetResponseTopic (key i) p.ExchangeName))
    (hcovers : Topic.covers f (GetResponseTopic (key i) p.ExchangeName) = true) :
    ∃ t, Run.Reachable (Network.step rt key) s t ∧ ⟨i, j, ⟨.ResponseReceived, .payload p⟩⟩ ∈ t.raised := by
  obtain ⟨bytes, hb, hdecode⟩ := hp
  have hrun := SendMessageResponse_connected (k := key i) (s := .lasting) rfl ⟨rfl, rfl, rfl, rfl⟩ hb Guid.Empty
  obtain ⟨calls, h⟩ := start_effect s i _ Guid.Empty .lasting (congrArg Prod.fst hrun) (if_pos hname)
  have hmail : ⟨i, j, GetResponseTopic (key i) p.ExchangeName, bytes⟩ ∈
      s.mail ++ (s.receivers (GetResponseTopic (key i) p.ExchangeName)).map fun j =>
        (⟨i, j, GetResponseTopic (key i) p.ExchangeName, bytes⟩ : Mail ι) :=
    List.mem_append_right _ (List.mem_map_of_mem (mem_receivers.mpr ⟨f, hf, hcovers⟩))
  obtain ⟨m, hm⟩ := List.mem_iff_getElem?.mp hmail
  have hevents : MqttClientService_MessageReceived rt (key j) Guid.Empty Guid.Empty
      (GetResponseTopic (key i) p.ExchangeName) bytes = some [⟨.ResponseReceived, .payload p⟩] := by
    rw [MessageReceived_marked (GetResponseTopic_ne_request _ _ _) (marked_response _ _), hdecode]
    rfl
  exact ⟨_, h.tail (step_deliver_of _ hm hevents), List.mem_append_right _ (List.mem_singleton.mpr rfl)⟩

/-- **Where a response topic of `i` is covered by a response topic of `j`, the two are not isolated.** -/
theorem exists_breach (i j : ι) {x y : Str} (hy : IsNullOrWhiteSpace (some y) = false)
    (hname : Topic.ValidName (GetResponseTopic (key i) (some x)))
    (hfilter : Topic.ValidFilter (GetResponseTopic (key j) (some y)))
    (hcovers : Topic.covers (GetResponseTopic (key j) (some y)) (GetResponseTopic (key i) (some x)) = true) :
    ∃ s, Run.Reachable (Network.step rt key) new s ∧ ¬ Isolated i j s := by
  obtain ⟨t, ht, hmem⟩ := exists_subscribed new j hy hfilter
  have hp : (Payload.new rt (some x) none Guid.Empty RequestType.Generic.toInt32).RoundTrips rt :=
    roundTrips_null _ _ _
  obtain ⟨u, hu, hr⟩ := exists_raised i hmem hp hname hcovers
  exact ⟨u, ht.trans hu, fun h => h _ hr rfl rfl⟩

/-- **The keys that are isolated from each other**: in no run does a message of `i` raise an event at `j`. -/
theorem isolated_iff (i j : ι) :
    (∀ s, Run.Reachable (Network.step rt key) new s → Isolated i j s) ↔ ¬ Overlap (key i) (key j) := by
  constructor
  · intro h hoverlap
    obtain ⟨x, y, hy, hname, hfilter, hcovers⟩ := hoverlap.exists_names
    obtain ⟨s, hs, hbreach⟩ := exists_breach i j hy hname hfilter hcovers
    exact hbreach (h s hs)
  · intro h s hs r hr hsender hreceiver
    refine h ?_
    rw [← hsender, ← hreceiver]
    exact (confined_reachable hs).raised r hr

/-! ## A key with the separator -/

/-- The keys `a` and `a_b`. -/
def separatorKeys : Bool → Str
  | false => "a".toList
  | true => "a_b".toList

/-- A response under the key `a` raises `ResponseReceived` under the key `a_b`. -/
theorem separator_breaks_isolation : separatorKeys false ≠ separatorKeys true ∧
    ∃ s, Run.Reachable (Network.step Runtime.strings separatorKeys) new s ∧ ¬ Isolated false true s :=
  ⟨by decide, exists_breach (x := "b_y".toList) (y := "y".toList) false true (by decide) (by decide) (by decide)
    (by decide)⟩

end Network

end MqttServices
