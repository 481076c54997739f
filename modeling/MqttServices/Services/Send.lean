import Mathlib.Data.Option.Basic
import MqttServices.Services.Decode
import MqttServices.Services.Topics

/-!
# Sending

* `EnsureConnectedAsync`: the gate in front of every call, over the readings it makes.
* `RequestCall`: a call of one of the five overloads of `SendMessageRequest`; `RequestCall.request`: what
  its shared body works on.
* `SendMessageRequest`: the shared body under a `Schedule`, with the effects that took place.
* **`returned_means_sent_iff`**: when a returned identifier stands for a published request.
* `SendCall`: a call of any sending method; `SendCall.publication`: the topic and the object it publishes.
-/

namespace MqttServices

/-! ## The gate -/

/-- What the gate reads: the flag `IsConnected` at its `n`-th reading, and the stopwatch, in
milliseconds, right after that reading. -/
structure Readings where
  IsConnected : ℕ → Bool
  Elapsed : ℕ → ℕ

/-- `DefaultConnectWaitTimeout`, in milliseconds. -/
def DefaultConnectWaitTimeout : ℕ := 5000

/-- The delay between two readings, in milliseconds. -/
def pollDelay : ℕ := 250

/-- The waiting loop from reading `n` on: the number of the reading after the loop. -/
def waitLoop (rs : Readings) (timeout : ℕ) : ℕ → ℕ → ℕ
  | 0, n => n
  | fuel + 1, n => if !rs.IsConnected n && rs.Elapsed n < timeout then waitLoop rs timeout fuel (n + 1) else n + 1

/-- The last reading: each delay lets `pollDelay` pass, so the fuel outlasts the loop. -/
def lastReading (rs : Readings) (timeout : ℕ) : ℕ := waitLoop rs timeout (timeout / pollDelay + 2) 1

def EnsureConnectedAsync (rs : Readings) (timeout : ℕ) : Bool :=
  if rs.IsConnected 0 then true else if !rs.IsConnected (lastReading rs timeout) then false else true

/-- The delays take their time: the stopwatch has reached `n` delays at the reading after them. -/
def Readings.Timed (rs : Readings) : Prop := ∀ n, pollDelay * n ≤ rs.Elapsed (n + 1)

/-- **The loop has ended by itself**: its last reading found the flag set or the time over. -/
theorem waitLoop_exit {rs : Readings} (h : rs.Timed) {timeout fuel n : ℕ}
    (hf : timeout ≤ pollDelay * (n + fuel)) :
    ∃ m, waitLoop rs timeout (fuel + 1) (n + 1) = m + 1 ∧ (rs.IsConnected m = true ∨ timeout ≤ rs.Elapsed m) := by
  induction fuel generalizing n with
  | zero =>
    have hover : timeout ≤ rs.Elapsed (n + 1) := hf.trans (h n)
    refine ⟨n + 1, ?_, Or.inr hover⟩
    rw [waitLoop, if_neg (by simp [Nat.not_lt.mpr hover])]
  | succ fuel ih =>
    rw [waitLoop]
    split_ifs with hc
    · exact ih (by rw [show n + 1 + fuel = n + (fuel + 1) by omega]; exact hf)
    · refine ⟨n + 1, rfl, ?_⟩
      simp only [Bool.and_eq_true, Bool.not_eq_true', decide_eq_true_eq, not_and, not_lt] at hc
      cases hflag : rs.IsConnected (n + 1) with
      | true => exact Or.inl rfl
      | false => exact Or.inr (hc hflag)

/-- **A gate that refuses has waited**: the flag was clear at the last reading, and before it either
the time was over or the flag was set for a moment. -/
theorem EnsureConnectedAsync_refuses {rs : Readings} (h : rs.Timed) {timeout : ℕ}
    (hg : EnsureConnectedAsync rs timeout = false) :
    ∃ m, rs.IsConnected (m + 1) = false ∧ (rs.IsConnected m = true ∨ timeout ≤ rs.Elapsed m) := by
  have hfuel : timeout ≤ pollDelay * (0 + (timeout / pollDelay + 1)) := by
    have := Nat.div_add_mod timeout pollDelay
    have := Nat.mod_lt timeout (show 0 < pollDelay by decide)
    rw [Nat.zero_add, Nat.mul_succ]
    omega
  obtain ⟨m, hm, hexit⟩ := waitLoop_exit h hfuel
  refine ⟨m, ?_, hexit⟩
  rw [EnsureConnectedAsync, lastReading, hm] at hg
  split_ifs at hg with h₀ h₁
  simpa using h₁

theorem EnsureConnectedAsync_shut {rs : Readings} (h : ∀ n, rs.IsConnected n = false) (timeout : ℕ) :
    EnsureConnectedAsync rs timeout = false := by
  rw [EnsureConnectedAsync, if_neg (by simp [h 0]), if_pos (by simp [h])]

/-! ## Requests -/

section Requests

variable {V : Type} (rt : Runtime V)

/-- What the overloads of `SendMessageRequest` hand to their shared body. -/
structure Request (V : Type) where
  exchangeName : Option Str
  value : Option V
  requestType : Int32

/-- The payload of a request under the identifier `guid`. -/
def Request.payload (q : Request V) (guid : Guid) : Payload V :=
  Payload.new rt q.exchangeName q.value guid q.requestType

/-- A call of an overload of `SendMessageRequest`, with its arguments. -/
inductive RequestCall (V : Type) where
  /-- `SendMessageRequest(payload, exchangeName)` -/
  | payloadName (payload : Option V) (exchangeName : Option Str)
  /-- `SendMessageRequest(payload)` -/
  | payload (payload : Option V)
  /-- `SendMessageRequest(payload, requestType)` -/
  | payloadType (payload : Option V) (requestType : Int32)
  /-- `SendMessageRequest(exchangeName, requestType)` -/
  | nameType (exchangeName : Option Str) (requestType : Int32)
  /-- `SendMessageRequest(exchangeName)` -/
  | name (exchangeName : Option Str)

/-- The request of a call; `none` where the argument check throws. -/
def RequestCall.request : RequestCall V → Option (Request V)
  | .payloadName value x => value.map fun v => ⟨x, some v, RequestType.Generic.toInt32⟩
  | .payload value => value.map fun v => ⟨some (rt.Name (rt.GetType v)), some v, RequestType.Generic.toInt32⟩
  | .payloadType value r => value.map fun v => ⟨some (rt.Name (rt.GetType v)), some v, r⟩
  | .nameType x r => if IsNullOrWhiteSpace x then none else some ⟨x, none, r⟩
  | .name x => if IsNullOrWhiteSpace x then none else some ⟨x, none, RequestType.Generic.toInt32⟩

/-- The objects a messaging manager publishes. -/
inductive Body (V : Type) where
  | payload (p : Payload V)
  | string (p : StringPayload)

/-- The bytes of a published object. -/
def Body.bytes : Body V → Option (List UInt8)
  | payload p => p.bytes rt
  | string p => p.bytes rt.crlf

/-- The identifier of a published object. -/
def Body.MessageId {V : Type} : Body V → Guid
  | payload p => p.MessageId
  | string p => p.MessageId

/-- What takes place at the broker. -/
inductive Effect (V : Type) where
  | subscribed (topic : Str)
  | published (topic : Str) (body : Body V) (bytes : List UInt8)

/-- The topic of an effect. -/
def Effect.topic {V : Type} : Effect V → Str
  | subscribed t | published t _ _ => t

/-- What a call of `SendMessageRequest` meets on its way. The status of the client is `none` where
there is no client. -/
structure Schedule where
  gate : Readings
  statusAtSubscribe : Option Bool
  /-- `SubscribeAsync` throws, or completes with the filter granted or not. -/
  SubscribeAsync : Option Bool
  statusAtPublish : Option Bool
  /-- `PublishAsync` completes. -/
  PublishAsync : Bool

/-- `Subscribe`: its effects, `none` where it throws. -/
def Subscribe (s : Schedule) (topic : Str) : Option (List (Effect V)) :=
  match s.statusAtSubscribe with
  | none => none
  | some false => some []
  | some true => s.SubscribeAsync.map fun granted => if granted then [.subscribed topic] else []

/-- `PublishMessage` of an object: failures of the serializer and of `PublishAsync` are logged. -/
def PublishMessage (s : Schedule) (topic : Str) (body : Body V) : Option (List (Effect V)) :=
  match s.statusAtPublish with
  | none => none
  | some false => some []
  | some true =>
    match body.bytes rt with
    | none => some []
    | some bytes => if s.PublishAsync then some [.published topic body bytes] else some []

/-- How a call ends. -/
inductive Outcome where
  | threw
  | completed
  | returned (g : Guid)
  deriving DecidableEq

/-- `SendMessageRequest` under the key `k`; `guid` is the identifier the call draws. -/
def SendMessageRequest (k : Str) (c : RequestCall V) (guid : Guid) (s : Schedule) : List (Effect V) × Outcome :=
  match c.request rt with
  | none => ([], .threw)
  | some q =>
    if EnsureConnectedAsync s.gate DefaultConnectWaitTimeout then
      match Subscribe s (GetResponseTopic k q.exchangeName) with
      | none => ([], .threw)
      | some subscribes =>
        match PublishMessage rt s (SubscribeRequestTopic k) (.payload (q.payload rt guid)) with
        | none => (subscribes, .threw)
        | some publishes => (subscribes ++ publishes, .returned guid)
    else ([], .returned Guid.Empty)

/-! ## What a returned identifier says -/

/-- The effect is the publication of a payload with the identifier `g`. -/
def Effect.Carries (g : Guid) : Effect V → Prop
  | .published _ (.payload p) _ => p.MessageId = g
  | _ => False

/-- Exactly one payload with the identifier `g` was published, as a request, and before it its response
topic was subscribed. -/
def SentOnce (k : Str) (g : Guid) (es : List (Effect V)) : Prop :=
  ∃ before after p bytes, es = before ++ .published (SubscribeRequestTopic k) (.payload p) bytes :: after ∧
    p.MessageId = g ∧ .subscribed (GetResponseTopic k p.ExchangeName) ∈ before ∧
    ∀ e ∈ before ++ after, ¬ e.Carries g

/-- A call that returns an identifier has sent its request: where nothing was sent, the call throws or
returns `Guid.Empty`. -/
def ReturnMeansSent (k : Str) (run : List (Effect V) × Outcome) : Prop :=
  ∀ g, run.2 = .returned g → g ≠ Guid.Empty → SentOnce k g run.1

/-- The schedule makes `Subscribe` or `PublishMessage` throw. -/
def Schedule.Throws (s : Schedule) : Prop :=
  s.statusAtSubscribe = none ∨ (s.statusAtSubscribe = some true ∧ s.SubscribeAsync = none) ∨ s.statusAtPublish = none

/-- The schedule lets a request through: connected at both steps, the filter granted, the publish completed. -/
structure Schedule.Connected (s : Schedule) : Prop where
  statusAtSubscribe : s.statusAtSubscribe = some true
  granted : s.SubscribeAsync = some true
  statusAtPublish : s.statusAtPublish = some true
  published : s.PublishAsync = true

variable {rt}

theorem mem_Subscribe {s : Schedule} {topic : Str} {es : List (Effect V)} (h : Subscribe s topic = some es) :
    ∀ e ∈ es, e = .subscribed topic ∧ s.statusAtSubscribe = some true ∧ s.SubscribeAsync = some true := by
  intro e he
  unfold Subscribe at h
  split at h
  · cases h
  · cases h
    exact absurd he List.not_mem_nil
  · rename_i hstatus
    obtain ⟨granted, hgranted, rfl⟩ := Option.map_eq_some_iff.mp h
    cases granted with
    | false => exact absurd he List.not_mem_nil
    | true => exact ⟨List.mem_singleton.mp he, hstatus, hgranted⟩

theorem PublishMessage_cases {s : Schedule} {topic : Str} {body : Body V} {es : List (Effect V)}
    (h : PublishMessage rt s topic body = some es) : es = [] ∨ ∃ bytes, es = [.published topic body bytes] ∧
      s.statusAtPublish = some true ∧ body.bytes rt = some bytes ∧ s.PublishAsync = true := by
  unfold PublishMessage at h
  split at h
  · cases h
  · cases h
    exact Or.inl rfl
  · rename_i hstatus
    split at h
    · cases h
      exact Or.inl rfl
    · rename_i bytes hbytes
      split_ifs at h with hok
      · cases h
        exact Or.inr ⟨bytes, rfl, hstatus, hbytes, hok⟩
      · cases h
        exact Or.inl rfl

theorem mem_PublishMessage {s : Schedule} {topic : Str} {body : Body V} {es : List (Effect V)}
    (h : PublishMessage rt s topic body = some es) {e : Effect V} (he : e ∈ es) :
    ∃ bytes, e = .published topic body bytes ∧ s.statusAtPublish = some true ∧
      body.bytes rt = some bytes ∧ s.PublishAsync = true := by
  rcases PublishMessage_cases h with rfl | ⟨bytes, rfl, hsent⟩
  · exact absurd he List.not_mem_nil
  · exact ⟨bytes, List.mem_singleton.mp he, hsent⟩

theorem Subscribe_connected {s : Schedule} (h : s.Connected) (topic : Str) :
    Subscribe s topic = some [(.subscribed topic : Effect V)] := by
  simp [Subscribe, h.statusAtSubscribe, h.granted]

theorem PublishMessage_connected {s : Schedule} (h : s.Connected) (topic : Str) {body : Body V} {bytes : List UInt8}
    (hb : body.bytes rt = some bytes) : PublishMessage rt s topic body = some [.published topic body bytes] := by
  simp [PublishMessage, h.statusAtPublish, hb, h.published]

theorem SendMessageRequest_of_not_throws {k : Str} {c : RequestCall V} {q : Request V} (hq : c.request rt = some q)
    {s : Schedule} (hg : EnsureConnectedAsync s.gate DefaultConnectWaitTimeout = true) (hs : ¬ s.Throws) (guid : Guid) :
    ∃ subscribes publishes, Subscribe s (GetResponseTopic k q.exchangeName) = some subscribes ∧
      PublishMessage rt s (SubscribeRequestTopic k) (.payload (q.payload rt guid)) = some publishes ∧
      SendMessageRequest rt k c guid s = (subscribes ++ publishes, .returned guid) := by
  have hsub : ∃ subscribes : List (Effect V), Subscribe s (GetResponseTopic k q.exchangeName) = some subscribes := by
    unfold Subscribe
    split
    · rename_i h
      exact absurd (Or.inl h) hs
    · exact ⟨_, rfl⟩
    · rename_i h
      cases hack : s.SubscribeAsync with
      | none => exact absurd (Or.inr (Or.inl ⟨h, hack⟩)) hs
      | some granted => exact ⟨_, rfl⟩
  have hpub : ∃ publishes, PublishMessage rt s (SubscribeRequestTopic k) (.payload (q.payload rt guid)) = some publishes := by
    unfold PublishMessage
    split
    · rename_i h
      exact absurd (Or.inr (Or.inr h)) hs
    · exact ⟨_, rfl⟩
    · split
      · exact ⟨_, rfl⟩
      · split_ifs
        · exact ⟨_, rfl⟩
        · exact ⟨_, rfl⟩
  obtain ⟨subscribes, hsub⟩ := hsub
  obtain ⟨publishes, hpub⟩ := hpub
  refine ⟨subscribes, publishes, hsub, hpub, ?_⟩
  rw [SendMessageRequest, hq]
  simp only [hg, if_true, hsub, hpub]

/-- A call ends with its own identifier just where it gets to its end. -/
theorem SendMessageRequest_returned {k : Str} {c : RequestCall V} {guid g : Guid} {s : Schedule}
    (h : (SendMessageRequest rt k c guid s).2 = .returned g) (hne : g ≠ Guid.Empty) :
    g = guid ∧ ∃ q, c.request rt = some q ∧ EnsureConnectedAsync s.gate DefaultConnectWaitTimeout = true ∧
      ¬ s.Throws := by
  unfold SendMessageRequest at h
  split at h
  · cases h
  · rename_i q hq
    split_ifs at h with hg
    · split at h
      · cases h
      · rename_i subscribes hsub
        split at h
        · cases h
        · rename_i publishes hpub
          cases h
          refine ⟨rfl, q, hq, hg, ?_⟩
          rintro (h | ⟨h, h'⟩ | h)
          · simp only [Subscribe, h, reduceCtorEq] at hsub
          · simp only [Subscribe, h, h', Option.map_none, reduceCtorEq] at hsub
          · simp only [PublishMessage, h, reduceCtorEq] at hpub
    · cases h
      exact absurd rfl hne

/-- **A call that ends with its identifier has sent its request just when the schedule let it through.** -/
theorem sentOnce_iff {k : Str} {s : Schedule} {q : Request V} {guid : Guid} {subscribes publishes : List (Effect V)}
    (hsub : Subscribe s (GetResponseTopic k q.exchangeName) = some subscribes)
    (hpub : PublishMessage rt s (SubscribeRequestTopic k) (.payload (q.payload rt guid)) = some publishes) :
    SentOnce k guid (subscribes ++ publishes) ↔ s.Connected ∧ ∃ bytes, (q.payload rt guid).bytes rt = some bytes := by
  constructor
  · rintro ⟨before, after, p, bytes, hes, hp, hmem, -⟩
    have hpublished : .published (SubscribeRequestTopic k) (.payload p) bytes ∈ subscribes ++ publishes :=
      hes ▸ List.mem_append_right _ List.mem_cons_self
    have hsubscribed : .subscribed (GetResponseTopic k p.ExchangeName) ∈ subscribes ++ publishes :=
      hes ▸ List.mem_append_left _ hmem
    rcases List.mem_append.mp hpublished with h | h
    · exact absurd (mem_Subscribe hsub _ h).1 (by simp)
    rcases List.mem_append.mp hsubscribed with h' | h'
    · obtain ⟨-, hstatus, hgranted⟩ := mem_Subscribe hsub _ h'
      obtain ⟨bytes, -, hstatus', hbytes, hok⟩ := mem_PublishMessage hpub h
      exact ⟨⟨hstatus, hgranted, hstatus', hok⟩, bytes, hbytes⟩
    · obtain ⟨bytes, h', -⟩ := mem_PublishMessage hpub h'
      exact absurd h' (by simp)
  · rintro ⟨hs, bytes, hbytes⟩
    have hb : (Body.payload (q.payload rt guid)).bytes rt = some bytes := hbytes
    rw [Subscribe_connected hs] at hsub
    rw [PublishMessage_connected hs _ hb] at hpub
    cases hsub
    cases hpub
    refine ⟨_, [], q.payload rt guid, bytes, rfl, rfl, List.mem_singleton.mpr rfl, fun e he => ?_⟩
    rw [List.append_nil, List.mem_singleton] at he
    subst he
    exact id

/-- **When a returned identifier means that the request was sent.** -/
theorem returned_means_sent_iff (k : Str) (c : RequestCall V) {guid : Guid} (hguid : guid ≠ Guid.Empty) (s : Schedule) :
    ReturnMeansSent k (SendMessageRequest rt k c guid s) ↔
      ∀ q, c.request rt = some q → EnsureConnectedAsync s.gate DefaultConnectWaitTimeout = true →
        s.Throws ∨ s.Connected ∧ ∃ bytes, (q.payload rt guid).bytes rt = some bytes := by
  constructor
  · intro h q hq hg
    by_cases hs : s.Throws
    · exact Or.inl hs
    · obtain ⟨subscribes, publishes, hsub, hpub, hrun⟩ :=
        SendMessageRequest_of_not_throws (k := k) hq hg hs guid
      rw [hrun] at h
      exact Or.inr ((sentOnce_iff hsub hpub).mp (h guid rfl hguid))
  · intro h g hret hne
    obtain ⟨rfl, q, hq, hg, hs⟩ := SendMessageRequest_returned hret hne
    obtain ⟨subscribes, publishes, hsub, hpub, hrun⟩ := SendMessageRequest_of_not_throws (k := k) hq hg hs g
    rw [hrun]
    exact (sentOnce_iff hsub hpub).mpr ((h q hq hg).resolve_left hs)

end Requests

/-! ## A connection lost at once -/

/-- The gate finds the flag set; both later steps find the connection lost. -/
def Schedule.lostAfterGate : Schedule where
  gate := ⟨fun _ => true, fun n => pollDelay * n⟩
  statusAtSubscribe := some false
  SubscribeAsync := some true
  statusAtPublish := some false
  PublishAsync := true

/-- A request whose connection is lost right after the gate returns its identifier, unsent. -/
theorem lost_request_returned : ¬ ReturnMeansSent "app".toList
    (SendMessageRequest Runtime.strings "app".toList (.name (some "orders".toList)) (Guid.fill 1)
      Schedule.lostAfterGate) := by
  intro h
  obtain ⟨before, after, p, bytes, hes, -⟩ := h (Guid.fill 1) rfl (by decide)
  have hnone : (SendMessageRequest Runtime.strings "app".toList (.name (some "orders".toList)) (Guid.fill 1)
      Schedule.lostAfterGate).1 = [] := rfl
  rw [hnone] at hes
  exact absurd hes (by simp)

theorem returned_means_sent_iff_lost :
    ReturnMeansSent "app".toList
        (SendMessageRequest Runtime.strings "app".toList (.name (some "orders".toList)) (Guid.fill 1)
          Schedule.lostAfterGate) ↔
      ∀ q, RequestCall.request Runtime.strings (.name (some "orders".toList)) = some q →
        EnsureConnectedAsync Schedule.lostAfterGate.gate DefaultConnectWaitTimeout = true →
        Schedule.lostAfterGate.Throws ∨ Schedule.lostAfterGate.Connected ∧
          ∃ bytes, (q.payload Runtime.strings (Guid.fill 1)).bytes Runtime.strings = some bytes :=
  returned_means_sent_iff _ _ (by decide) _

/-! ## All sending methods -/

section Publications

variable {V : Type} (rt : Runtime V)

/-- A call of a sending method, with its arguments. -/
inductive SendCall (V : Type) where
  /-- `SendMessageRequest`, any overload -/
  | request (c : RequestCall V)
  /-- `SendMessageResponse(payload, exchangeName)`, the payload a `Payload` or any other value -/
  | responseName (payload : Option V ⊕ Payload V) (exchangeName : Option Str)
  /-- `SendMessageResponse(payload)` -/
  | response (payload : Option (Payload V))
  /-- `SendMessage(payload, exchangeName)` -/
  | messageName (payload : Option V) (exchangeName : Option Str)
  /-- `SendMessage(payload)` -/
  | message (payload : Option V)
  /-- `SendString(payloadString, exchangeName)` -/
  | string (payloadString : Option Str) (exchangeName : Option Str)

/-- What a call publishes, and where; `none` where the argument check throws. `guid` is the identifier
drawn on the way. -/
def SendCall.publication (k : Str) (guid : Guid) : SendCall V → Option (Str × Body V)
  | request c => (c.request rt).map fun q => (SubscribeRequestTopic k, .payload (q.payload rt guid))
  | responseName payload x =>
    if IsNullOrWhiteSpace x then none
    else match payload with
      | .inr p => some (GetResponseTopic k x, .payload p)
      | .inl v => some (GetResponseTopic k x, .payload (Payload.newGeneric rt x v guid))
  | response payload => payload.map fun p => (GetResponseTopic k p.ExchangeName, .payload p)
  | messageName v x =>
    if IsNullOrWhiteSpace x then none
    else some (SubscribeMessageTopic k, .payload (Payload.newGeneric rt x v guid))
  | message v => v.map fun v =>
      (SubscribeMessageTopic k, .payload (Payload.newGeneric rt (some (rt.Name (rt.GetType v))) (some v) guid))
  | string s x =>
    if IsNullOrWhiteSpace x then none else some (SubscribeStringTopic k, .string ⟨x, s, guid⟩)

/-- A call of a sending method under a schedule. -/
def SendCall.run (k : Str) (guid : Guid) (s : Schedule) (c : SendCall V) : List (Effect V) × Outcome :=
  match c with
  | request c => SendMessageRequest rt k c guid s
  | c =>
    match c.publication rt k guid with
    | none => ([], .threw)
    | some (topic, body) =>
      if EnsureConnectedAsync s.gate DefaultConnectWaitTimeout then
        match PublishMessage rt s topic body with
        | none => ([], .threw)
        | some publishes => (publishes, .completed)
      else ([], .completed)

variable {rt} {k : Str} {guid : Guid} {s : Schedule}

theorem SendMessageRequest_cases (rt : Runtime V) (k : Str) (c : RequestCall V) (guid : Guid) (s : Schedule) :
    (SendMessageRequest rt k c guid s).1 = [] ∨
      ∃ q subscribes, c.request rt = some q ∧ Subscribe s (GetResponseTopic k q.exchangeName) = some subscribes ∧
        (SendMessageRequest rt k c guid s = (subscribes, .threw) ∨ ∃ publishes,
          PublishMessage rt s (SubscribeRequestTopic k) (.payload (q.payload rt guid)) = some publishes ∧
          SendMessageRequest rt k c guid s = (subscribes ++ publishes, .returned guid)) := by
  unfold SendMessageRequest
  split
  · exact Or.inl rfl
  · rename_i q hq
    split_ifs
    · cases hsub : Subscribe s (GetResponseTopic k q.exchangeName) with
      | none => exact Or.inl rfl
      | some subscribes =>
        refine Or.inr ⟨q, subscribes, hq, hsub, ?_⟩
        cases hpub : PublishMessage rt s (SubscribeRequestTopic k) (.payload (q.payload rt guid)) with
        | none => exact Or.inl rfl
        | some publishes => exact Or.inr ⟨publishes, rfl, rfl⟩
    · exact Or.inl rfl

/-- **The effects of a sending method**: subscriptions of response topics, and its publication. -/
theorem SendCall.mem_run {c : SendCall V} {e : Effect V} (h : e ∈ (c.run rt k guid s).1) :
    (∃ x, e = .subscribed (GetResponseTopic k x)) ∨ ∃ topic body bytes, e = .published topic body bytes ∧
      c.publication rt k guid = some (topic, body) ∧ body.bytes rt = some bytes := by
  cases c with
  | request c =>
    rw [SendCall.run] at h
    rcases SendMessageRequest_cases rt k c guid s with hrun | ⟨q, subscribes, hq, hsub, hrun | ⟨publishes, hpub, hrun⟩⟩
    · exact absurd (hrun ▸ h) List.not_mem_nil
    · rw [hrun] at h
      exact Or.inl ⟨_, (mem_Subscribe hsub e h).1⟩
    · rw [hrun] at h
      rcases List.mem_append.mp h with h | h
      · exact Or.inl ⟨_, (mem_Subscribe hsub e h).1⟩
      · obtain ⟨bytes, rfl, -, hbytes, -⟩ := mem_PublishMessage hpub h
        exact Or.inr ⟨_, _, bytes, rfl, congrArg (Option.map _) hq, hbytes⟩
  | responseName | response | messageName | message | string =>
    simp only [SendCall.run] at h
    split at h
    · exact absurd h List.not_mem_nil
    · rename_i topic body hpublication
      split_ifs at h
      · split at h
        · exact absurd h List.not_mem_nil
        · rename_i publishes hpub
          obtain ⟨bytes, rfl, -, hbytes, -⟩ := mem_PublishMessage hpub h
          exact Or.inr ⟨topic, body, bytes, rfl, hpublication, hbytes⟩
      · exact absurd h List.not_mem_nil

/-- **The publication of a request is the last effect of its call**, which then returns its identifier. -/
theorem SendMessageRequest_last {c : RequestCall V} {before after : List (Effect V)} {topic : Str} {body : Body V}
    {bytes : List UInt8} (h : (SendMessageRequest rt k c guid s).1 = before ++ .published topic body bytes :: after) :
    after = [] ∧ topic = SubscribeRequestTopic k ∧ (SendMessageRequest rt k c guid s).2 = .returned guid := by
  have hmem : .published topic body bytes ∈ (SendMessageRequest rt k c guid s).1 :=
    h ▸ List.mem_append_right before List.mem_cons_self
  have hsubscribed : ∀ {es : List (Effect V)} {t : Str}, Subscribe s t = some es → .published topic body bytes ∉ es :=
    fun hsub hes => absurd (mem_Subscribe hsub _ hes).1 nofun
  rcases SendMessageRequest_cases rt k c guid s with hrun | ⟨q, subscribes, hq, hsub, hrun | ⟨publishes, hpub, hrun⟩⟩
  · rw [hrun] at hmem
    exact absurd hmem List.not_mem_nil
  · rw [hrun] at hmem
    exact absurd hmem (hsubscribed hsub)
  · rw [hrun] at h hmem ⊢
    rcases PublishMessage_cases hpub with rfl | ⟨bytes', rfl, -⟩
    · rw [List.append_nil] at hmem
      exact absurd hmem (hsubscribed hsub)
    · rcases List.eq_nil_or_concat' after with rfl | ⟨after, e, rfl⟩
      · obtain ⟨-, hlast⟩ := List.append_inj' h rfl
        cases hlast
        exact ⟨rfl, rfl, rfl⟩
      · -- otherwise the publication would stand among the subscriptions
        rw [← List.cons_append, ← List.append_assoc] at h
        have hsplit : subscribes = before ++ .published topic body bytes :: after := (List.append_inj' h rfl).1
        exact absurd (hsplit ▸ List.mem_append_right before List.mem_cons_self) (hsubscribed hsub)

end Publications

end MqttServices
