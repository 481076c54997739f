import MqttServices.Client.Operations
import MqttServices.Services.Receive

/-!
# Handlers and exceptions

* **`handles_quietly_iff`**: the messages whose handler ends without an exception, raises at most one event and
  raises none for a message that cannot be decoded.
* `MqttClientService_ClientConnected`: the handler of a new connection, with the subscriptions it gets to.
* **`client_calls_complete_iff`**: in every reachable state, the calls of the client service and the runs of this
  handler that throw nothing.
-/

namespace MqttServices

/-! ## A delivered message -/

section Received

variable {V : Type} (rt : Runtime V) (k : Str) (fresh fresh' : Guid) (topic : Str) (bytes : List UInt8)

/-- The decoder that the topic calls for makes nothing of the bytes. -/
def Undecodable : Prop :=
  if topic = SubscribeStringTopic k ∧ ¬ marked topic then ∀ p, readString fresh bytes ≠ some (some p)
  else DeserializePayloadObject rt fresh fresh' bytes = none

/-- The handler returns, raises at most one event, and none for what cannot be decoded. -/
def HandlesQuietly : Prop :=
  ∃ es, MqttClientService_MessageReceived rt k fresh fresh' topic bytes = some es ∧ es.length ≤ 1 ∧
    (Undecodable rt k fresh fresh' topic bytes → es = [])

variable {rt k fresh fresh' topic bytes}

theorem toList_map_eq_flatMap {α β : Type} (x : Option α) (f : α → β) :
    x.toList.map f = x.toList.flatMap fun a => [f a] := by
  cases x <;> rfl

/-- Events raised from the payload decoded, if any. -/
theorem quiet_of_decoded (hs : ¬ (topic = SubscribeStringTopic k ∧ ¬ marked topic)) {f : Payload V → List (Event V)}
    (hf : ∀ p, (f p).length ≤ 1)
    (h : MqttClientService_MessageReceived rt k fresh fresh' topic bytes =
      some ((DeserializePayloadObject rt fresh fresh' bytes).toList.flatMap f)) :
    HandlesQuietly rt k fresh fresh' topic bytes := by
  refine ⟨_, h, ?_, fun hu => ?_⟩
  · cases DeserializePayloadObject rt fresh fresh' bytes with
    | none => exact Nat.zero_le 1
    | some p => simpa using hf p
  · rw [Undecodable, if_neg hs] at hu
    rw [hu]
    rfl

theorem quiet_of_single (hs : ¬ (topic = SubscribeStringTopic k ∧ ¬ marked topic)) {name : EventName}
    (h : MqttClientService_MessageReceived rt k fresh fresh' topic bytes =
      some ((DeserializePayloadObject rt fresh fresh' bytes).toList.map fun p => ⟨name, .payload p⟩)) :
    HandlesQuietly rt k fresh fresh' topic bytes := by
  rw [toList_map_eq_flatMap] at h
  exact quiet_of_decoded (f := fun p => [⟨name, .payload p⟩]) hs (fun _ => Nat.le_refl 1) h

theorem length_requestEvents (p : Payload V) : (requestEvents p).length ≤ 1 := by
  rw [requestEvents]
  cases RequestType.ofInt32? p.RequestType <;> simp

theorem MessageReceived_other (hreq : topic ≠ SubscribeRequestTopic k) (hm : ¬ marked topic)
    (hmessage : topic ≠ SubscribeMessageTopic k) (hstring : topic ≠ SubscribeStringTopic k) :
    MqttClientService_MessageReceived rt k fresh fresh' topic bytes = some [] := by
  rw [MqttClientService_MessageReceived, if_neg hreq, if_neg hm]
  simp [hmessage, hstring]

/-- **The messages that are handled without an exception**: all but a string message whose bytes the serializer
rejects. -/
theorem handles_quietly_iff : HandlesQuietly rt k fresh fresh' topic bytes ↔
    (topic = SubscribeStringTopic k → marked k ∨ readString fresh bytes ≠ none) := by
  by_cases hreq : topic = SubscribeRequestTopic k
  · subst hreq
    refine iff_of_true ?_ fun h => absurd h.symm (SubscribeStringTopic_ne_request k)
    exact quiet_of_decoded (fun h => SubscribeStringTopic_ne_request k h.1.symm) length_requestEvents
      MessageReceived_request
  by_cases hm : marked topic
  · refine iff_of_true ?_ fun h => Or.inl ((marked_base_iff (by simp [baseTopics])).mp (h ▸ hm))
    exact quiet_of_single (fun h => h.2 hm) (MessageReceived_marked hreq hm)
  by_cases hmessage : topic = SubscribeMessageTopic k
  · subst hmessage
    have hk : ¬ marked k := fun h => hm ((marked_base_iff (by simp [baseTopics])).mpr h)
    refine iff_of_true ?_ fun h => absurd h.symm (SubscribeStringTopic_ne_message k)
    exact quiet_of_single (fun h => SubscribeStringTopic_ne_message k h.1.symm) (MessageReceived_message hk)
  by_cases hstring : topic = SubscribeStringTopic k
  · subst hstring
    have hk : ¬ marked k := fun h => hm ((marked_base_iff (by simp [baseTopics])).mpr h)
    rw [HandlesQuietly, MessageReceived_string hk, Undecodable, if_pos ⟨rfl, hm⟩]
    cases hread : readString fresh bytes with
    | none =>
      refine iff_of_false ?_ fun h => (h rfl).elim hk fun h => h rfl
      rintro ⟨_, h, -⟩
      cases h
    | some p =>
      refine iff_of_true ⟨_, rfl, ?_, fun hu => ?_⟩ fun _ => Or.inr (Option.some_ne_none p)
      · cases p <;> simp
      · cases p with
        | none => rfl
        | some p => exact absurd rfl (hu p)
  · refine iff_of_true ⟨[], MessageReceived_other hreq hm hmessage hstring, Nat.zero_le 1, fun _ => rfl⟩ ?_
    exact fun h => absurd h hstring

end Received

/-- An empty string message makes the handler throw. -/
theorem empty_string_throws : ¬ HandlesQuietly Runtime.strings "app".toList (Guid.fill 1) (Guid.fill 2)
    (SubscribeStringTopic "app".toList) [] := by
  rintro ⟨es, h, -⟩
  rw [MessageReceived_string (by decide)] at h
  cases h

/-! ## A new connection -/

/-- Awaits one after the other: the topics asked for, and the exception that ended it. -/
def awaitEach (subscribe : Str → Except Exception (List LogEntry)) : List Str → List Str × Except Exception Unit
  | [] => ([], .ok ())
  | topic :: topics =>
    match subscribe topic with
    | .error ex => ([topic], .error ex)
    | .ok _ => (topic :: (awaitEach subscribe topics).1, (awaitEach subscribe topics).2)

/-- `MqttClientService_ClientConnected`, where `mqttClient t` is the client as the handler gets to topic `t`. -/
def MqttClientService_ClientConnected (k : Str) (mqttClient : Str → Option IMqttClient) :
    List Str × Except Exception Unit :=
  awaitEach (fun topic => Operation.Subscribe (mqttClient topic) (some topic)) (baseTopics k)

/-- No exception leaves the handler, and every base topic is asked for. -/
def HandlerCompletes (k : Str) (mqttClient : Str → Option IMqttClient) : Prop :=
  MqttClientService_ClientConnected k mqttClient = (baseTopics k, .ok ())

theorem awaitEach_eq_iff (subscribe : Str → Except Exception (List LogEntry)) (topics : List Str) :
    awaitEach subscribe topics = (topics, .ok ()) ↔ ∀ t ∈ topics, ∃ entries, subscribe t = .ok entries := by
  induction topics with
  | nil => exact iff_of_true rfl fun _ h => absurd h List.not_mem_nil
  | cons topic topics ih =>
    rw [awaitEach, List.forall_mem_cons, ← ih]
    cases hs : subscribe topic with
    | error ex => exact iff_of_false nofun fun h => Operation.not_ok_of_error rfl h.1
    | ok entries =>
      refine ⟨fun h => ⟨⟨entries, rfl⟩, ?_⟩, fun h => ?_⟩
      · obtain ⟨hfst, hsnd⟩ := Prod.mk.inj h
        exact Prod.ext (List.cons.inj hfst).2 hsnd
      · simp only [h.2]

/-- What the call needs of the host the service was given and of the MQTT client. -/
def ClientCall.SafeFor (host : Option Str) (client : IMqttClient) : ClientCall → Prop
  | Disconnect | PublishString _ _ => True
  | Connect _ | ReConnect _ _ _ _ | PublishObject _ _ => IsNullOrEmpty host = false
  | Subscribe topic => IsNullOrEmpty host = false ∧
      (client.IsConnected = true → client.SubscribeAsync topic = .ok ())

section Calls

variable {host : Option Str} {port : Int32} {as : List ServiceAction} {s : MqttClientService}

theorem safe_behaving_iff (hclient : s.mqttClient ≠ none ↔ IsNullOrEmpty host = false) (client : IMqttClient)
    (c : ClientCall) : c.Safe (s.behaving client) ↔ c.SafeFor host client := by
  cases c with
  | Disconnect => exact Iff.rfl
  | PublishString topic payload => exact Iff.rfl
  | Connect IsConnecting => exact (s.behaving_ne_none client).trans hclient
  | ReConnect brokerHost brokerPort later IsConnecting => exact (s.behaving_ne_none client).trans hclient
  | PublishObject topic payload => exact (s.behaving_ne_none client).trans hclient
  | Subscribe topic =>
    rw [ClientCall.Safe, ClientCall.SafeFor, ← hclient, ← s.behaving_ne_none client, Option.ne_none_iff_exists']
    constructor
    · rintro ⟨client', hc, h⟩
      obtain ⟨_, -, rfl⟩ := Option.map_eq_some_iff.mp hc
      exact ⟨⟨client, hc⟩, h⟩
    · rintro ⟨⟨client', hc⟩, h⟩
      obtain ⟨_, -, rfl⟩ := Option.map_eq_some_iff.mp hc
      exact ⟨client, hc, h⟩

/-- **The calls and the handler runs that throw nothing**, in every reachable state. -/
theorem client_calls_complete_iff (hrun : Run.exec MqttClientService.step (MqttClientService.new host port) as = some s)
    (TlsVersion : Option Str) :
    (∀ client c, ClientCall.Completes (s.behaving client) TlsVersion c ↔ c.SafeFor host client) ∧
      ∀ k (client : Str → IMqttClient), HandlerCompletes k (fun t => s.behaving (client t)) ↔
        ∀ t ∈ baseTopics k, (ClientCall.Subscribe (some t)).SafeFor host (client t) := by
  have hclient := MqttClientService.client_iff hrun
  have hcall : ∀ client c, ClientCall.Completes (s.behaving client) TlsVersion c ↔ c.SafeFor host client :=
    fun client c => (c.completes_iff _ TlsVersion).trans (safe_behaving_iff hclient client c)
  refine ⟨hcall, fun k client => ?_⟩
  rw [HandlerCompletes, MqttClientService_ClientConnected, awaitEach_eq_iff]
  exact forall₂_congr fun t _ => hcall (client t) (.Subscribe (some t))

end Calls

/-! ## Schedules -/

section Schedules

variable {V : Type} {rt : Runtime V} {sch : Schedule} {mqttClient : Option IMqttClient} {topic : Str}

/-- **`Subscribe` throws under a schedule just where the call throws on a client that behaves like it.** -/
theorem Subscribe_throws_iff (hstatus : sch.statusAtSubscribe = mqttClient.map (·.IsConnected))
    (hack : ∀ client, mqttClient = some client →
      (sch.SubscribeAsync = none ↔ client.SubscribeAsync (some topic) ≠ .ok ())) (TlsVersion : Option Str) :
    (Subscribe sch topic : Option (List (Effect V))) = none ↔
      ¬ (ClientCall.Subscribe (some topic)).Completes mqttClient TlsVersion := by
  rw [ClientCall.completes_iff, ClientCall.Safe]
  cases mqttClient with
  | none =>
    rw [Subscribe, hstatus]
    refine iff_of_true rfl ?_
    rintro ⟨_, h, -⟩
    cases h
  | some client =>
    rw [Subscribe, hstatus, Option.map_some]
    cases hc : client.IsConnected with
    | false => simp [hc]
    | true => simp [hc, hack client rfl]

/-- **`PublishMessage` throws under a schedule just where the call throws on such a client.** -/
theorem PublishMessage_throws_iff (hstatus : sch.statusAtPublish = mqttClient.map (·.IsConnected)) (body : Body V)
    (payload : Except Exception (List UInt8)) (TlsVersion : Option Str) :
    PublishMessage rt sch topic body = none ↔
      ¬ (ClientCall.PublishObject (some topic) payload).Completes mqttClient TlsVersion := by
  rw [ClientCall.completes_iff, ClientCall.Safe]
  cases mqttClient with
  | none =>
    rw [PublishMessage, hstatus]
    exact iff_of_true rfl fun h => h rfl
  | some client =>
    refine iff_of_false (fun h => ?_) fun h => h (Option.some_ne_none client)
    rw [PublishMessage, hstatus, Option.map_some] at h
    cases hc : client.IsConnected with
    | false => simp [hc] at h
    | true =>
      simp only [hc] at h
      split at h
      · cases h
      · split_ifs at h

end Schedules

/-! ## Exceptions that get out -/

/-- A client in use whose `SubscribeAsync` throws. -/
def failingClient : IMqttClient where
  IsConnected := true
  ConnectAsync := fun _ => .ok true
  DisconnectAsync := .ok ()
  SubscribeAsync := fun _ => .error { type := .InvalidOperationException }
  PublishAsync := fun _ _ => .ok ()

/-- With no host set `Connect` throws; with one, a subscription that fails leaves the handler. -/
theorem calls_throw :
    ¬ ClientCall.Completes ((MqttClientService.new (some []) 0).behaving failingClient) none (.Connect false) ∧
      ¬ HandlerCompletes "app".toList
        (fun _ => (MqttClientService.new (some "broker".toList) 1883).behaving failingClient) :=
  ⟨Operation.not_ok_of_error rfl, fun h => nomatch congrArg Prod.snd h⟩

/-- A connection that is made and dropped. -/
def droppedRun : List ServiceAction :=
  [.call .Connect, .connectResult 0 true, .connectedCallback 0, .connectFinally 0, .drop, .disconnectedCallback]

theorem client_calls_complete_iff_dropped : ∃ s,
    Run.exec MqttClientService.step (MqttClientService.new (some "broker".toList) 1883) droppedRun = some s ∧
      s.connected = false ∧ s.attempts = [(some "broker".toList, 1883)] ∧
      (∀ client, ClientCall.Completes (s.behaving client) none (.Connect false)) ∧
      ¬ HandlerCompletes "app".toList (fun _ => s.behaving failingClient) := by
  obtain ⟨s, hrun, hdropped, hattempts⟩ : ∃ s,
      Run.exec MqttClientService.step (MqttClientService.new (some "broker".toList) 1883) droppedRun = some s ∧
        s.connected = false ∧ s.attempts = [(some "broker".toList, 1883)] := ⟨_, rfl, rfl, rfl⟩
  obtain ⟨hcalls, hhandler⟩ := client_calls_complete_iff hrun none
  refine ⟨s, hrun, hdropped, hattempts, fun client => (hcalls client (.Connect false)).mpr rfl, fun h => ?_⟩
  have hsafe := (hhandler "app".toList fun _ => failingClient).mp h (SubscribeRequestTopic "app".toList)
    List.mem_cons_self
  cases hsafe.2 rfl

end MqttServices
