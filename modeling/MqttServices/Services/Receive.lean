import MqttServices.Services.Send

/-!
# Receiving

* `Event`: the events of a messaging manager with what they carry.
* `MessageReceived`: the handler of a delivered message, by its topic and bytes.
* `SendCall.event`: the event a sent message is meant for.
* **`raises_own_event_iff`**: the sent messages that raise their own event and no other.
-/

namespace MqttServices

/-- The events of `MessagingManager`. -/
inductive EventName where
  | RequestReceived
  | RequestForGetOneReceived
  | RequestForGetAllReceived
  | RequestForUpsertReceived
  | RequestForUpdateReceived
  | RequestForInsertReceived
  | RequestForDeleteReceived
  | ResponseReceived
  | MessageReceived
  | StringReceived
  deriving DecidableEq

/-- The event of a declared request type. -/
def RequestType.event : RequestType → EventName
  | Generic => .RequestReceived
  | GetOne => .RequestForGetOneReceived
  | GetAll => .RequestForGetAllReceived
  | Upsert => .RequestForUpsertReceived
  | Update => .RequestForUpdateReceived
  | Insert => .RequestForInsertReceived
  | Delete => .RequestForDeleteReceived

/-- What a handler is called with. -/
inductive Carried (V : Type) where
  | payload (p : Payload V)
  | string (p : StringPayload)

/-- A raised event. -/
structure Event (V : Type) where
  name : EventName
  carried : Carried V

section Receive

variable {V : Type} (rt : Runtime V)

/-- The `switch` over the request type: an undeclared value raises nothing. -/
def requestEvents (p : Payload V) : List (Event V) :=
  ((RequestType.ofInt32? p.RequestType).map fun r => ⟨r.event, .payload p⟩).toList

/-- `JsonSerializer.Deserialize<StringPayload>` on the bytes of a message. -/
def readString (fresh : Guid) (bytes : List UInt8) : Option (Option StringPayload) :=
  (Json.parse (Utf8.decode bytes)).bind (StringPayload.read fresh)

/-- `MqttClientService_MessageReceived`: the events raised, in order; `none` where it throws. The
identifiers are those drawn by the constructors on the way. -/
def MqttClientService_MessageReceived (k : Str) (fresh fresh' : Guid) (topic : Str) (bytes : List UInt8) :
    Option (List (Event V)) :=
  if topic = SubscribeRequestTopic k then
    some ((DeserializePayloadObject rt fresh fresh' bytes).toList.flatMap requestEvents)
  else if marked topic then
    some ((DeserializePayloadObject rt fresh fresh' bytes).toList.map fun p => ⟨.ResponseReceived, .payload p⟩)
  else do
    let messages : List (Event V) :=
      if topic = SubscribeMessageTopic k then
        (DeserializePayloadObject rt fresh fresh' bytes).toList.map fun p => ⟨.MessageReceived, .payload p⟩
      else []
    let strings : List (Event V) ←
      if topic = SubscribeStringTopic k then
        (readString fresh bytes).map fun p => p.toList.map fun p => ⟨.StringReceived, .string p⟩
      else some []
    return messages ++ strings

variable {rt} {k : Str} {fresh fresh' : Guid} {bytes : List UInt8}

theorem MessageReceived_request :
    MqttClientService_MessageReceived rt k fresh fresh' (SubscribeRequestTopic k) bytes =
      some ((DeserializePayloadObject rt fresh fresh' bytes).toList.flatMap requestEvents) := if_pos rfl

theorem MessageReceived_marked {topic : Str} (hreq : topic ≠ SubscribeRequestTopic k) (hm : marked topic) :
    MqttClientService_MessageReceived rt k fresh fresh' topic bytes =
      some ((DeserializePayloadObject rt fresh fresh' bytes).toList.map fun p => ⟨.ResponseReceived, .payload p⟩) := by
  rw [MqttClientService_MessageReceived, if_neg hreq, if_pos hm]

theorem MessageReceived_response (x : Option Str) :
    MqttClientService_MessageReceived rt k fresh fresh' (GetResponseTopic k x) bytes =
      some ((DeserializePayloadObject rt fresh fresh' bytes).toList.map fun p => ⟨.ResponseReceived, .payload p⟩) :=
  MessageReceived_marked (GetResponseTopic_ne_request k k x) (marked_response k x)

theorem MessageReceived_message (hm : ¬ marked k) :
    MqttClientService_MessageReceived rt k fresh fresh' (SubscribeMessageTopic k) bytes =
      some ((DeserializePayloadObject rt fresh fresh' bytes).toList.map fun p => ⟨.MessageReceived, .payload p⟩) := by
  have hm' : ¬ marked (SubscribeMessageTopic k) := fun h => hm ((marked_base_iff (by simp [baseTopics])).mp h)
  rw [MqttClientService_MessageReceived, if_neg (SubscribeMessageTopic_ne_request k), if_neg hm', if_pos rfl,
    if_neg (SubscribeStringTopic_ne_message k).symm]
  simp

theorem MessageReceived_string (hm : ¬ marked k) :
    MqttClientService_MessageReceived rt k fresh fresh' (SubscribeStringTopic k) bytes =
      (readString fresh bytes).map fun p => p.toList.map fun p => ⟨.StringReceived, .string p⟩ := by
  have hm' : ¬ marked (SubscribeStringTopic k) := fun h => hm ((marked_base_iff (by simp [baseTopics])).mp h)
  rw [MqttClientService_MessageReceived, if_neg (SubscribeStringTopic_ne_request k), if_neg hm',
    if_neg (SubscribeStringTopic_ne_message k), if_pos rfl]
  simp

/-- **A payload that a handler hands on was decoded from the message.** -/
theorem MessageReceived_payload {topic : Str} {es : List (Event V)}
    (h : MqttClientService_MessageReceived rt k fresh fresh' topic bytes = some es) {e : Event V} (he : e ∈ es)
    {p : Payload V} (hp : e.carried = .payload p) : DeserializePayloadObject rt fresh fresh' bytes = some p := by
  have hmap : ∀ name : EventName,
      e ∈ (DeserializePayloadObject rt fresh fresh' bytes).toList.map (fun p => ⟨name, .payload p⟩) →
        DeserializePayloadObject rt fresh fresh' bytes = some p := by
    intro name he
    obtain ⟨q, hq, rfl⟩ := List.mem_map.mp he
    cases hp
    exact Option.mem_toList.mp hq
  by_cases hreq : topic = SubscribeRequestTopic k
  · rw [hreq, MessageReceived_request] at h
    cases h
    obtain ⟨q, hq, he⟩ := List.mem_flatMap.mp he
    obtain ⟨r, -, rfl⟩ := Option.map_eq_some_iff.mp (Option.mem_toList.mp he)
    cases hp
    exact Option.mem_toList.mp hq
  by_cases hm : marked topic
  · rw [MessageReceived_marked hreq hm] at h
    cases h
    exact hmap _ he
  rw [MqttClientService_MessageReceived, if_neg hreq, if_neg hm] at h
  dsimp only at h
  have hmessages : e ∈ (if topic = SubscribeMessageTopic k then
      (DeserializePayloadObject rt fresh fresh' bytes).toList.map fun p => ⟨.MessageReceived, .payload p⟩ else []) →
        DeserializePayloadObject rt fresh fresh' bytes = some p := by
    intro he
    split_ifs at he
    · exact hmap _ he
    · exact absurd he List.not_mem_nil
  by_cases hstring : topic = SubscribeStringTopic k
  · rw [if_pos hstring] at h
    obtain ⟨strings, hstrings, h⟩ := Option.bind_eq_some_iff.mp h
    obtain ⟨q, -, rfl⟩ := Option.map_eq_some_iff.mp hstrings
    cases h
    rcases List.mem_append.mp he with he | he
    · exact hmessages he
    · -- a string event carries no payload
      obtain ⟨q, -, rfl⟩ := List.mem_map.mp he
      cases hp
  · rw [if_neg hstring] at h
    cases h
    rw [List.append_nil] at he
    exact hmessages he

/-- **What is decoded from a published object bears its identifier.** -/
theorem DeserializePayloadObject_MessageId {body : Body V} (hb : body.bytes rt = some bytes) {p : Payload V}
    (hp : DeserializePayloadObject rt fresh fresh' bytes = some p) : p.MessageId = body.MessageId := by
  cases body with
  | payload q => exact (DeserializePayloadObject_fields hb hp).2.1
  | string q =>
    rw [DeserializePayloadObject, parse_jsonBytes hb, Option.bind_some, StringPayload.read_toJson_payload, Option.bind_eq_bind, Option.bind_some,
      Option.bind_eq_bind, Option.bind_some] at hp
    exact (retPayload_fields hp).2.1

/-! ## Own events -/

variable (rt)

/-- The event a message is meant for; a request of an undeclared type is meant for none. -/
def SendCall.event : SendCall V → Option EventName
  | request c => (c.request rt).bind fun q => (RequestType.ofInt32? q.requestType).map RequestType.event
  | responseName _ _ | response _ => some .ResponseReceived
  | messageName _ _ | message _ => some .MessageReceived
  | string _ _ => some .StringReceived

/-- The receiver can make an object of the bytes. -/
def Body.Decodable (fresh fresh' : Guid) (bytes : List UInt8) : Body V → Prop
  | payload _ => (DeserializePayloadObject rt fresh fresh' bytes).isSome
  | string _ => True

/-- The message raises one event, its own. -/
def RaisesOwnEvent (own : Option EventName) (raised : Option (List (Event V))) : Prop :=
  ∃ e, raised = some [e] ∧ own = some e.name

/-- The messages that nothing about the key or the request type leads astray. -/
def SendCall.Unmistakable (k : Str) : SendCall V → Prop
  | request c => ∀ q, c.request rt = some q → (RequestType.ofInt32? q.requestType).isSome
  | responseName _ _ | response _ => True
  | messageName _ _ | message _ | string _ _ => ¬ marked k

variable {rt}

theorem readString_bytes {p : StringPayload} (h : p.bytes rt.crlf = some bytes) :
    readString fresh bytes = some (some p) := by
  rw [readString, parse_jsonBytes h, Option.bind_some, StringPayload.read_toJson]

theorem raisesOwnEvent_decoded {own name : EventName} (hd : (DeserializePayloadObject rt fresh fresh' bytes).isSome) :
    RaisesOwnEvent (some own) (some ((DeserializePayloadObject rt fresh fresh' bytes).toList.map fun p =>
      ⟨name, .payload p⟩)) ↔ own = name := by
  obtain ⟨p, hp⟩ := Option.isSome_iff_exists.mp hd
  rw [hp, Option.toList_some, List.map_singleton]
  constructor
  · rintro ⟨e, he, hown⟩
    cases he
    exact Option.some_inj.mp hown
  · rintro rfl
    exact ⟨_, rfl, rfl⟩

theorem not_raisesOwnEvent_response {own : EventName} (hown : own ≠ .ResponseReceived) (ps : List (Payload V)) :
    ¬ RaisesOwnEvent (some own) (some (ps.map fun p => (⟨.ResponseReceived, .payload p⟩ : Event V))) := by
  rintro ⟨e, he, hname⟩
  have hmem : e ∈ ps.map fun p => (⟨.ResponseReceived, .payload p⟩ : Event V) := by
    rw [Option.some_inj.mp he]
    exact List.mem_singleton.mpr rfl
  obtain ⟨p, -, rfl⟩ := List.mem_map.mp hmem
  exact hown (Option.some_inj.mp hname)

theorem raisesOwnEvent_message_iff (hd : (DeserializePayloadObject rt fresh fresh' bytes).isSome) :
    RaisesOwnEvent (some .MessageReceived)
      (MqttClientService_MessageReceived rt k fresh fresh' (SubscribeMessageTopic k) bytes) ↔ ¬ marked k := by
  by_cases hm : marked k
  · have hm' : marked (SubscribeMessageTopic k) := (marked_base_iff (by simp [baseTopics])).mpr hm
    rw [MessageReceived_marked (SubscribeMessageTopic_ne_request k) hm']
    exact iff_of_false (not_raisesOwnEvent_response (by decide) _) (not_not.mpr hm)
  · rw [MessageReceived_message hm]
    exact iff_of_true ((raisesOwnEvent_decoded hd).mpr rfl) hm

theorem raisesOwnEvent_string_iff {p : StringPayload} (h : p.bytes rt.crlf = some bytes) :
    RaisesOwnEvent (some .StringReceived)
      (MqttClientService_MessageReceived rt k fresh fresh' (SubscribeStringTopic k) bytes) ↔ ¬ marked k := by
  by_cases hm : marked k
  · have hm' : marked (SubscribeStringTopic k) := (marked_base_iff (by simp [baseTopics])).mpr hm
    rw [MessageReceived_marked (SubscribeStringTopic_ne_request k) hm']
    exact iff_of_false (not_raisesOwnEvent_response (by decide) _) (not_not.mpr hm)
  · rw [MessageReceived_string hm, readString_bytes h]
    exact iff_of_true ⟨_, rfl, rfl⟩ hm

theorem raisesOwnEvent_request_iff {q : Request V} {guid : Guid} (h : (q.payload rt guid).bytes rt = some bytes)
    (hd : (DeserializePayloadObject rt fresh fresh' bytes).isSome) :
    RaisesOwnEvent ((RequestType.ofInt32? q.requestType).map RequestType.event)
      (MqttClientService_MessageReceived rt k fresh fresh' (SubscribeRequestTopic k) bytes) ↔
      (RequestType.ofInt32? q.requestType).isSome := by
  obtain ⟨p, hp⟩ := Option.isSome_iff_exists.mp hd
  have hr : p.RequestType = q.requestType := (DeserializePayloadObject_fields h hp).2.2
  rw [MessageReceived_request, hp, Option.toList_some, List.flatMap_singleton, requestEvents, hr]
  cases RequestType.ofInt32? q.requestType with
  | none => exact iff_of_false (fun ⟨_, _, hown⟩ => nomatch hown) Bool.false_ne_true
  | some r => exact iff_of_true ⟨_, rfl, rfl⟩ rfl

/-- **The sent messages that raise their own event and no other.** -/
theorem raises_own_event_iff {k : Str} {g fresh fresh' : Guid} (c : SendCall V) {topic : Str} {body : Body V}
    (hc : c.publication rt k g = some (topic, body)) {bytes : List UInt8} (hb : body.bytes rt = some bytes)
    (hd : body.Decodable rt fresh fresh' bytes) :
    RaisesOwnEvent (c.event rt) (MqttClientService_MessageReceived rt k fresh fresh' topic bytes) ↔
      c.Unmistakable rt k := by
  cases c with
  | request c =>
    obtain ⟨q, hq, heq⟩ := Option.map_eq_some_iff.mp hc
    cases heq
    rw [SendCall.event, hq, Option.bind_some, raisesOwnEvent_request_iff hb hd]
    exact ⟨fun h _ hq' => by cases hq.symm.trans hq'; exact h, fun h => h q hq⟩
  | responseName payload x =>
    cases payload with
    | inl v =>
      rw [SendCall.publication] at hc
      split_ifs at hc
      cases hc
      rw [MessageReceived_response]
      exact iff_of_true ((raisesOwnEvent_decoded hd).mpr rfl) trivial
    | inr p =>
      rw [SendCall.publication] at hc
      split_ifs at hc
      cases hc
      rw [MessageReceived_response]
      exact iff_of_true ((raisesOwnEvent_decoded hd).mpr rfl) trivial
  | response payload =>
    obtain ⟨p, hp, heq⟩ := Option.map_eq_some_iff.mp hc
    cases heq
    rw [MessageReceived_response]
    exact iff_of_true ((raisesOwnEvent_decoded hd).mpr rfl) trivial
  | messageName v x =>
    rw [SendCall.publication] at hc
    split_ifs at hc
    cases hc
    exact raisesOwnEvent_message_iff hd
  | message v =>
    obtain ⟨v, hv, heq⟩ := Option.map_eq_some_iff.mp hc
    cases heq
    exact raisesOwnEvent_message_iff hd
  | string s x =>
    rw [SendCall.publication] at hc
    split_ifs at hc
    cases hc
    exact raisesOwnEvent_string_iff hb

end Receive

/-! ## A key with the marker -/

/-- A string sent under the key `shop__Respnse`. -/
def markedKeyCall : SendCall Str := .string (some "hello".toList) (some "news".toList)

theorem exists_bytes_string (p : StringPayload) : ∃ bytes, p.bytes false = some bytes :=
  exists_jsonBytes.mpr (by rw [StringPayload.depth_toJson]; decide)

/-- Under the key `shop__Respnse` a sent string does not raise `StringReceived`. -/
theorem marked_key_misroutes : ∃ topic body bytes,
    markedKeyCall.publication Runtime.strings "shop__Respnse".toList (Guid.fill 1) = some (topic, body) ∧
      body.bytes Runtime.strings = some bytes ∧ body.Decodable Runtime.strings (Guid.fill 2) (Guid.fill 3) bytes ∧
      ¬ RaisesOwnEvent (markedKeyCall.event Runtime.strings)
        (MqttClientService_MessageReceived Runtime.strings "shop__Respnse".toList (Guid.fill 2) (Guid.fill 3)
          topic bytes) := by
  obtain ⟨bytes, hb⟩ := exists_bytes_string ⟨some "news".toList, some "hello".toList, Guid.fill 1⟩
  refine ⟨_, _, bytes, rfl, hb, trivial, fun h => ?_⟩
  exact absurd (by decide) ((raisesOwnEvent_string_iff hb).mp h)

theorem raises_own_event_iff_markedKey : ∃ topic body bytes,
    markedKeyCall.publication Runtime.strings "shop__Respnse".toList (Guid.fill 1) = some (topic, body) ∧
      body.bytes Runtime.strings = some bytes ∧
      (RaisesOwnEvent (markedKeyCall.event Runtime.strings)
        (MqttClientService_MessageReceived Runtime.strings "shop__Respnse".toList (Guid.fill 2) (Guid.fill 3)
          topic bytes) ↔ markedKeyCall.Unmistakable Runtime.strings "shop__Respnse".toList) := by
  obtain ⟨bytes, hb⟩ := exists_bytes_string ⟨some "news".toList, some "hello".toList, Guid.fill 1⟩
  exact ⟨_, _, bytes, rfl, hb, raises_own_event_iff markedKeyCall rfl hb trivial⟩

end MqttServices
