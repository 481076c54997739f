import MqttServices.Services.Receive

/-!
# A request and its response

* `deliver`: what a published message raises at a session with given filters.
* `Runtime.Carries`: a value that travels as an object, an array or a number.
* `request_arrives`, `response_arrives`: the two halves of an exchange.
* **`request_response`**: the exchange, from the call to the event of its response.
-/

namespace MqttServices

variable {V : Type} (rt : Runtime V)

/-- A message at a session: handled once where one of the filters covers its topic. -/
def deliver (k : Str) (filters : List Str) (fresh fresh' : Guid) (topic : Str) (bytes : List UInt8) :
    Option (List (Event V)) :=
  if filters.any fun f => Topic.covers f topic then MqttClientService_MessageReceived rt k fresh fresh' topic bytes
  else some []

/-- JSON of an object, an array or a number. -/
def IsObjectArrayOrNumber : Json → Prop
  | .obj _ | .arr _ | .num _ => True
  | _ => False

/-- A value written, as the value of a payload, as an object, an array or a number, whose type is found
again by its name and which is read back with names compared without case. -/
structure Runtime.Carries (v : V) : Prop where
  findType : rt.FindType (rt.AssemblyQualifiedName (rt.GetType v)) = some (rt.GetType v)
  readsBack : ∃ j, rt.Serialize v = some j ∧ IsObjectArrayOrNumber j ∧ j.depth < Json.maxDepth ∧
    rt.Deserialize true (rt.GetType v) j = some (some v)

variable {rt}

theorem elementValue_of_kind {j : Json} (h : IsObjectArrayOrNumber j) : elementValue j = some j := by
  cases j <;> first | rfl | exact h.elim

theorem roundTrips_of_carries {v : Option V} (hv : ∀ w ∈ v, rt.Carries w) (x : Option Str) (g : Guid) (r : Int32) :
    (Payload.new rt x v g r).RoundTrips rt := by
  cases v with
  | none => exact roundTrips_null x g r
  | some v =>
    obtain ⟨hf, j, hj, hkind, hd, hback⟩ := hv v rfl
    exact (roundTrips_some_iff hf hj x g r).mpr ⟨hd, j, elementValue_of_kind hkind, hback⟩

theorem deliver_of_mem {k : Str} {filters : List Str} {topic : Str} (ht : Topic.Literal topic) (hm : topic ∈ filters)
    (fresh fresh' : Guid) (bytes : List UInt8) :
    deliver rt k filters fresh fresh' topic bytes =
      MqttClientService_MessageReceived rt k fresh fresh' topic bytes := by
  have hcovered : (filters.any fun f => Topic.covers f topic) = true :=
    List.any_eq_true.mpr ⟨topic, hm, (Topic.covers_iff_eq ht topic).mpr rfl⟩
  rw [deliver, if_pos hcovered]

/-! ## The application in between -/

theorem SetValue_new (x : Option Str) (v w : Option V) (g : Guid) (r : Int32) :
    (Payload.new rt x v g r).SetValue rt w = Payload.new rt x w g r := rfl

theorem foldl_SetValue (x : Option Str) (v : Option V) (g : Guid) (r : Int32) (vs : List (Option V)) :
    vs.foldl (Payload.SetValue rt) (Payload.new rt x v g r) = Payload.new rt x (vs.getLastD v) g r := by
  induction vs generalizing v with
  | nil => rfl
  | cons w vs ih =>
    rw [List.foldl_cons, SetValue_new, ih w, List.getLastD_cons]

theorem carries_getLastD {v : Option V} (hv : ∀ w ∈ v, rt.Carries w) {vs : List (Option V)}
    (hvs : ∀ u ∈ vs, ∀ w ∈ u, rt.Carries w) : ∀ w ∈ vs.getLastD v, rt.Carries w := by
  induction vs generalizing v with
  | nil => exact hv
  | cons u us ih =>
    rw [List.getLastD_cons]
    exact ih (hvs u List.mem_cons_self) fun u' hu' => hvs u' (List.mem_cons_of_mem u hu')

/-! ## The two halves -/

/-- **A request arrives**: it raises the event of its type, with the payload it was sent with. -/
theorem request_arrives {k : Str} (hk : Topic.Literal k) {q : Request V} {r : RequestType}
    (hr : RequestType.ofInt32? q.requestType = some r) {guid : Guid}
    (hp : (q.payload rt guid).RoundTrips rt) {bytes : List UInt8} (hb : (q.payload rt guid).bytes rt = some bytes)
    {filters : List Str} (hf : baseTopics k ⊆ filters) (fresh fresh' : Guid) :
    deliver rt k filters fresh fresh' (SubscribeRequestTopic k) bytes =
      some [⟨r.event, .payload (q.payload rt guid)⟩] := by
  have hmem : SubscribeRequestTopic k ∈ baseTopics k := List.mem_cons_self
  obtain ⟨bytes', hb', hdecode⟩ := hp
  cases hb.symm.trans hb'
  have hr' : RequestType.ofInt32? (q.payload rt guid).RequestType = some r := hr
  rw [deliver_of_mem (literal_base hk _ hmem) (hf hmem), MessageReceived_request, hdecode, Option.toList_some,
    List.flatMap_singleton, requestEvents, hr', Option.map_some, Option.toList_some]

/-- **A response arrives**: it raises `ResponseReceived`, with the payload it was sent with. -/
theorem response_arrives {k : Str} (hk : Topic.Literal k) {p : Payload V} (hx : Topic.Literal (orEmpty p.ExchangeName))
    (hp : p.RoundTrips rt) {bytes : List UInt8} (hb : p.bytes rt = some bytes) {filters : List Str}
    (hf : GetResponseTopic k p.ExchangeName ∈ filters) (fresh fresh' : Guid) :
    deliver rt k filters fresh fresh' (GetResponseTopic k p.ExchangeName) bytes =
      some [⟨.ResponseReceived, .payload p⟩] := by
  obtain ⟨bytes', hb', hdecode⟩ := hp
  cases hb.symm.trans hb'
  rw [deliver_of_mem (literal_response hk hx) hf, MessageReceived_response, hdecode, Option.toList_some,
    List.map_singleton]

theorem SendMessageRequest_connected {k : Str} {c : RequestCall V} {q : Request V} (hq : c.request rt = some q)
    {s : Schedule} (hg : EnsureConnectedAsync s.gate DefaultConnectWaitTimeout = true) (hs : s.Connected) {guid : Guid}
    {bytes : List UInt8} (hb : (q.payload rt guid).bytes rt = some bytes) :
    SendMessageRequest rt k c guid s =
      ([.subscribed (GetResponseTopic k q.exchangeName),
        .published (SubscribeRequestTopic k) (.payload (q.payload rt guid)) bytes], .returned guid) := by
  have hb' : (Body.payload (q.payload rt guid)).bytes rt = some bytes := hb
  simp only [SendMessageRequest, hq, hg, if_true, Subscribe_connected hs, PublishMessage_connected hs _ hb',
    List.singleton_append]

theorem SendMessageResponse_connected {k : Str} {p : Payload V} {s : Schedule}
    (hg : EnsureConnectedAsync s.gate DefaultConnectWaitTimeout = true) (hs : s.Connected) {bytes : List UInt8}
    (hb : p.bytes rt = some bytes) (guid : Guid) :
    SendCall.run rt k guid s (.response (some p)) =
      ([.published (GetResponseTopic k p.ExchangeName) (.payload p) bytes], .completed) := by
  have hb' : (Body.payload p).bytes rt = some bytes := hb
  simp only [SendCall.run, SendCall.publication, Option.map_some, hg, if_true, PublishMessage_connected hs _ hb']

/-! ## The whole exchange -/

/-- The payload carries an identifier, a name, a request type and a value. -/
def Payload.Is (p : Payload V) (g : Guid) (x : Option Str) (r : Int32) (v : Option V) : Prop :=
  p.MessageId = g ∧ p.ExchangeName = x ∧ p.RequestType = r ∧ p.Value = v

variable (rt) in
/-- Whatever is set as the value of `p` and sent as a response, the response is published on a topic the
effects `before` subscribed, and a session with that topic raises `ResponseReceived` once, with the
identifier, name and type of `p` and the value last set. -/
def ResponsesReturn (k : Str) (before : List (Effect V)) (p : Payload V) : Prop :=
  ∀ vs : List (Option V), (∀ u ∈ vs, ∀ w ∈ u, rt.Carries w) → ∀ s : Schedule,
    EnsureConnectedAsync s.gate DefaultConnectWaitTimeout = true → s.Connected → ∀ guid,
      ∃ topic p' bytes, SendCall.run rt k guid s (.response (some (vs.foldl (Payload.SetValue rt) p))) =
          ([.published topic (.payload p') bytes], .completed) ∧
        .subscribed topic ∈ before ∧ p'.Is p.MessageId p.ExchangeName p.RequestType (vs.getLastD p.Value) ∧
        ∀ filters, topic ∈ filters → ∀ fresh fresh',
          deliver rt k filters fresh fresh' topic bytes = some [⟨.ResponseReceived, .payload p'⟩]

theorem responsesReturn_request {k : Str} (hk : Topic.Literal k) {q : Request V}
    (hx : Topic.Literal (orEmpty q.exchangeName)) (hv : ∀ w ∈ q.value, rt.Carries w) (guid : Guid) :
    ResponsesReturn rt k [.subscribed (GetResponseTopic k q.exchangeName)] (q.payload rt guid) := by
  intro vs hvs s hg hs guid'
  have hset : vs.foldl (Payload.SetValue rt) (q.payload rt guid) =
      Payload.new rt q.exchangeName (vs.getLastD q.value) guid q.requestType := foldl_SetValue _ _ _ _ _
  have hround := roundTrips_of_carries (carries_getLastD hv hvs) q.exchangeName guid q.requestType
  obtain ⟨bytes, hb, -⟩ := id hround
  rw [hset, SendMessageResponse_connected hg hs hb]
  refine ⟨_, _, bytes, rfl, List.mem_singleton.mpr rfl, ⟨rfl, rfl, rfl, rfl⟩, fun filters hf fresh fresh' => ?_⟩
  exact response_arrives hk hx hround hb hf fresh fresh'

/-- **A request and its responses.** Every overload, declared type, and value of these kinds. -/
theorem request_response {k : Str} (hk : Topic.Literal k) {c : RequestCall V} {q : Request V}
    (hq : c.request rt = some q) (hx : Topic.Literal (orEmpty q.exchangeName)) {r : RequestType}
    (hr : RequestType.ofInt32? q.requestType = some r) (hv : ∀ w ∈ q.value, rt.Carries w) {s : Schedule}
    (hg : EnsureConnectedAsync s.gate DefaultConnectWaitTimeout = true) (hs : s.Connected) (guid : Guid) :
    ∃ before p bytes,
      SendMessageRequest rt k c guid s =
          (before ++ [.published (SubscribeRequestTopic k) (.payload p) bytes], .returned guid) ∧
        p.Is guid q.exchangeName q.requestType q.value ∧
        (∀ filters, baseTopics k ⊆ filters → ∀ fresh fresh',
          deliver rt k filters fresh fresh' (SubscribeRequestTopic k) bytes = some [⟨r.event, .payload p⟩]) ∧
        ResponsesReturn rt k before p := by
  have hround : (q.payload rt guid).RoundTrips rt := roundTrips_of_carries hv _ _ _
  obtain ⟨bytes, hb, -⟩ := id hround
  refine ⟨_, q.payload rt guid, bytes, SendMessageRequest_connected hq hg hs hb, ⟨rfl, rfl, rfl, rfl⟩, ?_,
    responsesReturn_request hk hx hv guid⟩
  intro filters hf fresh fresh'
  exact request_arrives hk hr hround hb hf fresh fresh'

/-! ## Numbers -/

/-- The platform on values of type `int`. -/
def Runtime.numbers : Runtime Int32 where
  Ty := Unit
  GetType _ := ()
  Name _ := "Int32".toList
  AssemblyQualifiedName _ := "System.Int32, System.Private.CoreLib".toList
  FindType name := if name = "System.Int32, System.Private.CoreLib".toList then some () else none
  Serialize i := some (Json.ofInt32 i)
  Deserialize _ _ j := (Json.readInt32 j).map some
  crlf := false

theorem Runtime.numbers_carries (i : Int32) : Runtime.numbers.Carries i where
  findType := rfl
  readsBack := ⟨Json.ofInt32 i, rfl, trivial, Nat.succ_pos _, congrArg (Option.map some) (Json.readInt32_ofInt32 i)⟩

/-- A connection that lasts. -/
def Schedule.lasting : Schedule where
  gate := ⟨fun _ => true, fun n => pollDelay * n⟩
  statusAtSubscribe := some true
  SubscribeAsync := some true
  statusAtPublish := some true
  PublishAsync := true

theorem request_response_number : ∃ before p bytes,
    SendMessageRequest Runtime.numbers "app".toList (.payloadType (some 7) RequestType.GetOne.toInt32) (Guid.fill 1)
          Schedule.lasting =
        (before ++ [.published (SubscribeRequestTopic "app".toList) (.payload p) bytes], .returned (Guid.fill 1)) ∧
      p.Is (Guid.fill 1) (some "Int32".toList) RequestType.GetOne.toInt32 (some 7) ∧
      (∀ filters, baseTopics "app".toList ⊆ filters → ∀ fresh fresh',
        deliver Runtime.numbers "app".toList filters fresh fresh' (SubscribeRequestTopic "app".toList) bytes =
          some [⟨.RequestForGetOneReceived, .payload p⟩]) ∧
      ResponsesReturn Runtime.numbers "app".toList before p :=
  have hk : Topic.Literal "app".toList := by decide
  have hq : RequestCall.request Runtime.numbers (.payloadType (some 7) RequestType.GetOne.toInt32) =
      some ⟨some "Int32".toList, some 7, RequestType.GetOne.toInt32⟩ := rfl
  request_response hk hq (by decide) (RequestType.ofInt32?_toInt32 .GetOne)
    (fun v _ => Runtime.numbers_carries v) rfl ⟨rfl, rfl, rfl, rfl⟩ _

end MqttServices
