import MqttServices.Common.Exceptions
import MqttServices.Discovery.Client
import MqttServices.Lib.Run

/-!
# The discovery server

* `Exchange`: what one turn of the loop is answered; every answer of the socket and of the token is one.
* `answer`, `step`: what a datagram leads to, and where a turn leaves the server.
* **`keeps_answering_iff`**: the runs in which it listens until it is canceled and answers each request once.
-/

namespace MqttServices.DiscoveryServer

/-- `UdpReceiveResult`. -/
structure Datagram (E : Type) where
  Buffer : List UInt8
  RemoteEndPoint : E
  deriving DecidableEq

/-- What one turn of the loop is answered. -/
structure Exchange (E : Type) where
  IsCancellationRequested : Bool := false
  ReceiveAsync : Except Exception (Datagram E)
  GetHostName : Except Exception Str
  SendAsync : Except Exception Unit := .ok ()

/-- `StartServer`: whether it is in its loop, whether it was canceled, and the datagrams received, each with the bytes it
set out to send and to whom. -/
structure Server (E : Type) where
  listening : Bool
  canceled : Bool := false
  received : List (Datagram E × List (List UInt8 × E)) := []

variable {E : Type} (brokerPort : Int32)

/-- `"DISCOVER_MQTT_CONFIG"`. -/
def request : Str := "DISCOVER_MQTT_CONFIG".toList

/-- The datagram's text is the request. -/
def Asks (datagram : Datagram E) : Prop := Utf8.decode datagram.Buffer = request

instance (datagram : Datagram E) : Decidable (Asks datagram) :=
  inferInstanceAs (Decidable (Utf8.decode datagram.Buffer = request))

/-- What a datagram leads to: the sends set out for, and how the turn ends. -/
def answer (x : Exchange E) (result : Datagram E) : List (List UInt8 × E) × Except Exception Unit :=
  if Asks result then
    match x.GetHostName with
    | .error e => ([], .error e)
    | .ok hostName =>
      match discoveryReply hostName brokerPort with
      | none => ([], .error ⟨.other "JsonException".toList, []⟩)
      | some responseBytes => ([(responseBytes, result.RemoteEndPoint)], x.SendAsync)
  else ([], .ok ())

/-- `StartServer` up to its loop, where `bind` is the outcome of the socket's creation. -/
def start (bind : Except Exception Unit) : Server E :=
  match bind with
  | .ok () => { listening := true }
  | .error _ => { listening := false }

/-- One turn of the loop; `none` where `StartServer` has returned. -/
def step (s : Server E) (x : Exchange E) : Option (Server E) :=
  if !s.listening then none
  else if x.IsCancellationRequested then some { s with listening := false, canceled := true }
  else
    match x.ReceiveAsync with
    | .error e =>
      if e.type = Exception.OperationCanceledException.type then some { s with listening := false, canceled := true }
      -- the handlers are outside the loop
      else some { s with listening := false }
    | .ok result =>
      some { s with
        listening := (answer brokerPort x result).2.isOk
        received := s.received ++ [(result, (answer brokerPort x result).1)] }

/-! ## A turn -/

/-- A request was answered once, to its sender; any other datagram was not. -/
def Answered (t : Datagram E × List (List UInt8 × E)) : Prop :=
  if Asks t.1 then ∃ bytes, t.2 = [(bytes, t.1.RemoteEndPoint)] else t.2 = []

/-- The server listens until it is canceled, and every datagram was answered as it should be. -/
structure KeepsAnswering (s : Server E) : Prop where
  listens : s.listening = true ↔ s.canceled = false
  answers : ∀ t ∈ s.received, Answered t

/-- A turn that is canceled, or receives a datagram and, where that is a request, is given a host name and sends. -/
def Undisturbed (x : Exchange E) : Prop :=
  x.IsCancellationRequested = true ∨
    (∃ e, x.ReceiveAsync = .error e ∧ e.type = Exception.OperationCanceledException.type) ∨
    ∃ datagram, x.ReceiveAsync = .ok datagram ∧
      (Asks datagram → (∃ hostName, x.GetHostName = .ok hostName) ∧ x.SendAsync = .ok ())

section Turns

variable {brokerPort} {s s' : Server E} {x : Exchange E}

theorem answer_of_not_asks {datagram : Datagram E} (h : ¬ Asks datagram) : answer brokerPort x datagram = ([], .ok ()) :=
  if_neg h

theorem answer_of_asks {datagram : Datagram E} (h : Asks datagram) {hostName : Str}
    (hname : x.GetHostName = .ok hostName) :
    ∃ bytes, answer brokerPort x datagram = ([(bytes, datagram.RemoteEndPoint)], x.SendAsync) := by
  obtain ⟨bytes, hbytes⟩ := exists_discoveryReply hostName brokerPort
  exact ⟨bytes, by simp only [answer, if_pos h, hname, hbytes]⟩

theorem answer_of_no_name {datagram : Datagram E} (h : Asks datagram) {e : Exception} (hname : x.GetHostName = .error e) :
    answer brokerPort x datagram = ([], .error e) := by
  simp only [answer, if_pos h, hname]

theorem isOk_iff {u : Except Exception Unit} : u.isOk = true ↔ u = .ok () := by
  cases u with
  | ok v => exact iff_of_true rfl rfl
  | error e => exact iff_of_false nofun nofun

/-- **What a datagram leads to** is right, and the loop goes on, just where nothing disturbs it. -/
theorem answer_iff (datagram : Datagram E) :
    (Asks datagram → (∃ hostName, x.GetHostName = .ok hostName) ∧ x.SendAsync = .ok ()) ↔
      Answered (datagram, (answer brokerPort x datagram).1) ∧ (answer brokerPort x datagram).2.isOk = true := by
  by_cases hasks : Asks datagram
  · rw [Answered, if_pos hasks]
    cases hname : x.GetHostName with
    | error e =>
      rw [answer_of_no_name hasks hname]
      refine iff_of_false (fun h => ?_) (fun h => nomatch h.2)
      obtain ⟨⟨hostName, hhost⟩, -⟩ := h hasks
      cases hhost
    | ok hostName =>
      obtain ⟨bytes, hanswer⟩ := @answer_of_asks _ brokerPort _ _ hasks _ hname
      rw [hanswer, isOk_iff]
      exact ⟨fun h => ⟨⟨bytes, rfl⟩, (h hasks).2⟩, fun h _ => ⟨⟨hostName, rfl⟩, h.2⟩⟩
  · rw [Answered, if_neg hasks, answer_of_not_asks hasks]
    exact iff_of_true (fun h => absurd h hasks) ⟨rfl, rfl⟩

/-- **A turn keeps the server answering just where nothing disturbs it.** -/
theorem undisturbed_iff (hs : KeepsAnswering s) (hstep : step brokerPort s x = some s') :
    Undisturbed x ↔ KeepsAnswering s' := by
  rw [step] at hstep
  split_ifs at hstep with hended hcancel
  · cases hstep
    exact iff_of_true (Or.inl hcancel) ⟨iff_of_false nofun nofun, hs.answers⟩
  · have hcanceled : s.canceled = false := hs.listens.mp (by simpa using hended)
    rw [Undisturbed, or_iff_right hcancel]
    cases hreceive : x.ReceiveAsync with
    | error e =>
      simp only [hreceive] at hstep
      split_ifs at hstep with htype
      · cases hstep
        exact iff_of_true (Or.inl ⟨e, rfl, htype⟩) ⟨iff_of_false nofun nofun, hs.answers⟩
      · cases hstep
        refine iff_of_false ?_ fun h => absurd (h.listens.mpr hcanceled) (by simp)
        rintro (⟨e', he', htype'⟩ | ⟨datagram, hdatagram, -⟩)
        · cases he'
          exact htype htype'
        · cases hdatagram
    | ok datagram =>
      simp only [hreceive] at hstep
      cases hstep
      have hleft : ((∃ e, (Except.ok datagram : Except Exception (Datagram E)) = .error e ∧
            e.type = Exception.OperationCanceledException.type) ∨
          ∃ datagram', (Except.ok datagram : Except Exception (Datagram E)) = .ok datagram' ∧
            (Asks datagram' → (∃ hostName, x.GetHostName = .ok hostName) ∧ x.SendAsync = .ok ())) ↔
          (Asks datagram → (∃ hostName, x.GetHostName = .ok hostName) ∧ x.SendAsync = .ok ()) := by
        simp
      rw [hleft, @answer_iff _ brokerPort]
      constructor
      · rintro ⟨hanswered, hok⟩
        refine ⟨iff_of_true hok hcanceled, ?_⟩
        rw [List.forall_mem_append, List.forall_mem_singleton]
        exact ⟨hs.answers, hanswered⟩
      · exact fun h => ⟨h.answers _ (List.mem_append_right _ (List.mem_singleton_self _)), h.listens.mpr hcanceled⟩

end Turns

/-! ## Runs -/

/-- **The runs in which the server keeps answering**, from the moment its socket is bound: every turn is canceled, or
nothing disturbs it. -/
theorem keeps_answering_iff {exchanges : List (Exchange E)} {s : Server E}
    (hrun : Run.exec (step brokerPort) (start (.ok ())) exchanges = some s) :
    Run.Always (step brokerPort) KeepsAnswering (start (.ok ())) exchanges ↔
      Run.Meets (step brokerPort) (fun _ x => Undisturbed x) (start (.ok ())) exchanges :=
  Run.always_iff_meets (fun _ _ _ hs hstep => undisturbed_iff hs hstep)
    ⟨iff_of_true rfl rfl, fun _ h => absurd h List.not_mem_nil⟩ hrun

/-- A request from the peer 1, which is answered. -/
def answeredExchange : Exchange ℕ where
  ReceiveAsync := .ok ⟨Utf8.encode request, 1⟩
  GetHostName := .ok "broker".toList

/-- A receive that is canceled. -/
def canceledExchange : Exchange ℕ where
  ReceiveAsync := .error Exception.OperationCanceledException
  GetHostName := .ok "broker".toList

/-- A receive that fails for the datagram of one peer. -/
def resetExchange : Exchange ℕ where
  ReceiveAsync := .error ⟨.SocketException (.other 10054), []⟩
  GetHostName := .ok "broker".toList

theorem keeps_answering_iff_answered : ∃ (s : Server ℕ) (bytes : List UInt8),
    Run.exec (step 8883) (start (.ok ())) [answeredExchange, canceledExchange] = some s ∧ s.canceled = true ∧
      s.received = [(⟨Utf8.encode request, 1⟩, [(bytes, 1)])] ∧
      Run.Always (step 8883) KeepsAnswering (start (.ok ())) [answeredExchange, canceledExchange] := by
  have hasks : Asks (⟨Utf8.encode request, 1⟩ : Datagram ℕ) := Utf8.decode_encode (by decide)
  obtain ⟨bytes, hanswer⟩ := @answer_of_asks _ 8883 answeredExchange _ hasks _ rfl
  have hstep : step 8883 (start (.ok ())) answeredExchange =
      some { listening := true, received := [(⟨Utf8.encode request, 1⟩, [(bytes, 1)])] } := by
    simp only [step, start, answeredExchange] at hanswer ⊢
    rw [hanswer]
    rfl
  have hexec := Run.exec_cons_eq_some.mpr ⟨_, hstep, (rfl : Run.exec (step 8883) _ [canceledExchange] = some _)⟩
  refine ⟨_, bytes, hexec, rfl, rfl, (keeps_answering_iff 8883 hexec).mpr ⟨?_, fun _ _ => ⟨?_, fun _ _ => trivial⟩⟩⟩
  · exact Or.inr (Or.inr ⟨_, rfl, fun _ => ⟨⟨_, rfl⟩, rfl⟩⟩)
  · exact Or.inr (Or.inl ⟨_, rfl, rfl⟩)

/-- One receive that fails ends discovery for every peer. -/
theorem reset_ends_discovery : ∃ s : Server ℕ,
    Run.exec (step 8883) (start (.ok ())) [resetExchange] = some s ∧ ¬ KeepsAnswering s := by
  refine ⟨_, rfl, fun h => ?_⟩
  exact absurd (h.listens.mpr rfl) (by simp)

end MqttServices.DiscoveryServer
