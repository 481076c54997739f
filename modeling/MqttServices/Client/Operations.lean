import MqttServices.Client.Target
import MqttServices.Common.Exceptions
import MqttServices.Common.Text

/-!
# The operations of the client service and their exceptions

* `IMqttClient`: what the members of the MQTT client do while an operation runs.
* `Connect`, `ReConnect`, `Disconnect`, `Subscribe` and the two `PublishMessage`: each check and each `try`
  block where the source has it.
* `ClientCall`: a call of one of these, and **`ClientCall.completes_iff`**: the calls that throw nothing.
* `Connect_threw_iff`: the calls that throw in the machine are those that throw here.
-/

namespace MqttServices

/-- What the members of `IMqttClient` do while an operation runs. `IsConnected` is what its check reads; the
options, the topic filter and the message are built along with the call that takes them. -/
structure IMqttClient where
  IsConnected : Bool
  /-- whether the result code is `Success` -/
  ConnectAsync : SslProtocols → Except Exception Bool
  DisconnectAsync : Except Exception Unit
  SubscribeAsync : Option Str → Except Exception Unit
  PublishAsync : Option Str → List UInt8 → Except Exception Unit

/-- What an operation logs about a failure. -/
inductive LogEntry where
  | connectionFailed
  | tlsHandshakeFailed (authenticationException : Exception)
  | errorConnecting (ex : Exception)
  | errorDisconnecting (ex : Exception)
  | errorPublishMessage (ex : Exception)
  | notConnected (topic : Option Str)
  deriving DecidableEq

namespace Operation

/-- A member of `mqttClient` is used. -/
def deref (mqttClient : Option IMqttClient) : Except Exception IMqttClient :=
  match mqttClient with
  | none => .error { type := .NullReferenceException }
  | some client => .ok client

def Disconnect (mqttClient : Option IMqttClient) : Except Exception (List LogEntry) :=
  caught (do
    let client ← deref mqttClient
    client.DisconnectAsync
    return [])
    fun ex => [.errorDisconnecting ex]

/-- `Connect`; the check and the TLS version stand before the `try` block. -/
def Connect (mqttClient : Option IMqttClient) (TlsVersion : Option Str) (IsConnecting : Bool) :
    Except Exception (List LogEntry) := do
  let client ← deref mqttClient
  if !client.IsConnected && !IsConnecting then
    let sslVersion := (TlsVersions.Parse TlsVersion).1
    caught (do
      let success ← client.ConnectAsync sslVersion
      return if success then [] else [.connectionFailed])
      fun ex =>
        match FindAuthenticationException ex with
        | some authenticationException => [.tlsHandshakeFailed authenticationException]
        | none => [.errorConnecting ex]
  else return []

/-- `ReConnect`; `later` is the client after the await of `Disconnect`. -/
def ReConnect (mqttClient : Option IMqttClient) (later : IMqttClient) (TlsVersion : Option Str)
    (IsConnecting : Bool) : Except Exception (List LogEntry) := do
  let disconnected ← Disconnect mqttClient
  let connected ← Connect (mqttClient.map fun _ => later) TlsVersion IsConnecting
  return disconnected ++ connected

/-- `PublishMessage(topic, object)`: the check stands before the `try` block. `payload` is what the serializer
makes of the object. -/
def PublishObject (mqttClient : Option IMqttClient) (topic : Option Str) (payload : Except Exception (List UInt8)) :
    Except Exception (List LogEntry) := do
  let client ← deref mqttClient
  if client.IsConnected then
    caught (do
      let bytes ← payload
      client.PublishAsync topic bytes
      return [])
      fun ex => [.errorPublishMessage ex]
  else return []

/-- `PublishMessage(topic, string)`: the check stands inside the `try` block. -/
def PublishString (mqttClient : Option IMqttClient) (topic payload : Option Str) : Except Exception (List LogEntry) :=
  caught (do
    let client ← deref mqttClient
    if client.IsConnected then
      client.PublishAsync topic (Utf8.encode (orEmpty payload))
      return []
    else return [.notConnected topic])
    fun ex => [.errorPublishMessage ex]

/-- `Subscribe`, without a `try` block. -/
def Subscribe (mqttClient : Option IMqttClient) (topic : Option Str) : Except Exception (List LogEntry) := do
  let client ← deref mqttClient
  if client.IsConnected then
    client.SubscribeAsync topic
    return []
  else return []

end Operation

/-- A call of an operation, with its arguments and what it meets later on. -/
inductive ClientCall where
  | Connect (IsConnecting : Bool)
  | ReConnect (brokerHost : Option Str) (brokerPort : Int32) (later : IMqttClient) (IsConnecting : Bool)
  | Disconnect
  | Subscribe (topic : Option Str)
  | PublishObject (topic : Option Str) (payload : Except Exception (List UInt8))
  | PublishString (topic payload : Option Str)

namespace ClientCall

/-- The call, with the failures it logs. -/
def run (mqttClient : Option IMqttClient) (TlsVersion : Option Str) : ClientCall → Except Exception (List LogEntry)
  | Connect IsConnecting => Operation.Connect mqttClient TlsVersion IsConnecting
  | ReConnect _ _ later IsConnecting => Operation.ReConnect mqttClient later TlsVersion IsConnecting
  | Disconnect => Operation.Disconnect mqttClient
  | Subscribe topic => Operation.Subscribe mqttClient topic
  | PublishObject topic payload => Operation.PublishObject mqttClient topic payload
  | PublishString topic payload => Operation.PublishString mqttClient topic payload

/-- The call throws nothing. -/
def Completes (mqttClient : Option IMqttClient) (TlsVersion : Option Str) (c : ClientCall) : Prop :=
  ∃ entries, c.run mqttClient TlsVersion = .ok entries

/-- `Disconnect` and the publication of a string need nothing, the other calls an MQTT client, and `Subscribe` a
`SubscribeAsync` that does not throw. -/
def Safe (mqttClient : Option IMqttClient) : ClientCall → Prop
  | Disconnect | PublishString _ _ => True
  | Connect _ | ReConnect _ _ _ _ | PublishObject _ _ => mqttClient ≠ none
  | Subscribe topic => ∃ client, mqttClient = some client ∧
      (client.IsConnected = true → client.SubscribeAsync topic = .ok ())

end ClientCall

/-! ## Exceptions -/

namespace Operation

theorem not_ok_of_error {α : Type} {x : Except Exception α} {e : Exception} (h : x = .error e) : ¬ ∃ a, x = .ok a := by
  rintro ⟨a, ha⟩
  cases h.symm.trans ha

theorem deref_some_bind {α : Type} (client : IMqttClient) (f : IMqttClient → Except Exception α) :
    deref (some client) >>= f = f client := rfl

theorem Disconnect_ok (mqttClient : Option IMqttClient) : ∃ entries, Disconnect mqttClient = .ok entries :=
  caught_ok _ _

theorem PublishString_ok (mqttClient : Option IMqttClient) (topic payload : Option Str) :
    ∃ entries, PublishString mqttClient topic payload = .ok entries :=
  caught_ok _ _

theorem Connect_none (TlsVersion : Option Str) (IsConnecting : Bool) :
    Connect none TlsVersion IsConnecting = .error { type := .NullReferenceException } := rfl

theorem Connect_some (client : IMqttClient) (TlsVersion : Option Str) (IsConnecting : Bool) :
    ∃ entries, Connect (some client) TlsVersion IsConnecting = .ok entries := by
  rw [Connect, deref_some_bind]
  split_ifs
  · exact caught_ok _ _
  · exact ⟨[], rfl⟩

theorem ReConnect_none (later : IMqttClient) (TlsVersion : Option Str) (IsConnecting : Bool) :
    ReConnect none later TlsVersion IsConnecting = .error { type := .NullReferenceException } := rfl

theorem ReConnect_some (client later : IMqttClient) (TlsVersion : Option Str) (IsConnecting : Bool) :
    ∃ entries, ReConnect (some client) later TlsVersion IsConnecting = .ok entries := by
  obtain ⟨disconnected, hd⟩ := Disconnect_ok (some client)
  obtain ⟨connected, hc⟩ := Connect_some later TlsVersion IsConnecting
  refine ⟨disconnected ++ connected, ?_⟩
  rw [ReConnect, hd, Option.map_some, hc]
  rfl

theorem PublishObject_none (topic : Option Str) (payload : Except Exception (List UInt8)) :
    PublishObject none topic payload = .error { type := .NullReferenceException } := rfl

theorem PublishObject_some (client : IMqttClient) (topic : Option Str) (payload : Except Exception (List UInt8)) :
    ∃ entries, PublishObject (some client) topic payload = .ok entries := by
  rw [PublishObject, deref_some_bind]
  split_ifs
  · exact caught_ok _ _
  · exact ⟨[], rfl⟩

theorem Subscribe_none (topic : Option Str) :
    Subscribe none topic = .error { type := .NullReferenceException } := rfl

/-- Nothing stands between a `SubscribeAsync` that throws and the caller. -/
theorem Subscribe_some_iff (client : IMqttClient) (topic : Option Str) :
    (∃ entries, Subscribe (some client) topic = .ok entries) ↔
      (client.IsConnected = true → client.SubscribeAsync topic = .ok ()) := by
  rw [Subscribe, deref_some_bind]
  split_ifs with hc
  · cases h : client.SubscribeAsync topic with
    | ok u => exact iff_of_true ⟨[], rfl⟩ fun _ => rfl
    | error e =>
      refine iff_of_false (not_ok_of_error (e := e) ?_) fun h => by cases h hc
      rfl
  · exact iff_of_true ⟨[], rfl⟩ fun h => absurd h hc

end Operation

/-- **The calls that throw nothing.** -/
theorem ClientCall.completes_iff (mqttClient : Option IMqttClient) (TlsVersion : Option Str) (c : ClientCall) :
    c.Completes mqttClient TlsVersion ↔ c.Safe mqttClient := by
  cases mqttClient with
  | none =>
    have hthrows : ∀ {entries : Except Exception (List LogEntry)},
        entries = .error { type := .NullReferenceException } →
          ((∃ l, entries = .ok l) ↔ (none : Option IMqttClient) ≠ none) :=
      fun h => iff_of_false (Operation.not_ok_of_error h) fun hne => hne rfl
    cases c with
    | Connect IsConnecting => exact hthrows (Operation.Connect_none TlsVersion IsConnecting)
    | ReConnect host port later IsConnecting => exact hthrows (Operation.ReConnect_none later TlsVersion IsConnecting)
    | Disconnect => exact iff_of_true (Operation.Disconnect_ok none) trivial
    | Subscribe topic => exact (hthrows (Operation.Subscribe_none topic)).trans (by simp [Safe])
    | PublishObject topic payload => exact hthrows (Operation.PublishObject_none topic payload)
    | PublishString topic payload => exact iff_of_true (Operation.PublishString_ok none topic payload) trivial
  | some client =>
    have hsome : some client ≠ none := Option.some_ne_none client
    cases c with
    | Connect IsConnecting => exact iff_of_true (Operation.Connect_some client TlsVersion IsConnecting) hsome
    | ReConnect host port later IsConnecting =>
      exact iff_of_true (Operation.ReConnect_some client later TlsVersion IsConnecting) hsome
    | Disconnect => exact iff_of_true (Operation.Disconnect_ok _) trivial
    | Subscribe topic => exact (Operation.Subscribe_some_iff client topic).trans (by simp [Safe])
    | PublishObject topic payload => exact iff_of_true (Operation.PublishObject_some client topic payload) hsome
    | PublishString topic payload => exact iff_of_true (Operation.PublishString_ok _ topic payload) trivial

/-! ## The calls of the machine -/

namespace MqttClientService

variable {s s' : MqttClientService}

/-- The MQTT client of a service, as it behaves during one operation. -/
def behaving (s : MqttClientService) (client : IMqttClient) : Option IMqttClient := s.mqttClient.map fun _ => client

theorem behaving_ne_none (s : MqttClientService) (client : IMqttClient) :
    s.behaving client ≠ none ↔ s.mqttClient ≠ none :=
  not_congr Option.map_eq_none_iff

theorem Connect_threw_iff (i : ℕ) (s : MqttClientService) : (s.Connect i).2 = .threw ↔ s.mqttClient = none := by
  unfold Connect
  split
  · exact iff_of_true rfl ‹_›
  · rename_i status hstatus
    split_ifs <;> simp [hstatus]

theorem goOn_threw (i : ℕ) (k : Then) (h : (goOn i k s).2 = .threw) : s.mqttClient = none := by
  cases k with
  | nothing => cases h
  | reConnect host port => exact (Connect_threw_iff i (s.setEndpoint host port)).mp h
  | reconnect host port => exact (Connect_threw_iff i (s.clearFlags.setEndpoint host port)).mp h

/-- A call throws just where there is no MQTT client, and then each one but `Disconnect` does. -/
theorem start_threw_iff (i : ℕ) (op : Op) (s : MqttClientService) :
    (s.start i op).2 = .threw ↔ s.mqttClient = none ∧ op ≠ .Disconnect := by
  have hdis : ∀ k, (s.Disconnect i k).2 = .threw → s.mqttClient = none := by
    intro k h
    rcases Disconnect_cases i k s with ⟨-, hd⟩ | hd
    · rw [hd] at h
      exact goOn_threw i k h
    · rw [hd] at h
      cases h
  have hdisnone : s.mqttClient = none → ∀ k, s.Disconnect i k = goOn i k s := by
    intro h k
    simp only [MqttClientService.Disconnect, h]
  cases op with
  | Connect => exact (Connect_threw_iff i s).trans (by simp)
  | ReConnect host port =>
    rw [and_iff_left (by simp)]
    refine ⟨hdis _, fun h => ?_⟩
    rw [start, hdisnone h]
    exact (Connect_threw_iff i (s.setEndpoint host port)).mpr h
  | Reconnect host port =>
    rw [start, and_iff_left (by simp)]
    split
    · exact iff_of_true rfl ‹_›
    · exact ⟨hdis _, fun h => absurd h (by simp [*])⟩
    · exact ⟨goOn_threw i _, fun h => absurd h (by simp [*])⟩
  | Disconnect =>
    refine iff_of_false (fun h => ?_) fun h => h.2 rfl
    have hnone := hdis _ h
    rw [start, hdisnone hnone] at h
    cases h

theorem threw_notMem_set {l : List Pc} (h : Pc.threw ∉ l) (i : ℕ) {pc : Pc} (hpc : pc ≠ .threw) :
    Pc.threw ∉ l.set i pc := by
  intro hmem
  rcases List.mem_or_eq_of_mem_set hmem with hmem | hmem
  · exact h hmem
  · exact hpc hmem.symm

/-- **In a run of a service with a host no call throws.** -/
theorem threw_notMem {host : Option Str} {port : Int32} {as : List ServiceAction} (hhost : IsNullOrEmpty host = false)
    (hrun : Run.exec step (new host port) as = some s) : Pc.threw ∉ s.tasks := by
  have hnew : (new host port).mqttClient ≠ none ∧ Pc.threw ∉ (new host port).tasks :=
    ⟨by simp [new, hhost], List.not_mem_nil⟩
  have hstep : ∀ s a s', s.mqttClient ≠ none ∧ Pc.threw ∉ s.tasks → step s a = some s' →
      s'.mqttClient ≠ none ∧ Pc.threw ∉ s'.tasks := by
    rintro s a s' ⟨hclient, hnot⟩ hs
    refine ⟨client_step hclient hs, ?_⟩
    cases a with
    | call op =>
      rw [step_call.mp hs]
      intro hmem
      rcases List.mem_append.mp hmem with hmem | hmem
      · exact hnot hmem
      · exact hclient ((start_threw_iff _ op s).mp (List.mem_singleton.mp hmem).symm).1
    | resume i =>
      obtain ⟨k, -, rfl⟩ := step_resume.mp hs
      rw [setTask, goOn_tasks]
      exact threw_notMem_set hnot i fun h => hclient (goOn_threw i k h)
    | disconnectDone i =>
      obtain ⟨k, -, rfl⟩ := step_disconnectDone.mp hs
      exact threw_notMem_set hnot i (by simp)
    | connectResult i ok =>
      obtain ⟨-, ⟨-, -, rfl⟩ | ⟨-, -, rfl⟩ | ⟨-, rfl⟩⟩ := step_connectResult.mp hs
      · exact threw_notMem_set hnot i (by simp)
      · exact threw_notMem_set hnot i (by simp)
      · exact threw_notMem_set hnot i (by simp)
    | connectedCallback i =>
      obtain ⟨-, rfl⟩ := step_connectedCallback.mp hs
      exact threw_notMem_set hnot i (by simp)
    | connectFinally i =>
      obtain ⟨-, rfl⟩ := step_connectFinally.mp hs
      exact threw_notMem_set hnot i (by simp)
    | drop =>
      obtain ⟨-, rfl⟩ := step_drop.mp hs
      exact hnot
    | disconnectedCallback =>
      obtain ⟨-, rfl⟩ := step_disconnectedCallback.mp hs
      exact hnot
  exact (Run.invariant hstep hnew hrun).2

/-- A call of the machine as a call of an operation. -/
def asClientCall (later : IMqttClient) (IsConnecting : Bool) : Op → Option ClientCall
  | .Connect => some (.Connect IsConnecting)
  | .ReConnect brokerHost brokerPort => some (.ReConnect brokerHost brokerPort later IsConnecting)
  | .Disconnect => some .Disconnect
  | .Reconnect _ _ => none

/-- **A call throws in the machine just where it throws here.** -/
theorem start_threw_iff_not_completes {op : Op} {later : IMqttClient} {IsConnecting : Bool} {c : ClientCall}
    (hc : asClientCall later IsConnecting op = some c) (i : ℕ) (s : MqttClientService) (client : IMqttClient)
    (TlsVersion : Option Str) : (s.start i op).2 = .threw ↔ ¬ c.Completes (s.behaving client) TlsVersion := by
  rw [start_threw_iff, ClientCall.completes_iff]
  cases op with
  | Connect =>
    cases hc
    rw [ClientCall.Safe, behaving_ne_none]
    simp
  | ReConnect host port =>
    cases hc
    rw [ClientCall.Safe, behaving_ne_none]
    simp
  | Disconnect =>
    cases hc
    simp [ClientCall.Safe]
  | Reconnect host port => cases hc

end MqttClientService

end MqttServices
