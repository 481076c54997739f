import MqttServices.Client.Reconnecting
import MqttServices.Discovery.Server
import MqttServices.Lib.Datagrams

/-!
# Discovery among clients and servers

The machines with a discovery server and the clients that search for one, over a network that loses, repeats and
reorders what they send.

* `DiscoveryHost`, `DiscoveringClient`: the two kinds of parties; `discoveryProtocol`.
* `OnlyAims`: every target of a client service, present, past or to come, has a property.
* `Placed`: the target of the last reply is set, or about to be.
* **`discovered_run`**: in every run the clients seek only the configured brokers and the announced ones, and their
  configurations say what they use.
* **`discovers`**: a lost client whose request and whose answer get through seeks the announced broker.
-/

namespace MqttServices

open DiscoveryServer MqttClientReconnectService MqttClientService

/-- What is sent: a broadcast to a port, or the answer to an endpoint. -/
inductive DiscoveryDatagram (E : Type) where
  | request (port : Int32) (datagram : Datagram E)
  | reply (endpoint : E) (bytes : List UInt8)
  deriving DecidableEq

/-! ## The machines with a server -/

/-- A machine with a broker and its discovery server. -/
structure DiscoveryHost where
  hostName : Str
  settings : MqttBrokerSettings

namespace DiscoveryHost

variable {E : Type} (host : DiscoveryHost)

/-- The discovery settings, where they enable the server. -/
def enabled : Option Broker.DiscoverySettings := host.settings.Discovery.filter (·.Enabled)

/-- `DiscoveryServerHostedService.ExecuteAsync` up to the loop; it throws where there are no discovery settings. -/
def ExecuteAsync (bind : Except Exception Unit) : Server E :=
  match host.settings.Discovery with
  | none => { listening := false }
  | some discovery => if discovery.Enabled then start bind else { listening := false }

/-- The broker that is announced. -/
def broker : Option Str × Int32 := (some host.hostName, host.settings.TlsPort)

/-- What the server has to have been sent: its requests come over the network, whatever else from anywhere. -/
def receives (x : Exchange E) : List (DiscoveryDatagram E) :=
  match x.ReceiveAsync with
  | .error _ => []
  | .ok datagram =>
    if Asks datagram then host.enabled.toList.map fun discovery => .request discovery.Port datagram else []

/-- What the server sets out to send in a turn. -/
def sends (x : Exchange E) : List (DiscoveryDatagram E) :=
  if x.IsCancellationRequested then []
  else
    match x.ReceiveAsync with
    | .error _ => []
    | .ok datagram => (answer host.settings.TlsPort x datagram).1.map fun reply => .reply reply.2 reply.1

/-- A turn of the server; `GetHostName` gives the name of the machine, or throws. -/
def step (s : Server E) (x : Exchange E) : Option (Server E × List (DiscoveryDatagram E)) :=
  if x.GetHostName.toOption.all (· = host.hostName) then
    (DiscoveryServer.step host.settings.TlsPort s x).map fun t => (t, host.sends x)
  else none

end DiscoveryHost

/-! ## The clients -/

/-- A client with the endpoint of the last socket it opened. -/
structure DiscoveringClient (E : Type) where
  client : ReconnectingClient
  socket : Option E := none

/-- A step of a client, with what it has of the network. -/
inductive ClientAction (E : Type) where
  /-- a turn begins; the endpoint is that of its socket, where it opens one -/
  | turn (answers : Turn) (socket : E)
  | answered (reply : Option (E × List UInt8))
  | returned
  | client (a : ServiceAction)

namespace ClientAction

variable {E : Type}

def loopAction : ClientAction E → LoopAction
  | .turn answers _ => .turn answers
  | .answered reply => .answered (reply.map Prod.snd)
  | .returned => .returned
  | .client a => .client a

/-- The answer that is received. -/
def reply : ClientAction E → Option (E × List UInt8)
  | .answered reply => reply
  | _ => none

/-- The endpoint at hand. -/
def endpoint : ClientAction E → Option E
  | .turn _ socket => some socket
  | _ => none

end ClientAction

/-- `discoveryPort`. -/
def MqttClientSettings.discoveryPort (settings : MqttClientSettings) : Int32 :=
  (settings.Discovery.map (·.Port)).getD 5005

namespace DiscoveringClient

variable {E : Type}

/-- The client of an application. -/
def new (settings : MqttClientSettings) (configuration : Configuration) : DiscoveringClient E :=
  { client := .new settings.BrokerHost settings.BrokerPort configuration }

/-- The socket that the step to `s` opened. -/
def opened (s : ReconnectingClient) (a : ClientAction E) : Option E :=
  match s.pc with
  | .receiving _ => a.endpoint
  | _ => none

/-- A step of the client: what it receives was sent to its socket, and from a new one it sends a broadcast. -/
def step [DecidableEq E] (settings : MqttClientSettings) (s : DiscoveringClient E) (a : ClientAction E) :
    Option (DiscoveringClient E × List (DiscoveryDatagram E)) :=
  if a.reply.all (fun reply => s.socket = some reply.1) then
    (s.client.step settings a.loopAction).map fun client =>
      (⟨client, (opened client a).or s.socket⟩,
        (opened client a).toList.map fun socket => .request settings.discoveryPort ⟨Utf8.encode request, socket⟩)
  else none

end DiscoveringClient

/-! ## The protocol -/

section Protocol

variable {C J E : Type}

/-- The parties: clients and servers. -/
abbrev DiscoveryParty (E : Type) : C ⊕ J → Type
  | .inl _ => DiscoveringClient E
  | .inr _ => Server E

abbrev DiscoveryAction (E : Type) : C ⊕ J → Type
  | .inl _ => ClientAction E
  | .inr _ => Exchange E

variable [DecidableEq E] (settings : C → MqttClientSettings) (hosts : J → DiscoveryHost)

/-- The clients with their settings, and the machines with a server. -/
def discoveryProtocol :
    Datagrams.Protocol (DiscoveryParty (C := C) (J := J) E) (DiscoveryAction E) (DiscoveryDatagram E) where
  receives
    | .inl _, a => a.reply.toList.map fun reply => .reply reply.1 reply.2
    | .inr j, x => (hosts j).receives x
  step
    | .inl c, s, a => s.step (settings c) a
    | .inr j, s, x => (hosts j).step s x

/-- The parties before the first step, each server with the outcome of its socket's creation. -/
def startParty (configurations : C → Configuration) (bind : J → Except Exception Unit) :
    ∀ i, DiscoveryParty (C := C) (J := J) E i
  | .inl c => .new (settings c) (configurations c)
  | .inr j => (hosts j).ExecuteAsync (bind j)

/-- Nothing has been sent. -/
def startNetwork (configurations : C → Configuration) (bind : J → Except Exception Unit) :
    Datagrams.Network (DiscoveryParty (C := C) (J := J) E) (DiscoveryDatagram E) :=
  ⟨startParty settings hosts configurations bind, []⟩

end Protocol

/-! ## The targets of a service -/

/-- The target that a call is to set. -/
def Pc.target : Pc → Option (Option Str × Int32)
  | .disconnecting k | .disconnected k => k.target
  | _ => none

def Op.target : Op → Option (Option Str × Int32)
  | .ReConnect host port | .Reconnect host port => some (host, port)
  | .Connect | .Disconnect => none

namespace MqttClientService

/-- Every target of the service, present, past or to come, has the property. -/
structure OnlyAims (P : Option Str × Int32 → Prop) (s : MqttClientService) : Prop where
  target : P s.target
  attempts : ∀ e ∈ s.attempts, P e
  pending : ∀ pc ∈ s.tasks, ∀ e, pc.target = some e → P e

section Aims

variable {P : Option Str × Int32 → Prop} {s t : MqttClientService}

theorem no_target {pc : Pc} (h : pc.target = none) (e : Option Str × Int32) (he : pc.target = some e) : P e := by
  cases h.symm.trans he

theorem OnlyAims.of_eq (h : OnlyAims P s) (htarget : t.target = s.target) (hattempts : t.attempts = s.attempts)
    (htasks : ∀ pc ∈ t.tasks, pc ∈ s.tasks ∨ ∀ e, pc.target = some e → P e) : OnlyAims P t := by
  refine ⟨htarget ▸ h.target, hattempts ▸ h.attempts, fun pc hpc => ?_⟩
  exact (htasks pc hpc).elim (h.pending pc) id

theorem OnlyAims.set (h : OnlyAims P s) (htarget : t.target = s.target) (hattempts : t.attempts = s.attempts) {i : ℕ}
    {pc : Pc} (hpc : ∀ e, pc.target = some e → P e) (htasks : t.tasks = s.tasks.set i pc) : OnlyAims P t := by
  refine h.of_eq htarget hattempts fun pc' hpc' => ?_
  rw [htasks] at hpc'
  rcases List.mem_or_eq_of_mem_set hpc' with hmem | rfl
  · exact Or.inl hmem
  · exact Or.inr hpc

theorem OnlyAims.Connect (h : OnlyAims P s) (i : ℕ) :
    OnlyAims P (s.Connect i).1 ∧ ∀ e, (s.Connect i).2.target = some e → P e := by
  unfold MqttClientService.Connect
  split
  · exact ⟨h, no_target rfl⟩
  · split_ifs
    · refine ⟨⟨h.target, ?_, h.pending⟩, no_target rfl⟩
      exact List.forall_mem_append.mpr ⟨h.attempts, List.forall_mem_singleton.mpr h.target⟩
    · exact ⟨⟨h.target, h.attempts, h.pending⟩, no_target rfl⟩
    · exact ⟨h, no_target rfl⟩

theorem OnlyAims.goOn (h : OnlyAims P s) (i : ℕ) {k : Then} (hk : ∀ e, k.target = some e → P e) :
    OnlyAims P (goOn i k s).1 ∧ ∀ e, (goOn i k s).2.target = some e → P e := by
  cases k with
  | nothing => exact ⟨h, no_target rfl⟩
  | reConnect host port =>
    have hset : OnlyAims P (s.setEndpoint host port) := ⟨hk _ rfl, h.attempts, h.pending⟩
    exact hset.Connect i
  | reconnect host port =>
    have hset : OnlyAims P (s.clearFlags.setEndpoint host port) := ⟨hk _ rfl, h.attempts, h.pending⟩
    exact hset.Connect i

theorem OnlyAims.Disconnect (h : OnlyAims P s) (i : ℕ) {k : Then} (hk : ∀ e, k.target = some e → P e) :
    OnlyAims P (s.Disconnect i k).1 ∧ ∀ e, (s.Disconnect i k).2.target = some e → P e := by
  rcases Disconnect_cases i k s with ⟨-, heq⟩ | heq
  · rw [heq]
    exact h.goOn i hk
  · rw [heq]
    exact ⟨⟨h.target, h.attempts, h.pending⟩, hk⟩

theorem OnlyAims.start (h : OnlyAims P s) (i : ℕ) {op : Op} (hop : ∀ e, op.target = some e → P e) :
    OnlyAims P (s.start i op).1 ∧ ∀ e, (s.start i op).2.target = some e → P e := by
  cases op with
  | Connect => exact h.Connect i
  | ReConnect host port => exact h.Disconnect i hop
  | Disconnect =>
    refine h.Disconnect i (k := .nothing) fun e he => ?_
    cases he
  | Reconnect host port =>
    rw [MqttClientService.start]
    split
    · exact ⟨h, no_target rfl⟩
    · exact h.Disconnect i hop
    · exact h.goOn i hop

/-- **A step aims at what it is told to**, or at what was aimed at before. -/
theorem onlyAims_step (h : OnlyAims P s) {a : ServiceAction}
    (ha : ∀ op e, a = .call op → op.target = some e → P e) (hs : step s a = some t) : OnlyAims P t := by
  cases a with
  | call op =>
    rw [step_call.mp hs]
    obtain ⟨hstart, hpc⟩ := h.start s.tasks.length fun e => ha op e rfl
    refine ⟨hstart.target, hstart.attempts, ?_⟩
    exact List.forall_mem_append.mpr ⟨h.pending, List.forall_mem_singleton.mpr hpc⟩
  | disconnectDone i =>
    obtain ⟨k, hk, rfl⟩ := step_disconnectDone.mp hs
    have hpc : ∀ e, (Pc.disconnecting k).target = some e → P e := h.pending _ (List.mem_of_getElem? hk)
    exact @OnlyAims.set _ _ _ h rfl rfl i (.disconnected k) hpc rfl
  | resume i =>
    obtain ⟨k, hk, rfl⟩ := step_resume.mp hs
    obtain ⟨hgone, hpc⟩ := h.goOn i (h.pending _ (List.mem_of_getElem? hk))
    exact hgone.set rfl rfl hpc rfl
  | connectResult i ok =>
    obtain ⟨-, ⟨-, -, rfl⟩ | ⟨-, -, rfl⟩ | ⟨-, rfl⟩⟩ := step_connectResult.mp hs
    · exact h.set rfl rfl (no_target rfl) rfl
    · exact h.set rfl rfl (no_target rfl) rfl
    · exact h.set rfl rfl (no_target rfl) rfl
  | connectedCallback i =>
    obtain ⟨-, rfl⟩ := step_connectedCallback.mp hs
    exact h.set rfl rfl (no_target rfl) rfl
  | connectFinally i =>
    obtain ⟨-, rfl⟩ := step_connectFinally.mp hs
    exact h.set rfl rfl (no_target rfl) rfl
  | drop =>
    obtain ⟨-, rfl⟩ := step_drop.mp hs
    exact ⟨h.target, h.attempts, h.pending⟩
  | disconnectedCallback =>
    obtain ⟨-, rfl⟩ := step_disconnectedCallback.mp hs
    exact ⟨h.target, h.attempts, h.pending⟩

theorem onlyAims_new {host : Option Str} {port : Int32} (h : P (host, port)) : OnlyAims P (new host port) := by
  unfold new
  split_ifs
  · exact ⟨h, by simp, by simp⟩
  · exact ⟨h, by simp, by simp⟩

end Aims

end MqttClientService

/-! ## A client that is told its targets -/

namespace ReconnectingClient

variable {settings : MqttClientSettings} {s s' : ReconnectingClient} {host : Option Str} {port : Int32}

/-- No call waits for its disconnect, and the target is set; or the one that sets it is under way. -/
def Placed (host : Option Str) (port : Int32) (s : ReconnectingClient) : Prop :=
  (∀ i k, ¬ Awaits i k s.service) ∧ s.service.target = (host, port) ∨
    ∃ u i, s.pc = .reConnecting u i ∧ OnTheWay host port i s.service

theorem Calm.awaited_of_awaits (h : s.Calm) {i : ℕ} {k : Then} (hi : Awaits i k s.service) : s.pc.awaited = some i := by
  rcases hi with hi | hi
  · exact h.awaited hi (by simp)
  · exact h.awaited hi (by simp)

theorem Placed.of_returned (h : Placed host port s) (hcalm : s.Calm) (hreturned : s.Returned) :
    (∀ i k, ¬ Awaits i k s.service) ∧ s.service.target = (host, port) := by
  have hnone : ∀ i k, ¬ Awaits i k s.service := by
    rintro i k (hi | hi)
    · rcases hcalm.ended hreturned hi with h | h <;> cases h
    · rcases hcalm.ended hreturned hi with h | h <;> cases h
  rcases h with hset | ⟨u, i, hpc, hway⟩
  · exact hset
  · refine ⟨hnone, ?_⟩
    rcases hway.target with hawaits | ⟨-, hhost, hport⟩
    · exact absurd hawaits (hnone _ _)
    · rw [target, hhost, hport]

theorem placed_Connect (h : (∀ i k, ¬ Awaits i k s.service) ∧ s.service.target = (host, port))
    (hs : s'.service = s.service.called .Connect) : Placed host port s' := by
  have haims := aims_Connect s.service.tasks.length s.service
  have htarget : s'.service.target = s.service.target := by
    rw [hs]
    exact Prod.ext haims.BrokerHost haims.BrokerPort
  refine Or.inl ⟨fun i k => ?_, htarget.trans h.2⟩
  have hpc := Connect_pc s.service.tasks.length s.service k
  rw [Awaits, hs, called]
  by_cases hlt : i < s.service.tasks.length
  · rw [List.getElem?_append_left hlt]
    exact h.1 i k
  · rw [List.getElem?_append_right (Nat.not_lt.mp hlt)]
    rintro (hi | hi)
    · exact hpc.1 (List.mem_singleton.mp (List.mem_of_getElem? hi)).symm
    · exact hpc.2 (List.mem_singleton.mp (List.mem_of_getElem? hi)).symm

theorem placed_client (h : Placed host port s) (hcalm : s.Calm) {a : ServiceAction} (ha : a.isCall = false)
    (hs : MqttClientService.step s.service a = some s'.service) (hpc : s'.pc = s.pc) : Placed host port s' := by
  rcases h with ⟨hnone, htarget⟩ | ⟨u, n, hn, hway⟩
  · have hkeeps : s.service.KeepsTarget a := by
      cases a with
      | call op => cases ha
      | resume i => exact fun k hk => absurd (Or.inr hk) (hnone i k)
      | disconnectDone i => trivial
      | connectResult i ok => trivial
      | connectedCallback i => trivial
      | connectFinally i => trivial
      | drop => trivial
      | disconnectedCallback => trivial
    have haims := aims_step hkeeps hs
    refine Or.inl ⟨fun i k => ?_, (Prod.ext haims.BrokerHost haims.BrokerPort).trans htarget⟩
    by_cases hi : i < s.service.tasks.length
    · exact not_awaits_step hi (hnone i) hs k
    · have hlength := length_tasks_client ha hs
      have hout : s'.service.tasks[i]? = none := List.getElem?_eq_none (by omega)
      rintro (h | h)
      · cases hout.symm.trans h
      · cases hout.symm.trans h
  · have hquiet : a = .resume n ∨ s.service.setsTarget a = false := by
      cases a with
      | call op => cases ha
      | resume i =>
        obtain ⟨k, hk, -⟩ := step_resume.mp hs
        have hawaited := hcalm.awaited_of_awaits (Or.inr hk)
        rw [hn] at hawaited
        exact Or.inl (congrArg ServiceAction.resume (Option.some_inj.mp hawaited).symm)
      | disconnectDone i => exact Or.inr rfl
      | connectResult i ok => exact Or.inr rfl
      | connectedCallback i => exact Or.inr rfl
      | connectFinally i => exact Or.inr rfl
      | drop => exact Or.inr rfl
      | disconnectedCallback => exact Or.inr rfl
    exact Or.inr ⟨u, n, hpc.trans hn, hway.step ((if_pos hquiet).trans hs)⟩

/-- A reply that names a target with the property, and no credentials. -/
def Tells (P : Option Str × Int32 → Prop) (bytes : List UInt8) : Prop :=
  ∀ st, decodeReply bytes = some (some st) →
    P (st.BrokerHost, st.BrokerPort) ∧ IsNullOrWhiteSpace st.UserName = true ∧ IsNullOrWhiteSpace st.Password = true

/-- What a client keeps that receives only such replies; `agreed` where its configuration agreed with its settings. -/
structure ToldInv (P : Option Str × Int32 → Prop) (settings : MqttClientSettings) (agreed : Prop)
    (s : ReconnectingClient) : Prop where
  calls : CallInv s
  aims : OnlyAims P s.service
  told : ∃ host port, Placed host port s ∧ (agreed → ∀ entries ∈ s.discovery.configuration,
    Agrees entries ⟨host, port, settings.UserName, settings.Password⟩)

section Told

variable {P : Option Str × Int32 → Prop} {agreed : Prop} {settings : MqttClientSettings} {s s' : ReconnectingClient}

theorem toldInv_new {settings : MqttClientSettings} (hP : P (settings.BrokerHost, settings.BrokerPort))
    (configuration : Configuration) :
    ToldInv P settings (∀ entries ∈ configuration, Agrees entries
      ⟨settings.BrokerHost, settings.BrokerPort, settings.UserName, settings.Password⟩)
      (new settings.BrokerHost settings.BrokerPort configuration) := by
  have hservice : (new settings.BrokerHost settings.BrokerPort configuration).service =
    MqttClientService.new settings.BrokerHost settings.BrokerPort := rfl
  refine ⟨callInv_new _ _ _, hservice ▸ onlyAims_new hP, _, _, Or.inl ⟨fun i k => ?_, rfl⟩, fun h => h⟩
  rintro (h | h)
  · cases h
  · cases h

theorem toldInv_step (h : ToldInv P settings agreed s) {a : LoopAction}
    (ha : ∀ bytes, a = .answered (some bytes) → Tells P bytes) (hs : step settings s a = some s') :
    ToldInv P settings agreed s' := by
  have hcalls := callInv_step h.calls hs
  obtain ⟨host, port, hplaced, hentries⟩ := h.told
  cases step_cases hs with
  | none hreturned hdiscovery hawaited =>
    have hservice : s'.service = s.service := congrArg DiscoveryState.service hdiscovery
    refine ⟨hcalls, hservice ▸ h.aims, host, port, Or.inl ?_, hdiscovery ▸ hentries⟩
    rw [hservice]
    exact hplaced.of_returned h.calls.calm hreturned
  | call op hreturned hprompt hservice hawaited =>
    cases hprompt with
    | turn hconfiguration =>
      refine ⟨hcalls, onlyAims_step h.aims (a := .call .Connect) ?_ (step_call.mpr hservice), host, port,
        placed_Connect (hplaced.of_returned h.calls.calm hreturned) hservice, hconfiguration ▸ hentries⟩
      rintro op e hop he
      cases hop
      cases he
    | reply bytes st turn hbytes hst hpc hconfiguration =>
      obtain ⟨hP, huser, hpassword⟩ := ha bytes hbytes st hst
      refine ⟨hcalls, onlyAims_step h.aims (a := .call (.ReConnect st.BrokerHost st.BrokerPort)) ?_
        (step_call.mpr hservice), st.BrokerHost, st.BrokerPort, Or.inr ⟨turn, _, hpc, ?_⟩, fun hagreed entries hmem => ?_⟩
      · rintro op e hop he
        cases hop
        cases he
        exact hP
      · rw [hservice]
        exact onTheWay_called s.service st.BrokerHost st.BrokerPort
      · have hlatest : latest ⟨host, port, settings.UserName, settings.Password⟩ st =
            ⟨st.BrokerHost, st.BrokerPort, settings.UserName, settings.Password⟩ := by
          rw [latest, if_pos huser, if_pos hpassword]
        cases hc : s.discovery.configuration with
        | none =>
          rw [hconfiguration, hc, setAll_none] at hmem
          cases hmem
        | some before =>
          rw [hconfiguration, hc, setAll_some, Option.mem_some_iff] at hmem
          rw [← hmem, ← hlatest]
          exact (hentries hagreed before hc).updates st
  | client b hb hcall hservice hconfiguration hpc =>
    refine ⟨hcalls, onlyAims_step h.aims ?_ hservice, host, port, placed_client hplaced h.calls.calm hcall hservice hpc,
      hconfiguration ▸ hentries⟩
    rintro op e rfl
    cases hcall

end Told

end ReconnectingClient

/-! ## Runs of the network -/

/-- The client `c` of the network. -/
def networkClient {C J E : Type} (s : Datagrams.Network (DiscoveryParty (C := C) (J := J) E) (DiscoveryDatagram E))
    (c : C) : ReconnectingClient :=
  DiscoveringClient.client (s.party (.inl c))

section Runs

variable {C J E : Type} {settings : C → MqttClientSettings} {hosts : J → DiscoveryHost}

variable (hosts) in
/-- One of the machines has its server enabled and announces the target. -/
def Announced (e : Option Str × Int32) : Prop := ∃ j, (hosts j).enabled ≠ none ∧ e = (hosts j).broker

variable (hosts) in
/-- An answer is that of a machine whose server is enabled. -/
def Genuine : DiscoveryDatagram E → Prop
  | .request _ _ => True
  | .reply _ bytes => ∃ j, (hosts j).enabled ≠ none ∧
    discoveryReply (hosts j).hostName (hosts j).settings.TlsPort = some bytes

variable (settings hosts) in
/-- What a client seeks, and what a server that listens is allowed to. -/
def PartyInv (configurations : C → Configuration) : ∀ i, DiscoveryParty (C := C) (J := J) E i → Prop
  | .inl c, s => ReconnectingClient.ToldInv
    (fun e => e = ((settings c).BrokerHost, (settings c).BrokerPort) ∨ Announced hosts e) (settings c)
    (∀ entries ∈ configurations c, Agrees entries
      ⟨(settings c).BrokerHost, (settings c).BrokerPort, (settings c).UserName, (settings c).Password⟩) s.client
  | .inr j, s => s.listening = true → (hosts j).enabled ≠ none

theorem mem_answer {brokerPort : Int32} {x : Exchange E} {datagram : Datagram E} {reply : List UInt8 × E}
    (h : reply ∈ (answer brokerPort x datagram).1) :
    ∃ hostName, x.GetHostName = .ok hostName ∧ discoveryReply hostName brokerPort = some reply.1 := by
  rw [answer] at h
  split_ifs at h
  · split at h
    · cases h
    · rename_i hostName hname
      split at h
      · cases h
      · rename_i bytes hbytes
        rw [List.mem_singleton.mp h]
        exact ⟨hostName, hname, hbytes⟩
  · cases h

theorem genuine_sends {j : J} {s s' : Server E} {x : Exchange E} {sends : List (DiscoveryDatagram E)}
    (henabled : s.listening = true → (hosts j).enabled ≠ none) (hs : (hosts j).step s x = some (s', sends)) :
    (s'.listening = true → (hosts j).enabled ≠ none) ∧ ∀ m ∈ sends, Genuine hosts m := by
  rw [DiscoveryHost.step] at hs
  split_ifs at hs with hname
  obtain ⟨t, ht, heq⟩ := Option.map_eq_some_iff.mp hs
  cases heq
  have hlistening : s.listening = true := by
    by_contra hnot
    rw [DiscoveryServer.step, if_pos (by simpa using hnot)] at ht
    cases ht
  refine ⟨fun _ => henabled hlistening, fun m hm => ?_⟩
  rw [DiscoveryHost.sends] at hm
  split_ifs at hm
  · cases hm
  · split at hm
    · cases hm
    · obtain ⟨reply, hreply, rfl⟩ := List.mem_map.mp hm
      obtain ⟨hostName, hhost, hbytes⟩ := mem_answer hreply
      have hsame : hostName = (hosts j).hostName := by simpa [hhost, Except.toOption] using hname
      exact ⟨j, henabled hlistening, hsame ▸ hbytes⟩

/-- **A client that receives genuine answers only is told what is announced.** -/
theorem tells_of_genuine {P : Option Str × Int32 → Prop} (hP : ∀ e, Announced hosts e → P e) {e : E} {bytes : List UInt8}
    (h : Genuine hosts (.reply e bytes)) : ReconnectingClient.Tells P bytes := by
  obtain ⟨j, henabled, hbytes⟩ := h
  intro st hst
  cases (decodeReply_discoveryReply hbytes).symm.trans hst
  exact ⟨hP _ ⟨j, henabled, rfl⟩, rfl, rfl⟩

theorem partyInv_start (configurations : C → Configuration) (bind : J → Except Exception Unit)
    (i : C ⊕ J) : PartyInv settings hosts configurations i (startParty (E := E) settings hosts configurations bind i) := by
  cases i with
  | inl c => exact ReconnectingClient.toldInv_new (Or.inl rfl) (configurations c)
  | inr j =>
    intro hlistening
    cases hd : (hosts j).settings.Discovery with
    | none => simp [startParty, DiscoveryHost.ExecuteAsync, hd] at hlistening
    | some d =>
      by_cases hon : d.Enabled = true
      · simp [DiscoveryHost.enabled, hd, hon]
      · simp [startParty, DiscoveryHost.ExecuteAsync, hd, hon] at hlistening

variable [DecidableEq E]

theorem partyInv_step (configurations : C → Configuration) (i : C ⊕ J) (t : DiscoveryParty E i) (a : DiscoveryAction E i)
    (t' : DiscoveryParty E i) (sends : List (DiscoveryDatagram E)) (h : PartyInv settings hosts configurations i t)
    (hreceived : ∀ m ∈ (discoveryProtocol settings hosts).receives i a, Genuine hosts m)
    (hs : (discoveryProtocol settings hosts).step i t a = some (t', sends)) :
    PartyInv settings hosts configurations i t' ∧ ∀ m ∈ sends, Genuine hosts m := by
  cases i with
  | inr j => exact genuine_sends h hs
  | inl c =>
    change DiscoveringClient.step (settings c) t a = some (t', sends) at hs
    rw [DiscoveringClient.step] at hs
    split_ifs at hs
    obtain ⟨client, hclient, heq⟩ := Option.map_eq_some_iff.mp hs
    cases heq
    refine ⟨ReconnectingClient.toldInv_step h (fun bytes hbytes => ?_) hclient, fun m hm => ?_⟩
    · cases a with
      | answered reply =>
        obtain ⟨reply, rfl, rfl⟩ : ∃ r, reply = some r ∧ r.2 = bytes := by
          simpa [ClientAction.loopAction] using hbytes
        exact tells_of_genuine (fun e he => Or.inr he) (hreceived _ (List.mem_singleton_self _))
      | turn answers socket => cases hbytes
      | returned => cases hbytes
      | client b => cases hbytes
    · obtain ⟨socket, -, rfl⟩ := List.mem_map.mp hm
      trivial

variable (settings hosts) in
/-- A client of the network seeks the configured broker and announced ones only, and but for the time in which a reply
is taken up its configuration, where it agreed with the settings at first, says what it uses. -/
structure Informed (configurations : C → Configuration) (c : C) (s : ReconnectingClient) : Prop where
  attempts : ∀ e ∈ s.service.attempts, e = ((settings c).BrokerHost, (settings c).BrokerPort) ∨ Announced hosts e
  entries : (∀ entries ∈ configurations c, Agrees entries
      ⟨(settings c).BrokerHost, (settings c).BrokerPort, (settings c).UserName, (settings c).Password⟩) →
    (∀ u i, s.pc ≠ .reConnecting u i) → ∀ entries ∈ s.discovery.configuration, Agrees entries
      ⟨s.service.BrokerHost, s.service.BrokerPort, (settings c).UserName, (settings c).Password⟩

variable [DecidableEq C] [DecidableEq J]

/-- **In every run of the network every client is informed**, whatever is lost, repeated or late. -/
theorem discovered_run {configurations : C → Configuration} {bind : J → Except Exception Unit}
    {as : List ((i : C ⊕ J) × DiscoveryAction E i)}
    {s : Datagrams.Network (DiscoveryParty (C := C) (J := J) E) (DiscoveryDatagram E)}
    (hrun : Run.exec (discoveryProtocol settings hosts).next (startNetwork settings hosts configurations bind) as = some s)
    (c : C) : Informed settings hosts configurations c (networkClient s c) := by
  obtain ⟨hparties, -⟩ := Datagrams.Protocol.rely_guarantee (I := PartyInv settings hosts configurations)
    (G := Genuine hosts) (partyInv_step configurations) (partyInv_start configurations bind)
    (fun _ h => absurd h List.not_mem_nil) hrun
  obtain ⟨-, haims, host, port, hplaced, hentries⟩ := hparties (.inl c)
  refine ⟨haims.attempts, fun hagreed hpc entries hmem => ?_⟩
  have htarget : (networkClient s c).service.target = (host, port) := by
    rcases hplaced with ⟨-, htarget⟩ | ⟨u, i, hreconnecting, -⟩
    · exact htarget
    · exact absurd hreconnecting (hpc u i)
  have h := hentries hagreed entries hmem
  rw [MqttClientService.target, Prod.mk.injEq] at htarget
  rwa [← htarget.1, ← htarget.2] at h

end Runs

/-! ## An answer that gets through -/

section Answers

variable {C J E : Type} {settings : C → MqttClientSettings} {hosts : J → DiscoveryHost}

/-- The exchange in which a server is asked from `socket`. -/
def DiscoveryHost.asked (host : DiscoveryHost) (socket : E) : Exchange E where
  ReceiveAsync := .ok ⟨Utf8.encode request, socket⟩
  GetHostName := .ok host.hostName

theorem asks_request (socket : E) : Asks (⟨Utf8.encode request, socket⟩ : Datagram E) :=
  Utf8.decode_encode (by decide)

theorem step_asked (host : DiscoveryHost) {s : Server E} (hlistening : s.listening = true) (socket : E) :
    ∃ bytes s', discoveryReply host.hostName host.settings.TlsPort = some bytes ∧
      host.step s (host.asked socket) = some (s', [.reply socket bytes]) := by
  obtain ⟨bytes, hbytes⟩ := exists_discoveryReply host.hostName host.settings.TlsPort
  have hanswer : answer host.settings.TlsPort (host.asked socket) ⟨Utf8.encode request, socket⟩ =
      ([(bytes, socket)], .ok ()) := by
    simp only [answer, if_pos (asks_request socket), DiscoveryHost.asked, hbytes]
  have hstep : DiscoveryServer.step host.settings.TlsPort s (host.asked socket) = some { s with
      listening := true
      received := s.received ++ [(⟨Utf8.encode request, socket⟩, [(bytes, socket)])] } := by
    have hlistens : (!s.listening) = false := by rw [hlistening, Bool.not_true]
    simp only [DiscoveryServer.step, hlistens, DiscoveryHost.asked, Bool.false_eq_true, if_false]
    rw [← DiscoveryHost.asked, hanswer]
    rfl
  have hsends : host.sends (host.asked socket) = [.reply socket bytes] := by
    rw [DiscoveryHost.sends, if_neg (by exact Bool.false_ne_true)]
    change (answer host.settings.TlsPort (host.asked socket) ⟨Utf8.encode request, socket⟩).1.map _ = _
    rw [hanswer]
    rfl
  have hname : (host.asked socket).GetHostName.toOption.all (· = host.hostName) = true := by
    simp [DiscoveryHost.asked, Except.toOption]
  exact ⟨bytes, _, hbytes, by rw [DiscoveryHost.step, if_pos hname, hstep, hsends]; rfl⟩

theorem called_ReConnect_seeks {t : MqttClientService} (hm : t.mqttClient = some .disconnected)
    (hconnecting : t.IsConnecting = false) {host : Option Str} {port : Int32} (hv : validEndpoint host port = true) :
    (t.called (.ReConnect host port)).attempts = t.attempts ++ [(host, port)] ∧
      (t.called (.ReConnect host port)).live = true := by
  simp [called, MqttClientService.start, Disconnect, goOn, Connect, setEndpoint, hm, hconnecting, hv, live]

/-- A client that is not connected, and its loop idle. -/
structure Searching (s : ReconnectingClient) : Prop where
  idle : s.pc = .idle
  running : s.loop.ended = false
  disconnected : s.service.mqttClient = some .disconnected
  flags : s.service.IsConnected = false ∧ s.service.IsConnecting = false

variable [DecidableEq E]

theorem step_search {st : MqttClientSettings} {s : DiscoveringClient E} (h : Searching s.client) {answers : Turn}
    (huncanceled : answers.IsCancellationRequested = false) (hroom : HasRoom answers)
    (hdue : Due st s.client.loop.nextDiscoveryAttemptUtc answers) (socket : E) :
    s.step st (.turn answers socket) = some
      (⟨s.client.receivingIn (s.client.begun answers, []), some socket⟩,
        [.request st.discoveryPort ⟨Utf8.encode request, socket⟩]) := by
  have hflags : Unflagged (s.client.begun answers) := h.flags
  have hturn := ReconnectingClient.step_turn_of_due h.idle h.running huncanceled hflags hroom hdue
  rw [DiscoveringClient.step, if_pos (by rfl)]
  simp only [ClientAction.loopAction, hturn]
  rfl

theorem step_answered {st read : MqttClientSettings} {client : ReconnectingClient} {u : Underway} {socket : E}
    {bytes : List UInt8} (hpc : client.pc = .receiving u) (hread : decodeReply bytes = some (some read)) :
    (⟨client, some socket⟩ : DiscoveringClient E).step st (.answered (some (socket, bytes))) = some
      (⟨{ client with
          discovery := SendBroadcastDiscoveryRequest (some bytes) client.discovery
          pc := .reConnecting u client.service.tasks.length }, some socket⟩, []) := by
  have hstep : client.step st (.answered (some bytes)) = some { client with
      discovery := SendBroadcastDiscoveryRequest (some bytes) client.discovery
      pc := .reConnecting u client.service.tasks.length } := by
    simp only [ReconnectingClient.step, hpc, Option.bind_some, hread]
  rw [DiscoveringClient.step, if_pos (by simp [ClientAction.reply])]
  simp only [ClientAction.loopAction, Option.map_some, hstep]
  rfl

/-- The client once it has taken the announced broker up, in the turn of `answers`. -/
def DiscoveryHost.toldTo (host : DiscoveryHost) (answers : Turn) (socket : E) (client : ReconnectingClient) :
    DiscoveringClient E where
  client :=
    { client with
      discovery :=
        ⟨client.service.called (.ReConnect (some host.hostName) host.settings.TlsPort),
          setAll (updates { BrokerHost := some host.hostName, BrokerPort := host.settings.TlsPort })
            client.discovery.configuration⟩
      pc := .reConnecting (client.begun answers, [.SendBroadcastDiscoveryRequest]) client.service.tasks.length }
  socket := some socket

variable [DecidableEq C] [DecidableEq J]

/-- **A request and its answer get through**: the turn, the answer of the server and its receipt can follow each other,
and the client takes the announced broker up. -/
theorem exists_answered {s : Datagrams.Network (DiscoveryParty (C := C) (J := J) E) (DiscoveryDatagram E)} {c : C} {j : J}
    {d : Broker.DiscoverySettings} (henabled : (hosts j).enabled = some d) (hport : d.Port = (settings c).discoveryPort)
    (hlistening : Server.listening (s.party (.inr j)) = true) (hsearching : Searching (networkClient s c))
    {answers : Turn} (huncanceled : answers.IsCancellationRequested = false) (hroom : HasRoom answers)
    (hdue : Due (settings c) (networkClient s c).loop.nextDiscoveryAttemptUtc answers) (socket : E) :
    ∃ bytes s', Run.exec (discoveryProtocol settings hosts).next s [⟨.inl c, .turn answers socket⟩,
        ⟨.inr j, (hosts j).asked socket⟩, ⟨.inl c, .answered (some (socket, bytes))⟩] = some s' ∧
      s'.party (.inl c) = (hosts j).toldTo answers socket (networkClient s c) := by
  have hrequest : ∀ m ∈ (discoveryProtocol settings hosts).receives (.inr j) ((hosts j).asked socket),
      m = DiscoveryDatagram.request (settings c).discoveryPort ⟨Utf8.encode request, socket⟩ := by
    change ∀ m ∈ (hosts j).receives ((hosts j).asked socket), _
    simp only [DiscoveryHost.receives, DiscoveryHost.asked, if_pos (asks_request socket), henabled, hport,
      Option.toList_some, List.map_cons, List.map_nil, List.mem_singleton, imp_self, implies_true]
  obtain ⟨s₁, h₁, hclient₁, hothers₁, hsent₁⟩ := Datagrams.Protocol.exists_next
    (P := discoveryProtocol settings hosts) (s := s) (i := .inl c) (a := ClientAction.turn answers socket)
    (fun m hm => absurd hm List.not_mem_nil) (step_search hsearching huncanceled hroom hdue socket)
  have hserver : s₁.party (.inr j) = s.party (.inr j) := hothers₁ _ (by simp)
  rw [← hserver] at hlistening
  obtain ⟨bytes, server, hbytes, hasked⟩ := step_asked (hosts j) hlistening socket
  obtain ⟨s₂, h₂, -, hothers₂, hsent₂⟩ := Datagrams.Protocol.exists_next
    (P := discoveryProtocol settings hosts) (s := s₁) (i := .inr j) (a := (hosts j).asked socket)
    (fun m hm => by rw [hsent₁, hrequest m hm]; exact List.mem_append_right _ (List.mem_singleton_self _)) hasked
  have hclient₂ := (hothers₂ (.inl c) (by simp)).trans hclient₁
  have hread := decodeReply_discoveryReply hbytes
  obtain ⟨s₃, h₃, hclient₃, -, -⟩ := Datagrams.Protocol.exists_next (P := discoveryProtocol settings hosts) (s := s₂)
    (i := .inl c) (a := ClientAction.answered (some (socket, bytes)))
    (fun m hm => by rw [hsent₂, List.mem_singleton.mp hm]; exact List.mem_append_right _ (List.mem_singleton_self _))
    (by rw [hclient₂]; exact step_answered rfl hread)
  refine ⟨bytes, s₃, Run.exec_cons_eq_some.mpr ⟨s₁, h₁, Run.exec_cons_eq_some.mpr ⟨s₂, h₂,
    Run.exec_cons_eq_some.mpr ⟨s₃, h₃, rfl⟩⟩⟩, ?_⟩
  rw [hclient₃, SendBroadcastDiscoveryRequest_settings hread]
  rfl

/-- **A lost client whose request and whose answer get through seeks the announced broker**, whatever happened before. -/
theorem discovers {s : Datagrams.Network (DiscoveryParty (C := C) (J := J) E) (DiscoveryDatagram E)} {c : C} {j : J}
    {d : Broker.DiscoverySettings} (henabled : (hosts j).enabled = some d) (hport : d.Port = (settings c).discoveryPort)
    (hlistening : Server.listening (s.party (.inr j)) = true)
    (hv : validEndpoint (hosts j).broker.1 (hosts j).broker.2 = true) (hsearching : Searching (networkClient s c))
    {answers : Turn} (huncanceled : answers.IsCancellationRequested = false) (hroom : HasRoom answers)
    (hdue : Due (settings c) (networkClient s c).loop.nextDiscoveryAttemptUtc answers) (socket : E) :
    ∃ bytes s', Run.exec (discoveryProtocol settings hosts).next s [⟨.inl c, .turn answers socket⟩,
        ⟨.inr j, (hosts j).asked socket⟩, ⟨.inl c, .answered (some (socket, bytes))⟩] = some s' ∧
      (networkClient s' c).service.attempts = (networkClient s c).service.attempts ++ [(hosts j).broker] ∧
      (networkClient s' c).service.live = true := by
  obtain ⟨bytes, s', hrun, htold⟩ :=
    exists_answered henabled hport hlistening hsearching huncanceled hroom hdue socket
  have hclient : networkClient s' c = _ := congrArg DiscoveringClient.client htold
  refine ⟨bytes, s', hrun, ?_⟩
  rw [hclient]
  exact called_ReConnect_seeks hsearching.disconnected hsearching.flags.2 hv

end Answers

/-! ## One client and one server -/

/-- A client that searches. -/
def searchingSettings : MqttClientSettings where
  BrokerHost := some "old".toList
  BrokerPort := 1883
  Discovery := some { SearchForDiscoveryServer := true }

/-- The entries that hold its settings. -/
def searchingEntries : Entries :=
  entriesOf ⟨searchingSettings.BrokerHost, searchingSettings.BrokerPort, searchingSettings.UserName,
    searchingSettings.Password⟩

/-- A machine that announces its broker. -/
def announcingHost : DiscoveryHost where
  hostName := "broker".toList
  settings := { Discovery := some { Enabled := true } }

/-- The network before the first step; the configuration of the client holds its settings. -/
def smallNetwork : Datagrams.Network (DiscoveryParty (C := Unit) (J := Unit) ℕ) (DiscoveryDatagram ℕ) :=
  startNetwork (fun _ => searchingSettings) (fun _ => announcingHost) (fun _ => some searchingEntries) fun _ => .ok ()

/-- The client and the machine. -/
abbrev smallProtocol :=
  discoveryProtocol (E := ℕ) (fun _ : Unit => searchingSettings) (fun _ : Unit => announcingHost)

/-- The request of the client and its answer. -/
def answeredRun (bytes : List UInt8) : List ((i : Unit ⊕ Unit) × DiscoveryAction ℕ i) :=
  [⟨.inl (), .turn { UtcNow := ticksPerDay } 7⟩, ⟨.inr (), announcingHost.asked 7⟩,
    ⟨.inl (), .answered (some (7, bytes))⟩]

/-- The client connects to the broker it was told of, and its turn ends. -/
def takenUp : List (ClientAction ℕ) :=
  [.client (.connectResult 0 true), .client (.connectedCallback 0), .client (.connectFinally 0), .returned]

theorem takenUp_reply : ∀ a ∈ takenUp, a.reply = none := by decide

/-- A client that was configured for another broker is told of one, connects to it and is informed. -/
theorem discovered_run_answered : ∃ bytes s,
    Run.exec smallProtocol.next smallNetwork (answeredRun bytes ++ takenUp.map (Sigma.mk (.inl ()))) = some s ∧
      (networkClient s ()).service.attempts = [(some "broker".toList, 8883)] ∧
      Informed (fun _ : Unit => searchingSettings) (fun _ : Unit => announcingHost) (fun _ => some searchingEntries) ()
        (networkClient s ()) ∧
      ∃ entries ∈ (networkClient s ()).discovery.configuration,
        entries "MqttClientSettings:BrokerHost".toList = some (some "broker".toList) := by
  obtain ⟨bytes, s₁, hanswered, htold⟩ : ∃ bytes s₁,
      Run.exec smallProtocol.next smallNetwork (answeredRun bytes) = some s₁ ∧
      s₁.party (.inl ()) = announcingHost.toldTo { UtcNow := ticksPerDay } 7 (networkClient smallNetwork ()) :=
    exists_answered (d := { Enabled := true }) rfl rfl rfl ⟨rfl, rfl, rfl, rfl, rfl⟩ rfl (by decide) (by decide) 7
  obtain ⟨t, entries, ht, hpc, hattempts, hhost, hentries⟩ : ∃ (t : DiscoveringClient ℕ) (entries : Entries),
      Run.exec (fun t a => (DiscoveringClient.step searchingSettings t a).map Prod.fst)
        (announcingHost.toldTo { UtcNow := ticksPerDay } 7 (networkClient smallNetwork ())) takenUp = some t ∧
      t.client.pc = .idle ∧ t.client.service.attempts = [(some "broker".toList, 8883)] ∧
      t.client.service.BrokerHost = some "broker".toList ∧ t.client.discovery.configuration = some entries :=
    ⟨_, _, rfl, rfl, rfl, rfl, rfl⟩
  rw [← htold] at ht
  have hquiet : ∀ a ∈ takenUp, smallProtocol.receives (.inl ()) a = [] := by
    intro a ha
    simp only [discoveryProtocol, takenUp_reply a ha, Option.toList_none, List.map_nil]
  obtain ⟨s, htaken, hparty⟩ := Datagrams.Protocol.exists_exec (i := .inl ()) (P := smallProtocol) hquiet ht
  have hclient : networkClient s () = t.client := congrArg DiscoveringClient.client hparty
  have hrun : Run.exec smallProtocol.next smallNetwork (answeredRun bytes ++ takenUp.map (Sigma.mk (.inl ()))) =
      some s := by
    rw [Run.exec_append, hanswered]
    exact htaken
  have hinformed := discovered_run hrun ()
  refine ⟨bytes, s, hrun, hclient ▸ hattempts, hinformed, entries, by rw [hclient, hentries]; rfl, ?_⟩
  have hagrees := hinformed.entries (fun _ h => Option.mem_some_iff.mp h ▸ agrees_entriesOf _)
    (by rw [hclient, hpc]; simp) entries (by rw [hclient, hentries]; rfl)
  rw [hagrees.BrokerHost, hclient, hhost]

theorem discovers_small : ∃ bytes s',
    Run.exec (discoveryProtocol (fun _ : Unit => searchingSettings) (fun _ : Unit => announcingHost)).next smallNetwork
        [⟨.inl (), .turn { UtcNow := ticksPerDay } 7⟩, ⟨.inr (), announcingHost.asked 7⟩,
          ⟨.inl (), .answered (some (7, bytes))⟩] = some s' ∧
      (networkClient s' ()).service.attempts =
        (networkClient smallNetwork ()).service.attempts ++ [(some "broker".toList, 8883)] ∧
      (networkClient s' ()).service.live = true :=
  discovers (d := { Enabled := true }) rfl rfl rfl (by decide) ⟨rfl, rfl, rfl, rfl, rfl⟩ rfl (by decide) (by decide) 7

end MqttServices
