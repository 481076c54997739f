import MqttServices.Broker.CertificateRuns

/-!
# The broker service

* `MqttBrokerService`: the field and the fingerprint of the service, with every server it has created.
* `StartBroker`, `startLoop`: a start with its attempts, and **`startLoop_eq`**: what the attempts leave behind.
* `KnowsServer`: the service refers to the server that listens, and shows its fingerprint.
* **`knows_server_iff`**: the runs in which it always does.
* `Dispose_stops`: what follows for `Dispose`.
-/

namespace MqttServices

/-- Where a server is in its life. -/
inductive ServerStatus where
  | created
  | listening
  | stopped
  deriving DecidableEq

structure MqttServerOptions (C : Type) where
  EncryptedEndpointPort : Int32
  DefaultEndpointPort : Option Int32
  certificate : C
  SslProtocol : SslProtocols

structure MqttServer (C : Type) where
  options : MqttServerOptions C
  status : ServerStatus

/-- How an attempt of `StartAsync` ends. -/
inductive StartOutcome where
  | started
  | failed (e : Exception)
  deriving DecidableEq

/-- The fields of the service, and the servers it has created; the field is an index into these. -/
structure MqttBrokerService (C : Type) where
  servers : List (MqttServer C) := []
  mqttServer : Option ℕ := none
  CertificateThumbprint : Option Str := none

/-- A call of `StartBroker`: the settings it reads, what the operations answer, and how its attempts end. -/
structure StartCall (K C : Type) where
  settings : MqttBrokerSettings
  env : BrokerCertificateProvider.Environment K C
  StartAsync : (attempt : ℕ) → StartOutcome

def IsPortInUse (ex : Exception) : Bool :=
  match ex.type with
  | .SocketException code => code = .AddressAlreadyInUse
  | _ =>
    match ex.InnerException with
    | some ⟨.SocketException code, _⟩ => code = .AddressAlreadyInUse
    | _ => false

/-- The attempt failed because the port is in use. -/
def StartOutcome.portInUse : StartOutcome → Bool
  | .started => false
  | .failed e => IsPortInUse e

/-- The ports a server binds. -/
def MqttServerOptions.ports {C : Type} (options : MqttServerOptions C) : List Int32 :=
  options.EncryptedEndpointPort :: options.DefaultEndpointPort.toList

def maxRetries : ℕ := 10

namespace MqttBrokerService

variable {K C : Type} (platform : X509Platform K C)

/-- A new server takes the field. -/
def create (s : MqttBrokerService C) (options : MqttServerOptions C) : MqttBrokerService C :=
  { s with servers := s.servers ++ [⟨options, .created⟩], mqttServer := some s.servers.length }

/-- The server of the field changes its status. -/
def setStatus (s : MqttBrokerService C) (status : ServerStatus) : MqttBrokerService C :=
  match s.mqttServer with
  | none => s
  | some i => { s with servers := s.servers.modify i fun server => { server with status := status } }

/-- The attempts of `StartMqttServer`, of which `remaining` are left. -/
def startLoop (options : MqttServerOptions C) (StartAsync : ℕ → StartOutcome) :
    (remaining attempt : ℕ) → MqttBrokerService C → MqttBrokerService C
  | 0, _, s => s
  | remaining + 1, attempt, s =>
    let s := s.create options
    match StartAsync attempt with
    | .started => s.setStatus .listening
    -- The first handler waits and goes on, the second gives up.
    | .failed e => if IsPortInUse e then startLoop options StartAsync remaining (attempt + 1) s else s

/-- The options of a server. -/
def serverOptions (settings : MqttBrokerSettings) (certificate : C) : MqttServerOptions C where
  EncryptedEndpointPort := settings.TlsPort
  DefaultEndpointPort := settings.Port
  certificate := certificate
  SslProtocol := (TlsVersions.Parse settings.TlsVersion).1

/-- The certificate of a start. -/
def certificateOf (call : StartCall K C) : Except Exception C :=
  (BrokerCertificateProvider.GetOrCreate platform call.env call.settings.Certificate).result

def StartMqttServer (s : MqttBrokerService C) (call : StartCall K C) : MqttBrokerService C × Except Exception Unit :=
  match certificateOf platform call with
  | .error e => (s, .error e)
  | .ok certificate =>
    let s := { s with CertificateThumbprint := some (platform.Sha256 certificate).toHexString }
    (s.startLoop (serverOptions call.settings certificate) call.StartAsync maxRetries 1, .ok ())

def StartBroker (s : MqttBrokerService C) (call : StartCall K C) : MqttBrokerService C × Except Exception Unit :=
  if call.settings.EnableBroker then
    match call.settings.IsValid with
    | .error e => (s, .error e)
    | .ok false => (s, throwException "The configuration is invalid")
    | .ok true => s.StartMqttServer platform call
  else (s, .ok ())

def Dispose (s : MqttBrokerService C) : MqttBrokerService C := s.setStatus .stopped

/-- `MqttBrokerHostedService.ExecuteAsync`, as far as it concerns the service; no exception leaves it. -/
def ExecuteAsync (s : MqttBrokerService C) (call : StartCall K C) : MqttBrokerService C :=
  if call.settings.EnableBroker then (s.StartBroker platform call).1 else s

/-- No server of the service holds a configured port. -/
def PortsFree (s : MqttBrokerService C) (settings : MqttBrokerSettings) : Prop :=
  ∀ server ∈ s.servers, server.status = .listening →
    ∀ port ∈ server.options.ports, port ≠ settings.TlsPort ∧ some port ≠ settings.Port

instance (s : MqttBrokerService C) (settings : MqttBrokerSettings) : Decidable (s.PortsFree settings) :=
  inferInstanceAs (Decidable (∀ server ∈ s.servers, server.status = .listening →
    ∀ port ∈ server.options.ports, port ≠ settings.TlsPort ∧ some port ≠ settings.Port))

/-- A server can start only on ports that no other server of the service holds. -/
def Possible (s : MqttBrokerService C) (call : StartCall K C) : Prop :=
  ∀ attempt < maxRetries, call.StartAsync (attempt + 1) = .started → s.PortsFree call.settings

instance (s : MqttBrokerService C) (call : StartCall K C) : Decidable (s.Possible call) :=
  inferInstanceAs (Decidable (∀ attempt < maxRetries, call.StartAsync (attempt + 1) = .started →
    s.PortsFree call.settings))

/-- A start, taken by the hosted service or by a caller. -/
def step (s : MqttBrokerService C) (call : StartCall K C) : Option (MqttBrokerService C) :=
  if s.Possible call then some (s.StartBroker platform call).1 else none

/-- A server of the service listens. -/
def Listening (s : MqttBrokerService C) : Prop := ∃ server ∈ s.servers, server.status = .listening

/-- The service refers to the server that listens, and shows the fingerprint of its certificate. -/
structure KnowsServer (s : MqttBrokerService C) : Prop where
  field : ∀ i server, s.servers[i]? = some server → server.status = .listening → s.mqttServer = some i
  null : (∀ server ∈ s.servers, server.status = .created) → s.CertificateThumbprint = none
  fingerprint : (∃ server ∈ s.servers, server.status ≠ .created) → ∃ server ∈ s.servers, server.status = .listening ∧
    s.CertificateThumbprint = some (platform.Sha256 server.options.certificate).toHexString

/-- The call ends before its first attempt: the broker is disabled, the settings are not valid or there is no
certificate. -/
def Unattempted (call : StartCall K C) : Prop :=
  call.settings.EnableBroker = false ∨ call.settings.IsValid ≠ .ok true ∨ ∃ e, certificateOf platform call = .error e

/-- One of the attempts starts the server, and those before it find the port in use. -/
def Starts (StartAsync : ℕ → StartOutcome) (remaining attempt : ℕ) : Prop :=
  ∃ n < remaining, StartAsync (attempt + n) = .started ∧ ∀ k < n, (StartAsync (attempt + k)).portInUse = true

/-- The call ends before its first attempt, or starts a server where none listens. -/
def Orderly (s : MqttBrokerService C) (call : StartCall K C) : Prop :=
  Unattempted platform call ∨ ¬ s.Listening ∧ Starts call.StartAsync maxRetries 1

/-! ## The attempts -/

section Attempts

variable {StartAsync : ℕ → StartOutcome} {options : MqttServerOptions C} {s : MqttBrokerService C}

theorem not_starts_zero (attempt : ℕ) : ¬ Starts StartAsync 0 attempt := fun ⟨_, h, _⟩ => Nat.not_lt_zero _ h

theorem starts_succ_iff (remaining attempt : ℕ) :
    Starts StartAsync (remaining + 1) attempt ↔ StartAsync attempt = .started ∨
      (StartAsync attempt).portInUse = true ∧ Starts StartAsync remaining (attempt + 1) := by
  constructor
  · rintro ⟨n, hn, hstarted, hbefore⟩
    cases n with
    | zero => exact Or.inl hstarted
    | succ n =>
      refine Or.inr ⟨hbefore 0 (Nat.succ_pos n), n, by omega, ?_, fun k hk => ?_⟩
      · rw [show attempt + 1 + n = attempt + (n + 1) by omega]
        exact hstarted
      · rw [show attempt + 1 + k = attempt + (k + 1) by omega]
        exact hbefore (k + 1) (by omega)
  · rintro (hstarted | ⟨hfirst, n, hn, hstarted, hbefore⟩)
    · exact ⟨0, Nat.succ_pos _, hstarted, nofun⟩
    · refine ⟨n + 1, by omega, ?_, fun k hk => ?_⟩
      · rw [show attempt + (n + 1) = attempt + 1 + n by omega]
        exact hstarted
      · cases k with
        | zero => exact hfirst
        | succ k =>
          rw [show attempt + (k + 1) = attempt + 1 + k by omega]
          exact hbefore k (by omega)

/-- What the attempts leave behind: the servers they created, of which the last has the field and the others do not
listen. -/
structure Attempted (options : MqttServerOptions C) (s t : MqttBrokerService C) (status : ServerStatus) : Prop where
  fingerprint : t.CertificateThumbprint = s.CertificateThumbprint
  servers : ∃ n, t.servers = s.servers ++ (List.replicate n ⟨options, .created⟩ ++ [⟨options, status⟩]) ∧
    t.mqttServer = some (s.servers.length + n)

theorem attempted_create : Attempted options s (s.create options) .created := ⟨rfl, 0, rfl, rfl⟩

theorem attempted_listening : Attempted options s ((s.create options).setStatus .listening) .listening := by
  refine ⟨rfl, 0, ?_, rfl⟩
  simp only [create, setStatus]
  rw [List.modify_eq_take_cons_drop (by simp)]
  simp

theorem Attempted.cons {t : MqttBrokerService C} {status : ServerStatus}
    (h : Attempted options (s.create options) t status) : Attempted options s t status := by
  obtain ⟨n, hservers, hfield⟩ := h.servers
  refine ⟨h.fingerprint, n + 1, ?_, ?_⟩
  · rw [hservers, create, List.append_assoc, List.replicate_succ]
    rfl
  · rw [hfield, create, List.length_append]
    simp [Nat.add_comm, Nat.add_left_comm]

theorem Attempted.listening_last {t : MqttBrokerService C} (h : Attempted options s t .listening) : t.Listening := by
  obtain ⟨n, hservers, -⟩ := h.servers
  refine ⟨⟨options, .listening⟩, ?_, rfl⟩
  rw [hservers]
  simp

/-- **The attempts end with a server in the field**, which listens where one of them starts it. -/
theorem startLoop_eq (StartAsync : ℕ → StartOutcome) (options : MqttServerOptions C) {remaining : ℕ}
    (hremaining : 0 < remaining) (attempt : ℕ) (s : MqttBrokerService C) :
    ∃ status, Attempted options s (s.startLoop options StartAsync remaining attempt) status ∧
      (Starts StartAsync remaining attempt ∧ status = .listening ∨
        ¬ Starts StartAsync remaining attempt ∧ status = .created) := by
  induction remaining generalizing attempt s with
  | zero => exact absurd hremaining (Nat.lt_irrefl 0)
  | succ remaining ih =>
    rw [starts_succ_iff, startLoop]
    cases hout : StartAsync attempt with
    | started => exact ⟨.listening, attempted_listening, Or.inl ⟨Or.inl rfl, rfl⟩⟩
    | failed e =>
      dsimp only
      split_ifs with hport
      · rcases Nat.eq_zero_or_pos remaining with rfl | hpos
        · refine ⟨.created, attempted_create, Or.inr ⟨?_, rfl⟩⟩
          rintro (h | ⟨-, h⟩)
          · cases h
          · exact not_starts_zero _ h
        · obtain ⟨status, hattempted, hstatus⟩ := ih hpos (attempt + 1) (s.create options)
          refine ⟨status, hattempted.cons, hstatus.imp (And.imp_left fun h => Or.inr ⟨hport, h⟩) (And.imp_left ?_)⟩
          rintro hnot (h | ⟨-, h⟩)
          · cases h
          · exact hnot h
      · refine ⟨.created, attempted_create, Or.inr ⟨?_, rfl⟩⟩
        rintro (h | ⟨h, -⟩)
        · cases h
        · exact hport h

end Attempts

/-! ## One start -/

section Start

variable {platform : X509Platform K C} {s t : MqttBrokerService C} {call : StartCall K C}

theorem step_of_possible (h : s.Possible call) : step platform s call = some (s.StartBroker platform call).1 := if_pos h

theorem ExecuteAsync_eq (s : MqttBrokerService C) (call : StartCall K C) :
    s.ExecuteAsync platform call = (s.StartBroker platform call).1 := by
  rw [ExecuteAsync]
  split_ifs with h
  · rfl
  · rw [StartBroker, if_neg h]

theorem StartBroker_of_unattempted (h : Unattempted platform call) : (s.StartBroker platform call).1 = s := by
  rw [StartBroker]
  split_ifs with henable
  · cases hvalid : call.settings.IsValid with
    | error e => rfl
    | ok b =>
      cases b with
      | false => rfl
      | true =>
        rcases h with h | h | ⟨e, h⟩
        · exact absurd h (by simp [henable])
        · exact absurd hvalid h
        · simp [StartMqttServer, h]
  · rfl

/-- Any other call makes its attempts, with the fingerprint of its certificate. -/
theorem exists_attempted (h : ¬ Unattempted platform call) : ∃ certificate status,
    Attempted (serverOptions call.settings certificate)
      { s with CertificateThumbprint := some (platform.Sha256 certificate).toHexString }
      (s.StartBroker platform call).1 status ∧
      (Starts call.StartAsync maxRetries 1 ∧ status = .listening ∨
        ¬ Starts call.StartAsync maxRetries 1 ∧ status = .created) := by
  simp only [Unattempted, not_or, not_exists, Bool.not_eq_false, not_not] at h
  obtain ⟨henable, hvalid, hcertificate⟩ := h
  cases hc : certificateOf platform call with
  | error e => exact absurd hc (hcertificate e)
  | ok certificate =>
    obtain ⟨status, hattempted, hstatus⟩ := startLoop_eq call.StartAsync
      (serverOptions call.settings certificate) (show 0 < maxRetries by decide) 1
      { s with CertificateThumbprint := some (platform.Sha256 certificate).toHexString }
    refine ⟨certificate, status, ?_, hstatus⟩
    rw [StartBroker, if_pos henable, hvalid]
    simp only [StartMqttServer, hc]
    exact hattempted

theorem KnowsServer.created_of_not_listening (hs : KnowsServer platform s) (h : ¬ s.Listening) :
    ∀ server ∈ s.servers, server.status = .created := by
  intro server hserver
  by_contra hne
  obtain ⟨server', hserver', hlistening, -⟩ := hs.fingerprint ⟨server, hserver, hne⟩
  exact h ⟨server', hserver', hlistening⟩

/-- Attempts made while a server listens take the field from it. -/
theorem Attempted.not_listening {options : MqttServerOptions C} {u : MqttBrokerService C} {status : ServerStatus}
    (hattempted : Attempted options u t status) (ht : KnowsServer platform t) : ¬ u.Listening := by
  rintro ⟨server, hserver, hlistening⟩
  obtain ⟨n, hservers, hfield⟩ := hattempted.servers
  obtain ⟨i, hi, hget⟩ := List.getElem_of_mem hserver
  have hold : t.servers[i]? = some server := by
    rw [hservers, List.getElem?_append_left hi, List.getElem?_eq_getElem hi, hget]
  have hindex := ht.field i server hold hlistening
  rw [hfield, Option.some.injEq] at hindex
  omega

/-- Attempts that start no server show the fingerprint of one that does not listen. -/
theorem Attempted.ne_created {options : MqttServerOptions C} {u : MqttBrokerService C} {status : ServerStatus}
    (hattempted : Attempted options u t status) (ht : KnowsServer platform t)
    (hcreated : ∀ server ∈ u.servers, server.status = .created) (hshown : u.CertificateThumbprint ≠ none) :
    status ≠ .created := by
  rintro rfl
  obtain ⟨n, hservers, -⟩ := hattempted.servers
  refine hshown (hattempted.fingerprint.symm.trans (ht.null fun server hserver => ?_))
  rw [hservers] at hserver
  rcases List.mem_append.mp hserver with h | h
  · exact hcreated server h
  · rcases List.mem_append.mp h with h | h
    · rw [List.eq_of_mem_replicate h]
    · rw [List.mem_singleton.mp h]

/-- **Attempts that start a server where none has been started**: the service knows it. -/
theorem Attempted.knowsServer {options : MqttServerOptions C} {u : MqttBrokerService C}
    (hattempted : Attempted options u t .listening) (hcreated : ∀ server ∈ u.servers, server.status = .created)
    (hshown : u.CertificateThumbprint = some (platform.Sha256 options.certificate).toHexString) :
    KnowsServer platform t := by
  obtain ⟨n, hservers, hfield⟩ := hattempted.servers
  have hlast : (⟨options, .listening⟩ : MqttServer C) ∈ t.servers := by
    rw [hservers]
    simp
  refine ⟨fun i server hget hlistening => ?_, fun h => ?_, fun _ => ?_⟩
  · have hcreated' : ∀ server ∈ u.servers ++ List.replicate n (⟨options, .created⟩ : MqttServer C),
        server.status = .created := by
      intro server hserver
      rcases List.mem_append.mp hserver with h | h
      · exact hcreated server h
      · rw [List.eq_of_mem_replicate h]
    rw [hservers, ← List.append_assoc] at hget
    rcases Nat.lt_or_ge i (u.servers ++ List.replicate n (⟨options, .created⟩ : MqttServer C)).length with hi | hi
    · rw [List.getElem?_append_left hi] at hget
      rw [hcreated' server (List.mem_of_getElem? hget)] at hlistening
      cases hlistening
    · have hlen := (List.getElem?_eq_some_iff.mp hget).1
      rw [List.length_append, List.length_append, List.length_replicate, List.length_singleton] at hlen
      rw [List.length_append, List.length_replicate] at hi
      rw [hfield]
      congr 1
      omega
  · cases h _ hlast
  · exact ⟨_, hlast, rfl, hattempted.fingerprint.trans hshown⟩

/-- **A start that makes an attempt while a server listens** loses that server, however the attempts end. -/
theorem not_knowsServer_of_listening (hs : s.Listening) (h : ¬ Unattempted platform call) :
    ¬ KnowsServer platform (s.StartBroker platform call).1 := by
  obtain ⟨_, _, hattempted, -⟩ := exists_attempted (s := s) h
  exact fun ht => hattempted.not_listening ht hs

/-- **A start keeps the service informed just where it is orderly.** -/
theorem orderly_iff (hs : KnowsServer platform s) (hstep : step platform s call = some t) :
    Orderly platform s call ↔ KnowsServer platform t := by
  obtain rfl : (s.StartBroker platform call).1 = t := by
    rw [step] at hstep
    split_ifs at hstep
    exact Option.some.inj hstep
  by_cases hun : Unattempted platform call
  · rw [StartBroker_of_unattempted hun]
    exact iff_of_true (Or.inl hun) hs
  · obtain ⟨certificate, status, hattempted, hstatus⟩ := exists_attempted (s := s) hun
    rw [Orderly, or_iff_right hun]
    constructor
    · rintro ⟨hlistening, hstarts⟩
      obtain ⟨-, rfl⟩ := hstatus.resolve_right fun h => h.1 hstarts
      exact hattempted.knowsServer (hs.created_of_not_listening hlistening) rfl
    · intro ht
      have hlistening : ¬ s.Listening := fun h => not_knowsServer_of_listening h hun ht
      have hcreated := hattempted.ne_created ht (hs.created_of_not_listening hlistening) nofun
      exact ⟨hlistening, (hstatus.resolve_right fun h => hcreated h.2).1⟩

/-- **`Dispose` stops every server of a service that knows it.** -/
theorem Dispose_stops (hs : KnowsServer platform s) : ¬ s.Dispose.Listening := by
  rintro ⟨server, hserver, hlistening⟩
  obtain ⟨i, hi⟩ := List.mem_iff_getElem?.mp hserver
  cases hfield : s.mqttServer with
  | none =>
    simp only [Dispose, setStatus, hfield] at hi
    have hindex := hs.field i server hi hlistening
    rw [hfield] at hindex
    cases hindex
  | some j =>
    simp only [Dispose, setStatus, hfield, List.getElem?_modify] at hi
    obtain ⟨server', hget, heq⟩ := Option.map_eq_some_iff.mp hi
    split_ifs at heq with hij
    · rw [← heq] at hlistening
      cases hlistening
    · obtain rfl : server' = server := heq
      have hindex := hs.field i _ hget hlistening
      rw [hfield, Option.some.injEq] at hindex
      exact hij hindex

end Start

/-- The service before its first start. -/
def initial : MqttBrokerService C := {}

theorem knowsServer_initial : KnowsServer platform (initial : MqttBrokerService C) := by
  refine ⟨fun i server h => ?_, fun _ => rfl, ?_⟩
  · cases h
  · rintro ⟨server, hserver, -⟩
    cases hserver

/-- **The runs in which the service always knows the server it runs**: each start ends before its first attempt, or
is made where no server listens and starts one. -/
theorem knows_server_iff {calls : List (StartCall K C)} {s : MqttBrokerService C}
    (h : Run.exec (step platform) initial calls = some s) :
    Run.Always (step platform) (KnowsServer platform) initial calls ↔
      Run.Meets (step platform) (Orderly platform) initial calls :=
  Run.always_iff_meets (fun _ _ _ hs hstep => orderly_iff hs hstep) (knowsServer_initial platform) h

/-! ## Starts on the small platform -/

open BrokerCertificateProvider

/-- Settings of a broker that is enabled. -/
def smallBrokerSettings : MqttBrokerSettings where
  EnableBroker := true
  Users := some [some { UserName := some "user".toList, Password := some "password".toList }]

/-- A start on a day, on a machine where no file operation fails. -/
def smallCall (day : ℕ) (StartAsync : ℕ → StartOutcome) : StartCall Unit ℕ where
  settings := smallBrokerSettings
  env := environment smallPlatform smallHost emptyDisk (smallMoment day)
  StartAsync := StartAsync

/-- Every attempt finds the port in use. -/
def portTaken (_ : ℕ) : StartOutcome := .failed ⟨.SocketException .AddressAlreadyInUse, []⟩

theorem smallCall_attempted (day : ℕ) (hfirst : 1 ≤ day) (hlast : day ≤ 3000000) (StartAsync : ℕ → StartOutcome) :
    ¬ Unattempted smallPlatform (smallCall day StartAsync) := by
  obtain ⟨c, hc⟩ := exists_createAt_small (s := {}) (by decide) ⟨_, rfl⟩ day hfirst hlast
  rintro (h | h | ⟨e, h⟩)
  · cases h
  · exact h rfl
  · have hok : certificateOf smallPlatform (smallCall day StartAsync) = .ok c := hc
    rw [hok] at h
    cases h

theorem starts_first : Starts (fun _ => .started) maxRetries 1 := ⟨0, by decide, rfl, nofun⟩

/-- A start that is switched off. -/
def offCall : StartCall Unit ℕ := { smallCall 1 portTaken with settings := {} }

theorem knows_server_iff_start : ∃ s,
    Run.exec (step smallPlatform) initial [offCall, smallCall 2 fun _ => .started, offCall] = some s ∧ s.Listening ∧
      Run.Always (step smallPlatform) (KnowsServer smallPlatform) initial
        [offCall, smallCall 2 fun _ => .started, offCall] := by
  have hoff : ∀ s : MqttBrokerService ℕ, step smallPlatform s offCall = some s :=
    fun _ => step_of_possible fun _ _ h => by cases h
  have hpossible : initial.Possible (smallCall 2 fun _ => .started) := by
    rintro _ _ _ server hserver
    cases hserver
  have hexec : Run.exec (step smallPlatform) initial [offCall, smallCall 2 fun _ => .started, offCall] =
      some (initial.StartBroker smallPlatform (smallCall 2 fun _ => .started)).1 :=
    Run.exec_cons_eq_some.mpr ⟨_, hoff _, Run.exec_cons_eq_some.mpr ⟨_, step_of_possible hpossible,
      Run.exec_cons_eq_some.mpr ⟨_, hoff _, rfl⟩⟩⟩
  obtain ⟨_, status, hattempted, hstatus⟩ :=
    exists_attempted (s := initial) (smallCall_attempted 2 (by decide) (by decide) fun _ => .started)
  obtain ⟨-, rfl⟩ := hstatus.resolve_right fun h => h.1 starts_first
  have hmeets : Run.Meets (step smallPlatform) (Orderly smallPlatform) initial
      [offCall, smallCall 2 fun _ => .started, offCall] := by
    refine .cons (hoff _) (Or.inl (Or.inl rfl)) (.cons (step_of_possible hpossible) (Or.inr ⟨?_, starts_first⟩)
      (.cons (hoff _) (Or.inl (Or.inl rfl)) trivial))
    rintro ⟨server, hserver, -⟩
    cases hserver
  exact ⟨_, hexec, hattempted.listening_last, (knows_server_iff smallPlatform hexec).mpr hmeets⟩

/-- **A second start takes the field from the server that listens**, though none of its attempts starts one. -/
theorem second_start_loses_server : ∃ s, Run.exec (step smallPlatform) initial
    [smallCall 2 fun _ => .started, smallCall 3 portTaken] = some s ∧ ¬ KnowsServer smallPlatform s := by
  have hfirst : initial.Possible (smallCall 2 fun _ => .started) := by
    rintro _ _ _ server hserver
    cases hserver
  have hsecond : ∀ s : MqttBrokerService ℕ, s.Possible (smallCall 3 portTaken) := fun _ _ _ h => nomatch h
  obtain ⟨_, status, hattempted, hstatus⟩ :=
    exists_attempted (s := initial) (smallCall_attempted 2 (by decide) (by decide) fun _ => .started)
  obtain ⟨-, rfl⟩ := hstatus.resolve_right fun h => h.1 starts_first
  exact ⟨_, Run.exec_cons_eq_some.mpr ⟨_, step_of_possible hfirst,
    Run.exec_cons_eq_some.mpr ⟨_, step_of_possible (hsecond _), rfl⟩⟩,
    not_knowsServer_of_listening hattempted.listening_last (smallCall_attempted 3 (by decide) (by decide) portTaken)⟩

end MqttBrokerService

end MqttServices
