import MqttServices.Broker.Watchdog

/-!
# The service process

The broker of the service, its watchdog and the other processes of the machine, in any order of their steps.

* `ServiceProcess`, `ServiceProcess.step`: an attempt of `StartMqttServer`, a round of the watchdog, a port another
  process takes or gives up, a restart by the recovery policy.
* **`ServiceProcess.starts_as_StartBroker`**: whatever comes between its attempts, a start ends as `StartBroker` does.
* **`ServiceProcess.spares_broker`**: the watchdog never stops a broker that listens.
* `ServiceProcess.Rounded`, **`ServiceProcess.rounded`**: what a round in time can do.
* **`ServiceProcess.heals`**: once the ports are free, the broker listens after a few steps, and from then on.
-/

namespace MqttServices

variable {K C : Type}

/-- The ports the servers of the service listen on. -/
def MqttBrokerService.listeningPorts (s : MqttBrokerService C) : List Int32 :=
  (s.servers.filter fun server => server.status = .listening).flatMap fun server => server.options.ports

instance (s : MqttBrokerService C) : Decidable s.Listening :=
  inferInstanceAs (Decidable (∃ server ∈ s.servers, server.status = .listening))

/-- One process of the service on its machine. -/
structure ServiceProcess (C : Type) where
  broker : MqttBrokerService C
  /-- what `StartMqttServer` works with, and the attempts that are left -/
  starting : Option (MqttServerOptions C × ℕ)
  watchdog : BrokerWatchdog.Progress
  /-- the host is told to stop -/
  stopped : Bool
  /-- the ports other processes listen on -/
  held : List Int32

namespace ServiceProcess

/-- One step. -/
inductive Action (C : Type) where
  /-- `StartAsync` of the next attempt ends -/
  | attempt (outcome : StartOutcome)
  /-- a round of the watchdog: the head of its loop, the reading of the listener table, the delay -/
  | round (IsCancellationRequested : Bool) (reading : Except Exception Unit) (canceled : Bool)
  | hold (port : Int32)
  | release (port : Int32)
  /-- the recovery policy starts the service again; what `GetOrCreate` answers then -/
  | restart (certificate : Except Exception C)

variable (platform : X509Platform K C) (watchdogSettings : WatchdogSettings) (settings : MqttBrokerSettings)

/-- `StartBroker` up to its first attempt. -/
def prepare (certificate : Except Exception C) : MqttBrokerService C × Option (MqttServerOptions C × ℕ) :=
  if settings.EnableBroker ∧ settings.IsValid = .ok true then
    match certificate with
    | .error _ => ({}, none)
    | .ok certificate =>
      ({ CertificateThumbprint := some (platform.Sha256 certificate).toHexString },
        some (MqttBrokerService.serverOptions settings certificate, maxRetries))
  else ({}, none)

/-- The host is told to stop by `StopApplication`, and by an exception that a background service does not catch. -/
def stopsHost (progress : BrokerWatchdog.Progress) (StopApplication : Bool) : Bool :=
  match progress with
  | .threw _ => true
  | _ => StopApplication

/-- The watchdog of a new process, after its delay. -/
def startup : BrokerWatchdog.Progress :=
  BrokerWatchdog.startup watchdogSettings settings ⟨false, fun _ => false, fun _ => .ok [], fun _ => false⟩

/-- A new process. -/
def start (certificate : Except Exception C) (held : List Int32) : ServiceProcess C where
  broker := (prepare platform settings certificate).1
  starting := (prepare platform settings certificate).2
  watchdog := startup watchdogSettings settings
  stopped := stopsHost (startup watchdogSettings settings) false
  held := held

/-- One pass of the loop of `StartMqttServer`, after which `remaining` attempts are left. -/
def attempt (broker : MqttBrokerService C) (options : MqttServerOptions C) (remaining : ℕ) (outcome : StartOutcome) :
    MqttBrokerService C × Option (MqttServerOptions C × ℕ) :=
  match outcome with
  | .started => ((broker.create options).setStatus .listening, none)
  | .failed e =>
    (broker.create options, if IsPortInUse e ∧ 0 < remaining then some (options, remaining) else none)

/-- What the watchdog sees in a round. -/
def observed (s : ServiceProcess C) (IsCancellationRequested : Bool) (reading : Except Exception Unit)
    (canceled : Bool) : BrokerWatchdog.Environment where
  startupCanceled := false
  IsCancellationRequested _ := IsCancellationRequested
  GetActiveTcpListeners _ := reading.map fun _ => s.broker.listeningPorts ++ s.held
  canceled _ := canceled

/-- After a round of the watchdog, in which it called `StopApplication` or not. -/
def afterRound (s : ServiceProcess C) (result : BrokerWatchdog.Progress × Bool) : ServiceProcess C :=
  { s with watchdog := result.1, stopped := s.stopped || stopsHost result.1 result.2 }

/-- Nobody holds any of the ports. -/
def Vacant (s : ServiceProcess C) (ports : List Int32) : Prop := ∀ port ∈ ports, port ∉ s.broker.listeningPorts ++ s.held

instance (s : ServiceProcess C) (ports : List Int32) : Decidable (s.Vacant ports) :=
  List.decidableBAll (fun port => port ∉ s.broker.listeningPorts ++ s.held) ports

/-- The step function. A server starts only on ports that nobody holds, and nobody takes a port it listens on. -/
def step (s : ServiceProcess C) : Action C → Option (ServiceProcess C)
  | .attempt outcome =>
    match s.starting with
    | some (options, remaining + 1) =>
      if outcome = .started → s.Vacant options.ports then
        some { s with
          broker := (attempt s.broker options remaining outcome).1
          starting := (attempt s.broker options remaining outcome).2 }
      else none
    | _ => none
  | .round head reading canceled =>
    match s.watchdog with
    | .running n =>
      some (s.afterRound (BrokerWatchdog.round watchdogSettings settings (s.observed head reading canceled) 0 n))
    | _ => none
  | .hold port => if port ∈ s.broker.listeningPorts then none else some { s with held := port :: s.held }
  | .release port => some { s with held := s.held.filter (· ≠ port) }
  | .restart certificate =>
    if s.stopped then some (start platform watchdogSettings settings certificate s.held) else none

/-- The broker listens, and the service goes on. -/
def Up (s : ServiceProcess C) : Prop := s.broker.Listening ∧ s.stopped = false

variable {platform watchdogSettings settings} {s s' : ServiceProcess C}

/-! ## What a step does -/

@[simp]
theorem afterRound_broker (result : BrokerWatchdog.Progress × Bool) : (s.afterRound result).broker = s.broker := rfl

@[simp]
theorem afterRound_starting (result : BrokerWatchdog.Progress × Bool) :
    (s.afterRound result).starting = s.starting := rfl

@[simp]
theorem afterRound_watchdog (result : BrokerWatchdog.Progress × Bool) : (s.afterRound result).watchdog = result.1 := rfl

@[simp]
theorem afterRound_running_stopped (n : ℕ) : (s.afterRound (.running n, false)).stopped = s.stopped :=
  Bool.or_false _

@[simp]
theorem afterRound_returned_stopped : (s.afterRound (.returned, true)).stopped = true :=
  Bool.or_true _

theorem step_attempt {outcome : StartOutcome}
    (h : step platform watchdogSettings settings s (.attempt outcome) = some s') : ∃ options remaining,
      s.starting = some (options, remaining + 1) ∧
      (outcome = .started → s.Vacant options.ports) ∧
      s' = { s with broker := (attempt s.broker options remaining outcome).1
                    starting := (attempt s.broker options remaining outcome).2 } := by
  simp only [step] at h
  split at h
  · rename_i options remaining hstarting
    split_ifs at h with hfree
    exact ⟨options, remaining, hstarting, hfree, (Option.some_inj.mp h).symm⟩
  · cases h

theorem step_round {head : Bool} {reading : Except Exception Unit} {canceled : Bool}
    (h : step platform watchdogSettings settings s (.round head reading canceled) = some s') : ∃ n,
      s.watchdog = .running n ∧
      s' = s.afterRound (BrokerWatchdog.round watchdogSettings settings (s.observed head reading canceled) 0 n) := by
  simp only [step] at h
  split at h
  · rename_i n hn
    exact ⟨n, hn, (Option.some_inj.mp h).symm⟩
  · cases h

theorem step_hold {port : Int32} (h : step platform watchdogSettings settings s (.hold port) = some s') :
    port ∉ s.broker.listeningPorts ∧ s' = { s with held := port :: s.held } := by
  simp only [step] at h
  split_ifs at h with hmem
  exact ⟨hmem, (Option.some_inj.mp h).symm⟩

theorem step_release {port : Int32} (h : step platform watchdogSettings settings s (.release port) = some s') :
    s' = { s with held := s.held.filter (· ≠ port) } := (Option.some_inj.mp h).symm

theorem step_restart {certificate : Except Exception C}
    (h : step platform watchdogSettings settings s (.restart certificate) = some s') :
    s.stopped = true ∧ s' = start platform watchdogSettings settings certificate s.held := by
  simp only [step] at h
  split_ifs at h with hstopped
  exact ⟨hstopped, (Option.some_inj.mp h).symm⟩

/-! ## The start -/

/-- The service when its start has ended, where attempt `n` is the next one and they end as `StartAsync` says. -/
def finished (s : ServiceProcess C) (StartAsync : ℕ → StartOutcome) (n : ℕ) : MqttBrokerService C :=
  match s.starting with
  | none => s.broker
  | some (options, remaining) => s.broker.startLoop options StartAsync remaining n

/-- The outcome of an attempt. -/
def Action.outcome? : Action C → Option StartOutcome
  | .attempt outcome => some outcome
  | _ => none

/-- A restart. -/
def Action.isRestart : Action C → Bool
  | .restart _ => true
  | _ => false

/-- **An attempt is a pass of the loop.** -/
theorem startLoop_attempt (broker : MqttBrokerService C) (options : MqttServerOptions C) (StartAsync : ℕ → StartOutcome)
    (remaining n : ℕ) : broker.startLoop options StartAsync (remaining + 1) n =
      match attempt broker options remaining (StartAsync n) with
      | (broker, none) => broker
      | (broker, some (options, remaining)) => broker.startLoop options StartAsync remaining (n + 1) := by
  rw [MqttBrokerService.startLoop]
  cases StartAsync n with
  | started => rfl
  | failed e =>
    rw [attempt]
    dsimp only
    by_cases hport : IsPortInUse e = true
    · rw [if_pos hport]
      cases remaining with
      | zero => simp [MqttBrokerService.startLoop]
      | succ remaining => simp [hport]
    · rw [if_neg hport, if_neg fun h => hport h.1]

theorem finished_step {a : Action C} (ha : a.isRestart = false)
    (hs : step platform watchdogSettings settings s a = some s')
    (StartAsync : ℕ → StartOutcome) (n : ℕ) (hn : ∀ outcome, a.outcome? = some outcome → StartAsync n = outcome) :
    s'.finished StartAsync (n + a.outcome?.toList.length) = s.finished StartAsync n := by
  cases a with
  | attempt outcome =>
    obtain ⟨options, remaining, hstarting, -, rfl⟩ := step_attempt hs
    rw [finished, finished, hstarting, ← hn outcome rfl]
    dsimp only
    rw [startLoop_attempt]
    rcases attempt s.broker options remaining (StartAsync n) with ⟨broker, - | ⟨options', remaining'⟩⟩
    · rfl
    · rfl
  | round head reading canceled =>
    obtain ⟨m, -, rfl⟩ := step_round hs
    rfl
  | hold port =>
    obtain ⟨-, rfl⟩ := step_hold hs
    rfl
  | release port =>
    rw [step_release hs]
    rfl
  | restart certificate => cases ha

/-- A run without a restart, where the attempts end as `StartAsync` says from attempt `n` on. -/
theorem finished_run {StartAsync : ℕ → StartOutcome} {as : List (Action C)} {n : ℕ}
    (hrun : Run.exec (step platform watchdogSettings settings) s as = some s')
    (hrestart : ∀ a ∈ as, a.isRestart = false)
    (houtcomes : ∀ i outcome, (as.filterMap Action.outcome?)[i]? = some outcome → StartAsync (n + i) = outcome) :
    ∃ m, s'.finished StartAsync m = s.finished StartAsync n := by
  induction as generalizing s n with
  | nil =>
    cases hrun
    exact ⟨n, rfl⟩
  | cons a as ih =>
    obtain ⟨t, ht, hrest⟩ := Run.exec_cons_eq_some.mp hrun
    obtain ⟨ha, hrestart⟩ := List.forall_mem_cons.mp hrestart
    rw [List.filterMap_cons] at houtcomes
    cases hout : a.outcome? with
    | none =>
      rw [hout] at houtcomes
      have hhead := finished_step ha ht StartAsync n fun outcome h => by
        rw [hout] at h
        cases h
      rw [hout, Option.toList_none, List.length_nil, Nat.add_zero] at hhead
      obtain ⟨m, hm⟩ := ih hrest hrestart houtcomes
      exact ⟨m, hm.trans hhead⟩
    | some first =>
      rw [hout] at houtcomes
      have hhead := finished_step ha ht StartAsync n fun outcome h => by
        rw [hout] at h
        exact houtcomes 0 outcome h
      rw [hout, Option.toList_some, List.length_singleton] at hhead
      obtain ⟨m, hm⟩ := @ih t (n + 1) hrest hrestart fun i outcome h => by
        rw [Nat.add_assoc, Nat.add_comm 1 i]
        exact houtcomes (i + 1) outcome h
      exact ⟨m, hm.trans hhead⟩

/-- **A start ends as `StartBroker` does**, whatever the watchdog and the other processes do between its attempts: in
every run without a restart, where the start has ended, the service is as `StartBroker` leaves it. -/
theorem starts_as_StartBroker {call : StartCall K C} {held : List Int32} {as : List (Action C)}
    (hrun : Run.exec (step platform watchdogSettings call.settings)
      (start platform watchdogSettings call.settings (MqttBrokerService.certificateOf platform call) held) as = some s)
    (hrestart : ∀ a ∈ as, a.isRestart = false) (hended : s.starting = none)
    (houtcomes : ∀ i outcome, (as.filterMap Action.outcome?)[i]? = some outcome → call.StartAsync (1 + i) = outcome) :
    s.broker = (MqttBrokerService.StartBroker platform MqttBrokerService.initial call).1 := by
  obtain ⟨m, hm⟩ := finished_run hrun hrestart houtcomes
  rw [finished, hended] at hm
  refine hm.trans ?_
  rw [MqttBrokerService.StartBroker, finished, start, prepare.eq_def]
  by_cases henable : call.settings.EnableBroker = true
  · rw [if_pos henable]
    by_cases hvalid : call.settings.IsValid = .ok true
    · rw [hvalid, if_pos ⟨henable, rfl⟩]
      dsimp only
      rw [MqttBrokerService.StartMqttServer]
      cases MqttBrokerService.certificateOf platform call with
      | error e => rfl
      | ok certificate => rfl
    · rw [if_neg fun h => hvalid h.2]
      cases hresult : call.settings.IsValid with
      | error e => rfl
      | ok b =>
        cases b with
        | false => rfl
        | true => exact absurd hresult hvalid
  · rw [if_neg henable, if_neg fun h => henable h.1]
    rfl

/-! ## The watchdog and the broker -/

open BrokerWatchdog (configuredPorts Missed)

/-- Every server that listens holds the configured ports, and none does while a start is under way. -/
structure PortInv (settings : MqttBrokerSettings) (s : ServiceProcess C) : Prop where
  listening : ∀ server ∈ s.broker.servers, server.status = .listening → server.options.ports = configuredPorts settings
  starting : ∀ options remaining, s.starting = some (options, remaining) →
    options.ports = configuredPorts settings ∧ ¬ s.broker.Listening ∧ 0 < remaining

theorem portInv_of_broker (h : PortInv settings s) (hbroker : s'.broker = s.broker)
    (hstarting : s'.starting = s.starting) : PortInv settings s' :=
  ⟨by rw [hbroker]; exact h.listening, by rw [hbroker, hstarting]; exact h.starting⟩

theorem portInv_start (certificate : Except Exception C) (held : List Int32) :
    PortInv settings (start platform watchdogSettings settings certificate held) := by
  have hnone : ∀ thumbprint : Option Str, ¬ MqttBrokerService.Listening
      ({ CertificateThumbprint := thumbprint } : MqttBrokerService C) := by
    rintro thumbprint ⟨server, hserver, -⟩
    exact absurd hserver List.not_mem_nil
  rw [start, prepare.eq_def]
  split_ifs with h
  · cases certificate with
    | error e => exact ⟨fun server hserver => absurd hserver List.not_mem_nil, fun _ _ h => by cases h⟩
    | ok certificate =>
      refine ⟨fun server hserver => absurd hserver List.not_mem_nil, fun options remaining h => ?_⟩
      cases h
      exact ⟨rfl, hnone _, by decide⟩
  · exact ⟨fun server hserver => absurd hserver List.not_mem_nil, fun _ _ h => by cases h⟩

theorem listening_create (broker : MqttBrokerService C) (options : MqttServerOptions C) {server : MqttServer C}
    (hserver : server ∈ (broker.create options).servers) (hlistening : server.status = .listening) :
    server ∈ broker.servers := by
  rcases List.mem_append.mp hserver with h | h
  · exact h
  · rw [List.mem_singleton.mp h] at hlistening
    cases hlistening

theorem listening_started (broker : MqttBrokerService C) (options : MqttServerOptions C) :
    ((broker.create options).setStatus .listening).Listening ∧
      ∀ server ∈ ((broker.create options).setStatus .listening).servers, server.status = .listening →
        server.options = options ∨ server ∈ broker.servers := by
  have hattempted : MqttBrokerService.Attempted options broker ((broker.create options).setStatus .listening)
      .listening := MqttBrokerService.attempted_listening
  obtain ⟨n, hservers, -⟩ := hattempted.servers
  refine ⟨MqttBrokerService.attempted_listening.listening_last, fun server hserver hlistening => ?_⟩
  rw [hservers] at hserver
  rcases List.mem_append.mp hserver with h | h
  · exact Or.inr h
  · rcases List.mem_append.mp h with h | h
    · exact Or.inl (congrArg MqttServer.options (List.eq_of_mem_replicate h))
    · exact Or.inl (congrArg MqttServer.options (List.mem_singleton.mp h))

theorem portInv_step (h : PortInv settings s) {a : Action C}
    (hs : step platform watchdogSettings settings s a = some s') : PortInv settings s' := by
  cases a with
  | attempt outcome =>
    obtain ⟨options, remaining, hstarting, -, rfl⟩ := step_attempt hs
    obtain ⟨hports, hlistening, -⟩ := h.starting options _ hstarting
    cases outcome with
    | started =>
      refine ⟨fun server hserver hstatus => ?_, fun _ _ hsome => by cases hsome⟩
      rcases (listening_started s.broker options).2 server hserver hstatus with heq | hold
      · rw [heq, hports]
      · exact h.listening server hold hstatus
    | failed e =>
      refine ⟨fun server hserver hstatus => h.listening server (listening_create _ _ hserver hstatus) hstatus,
        fun options' remaining' hsome => ?_⟩
      have hsome' : (if IsPortInUse e ∧ 0 < remaining then some (options, remaining) else none) =
          some (options', remaining') := hsome
      split_ifs at hsome' with hmore
      cases hsome'
      refine ⟨hports, ?_, hmore.2⟩
      rintro ⟨server, hserver, hstatus⟩
      exact hlistening ⟨server, listening_create _ _ hserver hstatus, hstatus⟩
  | round head reading canceled =>
    obtain ⟨n, -, rfl⟩ := step_round hs
    exact portInv_of_broker h rfl rfl
  | hold port =>
    obtain ⟨-, rfl⟩ := step_hold hs
    exact portInv_of_broker h rfl rfl
  | release port =>
    rw [step_release hs]
    exact portInv_of_broker h rfl rfl
  | restart certificate =>
    obtain ⟨-, rfl⟩ := step_restart hs
    exact portInv_start certificate s.held

theorem PortInv.seen (h : PortInv settings s) (hlistening : s.broker.Listening) :
    ∀ port ∈ configuredPorts settings, port ∈ s.broker.listeningPorts := by
  intro port hport
  obtain ⟨server, hserver, hstatus⟩ := hlistening
  refine List.mem_flatMap.mpr ⟨server, List.mem_filter.mpr ⟨hserver, decide_eq_true hstatus⟩, ?_⟩
  rw [h.listening server hserver hstatus]
  exact hport

/-- A reading of the listener table fails in the ways the watchdog expects. -/
def Action.Expected : Action C → Prop
  | .round _ reading _ => ∀ e, reading = .error e → BrokerWatchdog.readingFailed e = true
  | _ => True

theorem stopsHost_interval (hinterval : AcceptsDelay watchdogSettings.IntervalSeconds = true)
    (env : BrokerWatchdog.Environment) (k n : ℕ) :
    stopsHost (BrokerWatchdog.interval watchdogSettings env k n) false = false := by
  rw [BrokerWatchdog.interval, Delay_of_accepted hinterval]
  cases env.canceled k with
  | false => rfl
  | true => rfl

/-- **The host is stopped only in a round that misses a port**, where the readings fail as expected. -/
theorem missed_of_stops (hvalid : settings.IsValid = .ok true)
    (hinterval : AcceptsDelay watchdogSettings.IntervalSeconds = true) {env : BrokerWatchdog.Environment} {k n : ℕ}
    (hreading : ∀ e, env.GetActiveTcpListeners k = .error e → BrokerWatchdog.readingFailed e = true)
    {result : BrokerWatchdog.Progress × Bool} (hround : BrokerWatchdog.round watchdogSettings settings env k n = result)
    (h : stopsHost result.1 result.2 = true) : Missed settings (env.GetActiveTcpListeners k) := by
  subst hround
  rw [BrokerWatchdog.round, (BrokerWatchdog.ExpectedPorts_eq_ports settings hvalid).1] at h
  by_cases hhead : env.IsCancellationRequested k = true
  · rw [if_pos hhead] at h
    cases h
  rw [if_neg hhead] at h
  cases hread : env.GetActiveTcpListeners k with
  | error e =>
    rw [hread, BrokerWatchdog.MissingListeners, if_pos (hreading e hread)] at h
    exact absurd ((stopsHost_interval hinterval env k n).symm.trans h) Bool.false_ne_true
  | ok listening =>
    by_contra hmissed
    have hnil := (BrokerWatchdog.MissingListeners_eq_nil_iff listening (configuredPorts settings)).mpr
      ((BrokerWatchdog.not_missed_iff listening).mp hmissed)
    rw [hread, BrokerWatchdog.MissingListeners] at h
    dsimp only at h
    rw [if_pos hnil] at h
    exact absurd ((stopsHost_interval hinterval env k 0).symm.trans h) Bool.false_ne_true

/-- What a step that stops the host finds: no broker, and a configured port that nobody holds. -/
theorem PortInv.stops (h : PortInv settings s) (hvalid : settings.IsValid = .ok true)
    (hinterval : AcceptsDelay watchdogSettings.IntervalSeconds = true) {a : Action C} (ha : a.Expected)
    (hs : step platform watchdogSettings settings s a = some s') (hbefore : s.stopped = false)
    (hafter : s'.stopped = true) : ¬ s.broker.Listening ∧ ∃ port ∈ configuredPorts settings, port ∉ s.held := by
  cases a with
  | round head reading canceled =>
    obtain ⟨n, -, rfl⟩ := step_round hs
    have hstops : (s.stopped || _) = true := hafter
    rw [hbefore, Bool.false_or] at hstops
    have hreading : ∀ e, (s.observed head reading canceled).GetActiveTcpListeners 0 = .error e →
        BrokerWatchdog.readingFailed e = true := by
      intro e he
      cases reading with
      | error e' => exact ha e (congrArg Except.error (Except.error.inj he))
      | ok u => cases he
    have hmissed := missed_of_stops hvalid hinterval hreading rfl hstops
    cases reading with
    | error e => exact hmissed.elim
    | ok u =>
      obtain ⟨port, hport, hunseen⟩ : ∃ port ∈ configuredPorts settings, port ∉ s.broker.listeningPorts ++ s.held :=
        hmissed
      refine ⟨fun hlistening => hunseen (List.mem_append_left _ (h.seen hlistening port hport)), port, hport, ?_⟩
      exact fun hheld => hunseen (List.mem_append_right _ hheld)
  | attempt outcome =>
    obtain ⟨options, remaining, -, -, rfl⟩ := step_attempt hs
    exact absurd (hbefore.symm.trans hafter) Bool.false_ne_true
  | hold port =>
    obtain ⟨-, rfl⟩ := step_hold hs
    exact absurd (hbefore.symm.trans hafter) Bool.false_ne_true
  | release port =>
    rw [step_release hs] at hafter
    exact absurd (hbefore.symm.trans hafter) Bool.false_ne_true
  | restart certificate =>
    obtain ⟨hstopped, -⟩ := step_restart hs
    exact absurd (hbefore.symm.trans hstopped) Bool.false_ne_true

theorem PortInv.up_step (h : PortInv settings s) (hvalid : settings.IsValid = .ok true)
    (hinterval : AcceptsDelay watchdogSettings.IntervalSeconds = true) {a : Action C} (ha : a.Expected)
    (hs : step platform watchdogSettings settings s a = some s') (hup : s.Up) : s'.Up := by
  have hgoes : s'.stopped = false := by
    by_contra hstopped
    exact (h.stops hvalid hinterval ha hs hup.2 (Bool.not_eq_false _ ▸ hstopped)).1 hup.1
  refine ⟨?_, hgoes⟩
  cases a with
  | attempt outcome =>
    obtain ⟨options, remaining, hstarting, -, -⟩ := step_attempt hs
    exact absurd hup.1 (h.starting options _ hstarting).2.1
  | round head reading canceled =>
    obtain ⟨n, -, rfl⟩ := step_round hs
    exact hup.1
  | hold port =>
    obtain ⟨-, rfl⟩ := step_hold hs
    exact hup.1
  | release port =>
    rw [step_release hs]
    exact hup.1
  | restart certificate =>
    obtain ⟨hstopped, -⟩ := step_restart hs
    exact absurd (hup.2.symm.trans hstopped) Bool.false_ne_true

/-- **The watchdog spares a broker that listens**: after every run, a broker that listens on a host that has not been
told to stop goes on listening, and the host goes on; a step that stops the host finds no broker and a configured port
that nobody holds. -/
theorem spares_broker (hvalid : settings.IsValid = .ok true)
    (hinterval : AcceptsDelay watchdogSettings.IntervalSeconds = true) {certificate : Except Exception C}
    {held : List Int32} {as : List (Action C)} (hrun : Run.exec (step platform watchdogSettings settings)
      (start platform watchdogSettings settings certificate held) as = some s) :
    (s.Up → ∀ bs t, (∀ b ∈ bs, b.Expected) → Run.exec (step platform watchdogSettings settings) s bs = some t → t.Up) ∧
    ∀ a t, a.Expected → step platform watchdogSettings settings s a = some t → s.stopped = false → t.stopped = true →
      ¬ s.broker.Listening ∧ ∃ port ∈ configuredPorts settings, port ∉ s.held := by
  have hinv : PortInv settings s := Run.invariant (fun _ _ _ h hs => portInv_step h hs) (portInv_start _ _) hrun
  refine ⟨fun hup bs t hexpected hbs => ?_, fun a t ha hs hbefore hafter => ?_⟩
  · have hboth : PortInv settings t ∧ t.Up := by
      refine Run.invariant_of_meets (I := fun u => PortInv settings u ∧ u.Up) (fun _ b _ h hb hs => ?_) ⟨hinv, hup⟩
        (Run.Meets.of_forall hexpected s) hbs
      exact ⟨portInv_step h.1 hs, h.1.up_step hvalid hinterval hb hs h.2⟩
    exact hboth.2
  · exact hinv.stops hvalid hinterval ha hs hbefore hafter

open MqttBrokerService (smallBrokerSettings portTaken)
open BrokerCertificateProvider (smallPlatform)

theorem spares_broker_held : ∃ s t, Run.exec (step smallPlatform {} smallBrokerSettings)
      (start smallPlatform {} smallBrokerSettings (.ok 5) []) [.attempt .started] = some s ∧
    Run.exec (step smallPlatform {} smallBrokerSettings) s [.hold 1883, .round false (.ok ()) false] = some t ∧
    t.Up := by
  have hrun : Run.exec (step smallPlatform {} smallBrokerSettings)
      (start smallPlatform {} smallBrokerSettings (.ok 5) []) [.attempt .started] = some _ := rfl
  refine ⟨_, _, hrun, rfl, ?_⟩
  refine (spares_broker (by decide) (by decide) hrun).1 ⟨by decide, rfl⟩
    [.hold 1883, .round false (.ok ()) false] _ ?_ rfl
  intro b hb
  rcases List.mem_cons.mp hb with rfl | hb
  · trivial
  · obtain rfl := List.mem_singleton.mp hb
    intro e he
    cases he

/-! ## A start that failed -/

/-- Settings under which the broker is started and watched. -/
structure Watched (watchdogSettings : WatchdogSettings) (settings : MqttBrokerSettings) : Prop where
  valid : settings.IsValid = .ok true
  broker : settings.EnableBroker = true
  enabled : watchdogSettings.Enabled = true
  grace : AcceptsDelay watchdogSettings.StartupGraceSeconds = true
  interval : AcceptsDelay watchdogSettings.IntervalSeconds = true
  limit : 1 ≤ watchdogSettings.FailuresBeforeStop.toInt

/-- The grace outlasts the attempts, nothing is canceled, a reading fails only in the ways the watchdog expects, and a
start has its certificate. -/
def Timely (s : ServiceProcess C) : Action C → Prop
  | .round head reading canceled => s.starting = none ∧ head = false ∧ canceled = false ∧
      ∀ e, reading = .error e → BrokerWatchdog.readingFailed e = true
  | .restart certificate => ∃ c, certificate = .ok c
  | _ => True

/-- Besides, the other processes leave the configured ports alone, and an attempt that finds them free succeeds. -/
def Favorable (settings : MqttBrokerSettings) (s : ServiceProcess C) (a : Action C) : Prop :=
  Timely s a ∧ (∀ port, a = .hold port → port ∉ configuredPorts settings) ∧
    ∀ outcome, a = .attempt outcome → (∀ port ∈ configuredPorts settings, port ∉ s.held) → outcome = .started

/-- The steps that bring the service on: an attempt, a round that reads the table, and a restart. -/
def Action.isProductive : Action C → Bool
  | .attempt _ | .round _ (.ok _) _ | .restart _ => true
  | _ => false

/-- Where the service can stand: it goes on, with a counter below the limit, or it has been stopped without a broker. -/
structure Phases (watchdogSettings : WatchdogSettings) (settings : MqttBrokerSettings) (s : ServiceProcess C) :
    Prop where
  ports : PortInv settings s
  running : s.stopped = false →
    ∃ n : ℕ, s.watchdog = .running n ∧ (n : ℤ) < watchdogSettings.FailuresBeforeStop.toInt
  stopped : s.stopped = true → s.starting = none ∧ ¬ s.broker.Listening ∧ ∀ n, s.watchdog ≠ .running n

/-- How far the service is from a broker that listens. -/
def rank (watchdogSettings : WatchdogSettings) (s : ServiceProcess C) : ℕ :=
  if s.broker.Listening then 0
  else if s.starting.isSome then 1
  else if s.stopped then 2
  else
    match s.watchdog with
    | .running n => 2 + (watchdogSettings.FailuresBeforeStop.toInt.toNat - n)
    | _ => 0

theorem startup_of_watched (h : Watched watchdogSettings settings) {env : BrokerWatchdog.Environment}
    (hstartup : env.startupCanceled = false) : BrokerWatchdog.startup watchdogSettings settings env = .running 0 := by
  rw [BrokerWatchdog.startup, h.enabled, (BrokerWatchdog.ExpectedPorts_eq_ports settings h.valid).1,
    Delay_of_accepted h.grace, hstartup]
  rfl

theorem interval_of_watched (h : Watched watchdogSettings settings) {env : BrokerWatchdog.Environment} {k : ℕ}
    (hcanceled : env.canceled k = false) (n : ℕ) : BrokerWatchdog.interval watchdogSettings env k n = .running n := by
  rw [BrokerWatchdog.interval, Delay_of_accepted h.interval, hcanceled]
  rfl

theorem round_of_read (h : Watched watchdogSettings settings) (s : ServiceProcess C) (n : ℕ) :
    BrokerWatchdog.round watchdogSettings settings (s.observed false (.ok ()) false) 0 n =
      if Missed settings (.ok (s.broker.listeningPorts ++ s.held)) then
        if watchdogSettings.FailuresBeforeStop.toInt ≤ n + 1 then (.returned, true) else (.running (n + 1), false)
      else (.running 0, false) := by
  have hinterval : ∀ m, BrokerWatchdog.interval watchdogSettings (s.observed false (.ok ()) false) 0 m = .running m :=
    interval_of_watched h rfl
  have hread : (s.observed false (.ok ()) false).GetActiveTcpListeners 0 =
      .ok (s.broker.listeningPorts ++ s.held) := rfl
  have hhead : ¬ (s.observed false (.ok ()) false).IsCancellationRequested 0 = true := Bool.false_ne_true
  rw [BrokerWatchdog.round, if_neg hhead, hread, (BrokerWatchdog.ExpectedPorts_eq_ports settings h.valid).1,
    BrokerWatchdog.MissingListeners]
  dsimp only
  simp only [hinterval]
  by_cases hmissed : Missed settings (.ok (s.broker.listeningPorts ++ s.held))
  · rw [if_pos hmissed, if_neg]
    rw [BrokerWatchdog.MissingListeners_eq_nil_iff]
    exact fun hall => (BrokerWatchdog.not_missed_iff _).mpr hall hmissed
  · rw [if_neg hmissed, if_pos]
    exact (BrokerWatchdog.MissingListeners_eq_nil_iff _ _).mpr ((BrokerWatchdog.not_missed_iff _).mp hmissed)

theorem round_of_unread (h : Watched watchdogSettings settings) (s : ServiceProcess C) (n : ℕ) {e : Exception}
    (he : BrokerWatchdog.readingFailed e = true) :
    BrokerWatchdog.round watchdogSettings settings (s.observed false (.error e) false) 0 n = (.running n, false) := by
  have hread : (s.observed false (.error e) false).GetActiveTcpListeners 0 = .error e := rfl
  have hhead : ¬ (s.observed false (.error e) false).IsCancellationRequested 0 = true := Bool.false_ne_true
  rw [BrokerWatchdog.round, if_neg hhead, hread, BrokerWatchdog.MissingListeners, if_pos he]
  dsimp only
  rw [interval_of_watched h rfl]

/-- How a round in time ends after `n` misses: unread, with every port found, with one more miss, or with one too many. -/
inductive Rounded (watchdogSettings : WatchdogSettings) (settings : MqttBrokerSettings) (s : ServiceProcess C) (n : ℕ) :
    Except Exception Unit → BrokerWatchdog.Progress × Bool → Prop
  | unread (e : Exception) : Rounded watchdogSettings settings s n (.error e) (.running n, false)
  | found : ¬ Missed settings (.ok (s.broker.listeningPorts ++ s.held)) →
      Rounded watchdogSettings settings s n (.ok ()) (.running 0, false)
  | counted : (n + 1 : ℤ) < watchdogSettings.FailuresBeforeStop.toInt →
      Rounded watchdogSettings settings s n (.ok ()) (.running (n + 1), false)
  | stopped : Missed settings (.ok (s.broker.listeningPorts ++ s.held)) →
      Rounded watchdogSettings settings s n (.ok ()) (.returned, true)

/-- **What a round in time can do.** -/
theorem rounded (h : Watched watchdogSettings settings) (s : ServiceProcess C) (n : ℕ) {reading : Except Exception Unit}
    (hreading : ∀ e, reading = .error e → BrokerWatchdog.readingFailed e = true) :
    Rounded watchdogSettings settings s n reading
      (BrokerWatchdog.round watchdogSettings settings (s.observed false reading false) 0 n) := by
  cases reading with
  | error e =>
    rw [round_of_unread h s n (hreading e rfl)]
    exact .unread e
  | ok u =>
    rw [round_of_read h s n]
    by_cases hmissed : Missed settings (.ok (s.broker.listeningPorts ++ s.held))
    · rw [if_pos hmissed]
      by_cases hlimit : watchdogSettings.FailuresBeforeStop.toInt ≤ n + 1
      · rw [if_pos hlimit]
        exact .stopped hmissed
      · rw [if_neg hlimit]
        exact .counted (Int.not_le.mp hlimit)
    · rw [if_neg hmissed]
      exact .found hmissed

theorem listeningPorts_of_not_listening {broker : MqttBrokerService C} (h : ¬ broker.Listening) :
    broker.listeningPorts = [] := by
  rw [MqttBrokerService.listeningPorts, List.filter_eq_nil_iff.mpr fun server hserver hstatus =>
    h ⟨server, hserver, of_decide_eq_true hstatus⟩]
  rfl

theorem missed_of_free (hlistening : ¬ s.broker.Listening) (hfree : ∀ port ∈ configuredPorts settings, port ∉ s.held) :
    Missed settings (.ok (s.broker.listeningPorts ++ s.held)) := by
  rw [listeningPorts_of_not_listening hlistening, List.nil_append]
  exact ⟨settings.TlsPort, List.mem_cons_self, hfree _ List.mem_cons_self⟩

theorem phases_start (h : Watched watchdogSettings settings) (certificate : Except Exception C) (held : List Int32) :
    Phases watchdogSettings settings (start platform watchdogSettings settings certificate held) := by
  have hstartup : startup watchdogSettings settings = .running 0 := startup_of_watched h rfl
  refine ⟨portInv_start certificate held, fun _ => ⟨0, hstartup, ?_⟩, fun hstopped => ?_⟩
  · have hlimit := h.limit
    omega
  · have hfalse : stopsHost (startup watchdogSettings settings) false = true := hstopped
    rw [hstartup] at hfalse
    cases hfalse

theorem Phases.goes (h : Phases watchdogSettings settings s) {n : ℕ} (hn : s.watchdog = .running n) :
    s.stopped = false ∧ (n : ℤ) < watchdogSettings.FailuresBeforeStop.toInt := by
  have hgoes : s.stopped = false := by
    by_contra hstopped
    exact (h.stopped (Bool.not_eq_false _ ▸ hstopped)).2.2 n hn
  obtain ⟨m, hm, hlt⟩ := h.running hgoes
  obtain rfl : m = n := BrokerWatchdog.Progress.running.inj (hm.symm.trans hn)
  exact ⟨hgoes, hlt⟩

theorem Phases.afterRound_running (h : Phases watchdogSettings settings s) (hgoes : s.stopped = false) {n : ℕ}
    (hlt : (n : ℤ) < watchdogSettings.FailuresBeforeStop.toInt) :
    Phases watchdogSettings settings (s.afterRound (.running n, false)) := by
  refine ⟨portInv_of_broker h.ports rfl rfl, fun _ => ⟨n, rfl, hlt⟩, fun hstopped => ?_⟩
  rw [afterRound_running_stopped, hgoes] at hstopped
  cases hstopped

theorem Phases.afterRound_returned (h : Phases watchdogSettings settings s) (hstarting : s.starting = none)
    (hmissed : Missed settings (.ok (s.broker.listeningPorts ++ s.held))) :
    Phases watchdogSettings settings (s.afterRound (.returned, true)) := by
  refine ⟨portInv_of_broker h.ports rfl rfl, fun hstopped => ?_, fun _ => ⟨hstarting, fun hlistening => ?_, by simp⟩⟩
  · rw [afterRound_returned_stopped] at hstopped
    cases hstopped
  · exact (BrokerWatchdog.not_missed_iff _).mpr
      (fun port hport => List.mem_append_left _ (h.ports.seen hlistening port hport)) hmissed

theorem phases_step (h : Watched watchdogSettings settings) (hphases : Phases watchdogSettings settings s)
    {a : Action C} (ha : Timely s a) (hs : step platform watchdogSettings settings s a = some s') :
    Phases watchdogSettings settings s' := by
  have hports := portInv_step hphases.ports hs
  cases a with
  | attempt outcome =>
    obtain ⟨options, remaining, hstarting, -, rfl⟩ := step_attempt hs
    refine ⟨hports, hphases.running, fun hstopped => ?_⟩
    exact absurd ((hphases.stopped hstopped).1.symm.trans hstarting) (by simp)
  | round head reading canceled =>
    obtain ⟨n, hn, rfl⟩ := step_round hs
    obtain ⟨hstarting, rfl, rfl, hreading⟩ := ha
    obtain ⟨hgoes, hlt⟩ := hphases.goes hn
    have hround := rounded h s n hreading
    generalize BrokerWatchdog.round watchdogSettings settings (s.observed false reading false) 0 n = result at hround ⊢
    cases hround with
    | unread e => exact hphases.afterRound_running hgoes hlt
    | found hfound => exact hphases.afterRound_running hgoes (Int.lt_of_lt_of_le Int.zero_lt_one h.limit)
    | counted hbelow => exact hphases.afterRound_running hgoes (by exact_mod_cast hbelow)
    | stopped hmissed => exact hphases.afterRound_returned hstarting hmissed
  | hold port =>
    obtain ⟨-, rfl⟩ := step_hold hs
    exact ⟨hports, hphases.running, hphases.stopped⟩
  | release port =>
    obtain rfl := step_release hs
    exact ⟨hports, hphases.running, hphases.stopped⟩
  | restart certificate =>
    obtain ⟨-, rfl⟩ := step_restart hs
    exact phases_start h certificate s.held

/-- The other processes hold no configured port. -/
def Free (settings : MqttBrokerSettings) (s : ServiceProcess C) : Prop :=
  ∀ port ∈ configuredPorts settings, port ∉ s.held

instance (s : ServiceProcess C) : Decidable (Free settings s) :=
  List.decidableBAll (fun port => port ∉ s.held) (configuredPorts settings)

theorem free_step {a : Action C} (hfree : Free settings s) (ha : Favorable settings s a)
    (hs : step platform watchdogSettings settings s a = some s') : Free settings s' := by
  cases a with
  | attempt outcome =>
    obtain ⟨options, remaining, -, -, rfl⟩ := step_attempt hs
    exact hfree
  | round head reading canceled =>
    obtain ⟨n, -, rfl⟩ := step_round hs
    exact hfree
  | hold other =>
    obtain ⟨-, rfl⟩ := step_hold hs
    intro port hport hheld
    rcases List.mem_cons.mp hheld with rfl | hbefore
    · exact ha.2.1 port rfl hport
    · exact hfree port hport hbefore
  | release other =>
    rw [step_release hs]
    intro port hport hheld
    exact hfree port hport (List.mem_of_mem_filter hheld)
  | restart certificate =>
    obtain ⟨-, rfl⟩ := step_restart hs
    exact hfree

theorem rank_of_listening (h : s.broker.Listening) : rank watchdogSettings s = 0 := if_pos h

theorem rank_of_starting (h : ¬ s.broker.Listening) (hstarting : s.starting.isSome = true) :
    rank watchdogSettings s = 1 := by
  rw [rank, if_neg h, if_pos hstarting]

theorem rank_of_stopped (h : ¬ s.broker.Listening) (hstarting : s.starting = none) (hstopped : s.stopped = true) :
    rank watchdogSettings s = 2 := by
  rw [rank, if_neg h, hstarting, if_neg (by simp), if_pos hstopped]

theorem rank_of_running (h : ¬ s.broker.Listening) (hstarting : s.starting = none) (hstopped : s.stopped = false)
    {n : ℕ} (hn : s.watchdog = .running n) :
    rank watchdogSettings s = 2 + (watchdogSettings.FailuresBeforeStop.toInt.toNat - n) := by
  rw [rank, if_neg h, hstarting, if_neg (by simp), hstopped, if_neg Bool.false_ne_true, hn]

theorem rank_congr (hbroker : s'.broker = s.broker) (hstarting : s'.starting = s.starting)
    (hstopped : s'.stopped = s.stopped) (hwatchdog : s'.watchdog = s.watchdog) :
    rank watchdogSettings s' = rank watchdogSettings s := by
  rw [rank, rank, hbroker, hstarting, hstopped, hwatchdog]

/-- The service has to go this far at most. -/
theorem rank_bound (s : ServiceProcess C) :
    rank watchdogSettings s ≤ watchdogSettings.FailuresBeforeStop.toInt.toNat + 2 := by
  unfold rank
  split_ifs
  · omega
  · omega
  · omega
  · split <;> omega

theorem Phases.up (h : Phases watchdogSettings settings s) (hrank : rank watchdogSettings s = 0) : s.Up := by
  by_cases hlistening : s.broker.Listening
  · refine ⟨hlistening, ?_⟩
    by_contra hstopped
    exact (h.stopped (Bool.not_eq_false _ ▸ hstopped)).2.1 hlistening
  · cases hstarting : s.starting with
    | some prepared =>
      rw [rank_of_starting hlistening (by rw [hstarting]; rfl)] at hrank
      omega
    | none =>
      cases hstopped : s.stopped with
      | true =>
        rw [rank_of_stopped hlistening hstarting hstopped] at hrank
        omega
      | false =>
        obtain ⟨n, hn, hlt⟩ := h.running hstopped
        rw [rank_of_running hlistening hstarting hstopped hn] at hrank
        omega

/-- **A favorable step**: none raises the rank, and a productive one lowers it. -/
theorem rank_step (h : Watched watchdogSettings settings) (hphases : Phases watchdogSettings settings s)
    (hfree : Free settings s) {a : Action C} (ha : Favorable settings s a)
    (hs : step platform watchdogSettings settings s a = some s') :
    rank watchdogSettings s' ≤ rank watchdogSettings s - a.isProductive.toNat := by
  cases a with
  | attempt outcome =>
    have hstarted : outcome = .started := ha.2.2 outcome rfl hfree
    obtain ⟨options, remaining, -, -, rfl⟩ := step_attempt hs
    subst hstarted
    rw [rank_of_listening (listening_started s.broker options).1]
    exact Nat.zero_le _
  | round head reading canceled =>
    obtain ⟨n, hn, rfl⟩ := step_round hs
    obtain ⟨hstarting, rfl, rfl, hreading⟩ := ha.1
    obtain ⟨hgoes, hlt⟩ := hphases.goes hn
    by_cases hlistening : s.broker.Listening
    · rw [rank_of_listening (by simpa using hlistening)]
      exact Nat.zero_le _
    have hlistening' : ∀ result, ¬ (s.afterRound result).broker.Listening := fun result => by
      simpa using hlistening
    have hstarting' : ∀ result, (s.afterRound result).starting = none := fun result => by simpa using hstarting
    have hrunning : ∀ m, (s.afterRound (.running m, false)).stopped = false := fun m => by simpa using hgoes
    have hround := rounded h s n hreading
    generalize BrokerWatchdog.round watchdogSettings settings (s.observed false reading false) 0 n = result at hround ⊢
    rw [rank_of_running hlistening hstarting hgoes hn]
    cases hround with
    | unread e =>
      rw [rank_of_running (hlistening' _) (hstarting' _) (hrunning n) rfl]
      exact Nat.le_refl _
    | found hfound => exact absurd (missed_of_free hlistening hfree) hfound
    | counted hbelow =>
      rw [rank_of_running (hlistening' _) (hstarting' _) (hrunning (n + 1)) rfl, Action.isProductive, Bool.toNat_true]
      omega
    | stopped hmissed =>
      rw [rank_of_stopped (hlistening' _) (hstarting' _) afterRound_returned_stopped, Action.isProductive,
        Bool.toNat_true]
      omega
  | hold port =>
    obtain ⟨-, rfl⟩ := step_hold hs
    exact (rank_congr rfl rfl rfl rfl).le
  | release port =>
    rw [step_release hs]
    exact (rank_congr rfl rfl rfl rfl).le
  | restart certificate =>
    obtain ⟨hstopped, rfl⟩ := step_restart hs
    obtain ⟨hstarting, hlistening, -⟩ := hphases.stopped hstopped
    obtain ⟨c, rfl⟩ := ha.1
    rw [rank_of_stopped hlistening hstarting hstopped]
    have hprepare : (start platform watchdogSettings settings (.ok c) s.held).starting =
        some (MqttBrokerService.serverOptions settings c, maxRetries) := by
      rw [start, prepare, if_pos ⟨h.broker, h.valid⟩]
    have hports : PortInv settings (start platform watchdogSettings settings (.ok c) s.held) := portInv_start _ _
    rw [rank_of_starting (hports.starting _ _ hprepare).2.1 (by rw [hprepare]; rfl)]
    exact Nat.le_refl 1

/-- **The service is never stuck**: some productive step can be taken, and it is a favorable one. -/
theorem Phases.productive (hphases : Phases watchdogSettings settings s) (hfree : Free settings s) (certificate : C) :
    ∃ a, a.isProductive = true ∧ Favorable settings s a ∧
      ∃ t, step platform watchdogSettings settings s a = some t := by
  cases hstarting : s.starting with
  | some prepared =>
    obtain ⟨options, remaining⟩ := prepared
    obtain ⟨hports, hlistening, hpos⟩ := hphases.ports.starting options remaining hstarting
    obtain ⟨remaining, rfl⟩ := Nat.exists_eq_succ_of_ne_zero hpos.ne'
    refine ⟨.attempt .started, rfl, ⟨trivial, by simp, fun _ heq _ => (Action.attempt.inj heq).symm⟩, ?_⟩
    rw [step, hstarting]
    dsimp only
    rw [if_pos]
    · exact ⟨_, rfl⟩
    · intro _ port hport
      rw [listeningPorts_of_not_listening hlistening, List.nil_append]
      exact hfree port (hports ▸ hport)
  | none =>
    cases hstopped : s.stopped with
    | true =>
      refine ⟨.restart (.ok certificate), rfl, ⟨⟨certificate, rfl⟩, by simp, by simp⟩, ?_⟩
      rw [step, if_pos hstopped]
      exact ⟨_, rfl⟩
    | false =>
      obtain ⟨n, hn, -⟩ := hphases.running hstopped
      refine ⟨.round false (.ok ()) false, rfl, ⟨⟨hstarting, rfl, rfl, by simp⟩, by simp, by simp⟩, ?_⟩
      rw [step, hn]
      exact ⟨_, rfl⟩

/-- **A broker that could not start heals**: after every run whose rounds are in time, once the other processes hold no
configured port and leave them alone, a productive step can always be taken, and after as many of them as the watchdog
tolerates misses and two more the broker listens and the service goes on. -/
theorem heals (h : Watched watchdogSettings settings) {certificate : C} {held : List Int32} {as : List (Action C)}
    (has : Run.Meets (step platform watchdogSettings settings) Timely
      (start platform watchdogSettings settings (.ok certificate) held) as)
    (hrun : Run.exec (step platform watchdogSettings settings)
      (start platform watchdogSettings settings (.ok certificate) held) as = some s) (hfree : Free settings s)
    {bs : List (Action C)} {t : ServiceProcess C}
    (hbs : Run.Meets (step platform watchdogSettings settings) (Favorable settings) s bs)
    (hrest : Run.exec (step platform watchdogSettings settings) s bs = some t) :
    (∃ a, a.isProductive = true ∧ Favorable settings t a ∧ ∃ u, step platform watchdogSettings settings t a = some u) ∧
    (watchdogSettings.FailuresBeforeStop.toInt.toNat + 2 ≤ bs.countP Action.isProductive → t.Up) := by
  have hphases : Phases watchdogSettings settings s :=
    Run.invariant_of_meets (fun _ _ _ hphases ha hs => phases_step h hphases ha hs) (phases_start h _ _) has hrun
  have hstep : ∀ s a s', Phases watchdogSettings settings s ∧ Free settings s → Favorable settings s a →
      step platform watchdogSettings settings s a = some s' → Phases watchdogSettings settings s' ∧ Free settings s' :=
    fun _ _ _ hinv ha hs => ⟨phases_step h hinv.1 ha.1 hs, free_step hinv.2 ha hs⟩
  have hinv := Run.invariant_of_meets hstep ⟨hphases, hfree⟩ hbs hrest
  refine ⟨hinv.1.productive hinv.2 certificate, fun hcount => hinv.1.up ?_⟩
  have hrank : rank watchdogSettings t ≤ rank watchdogSettings s - bs.countP Action.isProductive :=
    Run.rank_le hstep (fun _ _ _ hinv ha hs => rank_step h hinv.1 hinv.2 ha hs) ⟨hphases, hfree⟩ hbs hrest
  have hle := @rank_bound C watchdogSettings s
  omega

/-- A start all of whose attempts find the port taken, until nobody holds it any more. -/
def missedStart : List (Action ℕ) := List.replicate maxRetries (.attempt (portTaken 1)) ++ [.release 8883]

/-- Two misses, a restart and an attempt. -/
def recovery : List (Action ℕ) :=
  [.round false (.ok ()) false, .round false (.ok ()) false, .restart (.ok 6), .attempt .started]

theorem timely_missedStart (s : ServiceProcess ℕ) :
    Run.Meets (step smallPlatform {} smallBrokerSettings) Timely s missedStart := by
  rw [missedStart]
  generalize maxRetries = n
  induction n generalizing s with
  | zero => exact ⟨trivial, fun _ _ => trivial⟩
  | succ n ih => exact ⟨trivial, fun t _ => ih t⟩

theorem exec_missedStart : ∃ s t,
    Run.exec (step smallPlatform {} smallBrokerSettings) (start smallPlatform {} smallBrokerSettings (.ok 5) [8883])
      missedStart = some s ∧ Free smallBrokerSettings s ∧
    Run.Meets (step smallPlatform {} smallBrokerSettings) (Favorable smallBrokerSettings) s recovery ∧
    Run.exec (step smallPlatform {} smallBrokerSettings) s recovery = some t := by
  refine ⟨_, _, rfl, by decide, Run.meets_exec_cons rfl ?_ (Run.meets_exec_cons rfl ?_
    (Run.meets_exec_cons rfl ?_ (Run.meets_exec_cons rfl ?_ ⟨trivial, rfl⟩)))⟩
  · exact ⟨⟨rfl, rfl, rfl, by simp⟩, by simp, by simp⟩
  · exact ⟨⟨rfl, rfl, rfl, by simp⟩, by simp, by simp⟩
  · exact ⟨⟨6, rfl⟩, by simp, by simp⟩
  · exact ⟨trivial, by simp, fun _ heq _ => (Action.attempt.inj heq).symm⟩

theorem heals_missedStart : ∃ s t,
    Run.exec (step smallPlatform {} smallBrokerSettings) (start smallPlatform {} smallBrokerSettings (.ok 5) [8883])
      missedStart = some s ∧
    Run.exec (step smallPlatform {} smallBrokerSettings) s recovery = some t ∧ t.Up := by
  obtain ⟨s, t, hrun, hfree, hbs, hrest⟩ := exec_missedStart
  have hwatched : Watched {} smallBrokerSettings := ⟨by decide, rfl, rfl, by decide, by decide, by decide⟩
  exact ⟨s, t, hrun, hrest, (heals hwatched (timely_missedStart _) hrun hfree hbs hrest).2 (by decide)⟩

end ServiceProcess

end MqttServices
