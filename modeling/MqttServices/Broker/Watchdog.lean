import MqttServices.Broker.BrokerService
import MqttServices.Common.Clock
import MqttServices.Lib.Streak

/-!
# The watchdog

* `ExpectedPorts`, `MissingListeners`: what a round checks; **`ExpectedPorts_eq_ports`**: the ports the broker opens.
* `ExecuteAsync`: the loop, turn by turn.
* `Phase`: the counter is a count of misses since the last healthy round; **`phase_ExecuteAsync`**.
* **`stops_at_first_outage`**: the application is stopped at the first persistent outage and at no other time.
-/

namespace MqttServices

structure WatchdogSettings where
  Enabled : Bool := true
  StartupGraceSeconds : Int32 := 45
  IntervalSeconds : Int32 := 60
  FailuresBeforeStop : Int32 := 2
  deriving DecidableEq

namespace BrokerWatchdog

/-- What the environment answers: to the delay after startup, and in each round to the head of the loop, to the reading
of the listening ports and to the delay. -/
structure Environment where
  startupCanceled : Bool
  IsCancellationRequested : ℕ → Bool
  GetActiveTcpListeners : ℕ → Except Exception (List Int32)
  canceled : ℕ → Bool

/-- Where the loop stands; `running` carries `consecutiveFailures`. -/
inductive Progress where
  | running (consecutiveFailures : ℕ)
  | returned
  | threw (e : Exception)
  deriving DecidableEq

/-- The loop, with the rounds in which it called `StopApplication`. -/
structure Watch where
  progress : Progress
  stops : List ℕ
  deriving DecidableEq

def ExpectedPorts (brokerSettings : MqttBrokerSettings) : List Int32 :=
  match brokerSettings.Port with
  | none => [brokerSettings.TlsPort]
  | some port => if 0 < port ∧ port ≤ 65535 then [brokerSettings.TlsPort, port] else [brokerSettings.TlsPort]

/-- The exceptions of a reading that are caught. -/
def readingFailed (e : Exception) : Bool :=
  e.type = .other "NetworkInformationException".toList || e.type = .other "PlatformNotSupportedException".toList

/-- `MissingListeners`: `none` where the check itself failed. -/
def MissingListeners (listeners : Except Exception (List Int32)) (ports : List Int32) :
    Except Exception (Option (List Int32)) :=
  match listeners with
  | .ok listening => .ok (some (ports.filter fun port => !listening.contains port))
  | .error e => if readingFailed e then .ok none else .error e

variable (settings : WatchdogSettings) (brokerSettings : MqttBrokerSettings) (env : Environment)

/-- The delay of a round. -/
def interval (k consecutiveFailures : ℕ) : Progress :=
  match Delay settings.IntervalSeconds (env.canceled k) with
  | .elapsed => .running consecutiveFailures
  | .OperationCanceledException => .returned
  | .ArgumentOutOfRangeException => .threw ⟨.ArgumentOutOfRangeException, []⟩

/-- Round `k` of the loop, and whether it calls `StopApplication`. -/
def round (k consecutiveFailures : ℕ) : Progress × Bool :=
  if env.IsCancellationRequested k then (.returned, false)
  else
    match MissingListeners (env.GetActiveTcpListeners k) (ExpectedPorts brokerSettings) with
    | .error e => (.threw e, false)
    -- the check itself failed, and the counter stays where it is
    | .ok none => (interval settings env k consecutiveFailures, false)
    | .ok (some missing) =>
      if missing.length = 0 then (interval settings env k 0, false)
      else if settings.FailuresBeforeStop.toInt ≤ consecutiveFailures + 1 then (.returned, true)
      else (interval settings env k (consecutiveFailures + 1), false)

/-- `ExecuteAsync` up to the loop. -/
def startup : Progress :=
  if !settings.Enabled then .returned
  else if (ExpectedPorts brokerSettings).length = 0 then .returned
  else
    match Delay settings.StartupGraceSeconds env.startupCanceled with
    | .elapsed => .running 0
    | .OperationCanceledException => .returned
    | .ArgumentOutOfRangeException => .threw ⟨.ArgumentOutOfRangeException, []⟩

/-- `ExecuteAsync`, before round `n`. -/
def ExecuteAsync : ℕ → Watch
  | 0 => ⟨startup settings brokerSettings env, []⟩
  | n + 1 =>
    match ExecuteAsync n with
    | ⟨.running consecutiveFailures, stops⟩ =>
      ⟨(round settings brokerSettings env n consecutiveFailures).1,
        if (round settings brokerSettings env n consecutiveFailures).2 then stops ++ [n] else stops⟩
    | watch => watch

/-! ## The ports -/

/-- The configured ports. -/
def configuredPorts (brokerSettings : MqttBrokerSettings) : List Int32 :=
  brokerSettings.TlsPort :: brokerSettings.Port.toList

/-- A readable round missed a configured port. -/
def Missed (brokerSettings : MqttBrokerSettings) : Except Exception (List Int32) → Prop
  | .ok listening => ∃ port ∈ configuredPorts brokerSettings, port ∉ listening
  | .error _ => False

/-- A readable round found every configured port. -/
def Healthy (brokerSettings : MqttBrokerSettings) : Except Exception (List Int32) → Prop
  | .ok listening => ∀ port ∈ configuredPorts brokerSettings, port ∈ listening
  | .error _ => False

instance : DecidablePred (Missed brokerSettings)
  | .ok listening => inferInstanceAs (Decidable (∃ port ∈ configuredPorts brokerSettings, port ∉ listening))
  | .error _ => inferInstanceAs (Decidable False)

/-- **The ports checked are those the broker opens.** -/
theorem ExpectedPorts_eq_ports (hvalid : brokerSettings.IsValid = .ok true) :
    ExpectedPorts brokerSettings = configuredPorts brokerSettings ∧
      ∀ (C : Type) (certificate : C),
        configuredPorts brokerSettings = (MqttBrokerService.serverOptions brokerSettings certificate).ports := by
  refine ⟨?_, fun C certificate => rfl⟩
  obtain ⟨-, hport, -⟩ := (MqttBrokerSettings.IsValid_eq_ok_iff _ _).mp hvalid
  rw [ExpectedPorts, configuredPorts]
  cases h : brokerSettings.Port with
  | none => rfl
  | some port =>
    rw [h, Option.any_some, MqttBrokerSettings.PortOutOfRange, Bool.or_eq_false_iff, decide_eq_false_iff_not,
      decide_eq_false_iff_not, Int32.not_le, Int32.not_lt] at hport
    exact if_pos hport

/-! ## The counter -/

/-- What a round is to the counter. -/
def observe (listeners : Except Exception (List Int32)) : Streak.Observation :=
  match listeners with
  | .ok listening => if Missed brokerSettings (.ok listening) then .hit else .reset
  | .error _ => .pass

/-- The counter before round `k`. -/
def failures (k : ℕ) : ℕ := Streak.count (fun i => observe brokerSettings (env.GetActiveTcpListeners i)) k

/-- Nothing was canceled before round `k`. -/
def Uncanceled (k : ℕ) : Prop :=
  env.startupCanceled = false ∧ ∀ i < k, env.IsCancellationRequested i = false ∧ env.canceled i = false

/-- Round `k` takes place unless the loop was ended before. -/
def Reached (k : ℕ) : Prop := Uncanceled env k ∧ env.IsCancellationRequested k = false

/-- What is asked of the settings and of the readings. -/
structure Admissible : Prop where
  valid : brokerSettings.IsValid = .ok true
  enabled : settings.Enabled = true
  grace : AcceptsDelay settings.StartupGraceSeconds = true
  interval : AcceptsDelay settings.IntervalSeconds = true
  limit : 1 ≤ settings.FailuresBeforeStop.toInt
  readings : ∀ k e, env.GetActiveTcpListeners k = .error e → readingFailed e = true

variable {settings brokerSettings env} {k n : ℕ}

theorem MissingListeners_eq_nil_iff (listening ports : List Int32) :
    ((ports.filter fun port => !listening.contains port).length = 0) ↔ ∀ port ∈ ports, port ∈ listening := by
  rw [List.length_eq_zero_iff, List.filter_eq_nil_iff]
  simp

theorem not_missed_iff (listening : List Int32) :
    ¬ Missed brokerSettings (.ok listening) ↔ Healthy brokerSettings (.ok listening) := by
  simp only [Missed, Healthy, not_exists, not_and, not_not]

theorem observe_eq_hit_iff (listeners : Except Exception (List Int32)) :
    observe brokerSettings listeners = .hit ↔ Missed brokerSettings listeners := by
  cases listeners with
  | error e => simp [observe, Missed]
  | ok listening =>
    rw [observe]
    split_ifs with h
    · simp [h]
    · simp [h]

theorem observe_eq_reset_iff (listeners : Except Exception (List Int32)) :
    observe brokerSettings listeners = .reset ↔ Healthy brokerSettings listeners := by
  cases listeners with
  | error e => simp [observe, Healthy]
  | ok listening =>
    rw [← not_missed_iff, observe]
    split_ifs with h
    · simp [h]
    · simp [h]

theorem failures_succ (k : ℕ) : failures brokerSettings env (k + 1) =
    Streak.next (failures brokerSettings env k) (observe brokerSettings (env.GetActiveTcpListeners k)) := rfl

theorem interval_eq (h : Admissible settings brokerSettings env) (k m : ℕ) :
    interval settings env k m = if env.canceled k then .returned else .running m := by
  rw [interval, Delay_of_accepted h.interval]
  cases env.canceled k <;> rfl

theorem round_of_lt (h : Admissible settings brokerSettings env) (hhead : env.IsCancellationRequested k = false)
    (hlt : (failures brokerSettings env (k + 1) : ℤ) < settings.FailuresBeforeStop.toInt) :
    round settings brokerSettings env k (failures brokerSettings env k) =
      (interval settings env k (failures brokerSettings env (k + 1)), false) := by
  rw [failures_succ] at hlt ⊢
  rw [round, hhead, (ExpectedPorts_eq_ports brokerSettings h.valid).1]
  cases hread : env.GetActiveTcpListeners k with
  | error e =>
    simp only [MissingListeners, h.readings k e hread, observe, Streak.next]
    rfl
  | ok listening =>
    rw [hread] at hlt
    by_cases hmissed : Missed brokerSettings (.ok listening)
    · have hne : ¬ ((configuredPorts brokerSettings).filter fun port => !listening.contains port).length = 0 := by
        rw [MissingListeners_eq_nil_iff]
        exact fun hall => (not_missed_iff listening).mpr hall hmissed
      have hobserve : observe brokerSettings (.ok listening) = .hit := (observe_eq_hit_iff _).mpr hmissed
      rw [hobserve, Streak.next, Nat.cast_succ] at hlt
      simp only [MissingListeners, if_neg hne, if_neg (Int.not_le.mpr hlt), hobserve, Streak.next]
      rfl
    · have hzero : ((configuredPorts brokerSettings).filter fun port => !listening.contains port).length = 0 :=
        (MissingListeners_eq_nil_iff _ _).mpr ((not_missed_iff listening).mp hmissed)
      have hobserve : observe brokerSettings (.ok listening) = .reset :=
        (observe_eq_reset_iff _).mpr ((not_missed_iff listening).mp hmissed)
      simp only [MissingListeners, if_pos hzero, hobserve, Streak.next]
      rfl

theorem round_of_reaches (h : Admissible settings brokerSettings env) (hhead : env.IsCancellationRequested k = false)
    (hlt : (failures brokerSettings env k : ℤ) < settings.FailuresBeforeStop.toInt)
    (hreaches : settings.FailuresBeforeStop.toInt ≤ failures brokerSettings env (k + 1)) :
    round settings brokerSettings env k (failures brokerSettings env k) = (.returned, true) := by
  have hlimit := Int.toNat_of_nonneg (Int.le_trans (by decide) h.limit)
  have hbefore : failures brokerSettings env k < settings.FailuresBeforeStop.toInt.toNat := by omega
  have hafter : settings.FailuresBeforeStop.toInt.toNat ≤ failures brokerSettings env (k + 1) := by omega
  have hhit : observe brokerSettings (env.GetActiveTcpListeners k) = .hit := Streak.eq_hit_of_reaches hbefore hafter
  rw [failures_succ, hhit, Streak.next, Nat.cast_succ] at hreaches
  rw [round, hhead, (ExpectedPorts_eq_ports brokerSettings h.valid).1]
  cases hread : env.GetActiveTcpListeners k with
  | error e =>
    rw [hread] at hhit
    cases hhit
  | ok listening =>
    rw [hread, observe_eq_hit_iff] at hhit
    have hne : ¬ ((configuredPorts brokerSettings).filter fun port => !listening.contains port).length = 0 := by
      rw [MissingListeners_eq_nil_iff]
      exact fun hall => (not_missed_iff listening).mpr hall hhit
    simp only [MissingListeners, if_neg hne, if_pos hreaches]
    rfl

/-! ## The loop -/

variable (settings brokerSettings env) in
/-- The counter stays below the limit before round `n`. -/
def Below (n : ℕ) : Prop := ∀ i < n, (failures brokerSettings env (i + 1) : ℤ) < settings.FailuresBeforeStop.toInt

variable (settings brokerSettings env) in
/-- Where the loop can stand before round `n`: it runs, it has stopped the application, or it was canceled and no round
that took place reached the limit. -/
inductive Phase (n : ℕ) : Watch → Prop
  | running : Uncanceled env n → Below settings brokerSettings env n →
      Phase n ⟨.running (failures brokerSettings env n), []⟩
  | stopped (k : ℕ) : k < n → Reached env k → Below settings brokerSettings env k →
      settings.FailuresBeforeStop.toInt ≤ failures brokerSettings env (k + 1) → Phase n ⟨.returned, [k]⟩
  | canceled :
      (∀ k, Reached env k → (failures brokerSettings env (k + 1) : ℤ) < settings.FailuresBeforeStop.toInt) →
      Phase n ⟨.returned, []⟩

theorem Below.failures_lt (h : Admissible settings brokerSettings env) (hbelow : Below settings brokerSettings env n) :
    (failures brokerSettings env n : ℤ) < settings.FailuresBeforeStop.toInt := by
  cases n with
  | zero =>
    have hzero : failures brokerSettings env 0 = 0 := rfl
    have hlimit := h.limit
    omega
  | succ n => exact hbelow n (Nat.lt_succ_self n)

theorem phase_zero (h : Admissible settings brokerSettings env) :
    Phase settings brokerSettings env 0 (ExecuteAsync settings brokerSettings env 0) := by
  have hports := (ExpectedPorts_eq_ports brokerSettings h.valid).1
  rw [ExecuteAsync, startup, h.enabled, hports, Delay_of_accepted h.grace]
  cases hstartup : env.startupCanceled with
  | true =>
    refine Phase.canceled fun k hk => ?_
    rw [hk.1.1] at hstartup
    cases hstartup
  | false =>
    exact Phase.running ⟨hstartup, fun i hi => absurd hi (Nat.not_lt_zero i)⟩ fun i hi => absurd hi (Nat.not_lt_zero i)

theorem Phase.succ (h : Admissible settings brokerSettings env)
    (hphase : Phase settings brokerSettings env n (ExecuteAsync settings brokerSettings env n)) :
    Phase settings brokerSettings env (n + 1) (ExecuteAsync settings brokerSettings env (n + 1)) := by
  rw [ExecuteAsync]
  generalize ExecuteAsync settings brokerSettings env n = watch at hphase
  cases hphase with
  | running huncanceled hbelow =>
    dsimp only
    cases hhead : env.IsCancellationRequested n with
    | true =>
      have hround : round settings brokerSettings env n (failures brokerSettings env n) = (.returned, false) :=
        if_pos hhead
      rw [hround]
      refine Phase.canceled fun k hk => hbelow k ?_
      by_contra hle
      rcases Nat.lt_or_eq_of_le (Nat.not_lt.mp hle) with hlt | rfl
      · rw [(hk.1.2 n hlt).1] at hhead
        cases hhead
      · rw [hk.2] at hhead
        cases hhead
    | false =>
      by_cases hreaches : settings.FailuresBeforeStop.toInt ≤ failures brokerSettings env (n + 1)
      · rw [round_of_reaches h hhead (hbelow.failures_lt h) hreaches]
        exact Phase.stopped n (Nat.lt_succ_self n) ⟨huncanceled, hhead⟩ hbelow hreaches
      · have hlt := Int.not_le.mp hreaches
        rw [round_of_lt h hhead hlt, interval_eq h]
        have hbelow' : Below settings brokerSettings env (n + 1) := by
          intro i hi
          rcases Nat.lt_succ_iff_lt_or_eq.mp hi with hi | rfl
          · exact hbelow i hi
          · exact hlt
        cases hcanceled : env.canceled n with
        | true =>
          refine Phase.canceled fun k hk => hbelow' k ?_
          by_contra hle
          rw [(hk.1.2 n (Nat.not_lt.mp hle)).2] at hcanceled
          cases hcanceled
        | false =>
          refine Phase.running ⟨huncanceled.1, fun i hi => ?_⟩ hbelow'
          rcases Nat.lt_succ_iff_lt_or_eq.mp hi with hi | rfl
          · exact huncanceled.2 i hi
          · exact ⟨hhead, hcanceled⟩
  | stopped k hk hreached hbelow hreaches => exact .stopped k (Nat.lt_succ_of_lt hk) hreached hbelow hreaches
  | canceled hall => exact .canceled hall

/-- **Where the loop stands before every round.** -/
theorem phase_ExecuteAsync (h : Admissible settings brokerSettings env) (n : ℕ) :
    Phase settings brokerSettings env n (ExecuteAsync settings brokerSettings env n) := by
  induction n with
  | zero => exact phase_zero h
  | succ n ih => exact ih.succ h

/-! ## Outages -/

variable (settings brokerSettings env) in
/-- In round `k` as many readable rounds as the limit asks for have missed a configured port, with no healthy one
between them. -/
def Outage (k : ℕ) : Prop :=
  ∃ j ≤ k, (∀ i, j ≤ i → i ≤ k → ¬ Healthy brokerSettings (env.GetActiveTcpListeners i)) ∧
    settings.FailuresBeforeStop.toInt ≤
      ((Finset.Icc j k).filter fun i => Missed brokerSettings (env.GetActiveTcpListeners i)).card

variable (settings brokerSettings env) in
/-- The first such round. -/
def FirstOutage (k : ℕ) : Prop :=
  Outage settings brokerSettings env k ∧ ∀ i < k, ¬ Outage settings brokerSettings env i

theorem hits_eq (j k : ℕ) : Streak.hits (fun i => observe brokerSettings (env.GetActiveTcpListeners i)) j (k + 1) =
    (Finset.Icc j k).filter fun i => Missed brokerSettings (env.GetActiveTcpListeners i) := by
  ext i
  simp only [Streak.hits, Finset.mem_filter, Finset.mem_Ico, Finset.mem_Icc, observe_eq_hit_iff, Nat.lt_succ_iff]

/-- **An outage is what the counter shows.** -/
theorem outage_iff (h : Admissible settings brokerSettings env) (k : ℕ) :
    Outage settings brokerSettings env k ↔ settings.FailuresBeforeStop.toInt ≤ failures brokerSettings env (k + 1) := by
  obtain ⟨limit, hlimit⟩ := Int.eq_ofNat_of_zero_le (Int.le_trans (by decide) h.limit)
  have hpos : 1 ≤ limit := by
    have hone := h.limit
    omega
  rw [Outage, hlimit]
  simp only [Int.ofNat_le, failures, Streak.le_count_iff, hits_eq, ← observe_eq_reset_iff, Nat.lt_succ_iff]
  constructor
  · rintro ⟨j, hj, hreset, hcard⟩
    exact ⟨j, Nat.le_succ_of_le hj, hreset, hcard⟩
  · rintro ⟨j, hj, hreset, hcard⟩
    refine ⟨j, ?_, hreset, hcard⟩
    by_contra hlt
    rw [Finset.Icc_eq_empty (by omega), Finset.filter_empty, Finset.card_empty] at hcard
    omega

theorem firstOutage_iff (h : Admissible settings brokerSettings env) (k : ℕ) :
    FirstOutage settings brokerSettings env k ↔ Below settings brokerSettings env k ∧
      settings.FailuresBeforeStop.toInt ≤ failures brokerSettings env (k + 1) := by
  simp only [FirstOutage, outage_iff h, Int.not_le]
  exact and_comm

/-- **The watchdog stops exactly on a persistent outage**: `StopApplication` is called in the first round of one, where
nothing was canceled before, and in no other round. -/
theorem stops_at_first_outage (h : Admissible settings brokerSettings env) (n : ℕ) :
    (∀ k, k ∈ (ExecuteAsync settings brokerSettings env n).stops ↔
      k < n ∧ Reached env k ∧ FirstOutage settings brokerSettings env k) ∧
    (ExecuteAsync settings brokerSettings env n).stops.length ≤ 1 := by
  have hphase := phase_ExecuteAsync h n
  generalize ExecuteAsync settings brokerSettings env n = watch at hphase
  simp only [firstOutage_iff h]
  cases hphase with
  | running huncanceled hbelow =>
    refine ⟨fun k => iff_of_false List.not_mem_nil ?_, Nat.zero_le 1⟩
    rintro ⟨hk, -, -, hreaches⟩
    exact absurd (hbelow k hk) (Int.not_lt.mpr hreaches)
  | stopped m hm hreached hbelow hreaches =>
    refine ⟨fun k => ?_, Nat.le_refl 1⟩
    rw [List.mem_singleton]
    constructor
    · rintro rfl
      exact ⟨hm, hreached, hbelow, hreaches⟩
    · rintro ⟨-, -, hbelow', hreaches'⟩
      rcases Nat.lt_trichotomy k m with hlt | heq | hgt
      · exact absurd (hbelow k hlt) (Int.not_lt.mpr hreaches')
      · exact heq
      · exact absurd (hbelow' m hgt) (Int.not_lt.mpr hreaches)
  | canceled hall =>
    refine ⟨fun k => iff_of_false List.not_mem_nil ?_, Nat.zero_le 1⟩
    rintro ⟨-, hreached, -, hreaches⟩
    exact absurd (hall k hreached) (Int.not_lt.mpr hreaches)

/-! ## A broker that never listens -/

/-- Nobody listens, and the second reading fails. -/
def silentEnvironment : Environment where
  startupCanceled := false
  IsCancellationRequested _ := false
  GetActiveTcpListeners k :=
    if k = 1 then .error ⟨.other "NetworkInformationException".toList, []⟩ else .ok []
  canceled _ := false

theorem silent_admissible : Admissible {} MqttBrokerService.smallBrokerSettings silentEnvironment where
  valid := by decide
  enabled := rfl
  grace := by decide
  interval := by decide
  limit := by decide
  readings k e h := by
    rw [silentEnvironment] at h
    dsimp only at h
    split_ifs at h
    · cases h
      decide

/-- Two misses with a failed reading between them stop the application in the third round. -/
example : (ExecuteAsync {} MqttBrokerService.smallBrokerSettings silentEnvironment 4).stops = [2] := by decide

theorem stops_at_first_outage_silent :
    (∀ k, k ∈ (ExecuteAsync {} MqttBrokerService.smallBrokerSettings silentEnvironment 4).stops ↔
      k < 4 ∧ Reached silentEnvironment k ∧ FirstOutage {} MqttBrokerService.smallBrokerSettings silentEnvironment k) ∧
    (ExecuteAsync {} MqttBrokerService.smallBrokerSettings silentEnvironment 4).stops.length ≤ 1 :=
  stops_at_first_outage silent_admissible 4

end BrokerWatchdog

end MqttServices
