import MqttServices.Common.Exceptions

/-!
# Times

* `ticksPerDay`, `ticksPerSecond`, `maxTicks`: times in ticks, within the range of `DateTimeOffset`.
* `AddDays`, and **`AddDays_eq_ok_iff`**: days added to a time.
* `floorToSecond`: a time as a certificate holds it.
* `AddSeconds`, `Delay`: seconds added to a time, and how `Task.Delay` ends.
-/

namespace MqttServices

/-- The ticks of a day. -/
def ticksPerDay : ℤ := 864000000000

/-- The ticks of a second. -/
def ticksPerSecond : ℤ := 10000000

/-- The ticks of `DateTimeOffset.MaxValue`. -/
def maxTicks : ℤ := 3155378975999999999

/-- `DateTimeOffset.AddDays`. -/
def AddDays (t : ℤ) (days : ℤ) : Except Exception ℤ :=
  if 0 ≤ t + days * ticksPerDay ∧ t + days * ticksPerDay ≤ maxTicks then .ok (t + days * ticksPerDay)
  else .error ⟨.ArgumentOutOfRangeException, []⟩

/-- `DateTimeOffset.Add(TimeSpan.FromSeconds(seconds))`. -/
def AddSeconds (t : ℤ) (seconds : ℤ) : Except Exception ℤ :=
  if 0 ≤ t + seconds * ticksPerSecond ∧ t + seconds * ticksPerSecond ≤ maxTicks then .ok (t + seconds * ticksPerSecond)
  else .error ⟨.ArgumentOutOfRangeException, []⟩

/-- A time as a certificate holds it, in whole seconds. -/
def floorToSecond (t : ℤ) : ℤ := t - t % ticksPerSecond

theorem AddDays_eq_ok_iff (t days u : ℤ) :
    AddDays t days = .ok u ↔ u = t + days * ticksPerDay ∧ 0 ≤ u ∧ u ≤ maxTicks := by
  rw [AddDays]
  split_ifs with h
  · rw [Except.ok.injEq]
    constructor
    · rintro rfl
      exact ⟨rfl, h⟩
    · exact fun h => h.1.symm
  · refine iff_of_false nofun ?_
    rintro ⟨rfl, hu⟩
    exact h hu

theorem AddDays_of_days (day days : ℤ) (hfirst : 0 ≤ day + days) (hlast : day + days ≤ 3652058) :
    AddDays (day * ticksPerDay) days = .ok (day * ticksPerDay + days * ticksPerDay) := by
  refine (AddDays_eq_ok_iff _ _ _).mpr ⟨rfl, ?_, ?_⟩
  · simp only [ticksPerDay]
    omega
  · simp only [ticksPerDay, maxTicks]
    omega

theorem sub_lt_floorToSecond (t : ℤ) : t - ticksPerSecond < floorToSecond t := by
  have h := Int.emod_lt_of_pos t (show (0 : ℤ) < ticksPerSecond by decide)
  rw [floorToSecond]
  omega

theorem floorToSecond_le (t : ℤ) : floorToSecond t ≤ t := by
  have h := Int.emod_nonneg t (show ticksPerSecond ≠ 0 by decide)
  rw [floorToSecond]
  omega

theorem toNat_mul_ticksPerSecond {t : ℤ} (h : 0 ≤ t) :
    ((t / ticksPerSecond).toNat : ℤ) * ticksPerSecond = floorToSecond t := by
  have hnonneg : 0 ≤ t / ticksPerSecond := Int.ediv_nonneg h (by decide)
  have hdiv := Int.mul_ediv_add_emod t ticksPerSecond
  rw [Int.toNat_of_nonneg hnonneg, floorToSecond, Int.mul_comm]
  omega

/-- How `await Task.Delay(TimeSpan.FromSeconds(seconds), token)` ends. -/
inductive DelayResult where
  | elapsed
  | OperationCanceledException
  | ArgumentOutOfRangeException
  deriving DecidableEq

/-- `Task.Delay` takes delays of up to `uint.MaxValue - 1` milliseconds. -/
def AcceptsDelay (seconds : Int32) : Bool := 0 ≤ seconds.toInt && seconds.toInt * 1000 ≤ 4294967294

/-- `Task.Delay`, where the token is canceled or not. -/
def Delay (seconds : Int32) (canceled : Bool) : DelayResult :=
  if !AcceptsDelay seconds then .ArgumentOutOfRangeException
  else if canceled then .OperationCanceledException
  else .elapsed

theorem Delay_of_accepted {seconds : Int32} (h : AcceptsDelay seconds = true) (canceled : Bool) :
    Delay seconds canceled = if canceled then .OperationCanceledException else .elapsed := by
  rw [Delay, h]
  rfl

end MqttServices
