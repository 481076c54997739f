import Mathlib.Order.Interval.Finset.Nat

/-!
# A count since the last reset

Observations come one after the other: a hit counts, a reset starts over, the others pass.

* `Streak.count`: the count before an observation.
* **`Streak.le_count_iff`**: it reaches a limit just when that many hits came with no reset since the first of them.
-/

namespace Streak

/-- What an observation does to the count. -/
inductive Observation where
  | hit
  | reset
  | pass
  deriving DecidableEq

/-- The count after an observation. -/
def next (n : ℕ) : Observation → ℕ
  | .hit => n + 1
  | .reset => 0
  | .pass => n

/-- The count before observation `k`. -/
def count (obs : ℕ → Observation) : ℕ → ℕ
  | 0 => 0
  | k + 1 => next (count obs k) (obs k)

/-- The hits from observation `j` up to `k`. -/
def hits (obs : ℕ → Observation) (j k : ℕ) : Finset ℕ := (Finset.Ico j k).filter fun i => obs i = .hit

variable {obs : ℕ → Observation} {j k : ℕ}

theorem card_hits_succ (h : j ≤ k) :
    (hits obs j (k + 1)).card = (hits obs j k).card + if obs k = .hit then 1 else 0 := by
  have hnotMem : k ∉ hits obs j k := by simp [hits]
  rw [hits, Nat.Ico_succ_right_eq_insert_Ico h, Finset.filter_insert]
  split_ifs
  · exact Finset.card_insert_of_notMem hnotMem
  · rfl

theorem count_succ_of_ne_reset (h : obs k ≠ .reset) :
    count obs (k + 1) = count obs k + if obs k = .hit then 1 else 0 := by
  rw [count]
  cases hk : obs k with
  | hit => rfl
  | reset => exact absurd hk h
  | pass => rfl

theorem card_hits_le_count (hjk : j ≤ k) (h : ∀ i, j ≤ i → i < k → obs i ≠ .reset) :
    (hits obs j k).card ≤ count obs k := by
  induction k, hjk using Nat.le_induction with
  | base => simp [hits]
  | succ k hjk ih =>
    have hk := ih fun i hi hik => h i hi (Nat.lt_succ_of_lt hik)
    rw [card_hits_succ hjk, count_succ_of_ne_reset (h k hjk (Nat.lt_succ_self k))]
    omega

/-- The count is that of the hits since the last reset. -/
theorem exists_count_eq (obs : ℕ → Observation) (k : ℕ) :
    ∃ j ≤ k, (∀ i, j ≤ i → i < k → obs i ≠ .reset) ∧ count obs k = (hits obs j k).card := by
  induction k with
  | zero => exact ⟨0, Nat.le_refl 0, fun i _ hi => absurd hi (Nat.not_lt_zero i), by simp [count, hits]⟩
  | succ k ih =>
    by_cases hk : obs k = .reset
    · refine ⟨k + 1, Nat.le_refl _, fun i hi hik => absurd hi (Nat.not_le.mpr hik), ?_⟩
      simp [count, hk, next, hits]
    · obtain ⟨j, hj, hreset, hcount⟩ := ih
      refine ⟨j, Nat.le_succ_of_le hj, fun i hi hik => ?_, ?_⟩
      · rcases Nat.lt_succ_iff_lt_or_eq.mp hik with hik | rfl
        · exact hreset i hi hik
        · exact hk
      · rw [count_succ_of_ne_reset hk, hcount, card_hits_succ hj]

/-- **When the count reaches a limit.** -/
theorem le_count_iff {limit : ℕ} : limit ≤ count obs k ↔
    ∃ j ≤ k, (∀ i, j ≤ i → i < k → obs i ≠ .reset) ∧ limit ≤ (hits obs j k).card := by
  constructor
  · intro h
    obtain ⟨j, hj, hreset, hcount⟩ := exists_count_eq obs k
    exact ⟨j, hj, hreset, hcount ▸ h⟩
  · rintro ⟨j, hj, hreset, h⟩
    exact h.trans (card_hits_le_count hj hreset)

theorem eq_hit_of_reaches {limit : ℕ} (hbefore : count obs k < limit) (hafter : limit ≤ count obs (k + 1)) :
    obs k = .hit := by
  rw [count] at hafter
  cases hk : obs k with
  | hit => rfl
  | reset =>
    rw [hk] at hafter
    simp only [next] at hafter
    omega
  | pass =>
    rw [hk] at hafter
    simp only [next] at hafter
    omega

end Streak
