import Mathlib.Data.List.Induction
import Mathlib.Data.List.Nodup
import Mathlib.Data.List.Perm.Subperm
import MqttServices.Lib.Run

/-!
# A broadcast medium

Messages `M` are published to receivers `ι`; each is handed to each receiver on its own.

* `Fate`: what has become of a message for a receiver.
* `Medium`: the messages in the order of their publication, their fates, and the log of what was handed over;
  its fields say that a message is handed to a receiver once.
* `Medium.publish`, `Medium.hand`, `Medium.drop`, `Medium.step`.
* **`Medium.countP_log_le`**: what was handed to one receiver is no more than what was published.
-/

namespace Broadcast

/-- What has become of a message for a receiver. -/
inductive Fate where
  | unaddressed
  | pending
  | handed
  | dropped
  deriving DecidableEq

/-- The messages, their fates, and the pairs of a message and a receiver it was handed to. -/
structure Medium (ι M : Type*) where
  messages : List M
  fate : ℕ → ι → Fate
  log : List (ℕ × ι)
  unaddressed_of_le : ∀ n i, messages.length ≤ n → fate n i = .unaddressed
  mem_log : ∀ n i, (n, i) ∈ log ↔ fate n i = .handed
  nodup_log : log.Nodup

inductive Action (ι M : Type*) where
  | publish (m : M) (receivers : List ι)
  | hand (n : ℕ) (i : ι)
  | drop (i : ι)

namespace Medium

variable {ι M : Type*} [DecidableEq ι]

/-- Nothing has been published. -/
def empty : Medium ι M where
  messages := []
  fate _ _ := .unaddressed
  log := []
  unaddressed_of_le _ _ _ := rfl
  mem_log _ _ := iff_of_false List.not_mem_nil (by simp)
  nodup_log := List.nodup_nil

/-- A new message, for `receivers`. -/
def publish (b : Medium ι M) (m : M) (receivers : List ι) : Medium ι M where
  messages := b.messages ++ [m]
  fate n i := if n = b.messages.length ∧ i ∈ receivers then .pending else b.fate n i
  log := b.log
  unaddressed_of_le n i hle := by
    rw [List.length_append, List.length_singleton] at hle
    rw [if_neg fun h => absurd h.1 (by omega)]
    exact b.unaddressed_of_le n i (by omega)
  mem_log n i := by
    rw [b.mem_log]
    split_ifs with h
    · rw [b.unaddressed_of_le n i (Nat.le_of_eq h.1.symm)]
      exact iff_of_false (by simp) (by simp)
    · exact Iff.rfl
  nodup_log := b.nodup_log

/-- A pending message is handed over. -/
def hand (b : Medium ι M) (n : ℕ) (i : ι) (h : b.fate n i = .pending) : Medium ι M where
  messages := b.messages
  fate n' i' := if n' = n ∧ i' = i then .handed else b.fate n' i'
  log := b.log ++ [(n, i)]
  unaddressed_of_le n' i' hle := by
    have hold := b.unaddressed_of_le n' i' hle
    split_ifs with heq
    · rw [heq.1, heq.2, h] at hold
      cases hold
    · exact hold
  mem_log n' i' := by
    rw [List.mem_append, List.mem_singleton, b.mem_log, Prod.mk.injEq]
    split_ifs with heq
    · exact iff_of_true (Or.inr heq) rfl
    · exact or_iff_left heq
  nodup_log := by
    refine b.nodup_log.append (List.nodup_singleton _) (List.disjoint_singleton.mpr fun hmem => ?_)
    rw [b.mem_log, h] at hmem
    cases hmem

/-- What is pending for a receiver is lost. -/
def drop (b : Medium ι M) (i : ι) : Medium ι M where
  messages := b.messages
  fate n' i' := if i' = i ∧ b.fate n' i' = .pending then .dropped else b.fate n' i'
  log := b.log
  unaddressed_of_le n' i' hle := by
    rw [b.unaddressed_of_le n' i' hle]
    exact if_neg (by simp)
  mem_log n' i' := by
    rw [b.mem_log]
    split_ifs with h
    · rw [h.2]
      exact iff_of_false (by simp) (by simp)
    · exact Iff.rfl
  nodup_log := b.nodup_log

/-- One step; only what is pending is handed over. -/
def step (b : Medium ι M) : Action ι M → Option (Medium ι M)
  | .publish m receivers => some (b.publish m receivers)
  | .hand n i => if h : b.fate n i = .pending then some (b.hand n i h) else none
  | .drop i => some (b.drop i)

theorem step_hand {b : Medium ι M} {n : ℕ} {i : ι} (h : b.fate n i = .pending) :
    b.step (.hand n i) = some (b.hand n i h) := dif_pos h

omit [DecidableEq ι] in
theorem lt_of_pending {b : Medium ι M} {n : ℕ} {i : ι} (h : b.fate n i = .pending) : n < b.messages.length := by
  by_contra hlt
  rw [b.unaddressed_of_le n i (Nat.not_lt.mp hlt)] at h
  cases h

/-! ## Counting -/

/-- As many indices of a list have an element that meets `p`, whatever else is asked of them, as elements do. -/
theorem length_filter_range_getElem? (l : List M) (p : M → Bool) :
    ((List.range l.length).filter fun n => (l[n]?).any p).length = l.countP p := by
  induction l using List.reverseRecOn with
  | nil => rfl
  | append_singleton l m ih =>
    rw [List.length_append, List.length_singleton, List.range_succ, List.filter_append, List.length_append,
      List.countP_append, ← ih]
    congr 1
    · refine congrArg List.length (List.filter_congr fun n hn => ?_)
      rw [List.getElem?_append_left (List.mem_range.mp hn)]
    · rw [List.filter_singleton, List.getElem?_concat_length, Option.any_some, List.countP_singleton]
      cases p m <;> rfl

/-- **What was handed to one receiver is no more than what was published**, of the messages that meet `p`. -/
theorem countP_log_le (b : Medium ι M) (i : ι) (p : M → Bool) :
    (b.log.countP fun e => decide (e.2 = i) && (b.messages[e.1]?).any p) ≤ b.messages.countP p := by
  rw [List.countP_eq_length_filter, ← length_filter_range_getElem?]
  have hnodup : ((b.log.filter fun e => decide (e.2 = i) && (b.messages[e.1]?).any p).map Prod.fst).Nodup := by
    refine List.Nodup.map_on (fun x hx y hy hxy => ?_) (b.nodup_log.filter _)
    have hx' := (Bool.and_eq_true_iff.mp (List.mem_filter.mp hx).2).1
    have hy' := (Bool.and_eq_true_iff.mp (List.mem_filter.mp hy).2).1
    exact Prod.ext hxy ((of_decide_eq_true hx').trans (of_decide_eq_true hy').symm)
  rw [← List.length_map (f := Prod.fst)]
  refine (List.subperm_of_subset hnodup fun n hn => ?_).length_le
  obtain ⟨e, he, rfl⟩ := List.mem_map.mp hn
  have hp := (Bool.and_eq_true_iff.mp (List.mem_filter.mp he).2).2
  refine List.mem_filter.mpr ⟨List.mem_range.mpr ?_, hp⟩
  by_contra hlt
  rw [List.getElem?_eq_none (Nat.not_lt.mp hlt)] at hp
  cases hp

end Medium

end Broadcast
