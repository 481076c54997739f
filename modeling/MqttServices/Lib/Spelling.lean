import Mathlib.Data.List.Basic

/-!
# Spellings of a text

Of a text only the characters in `keep` count, and of these only what `norm` makes of them.

* `reduce`: what counts of a text.
* `Spells r s`: `s` is `r` with characters replaced by others of the same norm, and with characters that do
  not count put in anywhere.
* **`spells_iff`**: these are just the texts of which the same counts.
-/

namespace Spelling

variable {α β : Type*} (keep : α → Bool) (norm : α → β)

/-- What counts of a text. -/
def reduce (s : List α) : List β := (s.filter keep).map norm

/-- `s` spells `r`. -/
inductive Spells : List α → List α → Prop
  | nil : Spells [] []
  | replace {c d : α} {r s : List α} (hc : keep c = true) (hd : keep d = true) (h : norm c = norm d) :
      Spells r s → Spells (c :: r) (d :: s)
  | insert {d : α} {r s : List α} (hd : keep d = false) : Spells r s → Spells r (d :: s)

variable {keep norm} {c : α} {r s : List α}

@[simp] theorem reduce_nil : reduce keep norm [] = [] := rfl

theorem reduce_cons_of_pos (h : keep c = true) : reduce keep norm (c :: s) = norm c :: reduce keep norm s := by
  rw [reduce, List.filter_cons_of_pos h, List.map_cons, reduce]

theorem reduce_cons_of_neg (h : keep c = false) : reduce keep norm (c :: s) = reduce keep norm s := by
  rw [reduce, List.filter_cons_of_neg (Bool.eq_false_iff.mp h), reduce]

theorem reduce_eq_nil_iff : reduce keep norm s = [] ↔ ∀ c ∈ s, keep c = false := by
  rw [reduce, List.map_eq_nil_iff, List.filter_eq_nil_iff]
  simp

theorem reduce_eq_self {norm : α → α} (hkeep : ∀ c ∈ s, keep c = true) (hnorm : ∀ c ∈ s, norm c = c) :
    reduce keep norm s = s := by
  rw [reduce, List.filter_eq_self.mpr hkeep, List.map_congr_left hnorm, List.map_id']

/-- **Spellings count the same.** -/
theorem Spells.reduce_eq (h : Spells keep norm r s) : reduce keep norm s = reduce keep norm r := by
  induction h with
  | nil => rfl
  | replace hc hd h _ ih => rw [reduce_cons_of_pos hd, reduce_cons_of_pos hc, h, ih]
  | insert hd _ ih => rw [reduce_cons_of_neg hd, ih]

/-- **The spellings of a text in which every character counts** are the texts of which the same counts. -/
theorem spells_iff (hr : ∀ c ∈ r, keep c = true) :
    Spells keep norm r s ↔ reduce keep norm s = reduce keep norm r := by
  refine ⟨Spells.reduce_eq, fun h => ?_⟩
  induction s generalizing r with
  | nil =>
    cases r with
    | nil => exact .nil
    | cons c r =>
      rw [reduce_cons_of_pos (hr c List.mem_cons_self)] at h
      cases h
  | cons d s ih =>
    cases hd : keep d with
    | false =>
      rw [reduce_cons_of_neg hd] at h
      exact .insert hd (ih hr h)
    | true =>
      cases r with
      | nil =>
        rw [reduce_cons_of_pos hd] at h
        cases h
      | cons c r =>
        have hc := hr c List.mem_cons_self
        rw [reduce_cons_of_pos hd, reduce_cons_of_pos hc] at h
        obtain ⟨hn, hs⟩ := List.cons.inj h
        exact .replace hc hd hn.symm (ih (fun c' h' => hr c' (List.mem_cons_of_mem c h')) hs)

end Spelling
