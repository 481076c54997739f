import Mathlib.Data.List.DropRight

/-!
# Segments of a path

* `push`, `resolve`: the names that a list of segments leads to.
* `climb`, **`resolve_eq`**: how far it leads up, and the names that it enters from there.
* `Below`, **`below_resolve_iff`**: when it leads below the names it starts from.
-/

namespace Location

/-- A segment: one that stays, one that leads up, or a name to enter. -/
inductive Segment (α : Type) where
  | here
  | up
  | name (a : α)
  deriving DecidableEq

variable {α β : Type}

/-- The names after a segment. Above the root is the root. -/
def push (names : List α) : Segment α → List α
  | .here => names
  | .up => names.dropLast
  | .name a => names ++ [a]

/-- The names after a list of segments. -/
def resolve (names : List α) (segments : List (Segment α)) : List α := segments.foldl push names

/-- How far up it went and what it entered from there, after one more segment. -/
def climbStep (c : ℕ × List α) : Segment α → ℕ × List α
  | .here => c
  | .up => if c.2.isEmpty then (c.1 + 1, []) else (c.1, c.2.dropLast)
  | .name a => (c.1, c.2 ++ [a])

/-- How far up a list of segments leads, and the names that it enters from there. -/
def climb (segments : List (Segment α)) : ℕ × List α := segments.foldl climbStep (0, [])

theorem resolve_append (names : List α) (s t : List (Segment α)) :
    resolve names (s ++ t) = resolve (resolve names s) t := List.foldl_append

theorem dropLast_rdrop (names : List α) (k : ℕ) : (names.rdrop k).dropLast = names.rdrop (k + 1) := by
  rw [← List.rdrop_add, List.dropLast_eq_take]
  rfl

theorem rdrop_append_rtake (names : List α) (k : ℕ) : names.rdrop k ++ names.rtake k = names :=
  List.take_append_drop _ _

theorem push_eq (names : List α) (c : ℕ × List α) (s : Segment α) :
    push (names.rdrop c.1 ++ c.2) s = names.rdrop (climbStep c s).1 ++ (climbStep c s).2 := by
  obtain ⟨k, entered⟩ := c
  cases s with
  | here => rfl
  | name a => exact List.append_assoc ..
  | up =>
    cases entered with
    | nil => simpa [push, climbStep] using dropLast_rdrop names k
    | cons a entered => exact List.dropLast_append_of_ne_nil (List.cons_ne_nil a entered)

theorem foldl_push_eq (names : List α) (segments : List (Segment α)) (c : ℕ × List α) :
    segments.foldl push (names.rdrop c.1 ++ c.2) =
      names.rdrop (segments.foldl climbStep c).1 ++ (segments.foldl climbStep c).2 := by
  induction segments generalizing c with
  | nil => rfl
  | cons s segments ih => rw [List.foldl_cons, push_eq, ih, List.foldl_cons]

/-- **What a list of segments leads to**: it leaves some names and enters others. -/
theorem resolve_eq (names : List α) (segments : List (Segment α)) :
    resolve names segments = names.rdrop (climb segments).1 ++ (climb segments).2 := by
  have h := foldl_push_eq names segments (0, [])
  rwa [List.rdrop_zero, List.append_nil] at h

/-! ## Below -/

/-- The inner names go on from the outer ones. Names with the same fold are one name. -/
def Below (fold : α → β) (outer inner : List α) : Prop :=
  outer.map fold <+: inner.map fold ∧ outer.map fold ≠ inner.map fold

instance [DecidableEq β] (fold : α → β) (outer inner : List α) : Decidable (Below fold outer inner) :=
  inferInstanceAs (Decidable (_ ∧ _))

/-- **When a list of segments leads below**: it enters again what it has left, and goes on from there. -/
theorem below_resolve_iff (fold : α → β) (names : List α) (segments : List (Segment α)) :
    Below fold names (resolve names segments) ↔ Below fold (names.rtake (climb segments).1) (climb segments).2 := by
  rw [resolve_eq]
  generalize (climb segments).1 = k
  have h : names.map fold = (names.rdrop k).map fold ++ (names.rtake k).map fold := by
    rw [← List.map_append, rdrop_append_rtake]
  rw [Below, List.map_append, h, List.prefix_append_right_inj, ne_eq, List.append_cancel_left_eq, Below]

theorem foldl_climbStep_eq {segments : List (Segment α)} (h : Segment.up ∉ segments) (c : ℕ × List α) :
    ∃ entered, segments.foldl climbStep c = (c.1, c.2 ++ entered) ∧ (entered = [] ↔ ∀ s ∈ segments, s = .here) := by
  induction segments generalizing c with
  | nil => exact ⟨[], by simp⟩
  | cons s segments ih =>
    rw [List.mem_cons, not_or] at h
    obtain ⟨entered, hfold, hiff⟩ := ih h.2 (climbStep c s)
    rw [List.foldl_cons, hfold, List.forall_mem_cons]
    cases s with
    | here => exact ⟨entered, rfl, by simpa using hiff⟩
    | up => exact absurd rfl h.1
    | name a =>
      refine ⟨a :: entered, ?_, by simp⟩
      rw [climbStep, List.append_assoc]
      rfl

/-- Where none leads up it is enough that one enters a name. -/
theorem below_of_up_notMem (fold : α → β) (names : List α) {segments : List (Segment α)} (h : Segment.up ∉ segments) :
    Below fold (names.rtake (climb segments).1) (climb segments).2 ↔ ∃ s ∈ segments, s ≠ .here := by
  obtain ⟨entered, hfold, hiff⟩ := foldl_climbStep_eq h (0, [])
  rw [climb, hfold, List.rtake_zero, Below, List.map_nil, and_iff_right List.nil_prefix, ne_comm, ne_eq,
    List.map_eq_nil_iff, List.nil_append, hiff]
  simp only [not_forall, exists_prop, ne_eq]

end Location
