import Mathlib.Data.List.Basic
import Mathlib.Data.List.Dedup

/-!
# Layers of keyed values

A layer gives a value to some of the keys. In a stack of layers a later one covers the earlier ones, key by key.

* `get`: the value of a key; **`get_eq_some_iff`**: it is the one of the last layer that has one.
* **`get_layer_eq_some_iff`**: a value that one layer has is read unless a later layer covers it.
* `Source`: a layer whose keys are paths of names, all of them listed; `read`.
* `children`: the names right below a path; **`mem_children`**, `children_ne_nil_iff`.
-/

namespace Layers

variable {K V : Type*}

/-- The value of a key in a stack, the last layer on top. -/
def get (k : K) : List (K → Option V) → Option V
  | [] => none
  | layer :: layers => (get k layers).or (layer k)

theorem get_append (k : K) (ls ms : List (K → Option V)) : get k (ls ++ ms) = (get k ms).or (get k ls) := by
  induction ls with
  | nil => rw [List.nil_append, get, Option.or_none]
  | cons l ls ih => rw [List.cons_append, get, ih, get, Option.or_assoc]

theorem get_eq_none_iff {k : K} {ls : List (K → Option V)} : get k ls = none ↔ ∀ l ∈ ls, l k = none := by
  induction ls with
  | nil => exact iff_of_true rfl fun _ h => absurd h List.not_mem_nil
  | cons l ls ih => rw [get, Option.or_eq_none_iff, ih, List.forall_mem_cons, and_comm]

/-- **The value of a key is that of the last layer that has one.** -/
theorem get_eq_some_iff {k : K} {v : V} {ls : List (K → Option V)} :
    get k ls = some v ↔ ∃ before l after, ls = before ++ l :: after ∧ l k = some v ∧ ∀ m ∈ after, m k = none := by
  constructor
  · intro h
    induction ls with
    | nil => cases h
    | cons l ls ih =>
      rcases Option.or_eq_some_iff.mp h with hlater | ⟨hnone, hl⟩
      · obtain ⟨before, m, after, rfl, hm, hafter⟩ := ih hlater
        exact ⟨l :: before, m, after, rfl, hm, hafter⟩
      · exact ⟨[], l, ls, rfl, hl, get_eq_none_iff.mp hnone⟩
  · rintro ⟨before, l, after, rfl, hl, hafter⟩
    rw [get_append, get, get_eq_none_iff.mpr hafter, Option.none_or, hl, Option.some_or]

/-- **A value that one layer has is read** unless the layers after it have another one. -/
theorem get_layer_eq_some_iff {k : K} {v : V} {before after : List (K → Option V)} {l : K → Option V} (hl : l k = some v) :
    get k (before ++ l :: after) = some v ↔ get k after = none ∨ get k after = some v := by
  rw [get_append, get, hl]
  cases get k after with
  | none => simp
  | some w => simp

/-! ## Sources -/

variable {N : Type*} [DecidableEq N]

/-- The values of the keys of a source, a key being a path of names. -/
abbrev Source (N V : Type*) := List (List N × V)

/-- A source as a layer. -/
def Source.layer (source : Source N V) (path : List N) : Option V := source.lookup path

theorem Source.layer_cons (entry : List N × V) (source : Source N V) (path : List N) :
    Source.layer (entry :: source) path = if entry.1 = path then some entry.2 else Source.layer source path := by
  rw [Source.layer, List.lookup_cons]
  by_cases h : entry.1 = path
  · rw [if_pos h, h, beq_self_eq_true]
  · rw [if_neg h, beq_false_of_ne (Ne.symm h)]
    rfl

/-- The value at a path. -/
def read (sources : List (Source N V)) (path : List N) : Option V := get path (sources.map Source.layer)

theorem read_append (sources later : List (Source N V)) (path : List N) :
    read (sources ++ later) path = (read later path).or (read sources path) := by
  rw [read, List.map_append, get_append]
  rfl

/-- **The value at a path is that of the last source that has one.** -/
theorem read_eq_some_iff {sources : List (Source N V)} {path : List N} {v : V} : read sources path = some v ↔
    ∃ before source after, sources = before ++ source :: after ∧ source.layer path = some v ∧
      ∀ later ∈ after, later.layer path = none := by
  rw [read, get_eq_some_iff]
  constructor
  · rintro ⟨before, l, after, heq, hl, hafter⟩
    obtain ⟨before, rest, rfl, rfl, hrest⟩ := List.map_eq_append_iff.mp heq
    obtain ⟨source, after, rfl, rfl, rfl⟩ := List.map_eq_cons_iff.mp hrest
    exact ⟨before, source, after, rfl, hl, fun later h => hafter _ (List.mem_map_of_mem h)⟩
  · rintro ⟨before, source, after, rfl, hl, hafter⟩
    exact ⟨before.map Source.layer, source.layer, after.map Source.layer, by rw [List.map_append, List.map_cons], hl,
      List.forall_mem_map.mpr hafter⟩

theorem exists_read_of_mem {sources : List (Source N V)} {source : Source N V} (hs : source ∈ sources) {path : List N}
    {v : V} (hv : (path, v) ∈ source) : ∃ w, read sources path = some w := by
  cases hread : read sources path with
  | some w => exact ⟨w, rfl⟩
  | none =>
    have hnone : source.lookup path = none := get_eq_none_iff.mp hread _ (List.mem_map_of_mem hs)
    exact absurd (beq_self_eq_true path) (by simpa using List.lookup_eq_none_iff.mp hnone _ hv)

theorem Source.mem_of_layer {source : Source N V} {path : List N} {v : V} (h : source.layer path = some v) :
    (path, v) ∈ source := by
  obtain ⟨before, after, rfl, -⟩ := List.lookup_eq_some_iff.mp h
  exact List.mem_append_right before List.mem_cons_self

/-- The name that a key has right below a path. -/
def childName : List N → List N → Option N
  | [], name :: _ => some name
  | n :: path, m :: key => if n = m then childName path key else none
  | _, _ => none

/-- The names right below a path, of keys that end there and of keys that go on. -/
def children (sources : List (Source N V)) (path : List N) : List N :=
  (sources.flatMap fun source => source.filterMap fun entry => childName path entry.1).dedup

theorem childName_eq_some_iff {path key : List N} {name : N} :
    childName path key = some name ↔ ∃ rest, key = path ++ name :: rest := by
  induction path generalizing key with
  | nil =>
    cases key with
    | nil => simp [childName]
    | cons m rest => simp [childName]
  | cons n path ih =>
    cases key with
    | nil => simp [childName]
    | cons m key =>
      rw [childName]
      by_cases h : n = m
      · subst h
        rw [if_pos rfl, ih]
        simp
      · rw [if_neg h]
        refine iff_of_false (by simp) ?_
        rintro ⟨rest, heq⟩
        exact h (List.cons.inj heq).1.symm

/-- **A name is right below a path just where some source has a key that begins with both**; no later source takes it
away. -/
theorem mem_children {sources : List (Source N V)} {path : List N} {name : N} : name ∈ children sources path ↔
    ∃ source ∈ sources, ∃ rest v, (path ++ name :: rest, v) ∈ source := by
  rw [children, List.mem_dedup, List.mem_flatMap]
  refine exists_congr fun source => and_congr_right fun _ => ?_
  rw [List.mem_filterMap]
  constructor
  · rintro ⟨⟨key, v⟩, hmem, hname⟩
    obtain ⟨rest, rfl⟩ := childName_eq_some_iff.mp hname
    exact ⟨rest, v, hmem⟩
  · rintro ⟨rest, v, hmem⟩
    exact ⟨_, hmem, childName_eq_some_iff.mpr ⟨rest, rfl⟩⟩

theorem children_ne_nil_iff {sources : List (Source N V)} {path : List N} : children sources path ≠ [] ↔
    ∃ source ∈ sources, ∃ name rest v, (path ++ name :: rest, v) ∈ source := by
  constructor
  · intro h
    obtain ⟨name, hname⟩ := List.exists_mem_of_ne_nil _ h
    obtain ⟨source, hs, rest, v, hv⟩ := mem_children.mp hname
    exact ⟨source, hs, name, rest, v, hv⟩
  · rintro ⟨source, hs, name, rest, v, hv⟩
    exact List.ne_nil_of_mem (mem_children.mpr ⟨source, hs, rest, v, hv⟩)

end Layers
