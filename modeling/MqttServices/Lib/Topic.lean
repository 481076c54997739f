import Mathlib.Data.List.Infix
import Mathlib.Tactic.SplitIfs
import Mathlib.Tactic.Push

/-!
# MQTT topics and topic filters

* `Topic.levels`: the levels of a topic or filter, separated by `/`.
* `Topic.covers`: a filter matches a topic, with the wildcards `+` (one level) and `#` (the rest).
* `Topic.ValidName`, `Topic.ValidFilter`: what may be published on and what may be subscribed.
* **`Topic.covers_iff_eq`**: a filter without wildcards covers only itself.
-/

namespace Topic

/-- The levels of a topic or filter. -/
def levels : List Char → List (List Char)
  | [] => [[]]
  | c :: s =>
    if c = '/' then [] :: levels s
    else match levels s with
      | [] => [[c]]
      | l :: ls => (c :: l) :: ls

/-- A level of a filter matches a level of a topic. -/
def levelCovers (f t : List Char) : Bool := f = ['+'] || f = t

/-- The levels of a filter match the levels of a topic; `#` also matches the level above it. -/
def matchLevels : List (List Char) → List (List Char) → Bool
  | [], [] => true
  | [], _ :: _ => false
  | f :: fs, [] => f = ['#'] && fs = []
  | f :: fs, t :: ts => (f = ['#'] && fs = []) || (levelCovers f t && matchLevels fs ts)

/-- The filter starts with a wildcard. -/
def startsWild (f : List Char) : Bool := f.head? = some '+' || f.head? = some '#'

/-- The topic is one of those that a leading wildcard does not reach. -/
def isReserved (t : List Char) : Bool := t.head? = some '$'

/-- The filter `f` matches the topic `t`. -/
def covers (f t : List Char) : Bool := !(startsWild f && isReserved t) && matchLevels (levels f) (levels t)

/-- A text without wildcard and NUL characters. -/
def Literal (s : List Char) : Prop := ∀ c ∈ s, c ≠ '+' ∧ c ≠ '#' ∧ c ≠ Char.ofNat 0

instance : DecidablePred Literal := fun s => List.decidableBAll _ s

/-- A topic that can be published on. -/
def ValidName (t : List Char) : Prop := t ≠ [] ∧ Literal t

instance : DecidablePred ValidName := fun _ => inferInstanceAs (Decidable (_ ∧ _))

/-- A filter that can be subscribed: a wildcard is a whole level, and `#` the last one. -/
def ValidFilter (f : List Char) : Prop :=
  f ≠ [] ∧ (∀ l ∈ (levels f).dropLast, l = ['+'] ∨ Literal l) ∧
    ∀ l ∈ (levels f).getLast?, l = ['+'] ∨ l = ['#'] ∨ Literal l

instance : DecidablePred ValidFilter := fun _ => inferInstanceAs (Decidable (_ ∧ (∀ _ ∈ _, _) ∧ ∀ _ ∈ _, _))

theorem literal_append {s t : List Char} : Literal (s ++ t) ↔ Literal s ∧ Literal t :=
  List.forall_mem_append

theorem Literal.of_subset {s t : List Char} (h : Literal t) (hs : ∀ c ∈ s, c ∈ t) : Literal s :=
  fun c hc => h c (hs c hc)

/-! ## Levels -/

theorem levels_ne_nil (s : List Char) : levels s ≠ [] := by
  cases s with
  | nil => decide
  | cons c s =>
    rw [levels]
    split_ifs
    · exact List.cons_ne_nil _ _
    · split <;> exact List.cons_ne_nil _ _

theorem levels_slash (s : List Char) : levels ('/' :: s) = [] :: levels s := if_pos rfl

theorem levels_cons {c : Char} (hc : c ≠ '/') {s l : List Char} {ls : List (List Char)}
    (h : levels s = l :: ls) : levels (c :: s) = (c :: l) :: ls := by
  rw [levels, if_neg hc, h]

theorem exists_levels (s : List Char) : ∃ l ls, levels s = l :: ls :=
  List.exists_cons_of_ne_nil (levels_ne_nil s)

theorem mem_of_mem_levels {s l : List Char} (hl : l ∈ levels s) : ∀ c ∈ l, c ∈ s := by
  induction s generalizing l with
  | nil => rw [levels, List.mem_singleton] at hl; rw [hl]; exact fun _ h => h
  | cons c s ih =>
    by_cases hc : c = '/'
    · subst hc
      rw [levels_slash] at hl
      rcases List.mem_cons.mp hl with rfl | hl
      · exact fun _ h => absurd h List.not_mem_nil
      · exact fun a ha => List.mem_cons_of_mem _ (ih hl a ha)
    · obtain ⟨m, ms, hm⟩ := exists_levels s
      rw [levels_cons hc hm] at hl
      rcases List.mem_cons.mp hl with rfl | hl
      · exact fun a ha => (List.mem_cons.mp ha).elim (fun h => h ▸ List.mem_cons_self)
          fun h => List.mem_cons_of_mem _ (ih (by rw [hm]; exact List.mem_cons_self) a h)
      · exact fun a ha => List.mem_cons_of_mem _ (ih (by rw [hm]; exact List.mem_cons_of_mem _ hl) a ha)

theorem literal_of_mem_levels {s l : List Char} (h : Literal s) (hl : l ∈ levels s) : Literal l :=
  h.of_subset (mem_of_mem_levels hl)

/-- **A text is determined by its levels.** -/
theorem levels_injective {s t : List Char} (h : levels s = levels t) : s = t := by
  induction s generalizing t with
  | nil =>
    cases t with
    | nil => rfl
    | cons c t =>
      by_cases hc : c = '/'
      · subst hc
        rw [levels_slash] at h
        exact absurd (List.cons.inj h).2.symm (levels_ne_nil t)
      · obtain ⟨m, ms, hm⟩ := exists_levels t
        rw [levels_cons hc hm] at h
        exact absurd (List.cons.inj h).1 (by simp)
  | cons c s ih =>
    cases t with
    | nil =>
      by_cases hc : c = '/'
      · subst hc
        rw [levels_slash] at h
        exact absurd (List.cons.inj h).2 (levels_ne_nil s)
      · obtain ⟨m, ms, hm⟩ := exists_levels s
        rw [levels_cons hc hm] at h
        exact absurd (List.cons.inj h).1 (by simp)
    | cons d t =>
      obtain ⟨m, ms, hm⟩ := exists_levels s
      obtain ⟨n, ns, hn⟩ := exists_levels t
      by_cases hc : c = '/' <;> by_cases hd : d = '/'
      · subst hc hd
        rw [levels_slash, levels_slash] at h
        rw [ih (List.cons.inj h).2]
      · subst hc
        rw [levels_slash, levels_cons hd hn] at h
        exact absurd (List.cons.inj h).1 (by simp)
      · subst hd
        rw [levels_slash, levels_cons hc hm] at h
        exact absurd (List.cons.inj h).1 (by simp)
      · rw [levels_cons hc hm, levels_cons hd hn] at h
        obtain ⟨h1, h2⟩ := List.cons.inj h
        obtain ⟨rfl, hmn⟩ := List.cons.inj h1
        have hst : levels s = levels t := by rw [hm, hn, hmn, h2]
        rw [ih hst]

/-! ## Filters without wildcards -/

theorem matchLevels_iff_eq {fs ts : List (List Char)} (h : ∀ f ∈ fs, f ≠ ['+'] ∧ f ≠ ['#']) :
    matchLevels fs ts = true ↔ fs = ts := by
  induction fs generalizing ts with
  | nil => cases ts <;> simp [matchLevels]
  | cons f fs ih =>
    obtain ⟨⟨h1, h2⟩, hfs⟩ := List.forall_mem_cons.mp h
    cases ts with
    | nil => simp [matchLevels, h2]
    | cons t ts => simp [matchLevels, levelCovers, h1, h2, ih hfs]

theorem startsWild_literal {f : List Char} (h : Literal f) : startsWild f = false := by
  cases f with
  | nil => rfl
  | cons c f =>
    obtain ⟨h1, h2, -⟩ := h c List.mem_cons_self
    simp [startsWild, h1, h2]

/-- **A filter without wildcards covers only itself.** -/
theorem covers_iff_eq {f : List Char} (h : Literal f) (t : List Char) : covers f t = true ↔ f = t := by
  have hl : ∀ l ∈ levels f, l ≠ ['+'] ∧ l ≠ ['#'] := fun l hl => by
    have := literal_of_mem_levels h hl
    constructor <;> rintro rfl
    · exact (this '+' List.mem_cons_self).1 rfl
    · exact (this '#' List.mem_cons_self).2.1 rfl
  rw [covers, startsWild_literal h, Bool.false_and, Bool.not_false, Bool.true_and, matchLevels_iff_eq hl]
  exact ⟨levels_injective, congrArg levels⟩

end Topic
