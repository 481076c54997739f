import MqttServices.Lib.Topic

/-!
# Overlapping prefixes of filters and topics

* `Topic.Plain`: a filter whose levels are `+` or without wildcards.
* `Topic.matchText`, **`Topic.matchLevels_levels`**: a plain filter matched character by character.
* `Topic.overlaps`: some filter that starts with `f` covers some topic that starts with `t`; see
  **`Topic.overlaps_of_covers`** and **`Topic.exists_covers_of_overlaps`**.
* `Topic.agree_literal_iff`: without wildcards, one of the two is a prefix of the other.
-/

namespace Topic

/-- Every level of the filter is `+` or without wildcards. -/
def Plain (f : List Char) : Prop := ∀ l ∈ levels f, l = ['+'] ∨ Literal l

instance : DecidablePred Plain := fun _ => inferInstanceAs (Decidable (∀ _ ∈ _, _))

/-- What stands behind the first level, from its separator on. -/
def afterLevel (t : List Char) : List Char := t.dropWhile fun c => c ≠ '/'

/-- A filter without `#` matches a topic: `+` skips the rest of a level. -/
def matchText : List Char → List Char → Bool
  | [], t => t.isEmpty
  | c :: f, t =>
    if c = '+' then matchText f (afterLevel t)
    else match t with
      | [] => false
      | d :: t => c = d && matchText f t

/-- The filter prefix `f` and the topic prefix `t` agree as far as both go. -/
def agree : List Char → List Char → Bool
  | [], _ => true
  | c :: f, t =>
    if c = '+' then agree f (afterLevel t)
    else match t with
      | [] => true
      | d :: t => c = d && agree f t

/-- The prefixes agree, and no leading wildcard stands against a reserved topic. -/
def overlaps (f t : List Char) : Bool := !(startsWild f && isReserved t) && agree f t

/-! ## Levels of a text put together -/

theorem levels_append {s t l m : List Char} {ls ms : List (List Char)} (hs : levels s = ls ++ [l])
    (ht : levels t = m :: ms) : levels (s ++ t) = ls ++ (l ++ m) :: ms := by
  induction s generalizing ls l with
  | nil =>
    cases ls with
    | nil =>
      obtain ⟨rfl, -⟩ := List.cons.inj hs
      exact ht
    | cons x ls => exact absurd (List.cons.inj hs).2 (by simp)
  | cons c s ih =>
    by_cases hc : c = '/'
    · subst hc
      rw [levels_slash] at hs
      cases ls with
      | nil => exact absurd (List.cons.inj hs).2 (levels_ne_nil s)
      | cons x ls =>
        obtain ⟨rfl, hls⟩ := List.cons.inj hs
        rw [List.cons_append, levels_slash, ih hls, List.cons_append]
    · obtain ⟨n, ns, hn⟩ := exists_levels s
      rw [levels_cons hc hn] at hs
      cases ls with
      | nil =>
        obtain ⟨hl, rfl⟩ := List.cons.inj hs
        have hst : levels (s ++ t) = [] ++ (n ++ m) :: ms := ih hn
        rw [List.cons_append, levels_cons hc hst, ← hl]
        rfl
      | cons x ls =>
        obtain ⟨hx, rfl⟩ := List.cons.inj hs
        have hst : levels (s ++ t) = (n :: ls) ++ (l ++ m) :: ms := ih hn
        rw [List.cons_append, levels_cons hc hst, hx]
        rfl

theorem exists_levels_concat (s : List Char) : ∃ ls l, levels s = ls ++ [l] :=
  (List.eq_nil_or_concat' _).resolve_left (levels_ne_nil s)

theorem getLast?_of_levels {s l : List Char} {ls : List (List Char)} (hs : levels s = ls ++ [l]) (hl : l ≠ []) :
    s.getLast? = l.getLast? := by
  rcases List.eq_nil_or_concat' s with rfl | ⟨s, c, rfl⟩
  · have hnil : [] ++ [[]] = ls ++ [l] := hs
    obtain ⟨-, h⟩ := List.append_inj' hnil rfl
    exact absurd (List.cons.inj h).1.symm hl
  · obtain ⟨ms, m, hm⟩ := exists_levels_concat s
    by_cases hc : c = '/'
    · subst hc
      have hlevels : levels (s ++ ['/']) = (ms ++ [m]) ++ [[]] := by
        rw [levels_append hm (levels_slash []), List.append_nil, List.append_assoc]
        rfl
      obtain ⟨-, h⟩ := List.append_inj' (hs.symm.trans hlevels) rfl
      exact absurd (List.cons.inj h).1 hl
    · have hlevels : levels (s ++ [c]) = ms ++ [m ++ [c]] := levels_append hm (levels_cons hc rfl)
      obtain ⟨-, h⟩ := List.append_inj' (hs.symm.trans hlevels) rfl
      rw [(List.cons.inj h).1, List.getLast?_concat, List.getLast?_concat]

/-! ## Plain filters -/

theorem Literal.ne_wild {l : List Char} (h : Literal l) : l ≠ ['+'] ∧ l ≠ ['#'] := by
  constructor
  · rintro rfl
    exact (h '+' List.mem_cons_self).1 rfl
  · rintro rfl
    exact (h '#' List.mem_cons_self).2.1 rfl

theorem Literal.plain {f : List Char} (h : Literal f) : Plain f := fun _ hl => Or.inr (literal_of_mem_levels h hl)

theorem plain_cons_slash {f : List Char} : Plain ('/' :: f) ↔ Plain f := by
  rw [Plain, levels_slash, List.forall_mem_cons]
  exact and_iff_right (Or.inr fun _ h => absurd h List.not_mem_nil)

theorem Plain.tail {c : Char} {f : List Char} (h : Plain (c :: f)) : Plain f ∧ (c = '+' ∨ Literal [c]) := by
  by_cases hc : c = '/'
  · subst hc
    exact ⟨plain_cons_slash.mp h, Or.inr (by decide)⟩
  · obtain ⟨l, ls, hl⟩ := exists_levels f
    rw [Plain, levels_cons hc hl, List.forall_mem_cons] at h
    obtain ⟨hcl, hls⟩ := h
    rw [Plain, hl, List.forall_mem_cons]
    rcases hcl with hcl | hcl
    · obtain ⟨rfl, rfl⟩ := List.cons.inj hcl
      exact ⟨⟨Or.inr fun _ h => absurd h List.not_mem_nil, hls⟩, Or.inl rfl⟩
    · obtain ⟨h₁, h₂⟩ := literal_append (s := [c]) |>.mp hcl
      exact ⟨⟨Or.inr h₂, hls⟩, Or.inr h₁⟩

/-- A `+` in a plain filter is the end of the filter or of a level. -/
theorem Plain.after_plus {f : List Char} (h : Plain ('+' :: f)) : f = [] ∨ ∃ g, f = '/' :: g := by
  cases f with
  | nil => exact Or.inl rfl
  | cons d g =>
    refine Or.inr ⟨g, ?_⟩
    by_contra hd
    have hd : d ≠ '/' := fun h => hd (by rw [h])
    obtain ⟨l, ls, hl⟩ := exists_levels g
    rcases h _ (by rw [levels_cons (by decide) (levels_cons hd hl)]; exact List.mem_cons_self) with h | h
    · exact absurd (List.cons.inj h).2 (by simp)
    · exact (h '+' List.mem_cons_self).1 rfl

theorem Plain.of_append {f u : List Char} (h : Plain (f ++ u)) : Plain f := by
  obtain ⟨ls, l, hl⟩ := exists_levels_concat f
  obtain ⟨m, ms, hm⟩ := exists_levels u
  rw [Plain, levels_append hl hm, List.forall_mem_append, List.forall_mem_cons] at h
  rw [Plain, hl, List.forall_mem_append, List.forall_mem_singleton]
  refine ⟨h.1, ?_⟩
  rcases h.2.1 with h | h
  · rcases List.append_eq_singleton_iff.mp h with ⟨rfl, -⟩ | ⟨rfl, -⟩
    · exact Or.inr fun _ h => absurd h List.not_mem_nil
    · exact Or.inl rfl
  · exact Or.inr (literal_append.mp h).1

theorem Plain.append {f u : List Char} (hf : Plain f) (hlast : f.getLast? ≠ some '+') (hu : Literal u) :
    Plain (f ++ u) := by
  obtain ⟨ls, l, hl⟩ := exists_levels_concat f
  obtain ⟨m, ms, hm⟩ := exists_levels u
  have hmu : ∀ n ∈ m :: ms, Literal n := fun n hn => literal_of_mem_levels hu (hm ▸ hn)
  rw [Plain, hl, List.forall_mem_append, List.forall_mem_singleton] at hf
  have hlit : Literal l := by
    rcases hf.2 with rfl | h
    · exact absurd (getLast?_of_levels hl (by simp)) hlast
    · exact h
  rw [Plain, levels_append hl hm, List.forall_mem_append, List.forall_mem_cons]
  refine ⟨hf.1, Or.inr (literal_append.mpr ⟨hlit, hmu m List.mem_cons_self⟩), fun n hn => ?_⟩
  exact Or.inr (hmu n (List.mem_cons_of_mem _ hn))

theorem validFilter_iff_plain {f : List Char} (hlast : f.getLast? ≠ some '#') : ValidFilter f ↔ f ≠ [] ∧ Plain f := by
  obtain ⟨ls, l, hl⟩ := exists_levels_concat f
  have hsharp : l ≠ ['#'] := by
    rintro rfl
    exact hlast (getLast?_of_levels hl (by simp))
  simp only [ValidFilter, Plain, hl, List.dropLast_concat, List.getLast?_concat, Option.mem_some_iff, forall_eq',
    List.forall_mem_append, List.forall_mem_singleton, hsharp, false_or]

/-! ## Matching by characters -/

/-- The first level of a topic, and what stands behind it. -/
theorem levels_afterLevel (t : List Char) : ∃ l ls, levels t = l :: ls ∧
    (ls = [] ∧ afterLevel t = [] ∨ ∃ t', ls = levels t' ∧ afterLevel t = '/' :: t') := by
  induction t with
  | nil => exact ⟨[], [], rfl, Or.inl ⟨rfl, rfl⟩⟩
  | cons d t ih =>
    by_cases hd : d = '/'
    · subst hd
      exact ⟨[], levels t, levels_slash t, Or.inr ⟨t, rfl, rfl⟩⟩
    · obtain ⟨l, ls, hl, h⟩ := ih
      have hafter : afterLevel (d :: t) = afterLevel t := List.dropWhile_cons_of_pos (by simpa using hd)
      exact ⟨d :: l, ls, levels_cons hd hl, by rwa [hafter]⟩

theorem Plain.ne_sharp {f : List Char} (h : Plain f) : ∀ l ∈ levels f, l ≠ ['#'] := by
  intro l hl
  rcases h l hl with rfl | hlit
  · decide
  · exact hlit.ne_wild.2

theorem matchLevels_nil {f : List Char} (hf : f ≠ ['#']) (fs : List (List Char)) :
    matchLevels (f :: fs) [] = false := by
  simp [matchLevels, hf]

theorem matchLevels_cons {f t : List Char} (hf : f ≠ ['#']) (fs ts : List (List Char)) :
    matchLevels (f :: fs) (t :: ts) = (levelCovers f t && matchLevels fs ts) := by
  simp [matchLevels, hf]

theorem matchText_plus (f t : List Char) : matchText ('+' :: f) t = matchText f (afterLevel t) := rfl

theorem matchText_nil {c : Char} (hc : c ≠ '+') (f : List Char) : matchText (c :: f) [] = false := if_neg hc

theorem matchText_cons {c : Char} (hc : c ≠ '+') (d : Char) (f t : List Char) :
    matchText (c :: f) (d :: t) = (c = d && matchText f t) := if_neg hc

theorem matchLevels_plus {f : List Char} (h : Plain ('+' :: f)) (t : List Char) :
    matchLevels (levels ('+' :: f)) (levels t) = matchLevels (levels f) (levels (afterLevel t)) := by
  obtain ⟨l, ls, hl, hafter⟩ := levels_afterLevel t
  rw [hl]
  rcases h.after_plus with rfl | ⟨g, rfl⟩
  · rcases hafter with ⟨rfl, ha⟩ | ⟨t', rfl, ha⟩
    · rw [ha]
      rfl
    · rw [ha, levels_slash]
      rfl
  · rw [levels_cons (by decide) (levels_slash g), levels_slash]
    rcases hafter with ⟨rfl, ha⟩ | ⟨t', rfl, ha⟩
    · rw [ha]
      rfl
    · rw [ha, levels_slash]
      rfl

theorem matchLevels_slash {f : List Char} (h : Plain f) (t : List Char) :
    matchLevels (levels ('/' :: f)) (levels []) = false ∧
      ∀ d, matchLevels (levels ('/' :: f)) (levels (d :: t)) = ('/' = d && matchLevels (levels f) (levels t)) := by
  obtain ⟨m, ms, hm⟩ := exists_levels f
  obtain ⟨n, ns, hn⟩ := exists_levels t
  constructor
  · have hm' : m ≠ ['#'] := h.ne_sharp m (hm ▸ List.mem_cons_self)
    rw [levels_slash, hm, levels, matchLevels_cons (by simp), matchLevels_nil hm', Bool.and_false]
  · intro d
    by_cases hd : d = '/'
    · subst hd
      rw [levels_slash, levels_slash]
      rfl
    · rw [levels_slash, levels_cons hd hn, matchLevels_cons (by simp)]
      simp [levelCovers, Ne.symm hd]

theorem matchLevels_char {c : Char} {f : List Char} (hplus : c ≠ '+') (hslash : c ≠ '/') (h : Plain (c :: f))
    (t : List Char) : matchLevels (levels (c :: f)) (levels []) = false ∧
      ∀ d, matchLevels (levels (c :: f)) (levels (d :: t)) = (c = d && matchLevels (levels f) (levels t)) := by
  obtain ⟨m, ms, hm⟩ := exists_levels f
  obtain ⟨n, ns, hn⟩ := exists_levels t
  have hlit : Literal (c :: m) := by
    have hlevel := h (c :: m) (by rw [levels_cons hslash hm]; exact List.mem_cons_self)
    exact hlevel.resolve_left fun h => hplus (List.cons.inj h).1
  have hwild : c :: m ≠ ['+'] ∧ c :: m ≠ ['#'] := hlit.ne_wild
  have hwild' : m ≠ ['+'] ∧ m ≠ ['#'] := (literal_append (s := [c]) |>.mp hlit).2.ne_wild
  constructor
  · rw [levels_cons hslash hm, levels, matchLevels_cons hwild.2, levelCovers]
    simp [hwild.1]
  · intro d
    rw [levels_cons hslash hm, hm]
    by_cases hd : d = '/'
    · subst hd
      rw [levels_slash, matchLevels_cons hwild.2, levelCovers]
      simp [hwild.1, hslash]
    · rw [levels_cons hd hn, hn, matchLevels_cons hwild.2, matchLevels_cons hwild'.2, levelCovers, levelCovers]
      simp [hwild.1, hwild'.1, Bool.and_assoc]

/-- **A plain filter is matched character by character.** -/
theorem matchLevels_levels {f : List Char} (h : Plain f) (t : List Char) :
    matchLevels (levels f) (levels t) = matchText f t := by
  induction f generalizing t with
  | nil =>
    cases t with
    | nil => rfl
    | cons d t =>
      obtain ⟨l, ls, hl⟩ := exists_levels t
      by_cases hd : d = '/'
      · subst hd
        rw [levels_slash, hl]
        rfl
      · rw [levels_cons hd hl]
        rfl
  | cons c f ih =>
    have htail := h.tail.1
    by_cases hplus : c = '+'
    · subst hplus
      rw [matchText_plus, ← ih htail, matchLevels_plus h]
    · have hstep : ∀ t, matchLevels (levels (c :: f)) (levels []) = false ∧
          ∀ d, matchLevels (levels (c :: f)) (levels (d :: t)) = (c = d && matchLevels (levels f) (levels t)) := by
        intro t
        by_cases hslash : c = '/'
        · subst hslash
          exact matchLevels_slash htail t
        · exact matchLevels_char hplus hslash h t
      cases t with
      | nil => rw [matchText_nil hplus, (hstep []).1]
      | cons d t => rw [matchText_cons hplus, ← ih htail, (hstep t).2 d]

/-! ## Overlap -/

theorem agree_nil_right (f : List Char) : agree f [] = true := by
  induction f with
  | nil => rfl
  | cons c f ih =>
    by_cases hc : c = '+'
    · subst hc
      exact ih
    · exact if_neg hc

theorem agree_plus (f t : List Char) : agree ('+' :: f) t = agree f (afterLevel t) := rfl

theorem agree_cons {c : Char} (hc : c ≠ '+') (d : Char) (f t : List Char) :
    agree (c :: f) (d :: t) = (c = d && agree f t) := if_neg hc

/-- A level that ends within `t` leaves the same behind it whatever follows `t`. -/
theorem afterLevel_append {t : List Char} (h : afterLevel t ≠ []) (v : List Char) :
    afterLevel (t ++ v) = afterLevel t ++ v := by
  rw [afterLevel, List.dropWhile_append, if_neg (by simpa [afterLevel] using h)]
  rfl

theorem afterLevel_append_of_nil {t : List Char} (h : afterLevel t = []) (v : List Char) :
    afterLevel (t ++ v) = afterLevel v := by
  rw [afterLevel, List.dropWhile_append, if_pos (by simpa [afterLevel] using h)]
  rfl

theorem afterLevel_slash (t : List Char) : afterLevel ('/' :: t) = '/' :: t := rfl

theorem exists_of_matchText_slash {f t : List Char} (h : matchText ('/' :: f) t = true) : ∃ t', t = '/' :: t' := by
  cases t with
  | nil => cases h
  | cons d t =>
    rw [matchText_cons (by decide), Bool.and_eq_true, decide_eq_true_eq] at h
    exact ⟨t, by rw [← h.1]⟩

theorem getLast?_tail {c : Char} {f : List Char} (h : (c :: f).getLast? ≠ some '+') : f.getLast? ≠ some '+' := by
  cases f with
  | nil => exact nofun
  | cons d f => rwa [List.getLast?_cons_cons] at h

theorem agree_of_matchText {f t u v : List Char} (h : matchText (f ++ u) (t ++ v) = true) : agree f t = true := by
  induction f generalizing t v with
  | nil => rfl
  | cons c f ih =>
    by_cases hc : c = '+'
    · subst hc
      rw [agree_plus]
      by_cases ht : afterLevel t = []
      · rw [ht]
        exact agree_nil_right f
      · rw [List.cons_append, matchText_plus, afterLevel_append ht] at h
        exact ih h
    · cases t with
      | nil => exact agree_nil_right _
      | cons d t =>
        rw [List.cons_append, List.cons_append, matchText_cons hc, Bool.and_eq_true] at h
        rw [agree_cons hc, Bool.and_eq_true]
        exact ⟨h.1, ih h.2⟩

theorem startsWild_append {f : List Char} (hf : f ≠ []) (u : List Char) : startsWild (f ++ u) = startsWild f := by
  rw [startsWild, startsWild, List.head?_append_of_ne_nil _ hf]

theorem isReserved_append {t : List Char} (ht : t ≠ []) (v : List Char) : isReserved (t ++ v) = isReserved t := by
  rw [isReserved, isReserved, List.head?_append_of_ne_nil _ ht]

/-- **A filter covers a topic only where what they start with overlaps.** -/
theorem overlaps_of_covers {f t u v : List Char} (hf : f ≠ []) (ht : t ≠ []) (hplain : Plain (f ++ u))
    (h : covers (f ++ u) (t ++ v) = true) : overlaps f t = true := by
  rw [covers, Bool.and_eq_true, matchLevels_levels hplain, startsWild_append hf, isReserved_append ht] at h
  rw [overlaps, Bool.and_eq_true]
  exact ⟨h.1, agree_of_matchText h.2⟩

theorem matchText_self {z : List Char} (hz : Literal z) : matchText z z = true := by
  induction z with
  | nil => rfl
  | cons c z ih =>
    obtain ⟨hc, hz⟩ := List.forall_mem_cons.mp hz
    rw [matchText_cons hc.1, ih hz]
    simp

/-- Where a filter prefix and a topic prefix agree, they can be completed to a filter and a topic it matches. -/
theorem exists_matchText_of_agree {f t : List Char} (hf : Plain f) (hlast : f.getLast? ≠ some '+') (ht : Literal t)
    (h : agree f t = true) : ∃ u v, Literal u ∧ Literal v ∧ ∀ z, Literal z →
      matchText (f ++ (u ++ z)) (t ++ (v ++ z)) = true := by
  induction f generalizing t with
  | nil =>
    refine ⟨t, [], ht, by decide, fun z hz => ?_⟩
    rw [List.nil_append, List.nil_append]
    exact matchText_self (literal_append.mpr ⟨ht, hz⟩)
  | cons c f ih =>
    obtain ⟨htail, hchar⟩ := hf.tail
    by_cases hc : c = '+'
    · subst hc
      obtain ⟨g, rfl⟩ : ∃ g, f = '/' :: g := hf.after_plus.resolve_left (by rintro rfl; exact hlast rfl)
      have hafter : Literal (afterLevel t) := ht.of_subset fun c hc => (List.dropWhile_sublist _).subset hc
      obtain ⟨u, v, hu, hv, huv⟩ := ih htail (getLast?_tail hlast) hafter h
      refine ⟨u, v, hu, hv, fun z hz => ?_⟩
      have hmatch := huv z hz
      rw [List.cons_append, matchText_plus]
      by_cases hend : afterLevel t = []
      · -- the level goes on, up to the separator that the filter asks for
        rw [hend, List.nil_append] at hmatch
        obtain ⟨w, hw⟩ := exists_of_matchText_slash hmatch
        rw [afterLevel_append_of_nil hend, hw, afterLevel_slash, ← hw]
        exact hmatch
      · rw [afterLevel_append hend]
        exact hmatch
    · have hlit := hchar.resolve_left hc
      cases t with
      | nil =>
        obtain ⟨u, v, hu, hv, huv⟩ := ih htail (getLast?_tail hlast) (t := []) (by decide) (agree_nil_right f)
        refine ⟨u, c :: v, hu, literal_append (s := [c]) |>.mpr ⟨hlit, hv⟩, fun z hz => ?_⟩
        rw [List.cons_append, List.nil_append, List.cons_append, matchText_cons hc]
        simpa using huv z hz
      | cons d t =>
        rw [agree_cons hc, Bool.and_eq_true] at h
        obtain ⟨u, v, hu, hv, huv⟩ := ih htail (getLast?_tail hlast) (List.forall_mem_cons.mp ht).2 h.2
        refine ⟨u, v, hu, hv, fun z hz => ?_⟩
        rw [List.cons_append, List.cons_append, matchText_cons hc, huv z hz, Bool.and_true]
        exact h.1

/-- **Where they overlap, some filter that starts with `f` covers some topic that starts with `t`.** -/
theorem exists_covers_of_overlaps {f t : List Char} (hf : f ≠ []) (ht : t ≠ []) (hplain : Plain f)
    (hlast : f.getLast? ≠ some '+') (hlit : Literal t) (h : overlaps f t = true) :
    ∃ u v, Literal u ∧ Literal v ∧ ∀ z, Literal z → covers (f ++ (u ++ z)) (t ++ (v ++ z)) = true := by
  rw [overlaps, Bool.and_eq_true] at h
  obtain ⟨u, v, hu, hv, huv⟩ := exists_matchText_of_agree hplain hlast hlit h.2
  refine ⟨u, v, hu, hv, fun z hz => ?_⟩
  have hplain' : Plain (f ++ (u ++ z)) := hplain.append hlast (literal_append.mpr ⟨hu, hz⟩)
  rw [covers, startsWild_append hf, isReserved_append ht, h.1, matchLevels_levels hplain', huv z hz]
  rfl

theorem agree_literal_iff {f t : List Char} (hf : Literal f) : agree f t = true ↔ f <+: t ∨ t <+: f := by
  induction f generalizing t with
  | nil => exact iff_of_true rfl (Or.inl (List.nil_prefix))
  | cons c f ih =>
    obtain ⟨hc, hf⟩ := List.forall_mem_cons.mp hf
    cases t with
    | nil => exact iff_of_true (agree_nil_right _) (Or.inr List.nil_prefix)
    | cons d t =>
      rw [agree_cons hc.1, Bool.and_eq_true, ih hf, decide_eq_true_eq, List.cons_prefix_cons, List.cons_prefix_cons,
        eq_comm (a := d), and_or_left]

end Topic
