import Mathlib.Data.List.Basic
import MqttServices.Lib.Run

/-!
# Texts of distinguished names

A distinguished name is written as `key=value` with separators between the attributes. White space around a key or a
value does not count, and a value in quotes holds everything up to the closing quote, where two quotes stand for one.

* `X500.Grammar`, `X500.next`, `X500.parse`: the reader, one character at a time.
* `X500.parse_key`: what is left to read after the key.
* `X500.exec_value`, **`X500.length_of_not_plain`**: the values that are read whole, and those of which a part is read.
* **`X500.parse_eq_iff`**: the values that are read as they are written.
-/

namespace X500

/-- The characters of the syntax, and the attributes behind the keys. -/
structure Grammar (A : Type*) where
  isWhiteSpace : Char → Bool
  isControl : Char → Bool
  isSeparator : Char → Bool
  attributeOf : List Char → Option A

/-- What the reader waits for. -/
inductive ParseState (A : Type*) where
  | SeekTag
  | SeekTagEnd (tag : List Char)
  | SeekEquals (tag : List Char)
  | SeekValueStart (a : A)
  | SeekValueEnd (a : A) (value blanks : List Char)
  | SeekEndQuote (a : A) (value : List Char)
  | MaybeEndQuote (a : A) (value : List Char)
  | SeekComma (a : A) (value : List Char)

/-- The reader: the attributes read, and the state. -/
structure Reader (A : Type*) where
  read : List (A × List Char)
  state : ParseState A

variable {A : Type*} (σ : Grammar A)

/-- After the key. -/
def startValue (read : List (A × List Char)) (tag : List Char) : Option (Reader A) :=
  (σ.attributeOf tag).map fun a => ⟨read, .SeekValueStart a⟩

/-- After the closing quote. -/
def endValue (read : List (A × List Char)) (a : A) (value : List Char) (c : Char) : Option (Reader A) :=
  if σ.isSeparator c then some ⟨read ++ [(a, value)], .SeekTag⟩
  else if σ.isWhiteSpace c then some ⟨read, .SeekComma a value⟩
  else none

/-- One character. -/
def next : Reader A → Char → Option (Reader A)
  | ⟨read, .SeekTag⟩, c =>
    if σ.isWhiteSpace c then some ⟨read, .SeekTag⟩
    else if σ.isControl c then none
    else some ⟨read, .SeekTagEnd [c]⟩
  | ⟨read, .SeekTagEnd tag⟩, c =>
    if c = '=' then startValue σ read tag
    else if σ.isWhiteSpace c then some ⟨read, .SeekEquals tag⟩
    else if σ.isControl c then none
    else some ⟨read, .SeekTagEnd (tag ++ [c])⟩
  | ⟨read, .SeekEquals tag⟩, c =>
    if c = '=' then startValue σ read tag
    else if σ.isWhiteSpace c then some ⟨read, .SeekEquals tag⟩
    else none
  | ⟨read, .SeekValueStart a⟩, c =>
    if σ.isWhiteSpace c then some ⟨read, .SeekValueStart a⟩
    else if c = '"' then some ⟨read, .SeekEndQuote a []⟩
    else if σ.isSeparator c then some ⟨read ++ [(a, [])], .SeekTag⟩
    else some ⟨read, .SeekValueEnd a [c] []⟩
  | ⟨read, .SeekValueEnd a value blanks⟩, c =>
    if σ.isSeparator c then some ⟨read ++ [(a, value)], .SeekTag⟩
    else if σ.isWhiteSpace c then some ⟨read, .SeekValueEnd a value (blanks ++ [c])⟩
    else some ⟨read, .SeekValueEnd a (value ++ blanks ++ [c]) []⟩
  | ⟨read, .SeekEndQuote a value⟩, c =>
    if c = '"' then some ⟨read, .MaybeEndQuote a value⟩ else some ⟨read, .SeekEndQuote a (value ++ [c])⟩
  | ⟨read, .MaybeEndQuote a value⟩, c =>
    if c = '"' then some ⟨read, .SeekEndQuote a (value ++ ['"'])⟩ else endValue σ read a value c
  | ⟨read, .SeekComma a value⟩, c => endValue σ read a value c

/-- The end of the text. -/
def finish : Reader A → Option (List (A × List Char))
  | ⟨read, .SeekTag⟩ => some read
  | ⟨read, .SeekValueStart a⟩ => some (read ++ [(a, [])])
  | ⟨read, .SeekValueEnd a value _⟩ => some (read ++ [(a, value)])
  | ⟨read, .MaybeEndQuote a value⟩ => some (read ++ [(a, value)])
  | ⟨read, .SeekComma a value⟩ => some (read ++ [(a, value)])
  | ⟨_, .SeekTagEnd _⟩ | ⟨_, .SeekEquals _⟩ | ⟨_, .SeekEndQuote _ _⟩ => none

/-- The attributes read from a state on. -/
def parseFrom (r : Reader A) (s : List Char) : Option (List (A × List Char)) := (Run.exec (next σ) r s).bind finish

/-- The attributes of a text. -/
def parse (s : List Char) : Option (List (A × List Char)) := parseFrom σ ⟨[], .SeekTag⟩ s

variable {σ} {a : A} {r r' : Reader A} {c : Char} {s value blanks : List Char} {attributes : List (A × List Char)}

theorem parseFrom_cons (h : next σ r c = some r') : parseFrom σ r (c :: s) = parseFrom σ r' s := by
  rw [parseFrom, Run.exec_cons, h, Option.bind_some, parseFrom]

theorem parseFrom_cons_none (h : next σ r c = none) : parseFrom σ r (c :: s) = none := by
  rw [parseFrom, Run.exec_cons, h]
  rfl

theorem parseFrom_append {t : List Char} (h : Run.exec (next σ) r s = some r') :
    parseFrom σ r (s ++ t) = parseFrom σ r' t := by
  rw [parseFrom, Run.exec_append, h, Option.bind_some, parseFrom]

/-! ## The key -/

/-- A key is written without white space, control characters and equals signs. -/
def IsKey (σ : Grammar A) (key : List Char) : Prop :=
  key ≠ [] ∧ ∀ c ∈ key, c ≠ '=' ∧ σ.isWhiteSpace c = false ∧ σ.isControl c = false

theorem exec_tag (read : List (A × List Char)) {s : List Char} (tag : List Char)
    (hs : ∀ c ∈ s, c ≠ '=' ∧ σ.isWhiteSpace c = false ∧ σ.isControl c = false) :
    Run.exec (next σ) ⟨read, .SeekTagEnd tag⟩ s = some ⟨read, .SeekTagEnd (tag ++ s)⟩ := by
  induction s generalizing tag with
  | nil =>
    rw [List.append_nil]
    rfl
  | cons c s ih =>
    obtain ⟨hne, hspace, hcontrol⟩ := hs c List.mem_cons_self
    have hc : next σ ⟨read, .SeekTagEnd tag⟩ c = some ⟨read, .SeekTagEnd (tag ++ [c])⟩ := by
      simp [next, hne, hspace, hcontrol]
    rw [Run.exec_cons, hc, Option.bind_some, ih (tag ++ [c]) fun d hd => hs d (List.mem_cons_of_mem c hd),
      List.append_assoc, List.singleton_append]

/-- **After a key and its equals sign the value is read.** -/
theorem parse_key {key : List Char} (hkey : IsKey σ key) (ha : σ.attributeOf key = some a) (s : List Char) :
    parse σ (key ++ '=' :: s) = parseFrom σ ⟨[], .SeekValueStart a⟩ s := by
  obtain ⟨hne, hchars⟩ := hkey
  cases key with
  | nil => exact absurd rfl hne
  | cons c key =>
    obtain ⟨-, hspace, hcontrol⟩ := hchars c List.mem_cons_self
    have hc : next σ ⟨[], .SeekTag⟩ c = some ⟨[], .SeekTagEnd [c]⟩ := by
      simp [next, hspace, hcontrol]
    have htag := exec_tag [] [c] fun d hd => hchars d (List.mem_cons_of_mem c hd)
    rw [parse, List.cons_append, parseFrom_cons hc, parseFrom_append htag]
    apply parseFrom_cons
    simp [next, startValue, ha]

/-! ## The value -/

section Value

variable (read : List (A × List Char)) (a : A) (value blanks : List Char)

theorem next_separator (h : σ.isSeparator c = true) :
    next σ ⟨read, .SeekValueEnd a value blanks⟩ c = some ⟨read ++ [(a, value)], .SeekTag⟩ := if_pos h

theorem next_blank (hsep : σ.isSeparator c = false) (hspace : σ.isWhiteSpace c = true) :
    next σ ⟨read, .SeekValueEnd a value blanks⟩ c = some ⟨read, .SeekValueEnd a value (blanks ++ [c])⟩ := by
  simp [next, hsep, hspace]

theorem next_char (hsep : σ.isSeparator c = false) (hspace : σ.isWhiteSpace c = false) :
    next σ ⟨read, .SeekValueEnd a value blanks⟩ c =
      some ⟨read, .SeekValueEnd a (value ++ blanks ++ [c]) []⟩ := by
  simp [next, hsep, hspace]

theorem exec_plain {s blanks : List Char} (hs : ∀ c ∈ s, σ.isSeparator c = false)
    (hblanks : ∀ c ∈ blanks, σ.isWhiteSpace c = true) :
    ∃ value' blanks', Run.exec (next σ) ⟨read, .SeekValueEnd a value blanks⟩ s =
      some ⟨read, .SeekValueEnd a value' blanks'⟩ ∧ value' ++ blanks' = value ++ blanks ++ s ∧
        ∀ c ∈ blanks', σ.isWhiteSpace c = true := by
  induction s generalizing value blanks with
  | nil => exact ⟨value, blanks, rfl, (List.append_nil _).symm, hblanks⟩
  | cons c s ih =>
    have hsep := hs c List.mem_cons_self
    have hrest := fun d hd => hs d (List.mem_cons_of_mem c hd)
    cases hspace : σ.isWhiteSpace c with
    | true =>
      have hblanks' : ∀ d ∈ blanks ++ [c], σ.isWhiteSpace d = true :=
        List.forall_mem_append.mpr ⟨hblanks, List.forall_mem_singleton.mpr hspace⟩
      obtain ⟨value', blanks', hexec, happend, hall⟩ := ih value hrest hblanks'
      refine ⟨value', blanks', ?_, ?_, hall⟩
      · rw [Run.exec_cons, next_blank read a value blanks hsep hspace, Option.bind_some, hexec]
      · rw [happend]
        simp only [List.append_assoc, List.singleton_append]
    | false =>
      obtain ⟨value', blanks', hexec, happend, hall⟩ := ih (value ++ blanks ++ [c]) hrest (List.forall_mem_nil _)
      refine ⟨value', blanks', ?_, ?_, hall⟩
      · rw [Run.exec_cons, next_char read a value blanks hsep hspace, Option.bind_some, hexec]
      · rw [happend]
        simp only [List.append_assoc, List.singleton_append]

/-- **A value without separators that does not end in a blank is read as it is.** -/
theorem exec_value (hs : ∀ d ∈ s, σ.isSeparator d = false)
    (hlast : ∀ d ∈ (c :: s).getLast?, σ.isWhiteSpace d = false) :
    Run.exec (next σ) ⟨read, .SeekValueEnd a [c] []⟩ s = some ⟨read, .SeekValueEnd a (c :: s) []⟩ := by
  obtain ⟨value, blanks, hexec, happend, hblanks⟩ := exec_plain read a [c] hs (List.forall_mem_nil _)
  have hnil : blanks = [] := by
    by_contra hne
    have hend : blanks.getLast hne ∈ (c :: s).getLast? := by
      show (c :: s).getLast? = some _
      rw [← List.getLast?_eq_some_getLast hne, ← List.getLast?_append_of_ne_nil value hne, happend]
      rfl
    have hspace := hblanks _ (List.getLast_mem hne)
    rw [hlast _ hend] at hspace
    cases hspace
  rw [hnil, List.append_nil] at happend
  rw [hexec, hnil, happend]
  rfl

end Value

/-! ## The first attribute -/

theorem startValue_read {read : List (A × List Char)} {tag : List Char} (h : startValue σ read tag = some r') :
    r'.read = read := by
  obtain ⟨a, -, rfl⟩ := Option.map_eq_some_iff.mp h
  rfl

theorem endValue_cases {read : List (A × List Char)} (h : endValue σ read a value c = some r') :
    r' = ⟨read ++ [(a, value)], .SeekTag⟩ ∨ r' = ⟨read, .SeekComma a value⟩ := by
  rw [endValue] at h
  split_ifs at h
  · exact Or.inl (Option.some.inj h).symm
  · exact Or.inr (Option.some.inj h).symm

theorem read_prefix_of_next (h : next σ r c = some r') : r.read <+: r'.read := by
  have hstart : ∀ {read tag}, startValue σ read tag = some r' → read <+: r'.read := by
    intro read tag hstart
    have hread := startValue_read hstart
    subst hread
    exact List.prefix_rfl
  have hend : ∀ {read a value}, endValue σ read a value c = some r' → read <+: r'.read := by
    intro read a value hend
    rcases endValue_cases hend with rfl | rfl
    · exact List.prefix_append _ _
    · exact List.prefix_rfl
  obtain ⟨read, state⟩ := r
  cases state with
  | SeekTag =>
    rw [next] at h
    split_ifs at h <;> cases h <;> exact List.prefix_rfl
  | SeekTagEnd tag | SeekEquals tag =>
    rw [next] at h
    split_ifs at h
    · exact hstart h
    all_goals cases h; exact List.prefix_rfl
  | SeekValueStart a | SeekValueEnd a value blanks =>
    rw [next] at h
    split_ifs at h <;> cases h <;> first | exact List.prefix_rfl | exact List.prefix_append _ _
  | SeekEndQuote a value =>
    rw [next] at h
    split_ifs at h <;> cases h <;> exact List.prefix_rfl
  | MaybeEndQuote a value =>
    rw [next] at h
    split_ifs at h
    · cases h
      exact List.prefix_rfl
    · exact hend h
  | SeekComma a value => exact hend h

theorem read_prefix_of_finish (h : finish r = some attributes) : r.read <+: attributes := by
  obtain ⟨read, state⟩ := r
  cases state with
  | SeekTag =>
    cases h
    exact List.prefix_rfl
  | SeekTagEnd tag | SeekEquals tag | SeekEndQuote a value => cases h
  | SeekValueStart a | SeekValueEnd a value blanks | MaybeEndQuote a value | SeekComma a value =>
    cases h
    exact List.prefix_append _ _

/-- **What has been read stays.** -/
theorem read_prefix (h : parseFrom σ r s = some attributes) : r.read <+: attributes := by
  obtain ⟨r', hexec, hfinish⟩ := Option.bind_eq_some_iff.mp h
  have hstep : ∀ t c t', r.read <+: t.read → next σ t c = some t' → r.read <+: t'.read :=
    fun t c t' ht hnext => ht.trans (read_prefix_of_next hnext)
  exact (Run.invariant hstep List.prefix_rfl hexec).trans (read_prefix_of_finish hfinish)

/-- What has been read of a value in quotes. -/
def quoted : ParseState A → Option (List Char)
  | .SeekEndQuote _ value | .MaybeEndQuote _ value | .SeekComma _ value => some value
  | _ => none

/-- Each character makes a value in quotes longer by one at most, or ends it. -/
theorem quoted_of_next (hq : quoted r.state = some value) (h : next σ r c = some r') :
    (r'.read = r.read ∧ ∃ value', quoted r'.state = some value' ∧ value'.length ≤ value.length + 1) ∨
      ∃ a, r'.read = r.read ++ [(a, value)] := by
  have hlonger : ∀ d, (value ++ [d]).length ≤ value.length + 1 := fun d => by simp
  obtain ⟨read, state⟩ := r
  cases state with
  | SeekEndQuote a v =>
    cases hq
    rw [next] at h
    split_ifs at h
    · cases h
      exact Or.inl ⟨rfl, value, rfl, Nat.le_succ _⟩
    · cases h
      exact Or.inl ⟨rfl, value ++ [c], rfl, hlonger c⟩
  | MaybeEndQuote a v =>
    cases hq
    rw [next] at h
    split_ifs at h
    · cases h
      exact Or.inl ⟨rfl, value ++ ['"'], rfl, hlonger '"'⟩
    · rcases endValue_cases h with rfl | rfl
      · exact Or.inr ⟨a, rfl⟩
      · exact Or.inl ⟨rfl, value, rfl, Nat.le_succ _⟩
  | SeekComma a v =>
    cases hq
    rcases endValue_cases h with rfl | rfl
    · exact Or.inr ⟨a, rfl⟩
    · exact Or.inl ⟨rfl, value, rfl, Nat.le_succ _⟩
  | SeekTag | SeekTagEnd tag | SeekEquals tag | SeekValueStart a | SeekValueEnd a v blanks => cases hq

theorem finish_of_quoted (hq : quoted r.state = some value) (h : finish r = some attributes) :
    ∃ a, attributes = r.read ++ [(a, value)] := by
  obtain ⟨read, state⟩ := r
  cases state with
  | SeekEndQuote a value' => cases h
  | MaybeEndQuote a value' | SeekComma a value' =>
    cases hq
    cases h
    exact ⟨a, rfl⟩
  | SeekTag | SeekTagEnd tag | SeekEquals tag | SeekValueStart a | SeekValueEnd a value' blanks => cases hq

/-- **A value in quotes is no longer than what is left to read.** -/
theorem length_of_quoted (hr : r.read = []) (hq : quoted r.state = some value)
    (h : parseFrom σ r s = some attributes) :
    ∃ x rest, attributes = x :: rest ∧ x.2.length ≤ value.length + s.length := by
  induction s generalizing r value with
  | nil =>
    obtain ⟨a, rfl⟩ := finish_of_quoted hq h
    rw [hr]
    exact ⟨(a, value), [], rfl, Nat.le_refl _⟩
  | cons c s ih =>
    cases hc : next σ r c with
    | none =>
      rw [parseFrom_cons_none hc] at h
      cases h
    | some r' =>
      rw [parseFrom_cons hc] at h
      rw [List.length_cons]
      rcases quoted_of_next hq hc with ⟨hread, value', hq', hlen⟩ | ⟨a, hread⟩
      · obtain ⟨x, rest, hx, hle⟩ := ih (hread.trans hr) hq' h
        exact ⟨x, rest, hx, by omega⟩
      · obtain ⟨rest, hrest⟩ := read_prefix h
        rw [hread, hr] at hrest
        exact ⟨(a, value), rest, hrest.symm, by dsimp only; omega⟩

/-- **A value without quotes ends at the first separator.** -/
theorem length_of_separator (hs : ∃ c ∈ s, σ.isSeparator c = true)
    (h : parseFrom σ ⟨[], .SeekValueEnd a value blanks⟩ s = some attributes) :
    ∃ x rest, attributes = x :: rest ∧ x.2.length < value.length + blanks.length + s.length := by
  induction s generalizing value blanks with
  | nil =>
    obtain ⟨c, hc, -⟩ := hs
    cases hc
  | cons c s ih =>
    cases hsep : σ.isSeparator c with
    | true =>
      rw [parseFrom_cons (next_separator [] a value blanks hsep)] at h
      obtain ⟨rest, hrest⟩ := read_prefix h
      exact ⟨(a, value), rest, hrest.symm, by simp only [List.length_cons]; omega⟩
    | false =>
      have hs' : ∃ d ∈ s, σ.isSeparator d = true := by
        obtain ⟨d, hd, hdsep⟩ := hs
        refine ⟨d, (List.mem_cons.mp hd).resolve_left fun heq => ?_, hdsep⟩
        rw [heq, hsep] at hdsep
        cases hdsep
      cases hspace : σ.isWhiteSpace c with
      | true =>
        rw [parseFrom_cons (next_blank [] a value blanks hsep hspace)] at h
        obtain ⟨x, rest, hx, hlt⟩ := ih hs' h
        refine ⟨x, rest, hx, ?_⟩
        simp only [List.length_append, List.length_cons, List.length_nil] at hlt ⊢
        omega
      | false =>
        rw [parseFrom_cons (next_char [] a value blanks hsep hspace)] at h
        obtain ⟨x, rest, hx, hlt⟩ := ih hs' h
        refine ⟨x, rest, hx, ?_⟩
        simp only [List.length_append, List.length_cons, List.length_nil] at hlt ⊢
        omega

/-! ## Values that are read as they are written -/

/-- A value that neither begins with a quote nor holds a separator. -/
def IsPlain (σ : Grammar A) (value : List Char) : Prop :=
  value.head? ≠ some '"' ∧ ∀ c ∈ value, σ.isSeparator c = false

theorem parseFrom_of_plain (hspace : σ.isWhiteSpace c = false)
    (hlast : ∀ d ∈ (c :: s).getLast?, σ.isWhiteSpace d = false) (hplain : IsPlain σ (c :: s)) :
    parseFrom σ ⟨[], .SeekValueStart a⟩ (c :: s) = some [(a, c :: s)] := by
  have hquote : c ≠ '"' := fun h => hplain.1 (congrArg some h)
  have hsep := hplain.2 c List.mem_cons_self
  have hc : next σ ⟨[], .SeekValueStart a⟩ c = some ⟨[], .SeekValueEnd a [c] []⟩ := by
    simp [next, hspace, hquote, hsep]
  rw [parseFrom_cons hc, parseFrom, exec_value [] a (fun d hd => hplain.2 d (List.mem_cons_of_mem c hd)) hlast]
  rfl

/-- **Of any other value the first attribute has a part only.** -/
theorem length_of_not_plain (hspace : σ.isWhiteSpace c = false) (hplain : ¬ IsPlain σ (c :: s))
    (h : parseFrom σ ⟨[], .SeekValueStart a⟩ (c :: s) = some attributes) :
    ∃ x rest, attributes = x :: rest ∧ x.2.length < (c :: s).length := by
  by_cases hquote : c = '"'
  · subst hquote
    have hc : next σ ⟨[], .SeekValueStart a⟩ '"' = some ⟨[], .SeekEndQuote a []⟩ := by
      simp [next, hspace]
    rw [parseFrom_cons hc] at h
    obtain ⟨x, rest, hx, hle⟩ := length_of_quoted rfl rfl h
    exact ⟨x, rest, hx, by simp only [List.length_cons, List.length_nil] at hle ⊢; omega⟩
  · cases hsep : σ.isSeparator c with
    | true =>
      have hc : next σ ⟨[], .SeekValueStart a⟩ c = some ⟨[(a, [])], .SeekTag⟩ := by
        simp [next, hspace, hquote, hsep]
      rw [parseFrom_cons hc] at h
      obtain ⟨rest, hrest⟩ := read_prefix h
      exact ⟨(a, []), rest, hrest.symm, Nat.succ_pos _⟩
    | false =>
      have hc : next σ ⟨[], .SeekValueStart a⟩ c = some ⟨[], .SeekValueEnd a [c] []⟩ := by
        simp [next, hspace, hquote, hsep]
      have hs : ∃ d ∈ s, σ.isSeparator d = true := by
        by_contra hnone
        refine hplain ⟨fun heq => hquote (Option.some.inj heq), List.forall_mem_cons.mpr ⟨hsep, fun d hd => ?_⟩⟩
        exact Bool.eq_false_iff.mpr fun htrue => hnone ⟨d, hd, htrue⟩
      rw [parseFrom_cons hc] at h
      obtain ⟨x, rest, hx, hlt⟩ := length_of_separator hs h
      exact ⟨x, rest, hx, by simp only [List.length_cons, List.length_nil] at hlt ⊢; omega⟩

/-- **The values that are read as they are written.** -/
theorem parse_eq_iff {key v : List Char} (hkey : IsKey σ key) (ha : σ.attributeOf key = some a) (hne : v ≠ [])
    (hhead : ∀ c ∈ v.head?, σ.isWhiteSpace c = false) (hlast : ∀ c ∈ v.getLast?, σ.isWhiteSpace c = false) :
    parse σ (key ++ '=' :: v) = some [(a, v)] ↔ IsPlain σ v := by
  rw [parse_key hkey ha]
  cases v with
  | nil => exact absurd rfl hne
  | cons c s =>
    refine ⟨fun h => ?_, parseFrom_of_plain (hhead c rfl) hlast⟩
    by_contra hplain
    obtain ⟨x, rest, hx, hlt⟩ := length_of_not_plain (hhead c rfl) hplain h
    rw [← (List.cons.inj hx).1] at hlt
    exact Nat.lt_irrefl _ hlt

end X500
