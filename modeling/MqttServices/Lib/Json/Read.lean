import MqttServices.Lib.Json.Value

/-!
# Reading JSON text

* `Json.readString`: a string, as code units; a surrogate may stand alone.
* `Json.readSeq`, `Json.readList`: comma-separated items up to a closing character.
* `Json.readValue`: a value nested at most as deep as its first argument.
* `Json.parse`: a whole text, nested at most `maxDepth` deep.
* **`Json.parse_write`**: the text of a value is read back as that value, in every layout.
-/

namespace Json

/-- The text after leading white space. -/
def skipWs (s : List Char) : List Char := s.dropWhile isWs

/-! ## Strings -/

/-- The code unit of four hexadecimal digits. -/
def hex4 (a b c d : Char) : Option UInt16 :=
  (hexValue a).bind fun a => (hexValue b).bind fun b => (hexValue c).bind fun c =>
    (hexValue d).map fun d => UInt16.ofNat (((a * 0x10 + b) * 0x10 + c) * 0x10 + d)

/-- The code unit of a two-character escape. -/
def unescape (c : Char) : Option UInt16 :=
  if c = quote ∨ c = backslash ∨ c = '/' then some (UInt16.ofNat c.toNat)
  else match c with
    | 'b' => some 0x08
    | 't' => some 0x09
    | 'n' => some 0x0A
    | 'f' => some 0x0C
    | 'r' => some 0x0D
    | _ => none

/-- A string up to its closing quote, and the text after it. The escapes are checked for their form
only: a surrogate that stands alone is an error of whoever decodes the string. -/
def readString : List Char → Option (List UInt16 × List Char)
  | [] => none
  | c :: r =>
    if c = quote then some ([], r)
    else if c = backslash then
      match r with
      | 'u' :: x :: y :: z :: w :: t =>
        (hex4 x y z w).bind fun u => (readString t).map fun p => (u :: p.1, p.2)
      | e :: t => (unescape e).bind fun u => (readString t).map fun p => (u :: p.1, p.2)
      | [] => none
    else if c.toNat < 0x20 then none
    else (readString r).map fun p => (Utf16.units c ++ p.1, p.2)

theorem hex4_hexDigit (u : UInt16) :
    hex4 (hexDigit (u.toNat / 0x1000 % 16)) (hexDigit (u.toNat / 0x100 % 16))
      (hexDigit (u.toNat / 0x10 % 16)) (hexDigit (u.toNat % 16)) = some u := by
  have hd : ∀ n, hexValue (hexDigit (n % 16)) = some (n % 16) := fun n =>
    hexValue_hexDigit _ (Nat.mod_lt n (by decide))
  have hu : u.toNat < 0x10000 := u.toNat_lt
  have hsum : ((u.toNat / 0x1000 % 16 * 0x10 + u.toNat / 0x100 % 16) * 0x10 + u.toNat / 0x10 % 16) * 0x10 +
      u.toNat % 16 = u.toNat := by omega
  simp only [hex4, hd, Option.bind_some, Option.map_some, hsum, UInt16.ofNat_toNat]

theorem unescape_shortEscape {u : UInt16} {e : Char} (h : shortEscape u = some e) : unescape e = some u := by
  have hu : ∀ {n : ℕ}, u.toNat = n → UInt16.ofNat n = u := fun hn => by rw [← hn, UInt16.ofNat_toNat]
  unfold shortEscape at h
  split at h <;> cases h
  all_goals
    rw [← hu ‹_›]
    decide

theorem shortEscape_ne_u {u : UInt16} {e : Char} (h : shortEscape u = some e) : e ≠ 'u' := by
  unfold shortEscape at h
  split at h <;> cases h <;> decide

/-- **A written code unit is read back**, whatever follows it. -/
theorem readString_escape (u : UInt16) (r : List Char) :
    readString (escape u ++ r) = (readString r).map fun p => (u :: p.1, p.2) := by
  have hb : backslash ≠ quote := by decide
  unfold escape
  split_ifs with hp
  · -- a plain character
    obtain ⟨h1, h2, hn⟩ := toNat_ofNat_of_isPlain hp
    have hne : ∀ c : Char, isPlain (UInt16.ofNat c.toNat) = false → Char.ofNat u.toNat ≠ c := by
      rintro c hc rfl
      rw [hn, UInt16.ofNat_toNat, hp] at hc
      cases hc
    have hunits : Utf16.units (Char.ofNat u.toNat) = [u] := by
      rw [Utf16.units_of_lt (by omega), hn, UInt16.ofNat_toNat]
    rw [List.singleton_append, readString.eq_def]
    simp only [if_neg (hne quote (by decide)), if_neg (hne backslash (by decide)),
      if_neg (show ¬ (Char.ofNat u.toNat).toNat < 0x20 by omega), hunits, List.singleton_append]
  · cases hs : shortEscape u with
    | some e =>
      simp only [List.cons_append, List.nil_append]
      rw [readString, if_neg hb, if_pos rfl, unescape_shortEscape hs, Option.bind_some]
      exact fun _ _ _ _ _ hu _ => shortEscape_ne_u hs hu
    | none =>
      simp only [unitEscape, List.cons_append, List.nil_append]
      rw [readString, if_neg hb, if_pos rfl, hex4_hexDigit, Option.bind_some]

/-- **A string is read back from its text.** -/
theorem readString_strTail (s : List UInt16) (r : List Char) :
    readString (strTail s ++ r) = some (s, r) := by
  unfold strTail
  induction s with
  | nil =>
    rw [List.flatMap_nil, List.nil_append, List.singleton_append, readString.eq_def]
    exact if_pos rfl
  | cons u s ih =>
    rw [List.flatMap_cons, List.append_assoc, List.append_assoc, readString_escape, ← List.append_assoc, ih]
    rfl

/-! ## Values -/

/-- A fixed word, its first letter already read. -/
def readWord (word : List Char) (j : Json) (r : List Char) : Option (Json × List Char) :=
  if word.isPrefixOf r then some (j, r.drop word.length) else none

/-- A number, as long as the text allows. -/
def readNumber (s : List Char) : Option (Json × List Char) :=
  if h : isNumber (s.takeWhile isNumberChar) = true then
    some (.num ⟨s.takeWhile isNumberChar, h⟩, s.dropWhile isNumberChar)
  else none

/-- At most `n` items separated by commas, up to the closing character. -/
def readSeq {α : Type} (item : List Char → Option (α × List Char)) (close : Char) :
    ℕ → List Char → Option (List α × List Char)
  | 0, _ => none
  | n + 1, s =>
    (item (skipWs s)).bind fun p =>
      match skipWs p.2 with
      | [] => none
      | c :: t =>
        if c = ',' then (readSeq item close n t).map fun q => (p.1 :: q.1, q.2)
        else if c = close then some ([p.1], t)
        else none

/-- The items of an array or object, its opening character already read. -/
def readList {α : Type} (item : List Char → Option (α × List Char)) (close : Char) (s : List Char) :
    Option (List α × List Char) :=
  match skipWs s with
  | [] => none
  | c :: t => if c = close then some ([], t) else readSeq item close (t.length + 1) (c :: t)

/-- A member of an object. -/
def readMember (item : List Char → Option (Json × List Char)) (s : List Char) :
    Option ((List UInt16 × Json) × List Char) :=
  match s with
  | [] => none
  | c :: r =>
    if c = quote then
      (readString r).bind fun k =>
        match skipWs k.2 with
        | ':' :: t => (item (skipWs t)).map fun p => ((k.1, p.1), p.2)
        | _ => none
    else none

/-- One value; `item` reads a nested one, where nesting is still allowed. -/
def readNode (item : Option (List Char → Option (Json × List Char))) (s : List Char) :
    Option (Json × List Char) :=
  match s with
  | [] => none
  | c :: r =>
    if c = quote then (readString r).map fun p => (.str p.1, p.2)
    else if c = '[' then item.bind fun f => (readList f ']' r).map fun p => (.arr p.1, p.2)
    else if c = '{' then item.bind fun f => (readList (readMember f) '}' r).map fun p => (.obj p.1, p.2)
    else if c = 'n' then readWord ['u', 'l', 'l'] .null r
    else if c = 't' then readWord ['r', 'u', 'e'] (.bool true) r
    else if c = 'f' then readWord ['a', 'l', 's', 'e'] (.bool false) r
    else readNumber (c :: r)

/-- One value nested at most `depth` deep. -/
def readValue : ℕ → List Char → Option (Json × List Char)
  | 0 => readNode none
  | depth + 1 => readNode (some (readValue depth))

/-- The nesting a reader or writer accepts. -/
def maxDepth : ℕ := 64

/-- A whole text. -/
def parse (s : List Char) : Option Json :=
  (readValue maxDepth (skipWs s)).bind fun p => if skipWs p.2 = [] then some p.1 else none

/-! ## The round trip -/

/-- What follows a value never continues a number. -/
def Stops (r : List Char) : Prop := ∀ c ∈ r.head?, isNumberChar c = false

/-- A value starts neither with white space nor with a closing character. -/
def Starts (t : List Char) : Prop := ∃ c ∈ t.head?, isWs c = false ∧ c ≠ ']' ∧ c ≠ '}'

theorem stops_nil : Stops [] := fun _ h => absurd h (Option.not_mem_none _)

theorem isNumberChar_of_isWs {c : Char} (h : isWs c = true) : isNumberChar c = false := by
  simp only [isWs, Bool.or_eq_true, decide_eq_true_eq] at h
  rcases h with ((rfl | rfl) | rfl) | rfl <;> decide

theorem isWs_of_isNumberChar {c : Char} (h : isNumberChar c = true) : isWs c = false := by
  by_contra hw
  rw [isNumberChar_of_isWs (by simpa using hw)] at h
  exact absurd h (by decide)

theorem skipWs_append {w : List Char} (hw : ∀ c ∈ w, isWs c = true) (s : List Char) :
    skipWs (w ++ s) = skipWs s := List.dropWhile_append_of_pos hw

theorem skipWs_cons {c : Char} (hc : isWs c = false) (s : List Char) : skipWs (c :: s) = c :: s :=
  List.dropWhile_cons_of_neg (by rw [hc]; decide)

theorem skipWs_starts {t : List Char} (h : Starts t) (s : List Char) : skipWs (t ++ s) = t ++ s := by
  obtain ⟨c, hc, hw, -⟩ := h
  cases t with
  | nil => exact absurd hc (Option.not_mem_none _)
  | cons a t =>
    obtain rfl : a = c := Option.some.inj hc
    exact skipWs_cons hw _

theorem stops_ws_cons {w : List Char} (hw : ∀ c ∈ w, isWs c = true) {c : Char}
    (hc : isNumberChar c = false) (s : List Char) : Stops (w ++ c :: s) := by
  intro a ha
  cases w with
  | nil => rwa [← Option.some.inj ha]
  | cons b w =>
    rw [← Option.some.inj ha]
    exact isNumberChar_of_isWs (hw b List.mem_cons_self)

theorem stops_blockTail (L : Layout) (d : ℕ) {close : Char} (hc : isNumberChar close = false)
    (ts : List (List Char)) (r : List Char) : Stops (blockTail L d close ts ++ r) := by
  cases ts with
  | nil =>
    rw [blockTail, List.append_assoc]
    exact stops_ws_cons (L.line_ws d) hc r
  | cons t ts => exact stops_ws_cons (w := []) (fun _ h => absurd h List.not_mem_nil) (by decide) _

theorem length_lt_blockTail (L : Layout) (d : ℕ) (close : Char) (ts : List (List Char)) :
    ts.length < (blockTail L d close ts).length := by
  induction ts with
  | nil => simp [blockTail]
  | cons t ts ih => simp only [blockTail, List.length_cons, List.length_append]; omega

section Seq

variable {α : Type} {item : List Char → Option (α × List Char)} {f : α → List Char} (close : Char)

/-- The texts of `as` are read back by `item`. -/
def ReadsBack (item : List Char → Option (α × List Char)) (f : α → List Char) (as : List α) : Prop :=
  ∀ a ∈ as, Starts (f a) ∧ ∀ r, Stops r → item (f a ++ r) = some (a, r)

theorem readSeq_append {w : List Char} (hw : ∀ c ∈ w, isWs c = true) (n : ℕ) (s : List Char) :
    readSeq item close n (w ++ s) = readSeq item close n s := by
  cases n with
  | zero => rfl
  | succ n => rw [readSeq, readSeq, skipWs_append hw]

theorem readSeq_blockTail (L : Layout) (d : ℕ) (hn : isNumberChar close = false)
    (hw : isWs close = false) (hc : close ≠ ',') (as : List α) (a : α)
    (h : ReadsBack item f (a :: as)) {n : ℕ} (hlen : as.length < n) (r : List Char) :
    readSeq item close n (f a ++ (blockTail L d close (as.map f) ++ r)) = some (a :: as, r) := by
  obtain ⟨n, rfl⟩ : ∃ m, n = m + 1 := ⟨n - 1, by omega⟩
  obtain ⟨hs, hi⟩ := h a List.mem_cons_self
  rw [readSeq, skipWs_starts hs, hi _ (stops_blockTail L d hn _ r), Option.bind_some]
  induction as generalizing a n with
  | nil =>
    rw [List.map_nil, blockTail, List.append_assoc, skipWs_append (L.line_ws _),
      List.singleton_append, skipWs_cons hw]
    simp only [if_neg hc, if_true]
  | cons b as ih =>
    obtain ⟨n, rfl⟩ : ∃ m, n = m + 1 := ⟨n - 1, by simp at hlen; omega⟩
    obtain ⟨hsb, hib⟩ := h b (List.mem_cons_of_mem _ List.mem_cons_self)
    have hb := ih b (fun x hx => h x (List.mem_cons_of_mem _ hx)) n (by simp at hlen; omega) hsb hib
    rw [List.map_cons, blockTail, List.cons_append, skipWs_cons (by decide)]
    simp only [if_true]
    rw [List.append_assoc, List.append_assoc, readSeq_append close (L.line_ws _), readSeq,
      skipWs_starts hsb, hib _ (stops_blockTail L d hn _ r), Option.bind_some, hb]
    rfl

/-- **A block is read back item by item.** -/
theorem readList_block (L : Layout) (d : ℕ) (opening : Char) (hn : isNumberChar close = false)
    (hw : isWs close = false) (hc : close ≠ ',') (hcl : close = ']' ∨ close = '}') (as : List α)
    (h : ReadsBack item f as) (r : List Char) :
    readList item close ((block L d opening close (as.map f)).tail ++ r) = some (as, r) := by
  cases as with
  | nil =>
    rw [List.map_nil, block, List.tail_cons, List.singleton_append, readList, skipWs_cons hw]
    exact if_pos rfl
  | cons a as =>
    have hs := (h a List.mem_cons_self).1
    have hlen : as.length < (f a ++ (blockTail L d close (as.map f) ++ r)).length := by
      have := length_lt_blockTail L d close (as.map f)
      rw [List.length_map] at this
      simp only [List.length_append]
      omega
    have hseq := readSeq_blockTail close L d hn hw hc as a h hlen r
    rw [List.map_cons, block, List.tail_cons, List.append_assoc, List.append_assoc, readList,
      skipWs_append (L.line_ws _), skipWs_starts hs]
    obtain ⟨c, hca, -, hc1, hc2⟩ := hs
    have hne : c ≠ close := by rcases hcl with rfl | rfl <;> assumption
    cases hfa : f a with
    | nil => rw [hfa] at hca; exact absurd hca (Option.not_mem_none _)
    | cons b t =>
      rw [hfa] at hca hseq
      obtain rfl : b = c := Option.some.inj hca
      simp only [List.cons_append, if_neg hne]
      exact hseq

end Seq

theorem write_starts (L : Layout) (d : ℕ) (j : Json) : Starts (write L d j) := by
  cases j with
  | null => exact ⟨'n', rfl, by decide⟩
  | bool b => cases b <;> exact ⟨_, rfl, by decide⟩
  | num n =>
    rw [write]
    cases ht : n.text with
    | nil => exact absurd ht n.text_ne_nil
    | cons c t =>
      have hc := n.all_isNumberChar c (by rw [ht]; exact List.mem_cons_self)
      refine ⟨c, rfl, isWs_of_isNumberChar hc, ?_, ?_⟩ <;> rintro rfl <;> exact absurd hc (by decide)
  | str s => exact ⟨quote, rfl, by decide⟩
  | arr items => rw [write]; cases writeItems L (d + 1) items <;> exact ⟨'[', rfl, by decide⟩
  | obj members => rw [write]; cases writeMembers L (d + 1) members <;> exact ⟨'{', rfl, by decide⟩

theorem writeMember_starts (L : Layout) (d : ℕ) (m : List UInt16 × Json) : Starts (writeMember L d m) :=
  ⟨quote, rfl, by decide⟩

theorem readNumber_text (n : Number) {r : List Char} (hr : Stops r) :
    readNumber (n.text ++ r) = some (.num n, r) := by
  have htake : (n.text ++ r).takeWhile isNumberChar = n.text := by
    rw [List.takeWhile_append_of_pos n.all_isNumberChar]
    cases r with
    | nil => exact List.append_nil _
    | cons c r => rw [List.takeWhile_cons_of_neg (by simp [hr c rfl]), List.append_nil]
  have hdrop : (n.text ++ r).dropWhile isNumberChar = r := by
    rw [List.dropWhile_append_of_pos n.all_isNumberChar]
    cases r with
    | nil => rfl
    | cons c r => exact List.dropWhile_cons_of_neg (by simp [hr c rfl])
  simp only [readNumber, htake, hdrop, n.valid, dite_true]

theorem readNode_number (item : Option (List Char → Option (Json × List Char))) (n : Number)
    {r : List Char} (hr : Stops r) : readNode item (n.text ++ r) = some (.num n, r) := by
  have hnum := readNumber_text n hr
  cases ht : n.text with
  | nil => exact absurd ht n.text_ne_nil
  | cons c t =>
    have hc := n.all_isNumberChar c (by rw [ht]; exact List.mem_cons_self)
    have hne : ∀ a, isNumberChar a = false → c ≠ a := by
      rintro a ha rfl
      rw [hc] at ha
      exact absurd ha (by decide)
    rw [ht] at hnum
    rw [List.cons_append, readNode, if_neg (hne _ (by decide)), if_neg (hne _ (by decide)),
      if_neg (hne _ (by decide)), if_neg (hne _ (by decide)), if_neg (hne _ (by decide)),
      if_neg (hne _ (by decide))]
    exact hnum

theorem readNode_str (item : Option (List Char → Option (Json × List Char))) (s : List UInt16)
    (r : List Char) :
    readNode item (quote :: (strTail s ++ r)) = some (.str s, r) := by
  rw [readNode, if_pos rfl, readString_strTail, Option.map_some]

theorem readMember_writeMember (L : Layout) (d : ℕ) {item : List Char → Option (Json × List Char)}
    (m : List UInt16 × Json) (h : ∀ r, Stops r → item (write L d m.2 ++ r) = some (m.2, r))
    {r : List Char} (hr : Stops r) : readMember item (writeMember L d m ++ r) = some (m, r) := by
  rw [writeMember, List.cons_append, List.append_assoc, readMember, if_pos rfl, readString_strTail,
    Option.bind_some, List.cons_append, skipWs_cons (by decide)]
  simp only [List.append_assoc]
  rw [skipWs_append L.colon_ws, skipWs_starts (write_starts L d m.2), h r hr]
  rfl

theorem block_head (L : Layout) (d : ℕ) (opening close : Char) (ts : List (List Char)) :
    block L d opening close ts = opening :: (block L d opening close ts).tail := by
  cases ts <;> rfl

/-- **A value is read back from its text**, whatever follows it. -/
theorem readValue_write (L : Layout) (j : Json) {depth : ℕ} (h : j.depth ≤ depth) (d : ℕ)
    {r : List Char} (hr : Stops r) : readValue depth (write L d j ++ r) = some (j, r) := by
  induction j generalizing depth d r with
  | null => cases depth <;> rfl
  | bool b => cases b <;> cases depth <;> rfl
  | num n => cases depth <;> exact readNode_number _ n hr
  | str s => cases depth <;> exact readNode_str _ s r
  | arr items ih =>
    obtain ⟨depth, rfl⟩ : ∃ k, depth = k + 1 := ⟨depth - 1, by rw [Json.depth] at h; omega⟩
    have hback : ReadsBack (readValue depth) (write L (d + 1)) items := fun j hj =>
      ⟨write_starts L (d + 1) j, fun r hr => ih j hj (by
        have := depth_le_items j hj
        rw [Json.depth] at h
        omega) (d + 1) hr⟩
    have hl := readList_block ']' L d '[' (by decide) (by decide) (by decide) (.inl rfl) items
      hback r
    rw [write, writeItems_eq, block_head, List.cons_append, readValue, readNode, if_neg (by decide),
      if_pos rfl, Option.bind_some, hl, Option.map_some]
  | obj members ih =>
    obtain ⟨depth, rfl⟩ : ∃ k, depth = k + 1 := ⟨depth - 1, by rw [Json.depth] at h; omega⟩
    have hback : ReadsBack (readMember (readValue depth)) (writeMember L (d + 1)) members := fun m hm =>
      ⟨writeMember_starts L (d + 1) m, fun r hr => readMember_writeMember L (d + 1) m
        (fun r hr => ih m hm (by
          have := depth_le_members m hm
          rw [Json.depth] at h
          omega) (d + 1) hr) hr⟩
    have hl := readList_block '}' L d '{' (by decide) (by decide) (by decide) (.inr rfl) members
      hback r
    rw [write, writeMembers_eq, block_head, List.cons_append, readValue, readNode, if_neg (by decide),
      if_neg (by decide), if_pos rfl, Option.bind_some, hl, Option.map_some]

/-- **The text of a value is read back as that value.** -/
theorem parse_write (L : Layout) {j : Json} (h : j.depth ≤ maxDepth) : parse (write L 0 j) = some j := by
  have hs := skipWs_starts (write_starts L 0 j) []
  have hr := readValue_write L j h 0 stops_nil
  rw [List.append_nil] at hs hr
  rw [parse, hs, hr]
  rfl

end Json
