import MqttServices.Common.Text
import MqttServices.Lib.Location

/-!
# Paths

* `PathRules`: what `System.IO.Path` takes from the platform; `PathRules.Combine`.
* `PathRules.location`, `PathRules.Below`: what a path denotes, dot and dot-dot segments resolved.
* `PathRules.Lawful`: what the rules of every platform have in common; **`PathRules.below_Combine_iff`**.
* `Unix`, `Windows`: the rules of the two platforms, which are lawful.
-/

namespace MqttServices

open Location (Segment resolve climb)

/-- What `System.IO.Path` takes from the platform. -/
structure PathRules where
  IsDirectorySeparator : Char → Bool
  DirectorySeparatorChar : Char
  IsPathRooted : Str → Bool
  /-- Whether the path means the same whatever the current directory and drive. -/
  IsPathFullyQualified : Str → Bool
  /-- How many of the pieces of a path are its root. -/
  rootLength : List Str → ℕ
  /-- Names are the same name when they fold to the same. -/
  fold : Char → Char

/-- What a path denotes: a root, and the names to enter from there. -/
structure PathLocation where
  root : List Str
  names : List Str
  deriving DecidableEq

namespace PathRules

variable (rules : PathRules)

/-- `Path.Combine`. -/
def Combine (path1 path2 : Str) : Str :=
  if path1 = [] then path2
  else if path2 = [] then path1
  else if rules.IsPathRooted path2 then path2
  else if path1.getLast?.any rules.IsDirectorySeparator ∨ path2.head?.any rules.IsDirectorySeparator then path1 ++ path2
  else path1 ++ rules.DirectorySeparatorChar :: path2

/-- What stands between the separators. -/
def pieces (path : Str) : List Str := path.splitOnP rules.IsDirectorySeparator

/-- The segment that a piece is. -/
def segment (piece : Str) : Segment Str :=
  if piece = [] ∨ piece = ".".toList then .here else if piece = "..".toList then .up else .name piece

/-- Where the pieces of a path lead. -/
def locate (pieces : List Str) : PathLocation where
  root := pieces.take (rules.rootLength pieces)
  names := resolve [] ((pieces.drop (rules.rootLength pieces)).map segment)

/-- What a fully qualified path denotes, dot and dot-dot segments resolved. -/
def location (path : Str) : PathLocation := rules.locate (rules.pieces path)

/-- The two locations have one root, and the inner names go on from the outer ones. -/
def BelowLocation (outer inner : PathLocation) : Prop :=
  outer.root.map (·.map rules.fold) = inner.root.map (·.map rules.fold) ∧
    Location.Below (·.map rules.fold) outer.names inner.names

/-- The path denotes a location below the directory. -/
def Below (directory path : Str) : Prop := rules.BelowLocation (rules.location directory) (rules.location path)

instance (directory path : Str) : Decidable (rules.Below directory path) := inferInstanceAs (Decidable (_ ∧ _))

/-- The pieces of a directory, without the empty one after a separator at its end. -/
def parts (directory : Str) : List Str :=
  if directory.getLast?.any rules.IsDirectorySeparator then rules.pieces directory.dropLast else rules.pieces directory

/-- Further pieces leave a complete root as it is, and do not come after an incomplete one. -/
def RootStable (a : List Str) : Prop :=
  ∀ b : List Str, (rules.rootLength a ≤ a.length ∧ rules.rootLength (a ++ b) = rules.rootLength a) ∨
    (a.length < rules.rootLength a ∧ a.length < rules.rootLength (a ++ b))

/-- What the rules of every platform have in common. -/
structure Lawful : Prop where
  separator : rules.IsDirectorySeparator rules.DirectorySeparatorChar = true
  rooted_of_separator {c : Char} (path : Str) :
    rules.IsDirectorySeparator c = true → rules.IsPathRooted (c :: path) = true
  rooted_of_qualified {path : Str} : rules.IsPathFullyQualified path = true → rules.IsPathRooted path = true
  qualified_append {path : Str} (rest : Str) :
    rules.IsPathFullyQualified path = true → rules.IsPathFullyQualified (path ++ rest) = true
  head_of_qualified {path : Str} : rules.IsPathFullyQualified path = true → ∃ c ∈ path.head?, IsWhiteSpace c = false
  qualified_of_append {path blanks : Str} : blanks.all IsWhiteSpace = true →
    rules.IsPathFullyQualified (path ++ blanks) = true → rules.IsPathFullyQualified path = true
  root_of_qualified {path : Str} : rules.IsPathFullyQualified path = true → rules.RootStable (rules.parts path)

/-- The root of the directory is complete, and the path enters again what it leaves of the directory and goes on from
there. -/
def Descends (directory path : Str) : Prop :=
  let steps := climb ((rules.pieces path).map segment)
  let parts := rules.parts directory
  rules.rootLength parts ≤ parts.length ∧
    Location.Below (·.map rules.fold) ((rules.locate parts).names.rtake steps.1) steps.2

instance (directory path : Str) : Decidable (rules.Descends directory path) := inferInstanceAs (Decidable (_ ∧ _))

variable {rules}

/-! ## Combined paths -/

variable (rules) in
theorem pieces_eq (directory : Str) :
    rules.pieces directory = rules.parts directory ∨ rules.pieces directory = rules.parts directory ++ [[]] := by
  rw [parts]
  split_ifs with h
  · obtain ⟨c, hc, hsep⟩ := (Option.any_eq_true _ _).mp h
    obtain ⟨start, rfl⟩ := List.getLast?_eq_some_iff.mp hc
    rw [List.dropLast_concat]
    exact .inr (List.splitOnP_append_cons start [] hsep)
  · exact .inl rfl

/-- The pieces that a directory begins with are among those kept, unless the last of them is an empty one at its end. -/
theorem prefix_parts {directory : Str} {start rest : List Str} (h : rules.pieces directory = start ++ rest)
    (hlast : start.getLast? ≠ some [] ∨ rest ≠ []) : ∃ parts, rules.parts directory = start ++ parts := by
  rcases pieces_eq rules directory with heq | heq
  · exact ⟨rest, heq.symm.trans h⟩
  · rw [h] at heq
    rcases List.eq_nil_or_concat rest with rfl | ⟨parts, piece, rfl⟩
    · rw [List.append_nil] at heq
      rw [heq, List.getLast?_concat] at hlast
      simp at hlast
    · rw [List.concat_eq_append, ← List.append_assoc] at heq
      exact ⟨parts, (List.append_inj' heq rfl).1.symm⟩

variable (rules) in
theorem parts_ne_nil (directory : Str) : rules.parts directory ≠ [] := by
  rw [parts]
  split_ifs
  · exact List.splitOnP_ne_nil _ _
  · exact List.splitOnP_ne_nil _ _

theorem Lawful.head_of_not_rooted (hl : rules.Lawful) {path : Str} (hrooted : rules.IsPathRooted path = false) :
    path.head?.any rules.IsDirectorySeparator = false := by
  cases path with
  | nil => rfl
  | cons c path =>
    rw [List.head?_cons, Option.any_some, Bool.eq_false_iff]
    intro hsep
    rw [hl.rooted_of_separator path hsep] at hrooted
    cases hrooted

theorem Lawful.ne_nil_of_qualified (hl : rules.Lawful) {path : Str} (h : rules.IsPathFullyQualified path = true) :
    path ≠ [] := by
  rintro rfl
  obtain ⟨c, hc, -⟩ := hl.head_of_qualified h
  cases hc

theorem Lawful.qualified_Trim (hl : rules.Lawful) {path : Str} (h : rules.IsPathFullyQualified path = true) :
    rules.IsPathFullyQualified (Trim path) = true := by
  obtain ⟨c, hc, hwhite⟩ := hl.head_of_qualified h
  obtain ⟨rest, rfl⟩ := List.head?_eq_some_iff.mp hc
  have hdrop : (c :: rest).dropWhile IsWhiteSpace = c :: rest := List.dropWhile_cons_of_neg (Bool.eq_false_iff.mp hwhite)
  rw [Trim, hdrop]
  have hblanks : ((c :: rest).rtakeWhile IsWhiteSpace).all IsWhiteSpace = true :=
    List.all_eq_true.mpr fun _ => List.mem_rtakeWhile_imp
  have hsplit : (c :: rest).rdropWhile IsWhiteSpace ++ (c :: rest).rtakeWhile IsWhiteSpace = c :: rest :=
    List.rdropWhile_append_rtakeWhile
  rw [← hsplit] at h
  exact hl.qualified_of_append hblanks h

/-- A path that is not rooted begins with a name. -/
theorem Lawful.exists_pieces_eq (hl : rules.Lawful) {path : Str} (hne : path ≠ [])
    (hrooted : rules.IsPathRooted path = false) : ∃ piece rest, rules.pieces path = piece :: rest ∧ piece ≠ [] := by
  cases path with
  | nil => exact absurd rfl hne
  | cons c path =>
    have hsep : rules.IsDirectorySeparator c = false := hl.head_of_not_rooted hrooted
    obtain ⟨piece, rest, hpieces⟩ := List.exists_cons_of_ne_nil (List.splitOnP_ne_nil rules.IsDirectorySeparator path)
    refine ⟨c :: piece, rest, ?_, List.cons_ne_nil c piece⟩
    rw [pieces, List.splitOnP_cons_eq_if_modifyHead, hsep, hpieces]
    rfl

variable {directory path : Str}

theorem Combine_of_not_rooted (hl : rules.Lawful) (hdirectory : directory ≠ []) (hne : path ≠ [])
    (hrooted : rules.IsPathRooted path = false) :
    rules.Combine directory path =
      if directory.getLast?.any rules.IsDirectorySeparator then directory ++ path
      else directory ++ rules.DirectorySeparatorChar :: path := by
  rw [Combine, if_neg hdirectory, if_neg hne, hrooted, hl.head_of_not_rooted hrooted]
  simp

theorem pieces_Combine (hl : rules.Lawful) (hdirectory : directory ≠ []) (hne : path ≠ [])
    (hrooted : rules.IsPathRooted path = false) :
    rules.pieces (rules.Combine directory path) = rules.parts directory ++ rules.pieces path := by
  rw [Combine_of_not_rooted hl hdirectory hne hrooted, parts]
  split_ifs with h
  · obtain ⟨c, hc, hsep⟩ := (Option.any_eq_true _ _).mp h
    obtain ⟨start, rfl⟩ := List.getLast?_eq_some_iff.mp hc
    rw [List.dropLast_concat, List.append_assoc, List.singleton_append]
    exact List.splitOnP_append_cons start path hsep
  · exact List.splitOnP_append_cons directory path hl.separator

theorem exists_Combine_eq (hl : rules.Lawful) (hdirectory : directory ≠ []) (hne : path ≠ [])
    (hrooted : rules.IsPathRooted path = false) :
    ∃ between, rules.Combine directory path = directory ++ (between ++ path) := by
  rw [Combine_of_not_rooted hl hdirectory hne hrooted]
  split_ifs
  · exact ⟨[], rfl⟩
  · exact ⟨[rules.DirectorySeparatorChar], rfl⟩

/-! ## Where they lead -/

theorem locate_append {a b : List Str} (hcomplete : rules.rootLength a ≤ a.length)
    (hroot : rules.rootLength (a ++ b) = rules.rootLength a) :
    rules.locate (a ++ b) = { rules.locate a with names := resolve (rules.locate a).names (b.map segment) } := by
  rw [locate, hroot, List.take_append_of_le_length hcomplete, List.drop_append_of_le_length hcomplete, List.map_append,
    Location.resolve_append, locate]

theorem root_append {a b : List Str} {piece : Str} (hroot : a.length < rules.rootLength (a ++ piece :: b)) :
    ∃ rest, (rules.locate (a ++ piece :: b)).root = a ++ piece :: rest := by
  obtain ⟨n, hn⟩ := Nat.exists_eq_add_of_lt hroot
  refine ⟨b.take n, ?_⟩
  rw [locate, hn, Nat.add_assoc, List.take_length_add_append]
  rfl

theorem locate_of_complete (hd : rules.RootStable (rules.parts directory))
    (hcomplete : rules.rootLength (rules.parts directory) ≤ (rules.parts directory).length) :
    rules.location directory = rules.locate (rules.parts directory) := by
  rw [location]
  rcases pieces_eq rules directory with h | h
  · rw [h]
  · rcases hd [[]] with ⟨-, hroot⟩ | ⟨hincomplete, -⟩
    · rw [h, locate_append hcomplete hroot]
      rfl
    · omega

/-- Nothing is below a directory whose root is incomplete. -/
theorem not_below_of_incomplete (hd : rules.RootStable (rules.parts directory))
    (hincomplete : (rules.parts directory).length < rules.rootLength (rules.parts directory)) {piece : Str}
    {rest : List Str} (hpiece : piece ≠ []) :
    ¬ rules.BelowLocation (rules.location directory) (rules.locate (rules.parts directory ++ piece :: rest)) := by
  rintro ⟨hroot, -⟩
  have hinner : (rules.parts directory).length < rules.rootLength (rules.parts directory ++ piece :: rest) := by
    rcases hd (piece :: rest) with h | h <;> omega
  obtain ⟨rest', hrest'⟩ := root_append hinner
  have houter : (rules.location directory).root = rules.parts directory ∨
      (rules.location directory).root = rules.parts directory ++ [[]] := by
    rw [location]
    rcases pieces_eq rules directory with h | h
    · rw [h, locate]
      exact .inl (List.take_of_length_le hincomplete.le)
    · have hlast : (rules.parts directory).length < rules.rootLength (rules.parts directory ++ [[]]) := by
        rcases hd [[]] with h | h <;> omega
      rw [h, locate]
      refine .inr (List.take_of_length_le ?_)
      rw [List.length_append]
      exact hlast
  rw [hrest', List.map_append, List.map_cons] at hroot
  rcases houter with h | h
  · rw [h] at hroot
    simpa using congrArg List.length hroot
  · rw [h, List.map_append, List.append_cancel_left_eq, List.map_singleton] at hroot
    exact hpiece (List.map_eq_nil_iff.mp (List.cons.inj hroot).1.symm)

/-- **What is combined lies below the directory just when it descends from it.** -/
theorem below_Combine_iff (hl : rules.Lawful) (hd : rules.IsPathFullyQualified directory = true) (hne : path ≠ [])
    (hrooted : rules.IsPathRooted path = false) :
    rules.Below directory (rules.Combine directory path) ↔ rules.Descends directory path := by
  have hstable := hl.root_of_qualified hd
  show rules.BelowLocation _ (rules.locate (rules.pieces (rules.Combine directory path))) ↔ _
  rw [pieces_Combine hl (hl.ne_nil_of_qualified hd) hne hrooted, Descends]
  rcases hstable (rules.pieces path) with ⟨hcomplete, hroot⟩ | ⟨hincomplete, -⟩
  · rw [locate_of_complete hstable hcomplete, locate_append hcomplete hroot, BelowLocation, and_iff_right rfl,
      Location.below_resolve_iff, and_iff_right hcomplete]
  · obtain ⟨piece, rest, hpieces, hpiece⟩ := hl.exists_pieces_eq hne hrooted
    rw [hpieces]
    exact iff_of_false (not_below_of_incomplete hstable hincomplete hpiece) fun h => absurd h.1 (by omega)

end PathRules

/-! ## The two platforms -/

namespace Unix

/-- The rules of Unix. -/
def pathRules : PathRules where
  IsDirectorySeparator c := c = '/'
  DirectorySeparatorChar := '/'
  IsPathRooted path := path.head? = some '/'
  IsPathFullyQualified path := path.head? = some '/'
  rootLength _ := 1
  fold c := c

theorem lawful : pathRules.Lawful where
  separator := rfl
  rooted_of_separator path h := by
    rw [of_decide_eq_true h]
    rfl
  rooted_of_qualified h := h
  qualified_append rest h := by
    refine decide_eq_true ?_
    rw [List.head?_append, of_decide_eq_true h]
    rfl
  head_of_qualified h := ⟨'/', of_decide_eq_true h, rfl⟩
  qualified_of_append {path blanks} hblanks h := by
    cases path with
    | nil => exact absurd (List.all_eq_true.mp hblanks '/' (List.mem_of_mem_head? (of_decide_eq_true h))) (by decide)
    | cons c path => exact h
  root_of_qualified {path} _ b := .inl ⟨List.length_pos_of_ne_nil (PathRules.parts_ne_nil _ path), rfl⟩

end Unix

namespace Windows

/-- `PathInternal.IsDirectorySeparator`. -/
def IsDirectorySeparator (c : Char) : Bool := c = '\\' || c = '/'

/-- `PathInternal.IsValidDriveChar`: a letter from A to Z, of either case. -/
def IsValidDriveChar (c : Char) : Bool :=
  (0x41 ≤ c.toNat && c.toNat ≤ 0x5A) || (0x61 ≤ c.toNat && c.toNat ≤ 0x7A)

/-- `Path.IsPathRooted`. -/
def IsPathRooted : Str → Bool
  | [] => false
  | c :: path => IsDirectorySeparator c || (IsValidDriveChar c && path.head? = some ':')

/-- `Path.IsPathFullyQualified`: a share or a device, or a drive and its root. -/
def IsPathFullyQualified : Str → Bool
  | c :: c' :: path =>
    if IsDirectorySeparator c then c' = '?' || IsDirectorySeparator c'
    else IsValidDriveChar c && c' = ':' && path.head?.any IsDirectorySeparator
  | _ => false

/-- `PathInternal.GetRootLength`, in pieces: a device and, where it is the network, a server and a share; a server and a
share; the drive, or the current one. -/
def rootLength : List Str → ℕ
  | [] :: [] :: rest =>
    if (rest[0]? = some "?".toList ∨ rest[0]? = some ".".toList) ∧ rest[1]? = some "UNC".toList then 6 else 4
  | [] :: piece :: rest => if piece = "??".toList then (if rest[0]? = some "UNC".toList then 5 else 3) else 1
  | _ => 1

/-- The rules of Windows, with the case that its file system ignores. -/
def pathRules (upcase : Char → Char) : PathRules where
  IsDirectorySeparator := IsDirectorySeparator
  DirectorySeparatorChar := '\\'
  IsPathRooted := IsPathRooted
  IsPathFullyQualified := IsPathFullyQualified
  rootLength := rootLength
  fold := upcase

/-- How the pieces of a fully qualified path begin: a share or a device, or a drive. -/
inductive Based : List Str → Prop where
  | share (rest : List Str) : Based ([] :: [] :: rest)
  | device (piece : Str) (rest : List Str) : Based ([] :: ('?' :: piece) :: rest)
  | drive (c : Char) (piece : Str) (rest : List Str) : Based ((c :: piece) :: rest)

variable {upcase : Char → Char}

theorem pieces_cons_separator {c : Char} (h : IsDirectorySeparator c = true) (path : Str) :
    (pathRules upcase).pieces (c :: path) = [] :: (pathRules upcase).pieces path :=
  List.splitOnP_append_cons [] path h

theorem pieces_cons {c : Char} (h : IsDirectorySeparator c = false) (path : Str) :
    ∃ piece rest, (pathRules upcase).pieces path = piece :: rest ∧
      (pathRules upcase).pieces (c :: path) = (c :: piece) :: rest := by
  obtain ⟨piece, rest, hpieces⟩ := List.exists_cons_of_ne_nil (List.splitOnP_ne_nil IsDirectorySeparator path)
  refine ⟨piece, rest, hpieces, ?_⟩
  show (c :: path).splitOnP IsDirectorySeparator = _
  rw [List.splitOnP_cons_eq_if_modifyHead, h, hpieces]
  rfl

theorem rooted_of_qualified {path : Str} (h : IsPathFullyQualified path = true) : IsPathRooted path = true := by
  cases path with
  | nil => exact h
  | cons c path =>
    cases path with
    | nil => cases h
    | cons c' path =>
      simp only [IsPathFullyQualified, IsPathRooted, List.head?_cons] at *
      split_ifs at h with hsep
      · rw [hsep]
        rfl
      · simp only [Bool.and_eq_true, decide_eq_true_eq] at h
        simp [h.1.1, h.1.2]

theorem qualified_append {path : Str} (rest : Str) (h : IsPathFullyQualified path = true) :
    IsPathFullyQualified (path ++ rest) = true := by
  cases path with
  | nil => cases h
  | cons c path =>
    cases path with
    | nil => cases h
    | cons c' path =>
      simp only [List.cons_append, IsPathFullyQualified] at *
      split_ifs at * with hsep
      · exact h
      · cases path with
        | nil => simp at h
        | cons c'' path => exact h

theorem not_white_of_separator {c : Char} (h : IsDirectorySeparator c = true) : IsWhiteSpace c = false := by
  rw [IsDirectorySeparator, Bool.or_eq_true, decide_eq_true_iff, decide_eq_true_iff] at h
  rcases h with rfl | rfl
  · rfl
  · rfl

theorem of_white {c : Char} (h : IsWhiteSpace c = true) : IsDirectorySeparator c = false ∧ c ≠ '?' ∧ c ≠ ':' := by
  refine ⟨Bool.eq_false_iff.mpr fun hsep => ?_, ?_, ?_⟩
  · rw [not_white_of_separator hsep] at h
    cases h
  · rintro rfl
    cases h
  · rintro rfl
    cases h

theorem not_white_of_drive {c : Char} (h : IsValidDriveChar c = true) : IsWhiteSpace c = false := by
  simp only [IsValidDriveChar, Bool.or_eq_true, Bool.and_eq_true, decide_eq_true_eq] at h
  simp [IsWhiteSpace]
  omega

theorem not_white_of_rooted {c : Char} {path : Str} (h : IsPathRooted (c :: path) = true) : IsWhiteSpace c = false := by
  rw [IsPathRooted, Bool.or_eq_true, Bool.and_eq_true] at h
  rcases h with hsep | ⟨hdrive, -⟩
  · exact not_white_of_separator hsep
  · exact not_white_of_drive hdrive

theorem head_of_qualified {path : Str} (h : IsPathFullyQualified path = true) :
    ∃ c ∈ path.head?, IsWhiteSpace c = false := by
  cases path with
  | nil => cases h
  | cons c path =>
    exact ⟨c, rfl, not_white_of_rooted (rooted_of_qualified h)⟩

theorem qualified_of_append {path blanks : Str} (hblanks : blanks.all IsWhiteSpace = true)
    (h : IsPathFullyQualified (path ++ blanks) = true) : IsPathFullyQualified path = true := by
  rw [List.all_eq_true] at hblanks
  rcases path with _ | ⟨c, _ | ⟨c', path⟩⟩
  · obtain ⟨c, hc, hwhite⟩ := head_of_qualified h
    rw [hblanks c (List.mem_of_mem_head? hc)] at hwhite
    cases hwhite
  · cases blanks with
    | nil => cases h
    | cons c' blanks =>
      obtain ⟨hsep', hdevice, hvolume⟩ := of_white (hblanks c' List.mem_cons_self)
      simp [IsPathFullyQualified, hsep', hdevice, hvolume] at h
  · simp only [List.cons_append, IsPathFullyQualified] at *
    split_ifs at * with hsep
    · exact h
    · cases path with
      | cons c'' path => exact h
      | nil =>
        cases blanks with
        | nil => exact h
        | cons c'' blanks =>
          have hsep'' := (of_white (hblanks c'' List.mem_cons_self)).1
          simp [hsep''] at h

theorem based_of_qualified {path : Str} (h : IsPathFullyQualified path = true) :
    Based ((pathRules upcase).parts path) := by
  rcases path with _ | ⟨c, _ | ⟨c', path⟩⟩
  · cases h
  · cases h
  · rw [IsPathFullyQualified] at h
    split_ifs at h with hsep
    · by_cases hsep' : IsDirectorySeparator c' = true
      · obtain ⟨piece, rest, hpieces⟩ := List.exists_cons_of_ne_nil (List.splitOnP_ne_nil IsDirectorySeparator path)
        have hstart : (pathRules upcase).pieces (c :: c' :: path) = [[], []] ++ piece :: rest := by
          rw [pieces_cons_separator hsep, pieces_cons_separator hsep']
          exact congrArg ([[], []] ++ ·) hpieces
        obtain ⟨parts, hparts⟩ := PathRules.prefix_parts hstart (.inr (List.cons_ne_nil piece rest))
        rw [hparts]
        exact .share parts
      · obtain ⟨piece, rest, -, hpieces⟩ := pieces_cons (Bool.eq_false_iff.mpr hsep') path
        rw [Bool.or_eq_true, decide_eq_true_iff] at h
        have hstart : (pathRules upcase).pieces (c :: c' :: path) = [[], '?' :: piece] ++ rest := by
          rw [pieces_cons_separator hsep, hpieces, h.resolve_right hsep']
          rfl
        obtain ⟨parts, hparts⟩ := PathRules.prefix_parts hstart (.inl (by simp))
        rw [hparts]
        exact .device piece parts
    · obtain ⟨piece, rest, -, hpieces⟩ := pieces_cons (Bool.eq_false_iff.mpr hsep) (c' :: path)
      have hstart : (pathRules upcase).pieces (c :: c' :: path) = [c :: piece] ++ rest := hpieces
      obtain ⟨parts, hparts⟩ := PathRules.prefix_parts hstart (.inl (by simp))
      rw [hparts]
      exact .drive c piece parts

theorem rootStable_of_based {a : List Str} (h : Based a) : (pathRules upcase).RootStable a := by
  intro b
  cases h with
  | drive c piece rest => exact .inl ⟨Nat.succ_le_succ (Nat.zero_le _), rfl⟩
  | device piece rest =>
    simp only [pathRules, rootLength, List.cons_append, List.length_cons]
    cases rest with
    | nil => split_ifs <;> simp
    | cons piece' rest =>
      split_ifs <;> simp_all
      omega
  | share rest =>
    simp only [pathRules, rootLength, List.cons_append, List.length_cons]
    cases rest with
    | nil => split_ifs <;> simp
    | cons piece' rest =>
      cases rest with
      | nil => split_ifs <;> simp
      | cons piece'' rest =>
        split_ifs <;> simp_all
        omega

theorem lawful (upcase : Char → Char) : (pathRules upcase).Lawful where
  separator := rfl
  rooted_of_separator path h := by
    show (IsDirectorySeparator _ || _) = true
    rw [show IsDirectorySeparator _ = true from h, Bool.true_or]
  rooted_of_qualified := rooted_of_qualified
  qualified_append := qualified_append
  head_of_qualified := head_of_qualified
  qualified_of_append := qualified_of_append
  root_of_qualified h := rootStable_of_based (based_of_qualified h)

end Windows

/-- The platforms the service runs on. -/
inductive Platform where
  | Unix
  | Windows (upcase : Char → Char)

namespace Platform

/-- The rules of a platform. -/
def pathRules : Platform → PathRules
  | Unix => Unix.pathRules
  | Windows upcase => Windows.pathRules upcase

theorem lawful (platform : Platform) : platform.pathRules.Lawful := by
  cases platform with
  | Unix => exact Unix.lawful
  | Windows upcase => exact Windows.lawful upcase

end Platform

end MqttServices
