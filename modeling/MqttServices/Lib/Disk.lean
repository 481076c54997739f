import Mathlib.Data.List.Basic
import Mathlib.Logic.Function.Basic

/-!
# Disk operations and what they leave behind

A computation is given by the steps it takes and by how it ends. A process that stops on the way has taken
a prefix of the steps.

* `Traced`: the monad of steps and result, with its laws for `bind`.
* `Disk`, `Disk.Step`, `Disk.exec`: files with their permissions, and the steps that change them.
* **`Disk.content_exec_writeSteps`**, **`Disk.exec_of_not_touches`**: a file written holds what was written, and the
  others stay.
* **`Disk.take_writeSteps`**: a write that stops on the way is a write of a prefix.
* `Disk.mode`, **`Disk.mode_exec_of_writes`**: the permissions while a file is written.
-/

/-- The steps a computation takes, and how it ends. -/
structure Traced (σ ε α : Type*) where
  steps : List σ
  result : Except ε α

namespace Traced

universe u v w

variable {σ : Type u} {ε : Type v} {α β : Type w}

/-- A computation that only takes the steps. -/
def take (steps : List σ) : Traced σ ε Unit := ⟨steps, .ok ()⟩

/-- A computation without a step. -/
def ofExcept (result : Except ε α) : Traced σ ε α := ⟨[], result⟩

/-- One computation, then the other. -/
def andThen (x : Traced σ ε α) (f : α → Traced σ ε β) : Traced σ ε β :=
  match x.result with
  | .ok a => ⟨x.steps ++ (f a).steps, (f a).result⟩
  | .error e => ⟨x.steps, .error e⟩

instance : Monad (Traced σ ε) where
  pure a := ofExcept (.ok a)
  bind := andThen

variable {x : Traced σ ε α} {f : α → Traced σ ε β}

@[simp] theorem steps_pure (a : α) : (pure a : Traced σ ε α).steps = [] := rfl

@[simp] theorem result_pure (a : α) : (pure a : Traced σ ε α).result = .ok a := rfl

@[simp] theorem steps_ofExcept (r : Except ε α) : (ofExcept r : Traced σ ε α).steps = [] := rfl

@[simp] theorem result_ofExcept (r : Except ε α) : (ofExcept r : Traced σ ε α).result = r := rfl

theorem bind_of_ok {a : α} (h : x.result = .ok a) : x >>= f = ⟨x.steps ++ (f a).steps, (f a).result⟩ := by
  show andThen x f = _
  rw [andThen, h]

theorem bind_of_error {e : ε} (h : x.result = .error e) : x >>= f = ⟨x.steps, .error e⟩ := by
  show andThen x f = _
  rw [andThen, h]

theorem ofExcept_ok_bind (a : α) : (ofExcept (.ok a) : Traced σ ε α) >>= f = f a := rfl

theorem ofExcept_error_bind (e : ε) : (ofExcept (.error e) : Traced σ ε α) >>= f = ofExcept (.error e) := rfl

end Traced

namespace Disk

/-- The permissions of a file. -/
abbrev Mode := BitVec 12

/-- A file. -/
structure File where
  bytes : List UInt8
  mode : Mode
  deriving DecidableEq

/-- A step that changes the disk. -/
inductive Step (P : Type*) where
  | createDirectory (p : P)
  | create (p : P)
  | append (p : P) (b : UInt8)
  | setMode (p : P) (mode : Mode)
  deriving DecidableEq

end Disk

/-- The files and the directories. -/
structure Disk (P : Type*) where
  files : P → Option Disk.File
  directories : P → Bool

namespace Disk

/-- A file that is opened for writing, and then written byte by byte. -/
def writeSteps {P : Type*} (p : P) (bytes : List UInt8) : List (Step P) := .create p :: bytes.map (.append p)

/-- **A write that stops on the way is no write, or a write of a prefix.** -/
theorem take_writeSteps {P : Type*} (p : P) (n : ℕ) (bytes : List UInt8) :
    (writeSteps p bytes).take (n + 1) = writeSteps p (bytes.take n) := by
  rw [writeSteps, List.take_succ_cons, ← List.map_take, writeSteps]

variable {P : Type*} [DecidableEq P] (umask : Mode)

/-- The permissions of a file that is opened for writing: a file that is there keeps its own. -/
def createMode (f : Option File) : Mode := (f.map File.mode).getD (0o666 &&& ~~~umask)

/-- What a step makes of the disk. -/
def apply (d : Disk P) : Step P → Disk P
  | .createDirectory p => { d with directories := Function.update d.directories p true }
  | .create p => { d with files := Function.update d.files p (some ⟨[], createMode umask (d.files p)⟩) }
  | .append p b =>
    { d with files := Function.update d.files p ((d.files p).map fun f => { f with bytes := f.bytes ++ [b] }) }
  | .setMode p mode =>
    { d with files := Function.update d.files p ((d.files p).map fun f => { f with mode := mode }) }

/-- What a list of steps makes of the disk. -/
def exec (d : Disk P) (steps : List (Step P)) : Disk P := steps.foldl (apply umask) d

/-- The step changes the file. -/
def Step.touches (p : P) : Step P → Bool
  | .createDirectory _ => false
  | .create q | .append q _ | .setMode q _ => q = p

/-- The bytes of a file. -/
def content (d : Disk P) (p : P) : Option (List UInt8) := (d.files p).map File.bytes

variable {umask} {d : Disk P} {p : P}

@[simp] theorem exec_nil : exec umask d [] = d := rfl

@[simp] theorem exec_cons (s : Step P) (steps : List (Step P)) :
    exec umask d (s :: steps) = exec umask (apply umask d s) steps := rfl

theorem exec_append (steps steps' : List (Step P)) :
    exec umask d (steps ++ steps') = exec umask (exec umask d steps) steps' := List.foldl_append

theorem apply_of_not_touches {s : Step P} (h : s.touches p = false) : (apply umask d s).files p = d.files p := by
  cases s with
  | createDirectory q => rfl
  | create q | append q b | setMode q m => exact Function.update_of_ne (Ne.symm (of_decide_eq_false h)) _ _

/-- **What no step touches stays.** -/
theorem exec_of_not_touches {steps : List (Step P)} (h : ∀ s ∈ steps, s.touches p = false) :
    (exec umask d steps).files p = d.files p := by
  induction steps generalizing d with
  | nil => rfl
  | cons s steps ih =>
    rw [exec_cons, ih fun t ht => h t (List.mem_cons_of_mem s ht)]
    exact apply_of_not_touches (h s List.mem_cons_self)

theorem content_of_not_touches {steps : List (Step P)} (h : ∀ s ∈ steps, s.touches p = false) :
    (exec umask d steps).content p = d.content p := by
  rw [content, exec_of_not_touches h, content]

theorem content_create : (apply umask d (.create p)).content p = some [] := by
  simp [apply, content]

theorem content_append (b : UInt8) : (apply umask d (.append p b)).content p = (d.content p).map (· ++ [b]) := by
  simp [apply, content, Function.comp_def]

theorem content_setMode (m : Mode) : (apply umask d (.setMode p m)).content p = d.content p := by
  simp [apply, content, Function.comp_def]

theorem content_exec_appends (bytes : List UInt8) :
    (exec umask d (bytes.map (.append p))).content p = (d.content p).map (· ++ bytes) := by
  induction bytes generalizing d with
  | nil => simp
  | cons b bytes ih =>
    rw [List.map_cons, exec_cons, ih, content_append, Option.map_map]
    congr 1
    funext bs
    exact List.append_assoc bs [b] bytes

/-- **A file written holds what was written.** -/
theorem content_exec_writeSteps (bytes : List UInt8) :
    (exec umask d (writeSteps p bytes)).content p = some bytes := by
  rw [writeSteps, exec_cons, content_exec_appends, content_create]
  rfl

/-! ## Writes that stop on the way -/

theorem content_setModes {d : Disk P} {steps : List (Step P)} (h : ∀ s ∈ steps, ∃ m, s = .setMode p m) :
    (exec umask d steps).content p = d.content p := by
  induction steps generalizing d with
  | nil => rfl
  | cons s steps ih =>
    obtain ⟨m, rfl⟩ := h s List.mem_cons_self
    rw [exec_cons, ih fun t ht => h t (List.mem_cons_of_mem _ ht), content_setMode]

/-- The file has been opened. -/
def opened (p : P) (steps : List (Step P)) : Bool := steps.any (Step.touches p)

theorem opened_of_not_touches {steps : List (Step P)} (h : ∀ s ∈ steps, s.touches p = false) :
    opened p steps = false := by
  rw [opened, List.any_eq_false]
  intro s hs
  rw [h s hs]
  exact Bool.false_ne_true

theorem opened_of_le (umask : Mode) (d : Disk P) {before : List (Step P)} (bytes : List UInt8)
    (after : List (Step P)) (hbefore : ∀ s ∈ before, s.touches p = false) {n : ℕ}
    (h : n ≤ before.length) :
    opened p ((before ++ (writeSteps p bytes ++ after)).take n) = false ∧
      (exec umask d ((before ++ (writeSteps p bytes ++ after)).take n)).content p = d.content p := by
  rw [List.take_append_of_le_length h]
  constructor
  · exact opened_of_not_touches fun s hs => hbefore s (List.mem_of_mem_take hs)
  · exact content_of_not_touches fun s hs => hbefore s (List.mem_of_mem_take hs)

theorem opened_of_lt (umask : Mode) (d : Disk P) (before : List (Step P)) (bytes : List UInt8)
    {after : List (Step P)} (hafter : ∀ s ∈ after, ∃ m, s = .setMode p m) (k : ℕ) :
    opened p ((before ++ (writeSteps p bytes ++ after)).take (before.length + (k + 1))) = true ∧
      (exec umask d ((before ++ (writeSteps p bytes ++ after)).take (before.length + (k + 1)))).content p =
        some (bytes.take k) := by
  rw [List.take_length_add_append, List.take_append, take_writeSteps]
  constructor
  · simp [opened, writeSteps, Step.touches]
  · rw [exec_append, exec_append, content_setModes fun s hs => hafter s (List.mem_of_mem_take hs)]
    exact content_exec_writeSteps _

/-! ## Permissions -/

/-- The permissions of a file. -/
def mode (d : Disk P) (p : P) : Option Mode := (d.files p).map File.mode

/-- A byte of the file is written. -/
def Step.writes (p : P) : Step P → Bool
  | .append q _ => q = p
  | _ => false

/-- Some byte of the file has been written. -/
def written (p : P) (steps : List (Step P)) : Bool := steps.any (Step.writes p)

theorem mode_create : (apply umask d (.create p)).mode p = some (createMode umask (d.files p)) := by
  simp [apply, mode]

theorem mode_append (b : UInt8) : (apply umask d (.append p b)).mode p = d.mode p := by
  simp [apply, mode, Function.comp_def]

theorem mode_setMode (m : Mode) : (apply umask d (.setMode p m)).mode p = (d.mode p).map fun _ => m := by
  simp [apply, mode, Function.comp_def]

theorem mode_exec_appends (bytes : List UInt8) : (exec umask d (bytes.map (.append p))).mode p = d.mode p := by
  induction bytes generalizing d with
  | nil => rfl
  | cons b bytes ih => rw [List.map_cons, exec_cons, ih, mode_append]

/-- **A file is written with the permissions it is opened with.** -/
theorem mode_exec_writeSteps (bytes : List UInt8) :
    (exec umask d (writeSteps p bytes)).mode p = some (createMode umask (d.files p)) := by
  rw [writeSteps, exec_cons, mode_exec_appends, mode_create]

/-- **Bytes written, and permissions set to what `Q` allows, keep to what `Q` allows.** -/
theorem mode_exec_of_writes {Q : Mode → Prop} {d : Disk P} {steps : List (Step P)}
    (h : ∀ s ∈ steps, (∃ b, s = .append p b) ∨ ∃ m, s = .setMode p m ∧ Q m) (hd : ∀ m ∈ d.mode p, Q m) :
    ∀ m ∈ (exec umask d steps).mode p, Q m := by
  induction steps generalizing d with
  | nil => exact hd
  | cons s steps ih =>
    refine ih (fun t ht => h t (List.mem_cons_of_mem s ht)) ?_
    rcases h s List.mem_cons_self with ⟨b, rfl⟩ | ⟨m, rfl, hm⟩
    · rw [mode_append]
      exact hd
    · intro m' hm'
      rw [mode_setMode] at hm'
      obtain ⟨-, -, rfl⟩ := Option.map_eq_some_iff.mp hm'
      exact hm

theorem written_append (steps steps' : List (Step P)) :
    written p (steps ++ steps') = (written p steps || written p steps') := List.any_append

theorem written_of_take {steps : List (Step P)} {n : ℕ} (h : written p (steps.take n) = true) :
    written p steps = true := by
  rw [← List.take_append_drop n steps, written_append, h, Bool.true_or]

theorem written_of_not_touches {steps : List (Step P)} (h : ∀ s ∈ steps, s.touches p = false) :
    written p steps = false := by
  rw [written, List.any_eq_false]
  intro s hs
  have htouch := h s hs
  cases s with
  | append q b => exact Bool.eq_false_iff.mp htouch
  | createDirectory q | create q | setMode q m => exact Bool.false_ne_true

theorem opened_of_written {steps : List (Step P)} (h : written p steps = true) : opened p steps = true := by
  by_contra hopened
  rw [opened, List.any_eq_true] at hopened
  rw [written_of_not_touches fun s hs => Bool.eq_false_iff.mpr fun ht => hopened ⟨s, hs, ht⟩] at h
  cases h

/-- **A file opened with permissions that `Q` allows** keeps to what `Q` allows, wherever the steps stop. -/
theorem mode_of_opened {Q : Mode → Prop} {before tail : List (Step P)} (hbefore : ∀ s ∈ before, s.touches p = false)
    (htail : tail = [] ∨ ∃ rest, tail = .create p :: rest ∧
      ∀ s ∈ rest, (∃ b, s = Step.append p b) ∨ ∃ m, s = .setMode p m ∧ Q m)
    (hmode : Q (createMode umask (d.files p))) (n : ℕ) (hopened : opened p ((before ++ tail).take n) = true) :
    ∀ m ∈ (exec umask d ((before ++ tail).take n)).mode p, Q m := by
  have hhead : ∀ s ∈ before.take n, s.touches p = false := fun s hs => hbefore s (List.mem_of_mem_take hs)
  rw [List.take_append] at hopened ⊢
  rw [opened, List.any_append, ← opened, opened_of_not_touches hhead, Bool.false_or] at hopened
  obtain ⟨s, hs, -⟩ := List.any_eq_true.mp hopened
  rcases htail with rfl | ⟨rest, rfl, hrest⟩
  · rw [List.take_nil] at hs
    cases hs
  · cases hk : n - before.length with
    | zero =>
      rw [hk] at hs
      cases hs
    | succ k =>
      rw [List.take_succ_cons, exec_append, exec_cons]
      refine mode_exec_of_writes (fun t ht => hrest t (List.mem_of_mem_take ht)) fun m hm => ?_
      rw [mode_create, exec_of_not_touches hhead] at hm
      cases hm
      exact hmode

end Disk
