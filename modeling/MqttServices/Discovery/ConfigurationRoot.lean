import MqttServices.Discovery.Agreement
import MqttServices.Lib.Layers

/-!
# The configuration that discovery updates

* `Provider`, `ConfigurationRoot`: the providers in order, a later one before the earlier ones.
* `ConfigurationRoot.TryUpdateSetting`: the setting goes to the first memory provider; `firstMemory_discovered`: what the
  replies make of that provider.
* **`reads_discovered_iff`**: after any replies, whether the configuration reads what the last one said.
-/

namespace MqttServices

/-- A provider, and whether it is a `MemoryConfigurationProvider`. -/
structure Provider where
  isMemory : Bool
  entries : Entries

/-- `IConfigurationRoot.Providers`. -/
abbrev ConfigurationRoot := List Provider

namespace ConfigurationRoot

/-- `configuration[key]`. -/
def read (root : ConfigurationRoot) (key : Str) : Option (Option Str) := Layers.get key (root.map Provider.entries)

/-- `TryUpdateSetting`: `Set` on the first memory provider. -/
def TryUpdateSetting (u : Str × Option Str) : ConfigurationRoot → ConfigurationRoot
  | [] => []
  | p :: root => if p.isMemory then { p with entries := p.entries.set u } :: root else p :: TryUpdateSetting u root

/-- The settings of a reply, in order. -/
def update (root : ConfigurationRoot) (us : List (Str × Option Str)) : ConfigurationRoot :=
  us.foldl (fun root u => TryUpdateSetting u root) root

/-- The replies of a run, in order. -/
def discovered (root : ConfigurationRoot) (replies : List MqttClientSettings) : ConfigurationRoot :=
  replies.foldl (fun root st => root.update (updates st)) root

/-- The first memory provider. -/
def firstMemory (root : ConfigurationRoot) : Configuration := (root.find? Provider.isMemory).map Provider.entries

/-- The providers that come after the first memory provider, or all where there is none. -/
def covering : ConfigurationRoot → ConfigurationRoot
  | [] => []
  | p :: root =>
    if p.isMemory then root else if (firstMemory root).isSome then covering root else p :: root

variable {root : ConfigurationRoot} {u : Str × Option Str} {us : List (Str × Option Str)}

theorem exists_split {entries : Entries} (h : root.firstMemory = some entries) :
    ∃ before after : List Provider, root = before ++ ⟨true, entries⟩ :: after ∧ (∀ p ∈ before, p.isMemory = false) ∧
      root.covering = after := by
  induction root with
  | nil => cases h
  | cons p root ih =>
    by_cases hp : p.isMemory = true
    · have hentries : p.entries = entries := by simpa [firstMemory, List.find?_cons, hp] using h
      refine ⟨[], root, ?_, fun _ h => absurd h List.not_mem_nil, if_pos hp⟩
      rw [List.nil_append, ← hentries, ← hp]
    · have hrest : firstMemory root = some entries := by simpa [firstMemory, List.find?_cons, hp] using h
      obtain ⟨before, after, heq, hbefore, hcovering⟩ := ih hrest
      refine ⟨p :: before, after, by rw [heq, List.cons_append], ?_, ?_⟩
      · exact List.forall_mem_cons.mpr ⟨Bool.eq_false_iff.mpr hp, hbefore⟩
      · rw [covering, if_neg hp, hrest]
        exact hcovering

theorem TryUpdateSetting_append {before after : List Provider} (hbefore : ∀ p ∈ before, p.isMemory = false)
    (entries : Entries) : TryUpdateSetting u (before ++ ⟨true, entries⟩ :: after) =
      before ++ ⟨true, entries.set u⟩ :: after := by
  induction before with
  | nil => rfl
  | cons p before ih =>
    obtain ⟨hp, hrest⟩ := List.forall_mem_cons.mp hbefore
    rw [List.cons_append, TryUpdateSetting, hp, if_neg Bool.false_ne_true, ih hrest, List.cons_append]

theorem update_append {before after : List Provider} (hbefore : ∀ p ∈ before, p.isMemory = false) (entries : Entries)
    (us : List (Str × Option Str)) : update (before ++ ⟨true, entries⟩ :: after) us =
      before ++ ⟨true, us.foldl Entries.set entries⟩ :: after := by
  induction us generalizing entries with
  | nil => rfl
  | cons u us ih =>
    rw [update, List.foldl_cons, TryUpdateSetting_append hbefore]
    exact ih (entries.set u)

theorem discovered_append {before after : List Provider} (hbefore : ∀ p ∈ before, p.isMemory = false)
    (entries : Entries) (replies : List MqttClientSettings) :
    discovered (before ++ ⟨true, entries⟩ :: after) replies =
      before ++ ⟨true, replies.foldl (fun entries st => (updates st).foldl Entries.set entries) entries⟩ :: after := by
  induction replies generalizing entries with
  | nil => rfl
  | cons st replies ih =>
    rw [discovered, List.foldl_cons, update_append hbefore]
    exact ih _

/-- Without a memory provider nothing is updated. -/
theorem TryUpdateSetting_of_none (h : root.firstMemory = none) : TryUpdateSetting u root = root := by
  induction root with
  | nil => rfl
  | cons p root ih =>
    by_cases hp : p.isMemory = true
    · simp [firstMemory, hp] at h
    · have hrest : firstMemory root = none := by simpa [firstMemory, List.find?_cons, hp] using h
      rw [TryUpdateSetting, if_neg hp, ih hrest]

theorem discovered_of_none (h : root.firstMemory = none) (replies : List MqttClientSettings) :
    root.discovered replies = root := by
  have hupdate : ∀ us, root.update us = root := by
    intro us
    induction us with
    | nil => rfl
    | cons u us ih =>
      rw [update, List.foldl_cons, TryUpdateSetting_of_none h]
      exact ih
  induction replies with
  | nil => rfl
  | cons st replies ih =>
    rw [discovered, List.foldl_cons, hupdate]
    exact ih

theorem covering_of_none (h : root.firstMemory = none) : root.covering = root := by
  cases root with
  | nil => rfl
  | cons p root =>
    by_cases hp : p.isMemory = true
    · simp [firstMemory, hp] at h
    · have hrest : firstMemory root = none := by simpa [firstMemory, List.find?_cons, hp] using h
      rw [covering, if_neg hp, hrest]
      rfl

/-- **What the replies make of the first memory provider** is what they make of the configuration of the client. -/
theorem firstMemory_discovered (replies : List MqttClientSettings) :
    (root.discovered replies).firstMemory = replies.foldl (fun c st => setAll (updates st) c) root.firstMemory := by
  cases h : root.firstMemory with
  | none =>
    rw [discovered_of_none h, h]
    induction replies with
    | nil => rfl
    | cons st replies ih => rwa [List.foldl_cons, setAll_none]
  | some entries =>
    obtain ⟨before, after, rfl, hbefore, -⟩ := exists_split h
    rw [discovered_append hbefore]
    have hfind : before.find? Provider.isMemory = none := List.find?_eq_none.mpr fun p hp => by simp [hbefore p hp]
    have hall : ∀ entries : Entries, replies.foldl (fun c st => setAll (updates st) c) (some entries) =
        some (replies.foldl (fun entries st => (updates st).foldl Entries.set entries) entries) := by
      clear h
      induction replies with
      | nil => exact fun _ => rfl
      | cons st replies ih =>
        intro entries
        rw [List.foldl_cons, setAll_some, ih, List.foldl_cons]
    rw [hall, firstMemory, List.find?_append, hfind, Option.none_or, List.find?_cons]
    rfl

theorem entries_last {st : MqttClientSettings} (hu : u ∈ updates st) (entries : Entries)
    (replies : List MqttClientSettings) : (replies ++ [st]).foldl
      (fun entries st => (updates st).foldl Entries.set entries) entries u.1 = some u.2 := by
  rw [List.foldl_append, List.foldl_cons, List.foldl_nil]
  exact foldl_set_of_mem (updates_nodup st) hu _

/-- A value of one provider is read unless one after it covers it. -/
theorem read_append {before after : List Provider} {p : Provider} {key : Str} {value : Option Str}
    (hp : p.entries key = some value) : read (before ++ p :: after) key = some value ↔
      read after key = none ∨ read after key = some value := by
  unfold read
  rw [List.map_append, List.map_cons]
  exact Layers.get_layer_eq_some_iff hp

/-- **After any replies the configuration reads what the last one said** just where every entry is covered by no provider
after the first memory provider, or by the same value. -/
theorem reads_discovered_iff (root : ConfigurationRoot) (replies : List MqttClientSettings) (st : MqttClientSettings) :
    (∀ u ∈ updates st, (root.discovered (replies ++ [st])).read u.1 = some u.2) ↔
      ∀ u ∈ updates st, root.covering.read u.1 = some u.2 ∨
        root.covering.read u.1 = none ∧ root.firstMemory.isSome = true := by
  cases h : root.firstMemory with
  | none => simp [discovered_of_none h, covering_of_none h]
  | some entries =>
    obtain ⟨before, after, rfl, hbefore, hcovering⟩ := exists_split h
    rw [discovered_append hbefore, hcovering]
    refine forall₂_congr fun u hu => ?_
    rw [read_append (entries_last hu entries replies)]
    simp [or_comm]

end ConfigurationRoot

end MqttServices
