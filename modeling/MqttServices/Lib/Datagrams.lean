import Mathlib.Data.List.Basic
import Mathlib.Logic.Function.Basic
import MqttServices.Lib.Run

/-!
# Parties that exchange datagrams

A family of machines, and the datagrams they have sent. A datagram may be lost, come twice or come after later ones: a
receipt takes nothing away, and nothing has to be received.

* `Protocol`: how a party steps, what it has to have received for it and what it sends.
* `Network`, `Protocol.next`: the parties together.
* **`rely_guarantee`**: what each party keeps while it receives good datagrams, where it sends only such, all keep.
-/

namespace Datagrams

variable {ι : Type*} {S A : ι → Type*} {M : Type*}

/-- The parties. -/
structure Protocol {ι : Type*} (S A : ι → Type*) (M : Type*) where
  receives : ∀ i, A i → List M
  step : ∀ i, S i → A i → Option (S i × List M)

/-- The states of the parties, and what has been sent. -/
structure Network {ι : Type*} (S : ι → Type*) (M : Type*) where
  party : ∀ i, S i
  sent : List M

namespace Protocol

variable (P : Protocol S A M)

/-- A step of the network: one of a party that receives only what was sent. -/
def next [DecidableEq ι] [DecidableEq M] (s : Network S M) (a : (i : ι) × A i) : Option (Network S M) :=
  if ∀ m ∈ P.receives a.1 a.2, m ∈ s.sent then
    (P.step a.1 (s.party a.1) a.2).map fun t => ⟨Function.update s.party a.1 t.1, s.sent ++ t.2⟩
  else none

variable [DecidableEq ι] [DecidableEq M] {P} {s s' : Network S M}

/-- **What a step of the network is.** -/
theorem next_eq_some {a : (i : ι) × A i} : P.next s a = some s' ↔ (∀ m ∈ P.receives a.1 a.2, m ∈ s.sent) ∧
    ∃ t, P.step a.1 (s.party a.1) a.2 = some t ∧ ⟨Function.update s.party a.1 t.1, s.sent ++ t.2⟩ = s' := by
  rw [next]
  by_cases h : ∀ m ∈ P.receives a.1 a.2, m ∈ s.sent
  · rw [if_pos h, Option.map_eq_some_iff]
    exact ⟨fun hs => ⟨h, hs⟩, fun hs => hs.2⟩
  · rw [if_neg h]
    exact iff_of_false (by simp) fun hs => h hs.1

/-- **What each party keeps while it receives good datagrams, where it sends only such, all keep.** -/
theorem rely_guarantee {I : ∀ i, S i → Prop} {G : M → Prop}
    (hstep : ∀ i t a t' sends, I i t → (∀ m ∈ P.receives i a, G m) → P.step i t a = some (t', sends) →
      I i t' ∧ ∀ m ∈ sends, G m)
    (h₀ : ∀ i, I i (s.party i)) (hsent : ∀ m ∈ s.sent, G m) {as : List ((i : ι) × A i)}
    (hrun : Run.exec P.next s as = some s') : (∀ i, I i (s'.party i)) ∧ ∀ m ∈ s'.sent, G m := by
  refine Run.invariant (I := fun s => (∀ i, I i (s.party i)) ∧ ∀ m ∈ s.sent, G m) (fun s a s' h hs => ?_) ⟨h₀, hsent⟩
    hrun
  obtain ⟨hI, hgood⟩ := h
  obtain ⟨hreceived, t, ht, rfl⟩ := next_eq_some.mp hs
  obtain ⟨hkept, hsends⟩ := hstep a.1 _ a.2 t.1 t.2 (hI a.1) (fun m hm => hgood m (hreceived m hm)) ht
  refine ⟨fun i => ?_, List.forall_mem_append.mpr ⟨hgood, hsends⟩⟩
  dsimp only
  by_cases hi : i = a.1
  · subst hi
    rw [Function.update_self]
    exact hkept
  · rw [Function.update_of_ne hi]
    exact hI i

/-- **The step of one party**, with what it receives at hand: it moves, its datagrams are sent, and the others stay. -/
theorem exists_next {i : ι} {a : A i} {t : S i} {sends : List M} (hreceived : ∀ m ∈ P.receives i a, m ∈ s.sent)
    (ht : P.step i (s.party i) a = some (t, sends)) :
    ∃ s', P.next s ⟨i, a⟩ = some s' ∧ s'.party i = t ∧ (∀ k, k ≠ i → s'.party k = s.party k) ∧
      s'.sent = s.sent ++ sends :=
  ⟨_, next_eq_some.mpr ⟨hreceived, _, ht, rfl⟩, Function.update_self i t s.party,
    fun _ hk => Function.update_of_ne hk t s.party, rfl⟩

/-- **A run of one party**, which receives nothing in it. -/
theorem exists_exec {i : ι} {as : List (A i)} {t : S i} (hquiet : ∀ a ∈ as, P.receives i a = [])
    (ht : Run.exec (fun t a => (P.step i t a).map Prod.fst) (s.party i) as = some t) :
    ∃ s', Run.exec P.next s (as.map fun a => ⟨i, a⟩) = some s' ∧ s'.party i = t := by
  induction as generalizing s with
  | nil => exact ⟨s, rfl, Option.some_inj.mp ht⟩
  | cons a as ih =>
    obtain ⟨u, hu, hrest⟩ := Run.exec_cons_eq_some.mp ht
    obtain ⟨⟨u, sends⟩, hstep, rfl⟩ := Option.map_eq_some_iff.mp hu
    obtain ⟨s₁, h₁, hparty, -, -⟩ := exists_next (fun m hm => by simp [hquiet a List.mem_cons_self] at hm) hstep
    rw [← hparty] at hrest
    obtain ⟨s₂, h₂, hlast⟩ := ih (fun b hb => hquiet b (List.mem_cons_of_mem a hb)) hrest
    exact ⟨s₂, Run.exec_cons_eq_some.mpr ⟨s₁, h₁, h₂⟩, hlast⟩

end Protocol

end Datagrams
