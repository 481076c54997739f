import MqttServices.Client.Flags
import MqttServices.Common.Clock
import MqttServices.Common.ServiceCollectionsExtensions
import MqttServices.Lib.Run

/-!
# The reconnect service

* `Turn`: what one turn of the loop is answered; every answer of the clock, the flags, the calls and the token is one.
* `tryBlock`, `step`: a turn, and **`tryBlock_cases`**: what it can do.
* **`wellBehaved_run`**: how broadcasts and connects are spread over the turns of any run, and what ends it.
* **`idle_iff`**: the runs in which the service does nothing; the setting `Enabled` has no part in it.
-/

namespace MqttServices.MqttClientReconnectService

/-- What one turn of the loop is answered, in the order in which it asks. -/
structure Turn where
  IsCancellationRequested : Bool := false
  IsConnected : Bool := false
  IsConnecting : Bool := false
  UtcNow : ℤ
  SendBroadcastDiscoveryRequest : Except Exception Unit := .ok ()
  IsConnectingAfter : Bool := false
  IsConnectedAfter : Bool := false
  canceledAfter : Bool := false
  Connect : Except Exception Unit := .ok ()
  canceled : Bool := false
  deriving DecidableEq

/-- What a turn does. -/
inductive Effect where
  | SendBroadcastDiscoveryRequest
  | Connect
  deriving DecidableEq

/-- The `try` block of a turn: the field it leaves, what it did, and whether it ends with `continue`. -/
structure TryBlock where
  nextDiscoveryAttemptUtc : ℤ
  effects : List Effect
  result : Except Exception Bool
  deriving DecidableEq

/-- `DiscoveryRetryInterval`, in seconds. -/
def DiscoveryRetryInterval : ℤ := 30

def discoveryEnabled (settings : MqttClientSettings) : Bool := settings.Discovery.any (·.SearchForDiscoveryServer)

/-- `await _client.Connect()`, after the effects before it. -/
def connect (next : ℤ) (effects : List Effect) (turn : Turn) : TryBlock :=
  ⟨next, effects ++ [.Connect], turn.Connect.map fun _ => false⟩

/-- The `try` block of a turn. -/
def tryBlock (settings : MqttClientSettings) (next : ℤ) (turn : Turn) : TryBlock :=
  if !turn.IsConnected && !turn.IsConnecting then
    if discoveryEnabled settings && next ≤ turn.UtcNow then
      match caught turn.SendBroadcastDiscoveryRequest fun _ => () with
      | .error e => ⟨next, [.SendBroadcastDiscoveryRequest], .error e⟩
      | .ok () =>
        match AddSeconds turn.UtcNow DiscoveryRetryInterval with
        | .error e => ⟨next, [.SendBroadcastDiscoveryRequest], .error e⟩
        | .ok next =>
          if turn.IsConnectingAfter || turn.IsConnectedAfter then
            match Delay 1 turn.canceledAfter with
            | .elapsed => ⟨next, [.SendBroadcastDiscoveryRequest], .ok true⟩
            -- thrown inside the block, so that the handlers take it
            | _ => ⟨next, [.SendBroadcastDiscoveryRequest], .error .OperationCanceledException⟩
          else connect next [.SendBroadcastDiscoveryRequest] turn
    else connect next [] turn
  else ⟨next, [], .ok false⟩

/-- The loop: its field, whether it has ended, and its turns with what they did. -/
structure ReconnectLoop where
  nextDiscoveryAttemptUtc : ℤ := 0
  ended : Bool := false
  turns : List (Turn × List Effect) := []
  deriving DecidableEq

/-- One turn of `ExecuteAsync`. -/
def step (settings : MqttClientSettings) (s : ReconnectLoop) (turn : Turn) : Option ReconnectLoop :=
  if s.ended then none
  else if turn.IsCancellationRequested then some { s with ended := true, turns := s.turns ++ [(turn, [])] }
  else
    let block := tryBlock settings s.nextDiscoveryAttemptUtc turn
    let turns := s.turns ++ [(turn, block.effects)]
    match block.result with
    | .ok true => some ⟨block.nextDiscoveryAttemptUtc, false, turns⟩
    -- both handlers go on, and the delay after them is outside the block
    | .ok false | .error _ =>
      match Delay 5 turn.canceled with
      | .elapsed => some ⟨block.nextDiscoveryAttemptUtc, false, turns⟩
      | _ => some ⟨block.nextDiscoveryAttemptUtc, true, turns⟩

/-! ## One turn -/

section Turns

variable {settings : MqttClientSettings} {next : ℤ} {turn : Turn} {s s' : ReconnectLoop}

/-- The clock leaves room for the interval. -/
def HasRoom (turn : Turn) : Prop :=
  0 ≤ turn.UtcNow ∧ turn.UtcNow + DiscoveryRetryInterval * ticksPerSecond ≤ maxTicks

instance : DecidablePred HasRoom := fun turn =>
  inferInstanceAs (Decidable (0 ≤ turn.UtcNow ∧ turn.UtcNow + DiscoveryRetryInterval * ticksPerSecond ≤ maxTicks))

/-- The loop may act: neither flag is set. -/
def Unflagged (turn : Turn) : Prop := turn.IsConnected = false ∧ turn.IsConnecting = false

instance : DecidablePred Unflagged := fun turn =>
  inferInstanceAs (Decidable (turn.IsConnected = false ∧ turn.IsConnecting = false))

theorem AddSeconds_of_room (h : HasRoom turn) : AddSeconds turn.UtcNow DiscoveryRetryInterval =
    .ok (turn.UtcNow + DiscoveryRetryInterval * ticksPerSecond) := by
  refine if_pos ⟨?_, h.2⟩
  have hnow := h.1
  simp only [DiscoveryRetryInterval, ticksPerSecond]
  omega

theorem tryBlock_of_flagged (h : ¬ Unflagged turn) : tryBlock settings next turn = ⟨next, [], .ok false⟩ := by
  refine if_neg fun hguard => h ?_
  simpa [Unflagged] using hguard

/-- **What a turn can do**: nothing, connect, broadcast, or broadcast and connect. -/
theorem tryBlock_cases (hroom : HasRoom turn) :
    (¬ Unflagged turn ∧ (tryBlock settings next turn).effects = [] ∧
      (tryBlock settings next turn).nextDiscoveryAttemptUtc = next) ∨
    (Unflagged turn ∧ (tryBlock settings next turn).effects = [.Connect] ∧
      (tryBlock settings next turn).nextDiscoveryAttemptUtc = next) ∨
    (Unflagged turn ∧ next ≤ turn.UtcNow ∧
      (tryBlock settings next turn).nextDiscoveryAttemptUtc = turn.UtcNow + DiscoveryRetryInterval * ticksPerSecond ∧
      ((tryBlock settings next turn).effects = [.SendBroadcastDiscoveryRequest] ∨
        (turn.IsConnectingAfter = false ∧ turn.IsConnectedAfter = false) ∧
          (tryBlock settings next turn).effects = [.SendBroadcastDiscoveryRequest, .Connect])) := by
  by_cases hflags : Unflagged turn
  · obtain ⟨u, hu⟩ := caught_ok turn.SendBroadcastDiscoveryRequest fun _ => ()
    have hguard : (!turn.IsConnected && !turn.IsConnecting) = true := by simpa [Unflagged] using hflags
    rw [tryBlock, if_pos hguard, hu, AddSeconds_of_room hroom]
    by_cases hdue : (discoveryEnabled settings && next ≤ turn.UtcNow) = true
    · refine Or.inr (Or.inr ⟨hflags, of_decide_eq_true (Bool.and_eq_true_iff.mp hdue).2, ?_⟩)
      rw [if_pos hdue]
      dsimp only
      by_cases hafter : (turn.IsConnectingAfter || turn.IsConnectedAfter) = true
      · rw [if_pos hafter]
        cases Delay 1 turn.canceledAfter with
        | elapsed => exact ⟨rfl, Or.inl rfl⟩
        | OperationCanceledException => exact ⟨rfl, Or.inl rfl⟩
        | ArgumentOutOfRangeException => exact ⟨rfl, Or.inl rfl⟩
      · rw [if_neg hafter]
        exact ⟨rfl, Or.inr ⟨by simpa using hafter, rfl⟩⟩
    · rw [if_neg hdue]
      exact Or.inr (Or.inl ⟨hflags, rfl, rfl⟩)
  · rw [tryBlock_of_flagged hflags]
    exact Or.inl ⟨hflags, rfl, rfl⟩

/-- A broadcast is due. -/
def Due (settings : MqttClientSettings) (next : ℤ) (turn : Turn) : Prop :=
  discoveryEnabled settings = true ∧ next ≤ turn.UtcNow

instance (settings : MqttClientSettings) (next : ℤ) (turn : Turn) : Decidable (Due settings next turn) :=
  inferInstanceAs (Decidable (discoveryEnabled settings = true ∧ next ≤ turn.UtcNow))

theorem effects_of_not_due (hflags : Unflagged turn) (hdue : ¬ Due settings next turn) :
    (tryBlock settings next turn).effects = [.Connect] := by
  have hguard : (!turn.IsConnected && !turn.IsConnecting) = true := by simpa [Unflagged] using hflags
  rw [tryBlock, if_pos hguard, if_neg (by simpa [Due] using hdue)]
  rfl

/-- What it does where it is: it connects after the broadcast unless a flag is set then. -/
theorem effects_of_due (hflags : Unflagged turn) (hroom : HasRoom turn) (hdue : Due settings next turn) :
    (tryBlock settings next turn).effects = .SendBroadcastDiscoveryRequest ::
      if turn.IsConnectingAfter || turn.IsConnectedAfter then [] else [.Connect] := by
  obtain ⟨u, hu⟩ := caught_ok turn.SendBroadcastDiscoveryRequest fun _ => ()
  have hguard : (!turn.IsConnected && !turn.IsConnecting) = true := by simpa [Unflagged] using hflags
  rw [tryBlock, if_pos hguard, if_pos (by simpa [Due] using hdue), hu, AddSeconds_of_room hroom]
  dsimp only
  split_ifs
  · cases Delay 1 turn.canceledAfter <;> rfl
  · rfl

theorem broadcasts_iff (hroom : HasRoom turn) :
    [.SendBroadcastDiscoveryRequest] <+: (tryBlock settings next turn).effects ↔
      Unflagged turn ∧ Due settings next turn := by
  by_cases hflags : Unflagged turn
  · by_cases hdue : Due settings next turn
    · rw [effects_of_due hflags hroom hdue]
      exact iff_of_true ⟨_, rfl⟩ ⟨hflags, hdue⟩
    · rw [effects_of_not_due hflags hdue]
      exact iff_of_false (by decide) fun h => hdue h.2
  · rw [tryBlock_of_flagged hflags]
    exact iff_of_false (by simp) fun h => hflags h.1

/-- **What comes after a part of what a turn does**: the broadcast at the start, or the connect at the end. -/
theorem effect_after (hroom : HasRoom turn) {before : List Effect}
    (hbefore : before <+: (tryBlock settings next turn).effects) {effect : Effect}
    (h : (tryBlock settings next turn).effects[before.length]? = some effect) :
    effect = .SendBroadcastDiscoveryRequest ∧ before = [] ∧
        [.SendBroadcastDiscoveryRequest] <+: (tryBlock settings next turn).effects ∨
      effect = .Connect ∧ before ++ [.Connect] = (tryBlock settings next turn).effects := by
  have hcases : (tryBlock settings next turn).effects ∈ [[], [.Connect], [.SendBroadcastDiscoveryRequest],
      [.SendBroadcastDiscoveryRequest, .Connect]] := by
    rcases @tryBlock_cases settings next turn hroom with ⟨-, h, -⟩ | ⟨-, h, -⟩ | ⟨-, -, -, h | ⟨-, h⟩⟩ <;> rw [h] <;> decide
  generalize (tryBlock settings next turn).effects = effects at *
  simp only [List.mem_cons, List.not_mem_nil, or_false] at hcases
  obtain ⟨rest, rfl⟩ := hbefore
  rw [List.getElem?_append_right (le_refl _), Nat.sub_self] at h
  cases rest with
  | nil => cases h
  | cons e rest =>
    cases h
    cases before with
    | nil =>
      rw [List.nil_append] at hcases ⊢
      rcases hcases with h | h | h | h <;> cases h <;> simp
    | cons first before =>
      rcases hcases with h | h | h | h
      · cases h
      · simp at h
      · simp at h
      · obtain ⟨rfl, htail⟩ := List.cons.inj h
        rcases List.append_eq_singleton_iff.mp htail with ⟨rfl, hlast⟩ | ⟨-, hlast⟩
        · cases hlast
          exact Or.inr ⟨rfl, rfl⟩
        · cases hlast

/-- **Where a turn leaves the loop.** -/
theorem step_cases (h : step settings s turn = some s') :
    (turn.IsCancellationRequested = true ∧ s' = { s with ended := true, turns := s.turns ++ [(turn, [])] }) ∨
    (turn.IsCancellationRequested = false ∧
      s'.nextDiscoveryAttemptUtc = (tryBlock settings s.nextDiscoveryAttemptUtc turn).nextDiscoveryAttemptUtc ∧
      s'.turns = s.turns ++ [(turn, (tryBlock settings s.nextDiscoveryAttemptUtc turn).effects)] ∧
      (s'.ended = true → turn.canceled = true)) := by
  rw [step] at h
  split_ifs at h with hended hcancel
  · cases h
    exact Or.inl ⟨hcancel, rfl⟩
  · refine Or.inr ⟨Bool.eq_false_iff.mpr hcancel, ?_⟩
    dsimp only at h
    rw [Delay_of_accepted (by decide)] at h
    generalize tryBlock settings s.nextDiscoveryAttemptUtc turn = block at h ⊢
    cases hcanceled : turn.canceled with
    | false =>
      rw [hcanceled] at h
      split at h
      · cases h
        exact ⟨rfl, rfl, nofun⟩
      · cases h
        exact ⟨rfl, rfl, nofun⟩
      · cases h
        exact ⟨rfl, rfl, nofun⟩
    | true =>
      rw [hcanceled] at h
      split at h
      · cases h
        exact ⟨rfl, rfl, fun _ => rfl⟩
      · cases h
        exact ⟨rfl, rfl, fun _ => rfl⟩
      · cases h
        exact ⟨rfl, rfl, fun _ => rfl⟩

end Turns

/-! ## Runs -/

/-- How the loop behaves over its turns. -/
structure WellBehaved (s : ReconnectLoop) : Prop where
  spaced : s.turns.Pairwise fun a b => .SendBroadcastDiscoveryRequest ∈ a.2 → .SendBroadcastDiscoveryRequest ∈ b.2 →
    a.1.UtcNow + DiscoveryRetryInterval * ticksPerSecond ≤ b.1.UtcNow
  guarded : ∀ t ∈ s.turns, t.1.IsConnected = true ∨ t.1.IsConnecting = true → t.2 = []
  once : ∀ t ∈ s.turns, t.2.count .SendBroadcastDiscoveryRequest ≤ 1 ∧ t.2.count .Connect ≤ 1
  skipped : ∀ t ∈ s.turns, .SendBroadcastDiscoveryRequest ∈ t.2 →
    t.1.IsConnectingAfter = true ∨ t.1.IsConnectedAfter = true → .Connect ∉ t.2
  ends : s.ended = true → ∃ t, s.turns.getLast? = some t ∧ (t.1.IsCancellationRequested = true ∨ t.1.canceled = true)

/-- What a turn may do. -/
def Does (turn : Turn) (effects : List Effect) : Prop :=
  effects = [] ∨ Unflagged turn ∧ (effects = [.Connect] ∨ effects = [.SendBroadcastDiscoveryRequest] ∨
    (turn.IsConnectingAfter = false ∧ turn.IsConnectedAfter = false) ∧
      effects = [.SendBroadcastDiscoveryRequest, .Connect])

/-- The invariant of the loop: its turns so far, and when it may broadcast again. -/
structure LoopInv (s : ReconnectLoop) : Prop where
  spaced : s.turns.Pairwise fun a b => .SendBroadcastDiscoveryRequest ∈ a.2 → .SendBroadcastDiscoveryRequest ∈ b.2 →
    a.1.UtcNow + DiscoveryRetryInterval * ticksPerSecond ≤ b.1.UtcNow
  next : ∀ t ∈ s.turns, .SendBroadcastDiscoveryRequest ∈ t.2 →
    t.1.UtcNow + DiscoveryRetryInterval * ticksPerSecond ≤ s.nextDiscoveryAttemptUtc
  does : ∀ t ∈ s.turns, Does t.1 t.2
  ends : s.ended = true → ∃ t, s.turns.getLast? = some t ∧ (t.1.IsCancellationRequested = true ∨ t.1.canceled = true)

variable {settings : MqttClientSettings} {s s' : ReconnectLoop} {turn : Turn}

theorem loopInv_start : LoopInv {} where
  spaced := List.Pairwise.nil
  next := fun _ h => absurd h List.not_mem_nil
  does := fun _ h => absurd h List.not_mem_nil
  ends := nofun

theorem LoopInv.append (h : LoopInv s) {effects : List Effect} (hturns : s'.turns = s.turns ++ [(turn, effects)])
    (hnext : s.nextDiscoveryAttemptUtc ≤ s'.nextDiscoveryAttemptUtc)
    (hbroadcast : .SendBroadcastDiscoveryRequest ∈ effects → s.nextDiscoveryAttemptUtc ≤ turn.UtcNow ∧
      turn.UtcNow + DiscoveryRetryInterval * ticksPerSecond ≤ s'.nextDiscoveryAttemptUtc)
    (hdoes : Does turn effects)
    (hends : s'.ended = true → turn.IsCancellationRequested = true ∨ turn.canceled = true) : LoopInv s' := by
  refine ⟨?_, ?_, ?_, fun hended => ⟨(turn, effects), ?_, hends hended⟩⟩
  · rw [hturns]
    refine List.pairwise_append.mpr ⟨h.spaced, List.pairwise_singleton _ _, fun a ha b hb hba hbb => ?_⟩
    rw [List.mem_singleton.mp hb] at hbb ⊢
    exact (h.next a ha hba).trans (hbroadcast hbb).1
  · rw [hturns, List.forall_mem_append, List.forall_mem_singleton]
    exact ⟨fun t ht hb => (h.next t ht hb).trans hnext, fun hb => (hbroadcast hb).2⟩
  · rw [hturns, List.forall_mem_append, List.forall_mem_singleton]
    exact ⟨h.does, hdoes⟩
  · rw [hturns]
    exact List.getLast?_concat

theorem Does.soFar {effects before : List Effect} (h : Does turn effects) (hbefore : before <+: effects) :
    Does turn before := by
  rcases h with rfl | ⟨hflags, rfl | rfl | ⟨hafter, rfl⟩⟩
  · exact Or.inl (List.prefix_nil.mp hbefore)
  · rcases List.prefix_cons_iff.mp hbefore with rfl | ⟨t, rfl, ht⟩
    · exact Or.inl rfl
    · rw [List.prefix_nil.mp ht]
      exact Or.inr ⟨hflags, Or.inl rfl⟩
  · rcases List.prefix_cons_iff.mp hbefore with rfl | ⟨t, rfl, ht⟩
    · exact Or.inl rfl
    · rw [List.prefix_nil.mp ht]
      exact Or.inr ⟨hflags, Or.inr (Or.inl rfl)⟩
  · rcases List.prefix_cons_iff.mp hbefore with rfl | ⟨t, rfl, ht⟩
    · exact Or.inl rfl
    · rcases List.prefix_cons_iff.mp ht with rfl | ⟨u, rfl, hu⟩
      · exact Or.inr ⟨hflags, Or.inr (Or.inl rfl)⟩
      · rw [List.prefix_nil.mp hu]
        exact Or.inr ⟨hflags, Or.inr (Or.inr ⟨hafter, rfl⟩)⟩

/-- **A turn, or what it has done so far, keeps the invariant.** -/
theorem LoopInv.append_block (h : LoopInv s) (hroom : HasRoom turn) {effects : List Effect}
    (heffects : effects <+: (tryBlock settings s.nextDiscoveryAttemptUtc turn).effects)
    (hturns : s'.turns = s.turns ++ [(turn, effects)])
    (hnext : s'.nextDiscoveryAttemptUtc = (tryBlock settings s.nextDiscoveryAttemptUtc turn).nextDiscoveryAttemptUtc)
    (hends : s'.ended = true → turn.IsCancellationRequested = true ∨ turn.canceled = true) : LoopInv s' := by
  rcases @tryBlock_cases settings s.nextDiscoveryAttemptUtc turn hroom with
    ⟨-, hnone, hsame⟩ | ⟨hflags, hconnect, hsame⟩ | ⟨hflags, hdue, hmoved, hbroadcast⟩
  · rw [hnone, List.prefix_nil] at heffects
    subst heffects
    exact h.append hturns (hnext.trans hsame).ge (fun hb => absurd hb List.not_mem_nil) (Or.inl rfl) hends
  · have hdoes : Does turn [.Connect] := Or.inr ⟨hflags, Or.inl rfl⟩
    rw [hconnect] at heffects
    exact h.append hturns (hnext.trans hsame).ge (fun hb => absurd (heffects.subset hb) (by simp))
      (hdoes.soFar heffects) hends
  · have hdoes : Does turn (tryBlock settings s.nextDiscoveryAttemptUtc turn).effects := Or.inr ⟨hflags, Or.inr hbroadcast⟩
    have hinterval : (0 : ℤ) ≤ DiscoveryRetryInterval * ticksPerSecond := by decide
    have hnext' := hnext.trans hmoved
    exact h.append hturns (by omega) (fun _ => ⟨hdue, hnext'.ge⟩) (hdoes.soFar heffects) hends

theorem LoopInv.step (h : LoopInv s) (hroom : HasRoom turn) (hs : step settings s turn = some s') : LoopInv s' := by
  rcases step_cases hs with ⟨hcancel, rfl⟩ | ⟨-, hnext, hturns, hends⟩
  · exact h.append rfl (le_refl _) (fun hb => absurd hb List.not_mem_nil) (Or.inl rfl) fun _ => Or.inl hcancel
  · exact h.append_block hroom (List.prefix_refl _) hturns hnext fun hended => Or.inr (hends hended)

theorem LoopInv.wellBehaved (h : LoopInv s) : WellBehaved s where
  spaced := h.spaced
  guarded := by
    intro t ht hflags
    rcases h.does t ht with hnone | ⟨⟨hconnected, hconnecting⟩, -⟩
    · exact hnone
    · rw [hconnected, hconnecting] at hflags
      simp at hflags
  once := by
    intro t ht
    rcases h.does t ht with h | ⟨-, h | h | ⟨-, h⟩⟩ <;> rw [h] <;> decide
  skipped := by
    intro t ht hb hafter
    rcases h.does t ht with h | ⟨-, h | h | ⟨⟨h₁, h₂⟩, -⟩⟩
    · simp [h]
    · simp [h] at hb
    · simp [h]
    · rw [h₁, h₂] at hafter
      simp at hafter
  ends := h.ends

/-- **Every run of the loop is well behaved**: whatever the clock, the flags and the calls answer. -/
theorem wellBehaved_run {turns : List Turn} (hroom : ∀ turn ∈ turns, HasRoom turn)
    (hrun : Run.exec (step settings) {} turns = some s) : WellBehaved s :=
  LoopInv.wellBehaved (Run.invariant_of_meets (fun _ _ _ h hroom hs => h.step hroom hs) loopInv_start
    (Run.Meets.of_forall hroom _) hrun)

/-- The clock goes back between two turns, and the broadcast waits. -/
def backwardTurns : List Turn :=
  [{ UtcNow := 40 * ticksPerSecond, IsConnectingAfter := true }, { UtcNow := 20 * ticksPerSecond },
    { UtcNow := 70 * ticksPerSecond, canceled := true }]

/-- Settings that search for a discovery server. -/
def searchingSettings : MqttClientSettings := { Discovery := some { SearchForDiscoveryServer := true } }

theorem wellBehaved_run_backward : ∃ s, Run.exec (step searchingSettings) {} backwardTurns = some s ∧ WellBehaved s :=
  ⟨_, rfl, @wellBehaved_run searchingSettings _ backwardTurns (by decide) rfl⟩

/-! ## A disabled client -/

/-- The service has neither called `Connect` nor sent a broadcast. -/
def Idle (s : ReconnectLoop) : Prop := ∀ t ∈ s.turns, t.2 = []

/-- A turn that is canceled before it begins, or begins with a flag set. -/
def KeptOff (turn : Turn) : Prop := turn.IsCancellationRequested = true ∨ ¬ Unflagged turn

/-- A turn that begins with both flags clear connects or broadcasts. -/
theorem effects_ne_nil (h : Unflagged turn) (next : ℤ) : (tryBlock settings next turn).effects ≠ [] := by
  have hguard : (!turn.IsConnected && !turn.IsConnecting) = true := by simpa [Unflagged] using h
  rw [tryBlock, if_pos hguard]
  by_cases hdue : (discoveryEnabled settings && next ≤ turn.UtcNow) = true
  · rw [if_pos hdue]
    split
    · simp
    · split
      · simp
      · split
        · split
          · simp
          · simp
        · simp [connect]
  · rw [if_neg hdue]
    simp [connect]

/-- **A turn keeps the service idle just where it is kept off.** -/
theorem keptOff_iff (hidle : Idle s) (hs : step settings s turn = some s') : KeptOff turn ↔ Idle s' := by
  have happend : ∀ effects, (∀ t ∈ s.turns ++ [(turn, effects)], t.2 = []) ↔ effects = [] := by
    intro effects
    rw [List.forall_mem_append, List.forall_mem_singleton]
    exact and_iff_right hidle
  rcases step_cases hs with ⟨hcancel, rfl⟩ | ⟨hcancel, -, hturns, -⟩
  · exact iff_of_true (Or.inl hcancel) ((happend []).mpr rfl)
  · rw [Idle, hturns, happend, KeptOff, hcancel]
    constructor
    · rintro (h | h)
      · cases h
      · rw [tryBlock_of_flagged h]
    · exact fun h => Or.inr fun hflags => effects_ne_nil hflags _ h

/-- **The runs in which a client that is registered and disabled stays off**: every turn is canceled before it begins,
or begins with a flag set. -/
theorem idle_iff {services registered : ServiceCollection} {setupAction : MqttClientSettings → MqttClientSettings}
    (hregistered : ServiceCollection.AddMqttMessagingService (some services) (some setupAction) = .ok registered)
    (hdisabled : registered.clientOptions.Enabled = false) {turns : List Turn}
    (hrun : Run.exec (step registered.clientOptions) {} turns = some s) :
    HostedService.MqttClientReconnectService ∈ registered.hostedServices ∧
      (Run.Always (step registered.clientOptions) Idle {} turns ↔
        Run.Meets (step registered.clientOptions) (fun _ turn => KeptOff turn) {} turns) := by
  refine ⟨?_, Run.always_iff_meets (fun _ _ _ hidle hs => keptOff_iff hidle hs) ?_ hrun⟩
  · cases hregistered
    exact List.mem_append_right _ (List.mem_singleton_self _)
  · exact fun _ h => absurd h List.not_mem_nil

/-- The registration of a client that is disabled. -/
def disable (options : MqttClientSettings) : MqttClientSettings :=
  { options with Enabled := false, BrokerHost := some "broker".toList }

/-- The first turn of a service whose client is new. -/
def firstTurn : Turn :=
  let client := MqttClientService.new (some "broker".toList) 1883
  { UtcNow := ticksPerDay, IsConnected := client.IsConnected, IsConnecting := client.IsConnecting }

/-- A client that is disabled is connected in the first turn. -/
theorem disabled_connects : ∃ registered s,
    ServiceCollection.AddMqttMessagingService (some {}) (some disable) = .ok registered ∧
      registered.clientOptions.Enabled = false ∧
      Run.exec (step registered.clientOptions) {} [firstTurn] = some s ∧ ¬ Idle s := by
  refine ⟨_, _, rfl, rfl, rfl, fun h => ?_⟩
  exact absurd (h (firstTurn, [.Connect]) (List.mem_singleton_self _)) (by simp)

/-- A turn that begins while the client connects, and one that is canceled. -/
def offTurns : List Turn := [{ UtcNow := 0, IsConnecting := true }, { UtcNow := 0, IsCancellationRequested := true }]

theorem idle_iff_canceled : ∃ registered,
    ServiceCollection.AddMqttMessagingService (some {}) (some disable) = .ok registered ∧
      registered.clientOptions.Enabled = false ∧
      HostedService.MqttClientReconnectService ∈ registered.hostedServices ∧
      Run.Always (step registered.clientOptions) Idle {} offTurns := by
  obtain ⟨registered, hregistered, hdisabled⟩ : ∃ registered,
      ServiceCollection.AddMqttMessagingService (some {}) (some disable) = .ok registered ∧
        registered.clientOptions.Enabled = false := ⟨_, rfl, rfl⟩
  obtain ⟨s, hrun⟩ : ∃ s, Run.exec (step registered.clientOptions) {} offTurns = some s := ⟨_, rfl⟩
  obtain ⟨hhosted, hiff⟩ := idle_iff hregistered hdisabled hrun
  refine ⟨registered, hregistered, hdisabled, hhosted, hiff.mpr (Run.Meets.of_forall ?_ _)⟩
  intro turn hturn
  rcases List.mem_cons.mp hturn with rfl | hturn
  · exact Or.inr (by decide)
  · rw [List.mem_singleton.mp hturn]
    exact Or.inl rfl

end MqttServices.MqttClientReconnectService
