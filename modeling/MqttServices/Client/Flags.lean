import MqttServices.Client.Machine
import MqttServices.Services.Send

/-!
# The connection flags

* `Timely`: a callback, and the reset in `Reconnect`, that does not contradict the connection.
* `FlagInv`: the flag agrees with the connection, or a callback that will set it right is still to come.
* `not_connecting_of_quiescent`: in every run, `IsConnecting` is clear once all is done.
* **`flags_agree`**: in the runs of timely steps the flags agree with the connection once all is done,
  and the gate and the reconnect loop act on the connection as it is.
* `untimely_step`: a step that is not timely leaves the flag wrong, with nothing to come that sets it right.
-/

namespace MqttServices

namespace MqttClientService

/-- The callback of the present connection is still to come. -/
def Opening (s : MqttClientService) : Prop := s.connected = true ∧ Pc.connectedCallback ∈ s.tasks

/-- The callback of the end of the connection is still to come. -/
def Closing (s : MqttClientService) : Prop :=
  s.connected = false ∧ (0 < s.callbacks ∨ s.mqttClient = some .disconnecting)

/-- A callback, and the reset in `Reconnect`, sets the flag as the connection is, or as a callback to come
will correct. -/
def Timely (s : MqttClientService) : ServiceAction → Prop
  | .connectedCallback _ => s.connected = true ∨ s.Closing
  | .disconnectedCallback => s.connected = false ∨ s.Opening
  | .resume i => ∀ h p, s.tasks[i]? = some (.disconnected (.reconnect h p)) → s.connected = false ∨ s.Opening
  | _ => True

/-- The flag agrees with the connection, or a callback to come sets it right. -/
structure FlagInv (s : MqttClientService) : Prop where
  flag : s.IsConnected = s.connected ∨ s.Opening ∨ s.Closing
  disconnecting : s.mqttClient = some .disconnecting → ∃ k, Pc.disconnecting k ∈ s.tasks

/-- `IsConnecting` is set on behalf of a call. -/
def BusyInv (s : MqttClientService) : Prop :=
  s.IsConnecting = true → ∃ pc ∈ s.tasks, pc = .connecting ∨ pc = .connectedCallback ∨ pc = .finishing

/-! ## Steps -/

section Invariants

variable {s t s' : MqttClientService}

theorem FlagInv.of_kept (h : FlagInv s) (hk : Kept s t) {l : List Pc}
    (hopen : Pc.connectedCallback ∈ s.tasks → Pc.connectedCallback ∈ l)
    (hdis : ∀ k, Pc.disconnecting k ∈ s.tasks → ∃ k, Pc.disconnecting k ∈ l) : FlagInv { t with tasks := l } where
  flag := by
    rcases h.flag with hf | ⟨hc, ho⟩ | ⟨hc, hb⟩
    · exact Or.inl (hk.IsConnected.trans (hf.trans hk.connected.symm))
    · exact Or.inr (Or.inl ⟨hk.connected.trans hc, hopen ho⟩)
    · exact Or.inr (Or.inr ⟨hk.connected.trans hc, hb.imp (fun h => hk.callbacks ▸ h) hk.disconnecting.mpr⟩)
  disconnecting := fun hd => by
    obtain ⟨k, hmem⟩ := h.disconnecting (hk.disconnecting.mp hd)
    exact hdis k hmem

theorem FlagInv.of_reset (h : FlagInv s) (hk : Kept s.clearFlags t) {l : List Pc}
    (htimely : s.connected = false ∨ s.Opening) (hopen : Pc.connectedCallback ∈ s.tasks → Pc.connectedCallback ∈ l)
    (hdis : ∀ k, Pc.disconnecting k ∈ s.tasks → ∃ k, Pc.disconnecting k ∈ l) : FlagInv { t with tasks := l } where
  flag := by
    rcases htimely with hc | ⟨hc, ho⟩
    · exact Or.inl (hk.IsConnected.trans (hk.connected.trans hc).symm)
    · exact Or.inr (Or.inl ⟨hk.connected.trans hc, hopen ho⟩)
  disconnecting := fun hd => by
    obtain ⟨k, hmem⟩ := h.disconnecting (hk.disconnecting.mp hd)
    exact hdis k hmem

theorem flagInv_call (h : FlagInv s) {op : Op} (hs : step s (.call op) = some s') : FlagInv s' := by
  rw [step_call.mp hs]
  have hopen : ∀ pc : Pc, ∀ l : List Pc, pc ∈ s.tasks → pc ∈ s.tasks ++ l := fun _ _ => List.mem_append_left _
  rcases start_cases s.tasks.length op s with hk | ⟨hc, hk⟩ | ⟨k, hk⟩
  · exact h.of_kept hk (hopen _ _) fun k hk => ⟨k, hopen _ _ hk⟩
  · exact h.of_reset hk (Or.inl hc) (hopen _ _) fun k hk => ⟨k, hopen _ _ hk⟩
  · rw [called, hk]
    exact ⟨Or.inr (Or.inr ⟨rfl, Or.inr rfl⟩), fun _ => ⟨k, List.mem_append_right _ List.mem_cons_self⟩⟩

theorem flagInv_closed (s : MqttClientService) (l : List Pc) : FlagInv { s.closed with tasks := l } :=
  ⟨Or.inr (Or.inr ⟨rfl, Or.inl (Nat.succ_pos _)⟩), fun h => nomatch h⟩

theorem flagInv_resume (h : FlagInv s) {i : ℕ} (ht : s.Timely (.resume i)) (hs : step s (.resume i) = some s') :
    FlagInv s' := by
  obtain ⟨k, hk, rfl⟩ := step_resume.mp hs
  have hkeep : ∀ pc : Pc, pc ∈ s.tasks → pc ≠ .disconnected k → pc ∈ s.tasks.set i (goOn i k s).2 :=
    fun pc hpc hne => mem_set_of_ne _ hpc hk hne
  have htasks : ((goOn i k s).1.setTask i (goOn i k s).2) =
      { (goOn i k s).1 with tasks := s.tasks.set i (goOn i k s).2 } := by
    rcases kept_goOn i k s with h' | ⟨-, h'⟩
    · rw [setTask, h'.tasks]
    · rw [setTask, h'.tasks]
      rfl
  rw [htasks]
  rcases kept_goOn i k s with h' | ⟨⟨host, port, rfl⟩, h'⟩
  · exact h.of_kept h' (fun hm => hkeep _ hm (by simp)) fun k' hm => ⟨k', hkeep _ hm (by simp)⟩
  · exact h.of_reset h' (ht host port hk) (fun hm => hkeep _ hm (by simp)) fun k' hm => ⟨k', hkeep _ hm (by simp)⟩

theorem flagInv_connectResult (h : FlagInv s) {i : ℕ} {ok : Bool} (hs : step s (.connectResult i ok) = some s') :
    FlagInv s' := by
  obtain ⟨hi, ⟨-, -, rfl⟩ | ⟨-, -, rfl⟩ | ⟨-, rfl⟩⟩ := step_connectResult.mp hs
  · exact ⟨Or.inr (Or.inl ⟨rfl, mem_set_self _ hi⟩), fun h => nomatch h⟩
  · exact flagInv_closed s _
  · exact h.of_kept (Kept.refl s) (fun hm => mem_set_of_ne _ hm hi (by simp))
      fun k hm => ⟨k, mem_set_of_ne _ hm hi (by simp)⟩

theorem flagInv_connectedCallback (h : FlagInv s) {i : ℕ} (ht : s.Timely (.connectedCallback i))
    (hs : step s (.connectedCallback i) = some s') : FlagInv s' := by
  obtain ⟨hi, rfl⟩ := step_connectedCallback.mp hs
  refine ⟨?_, fun hd => ?_⟩
  · rcases ht with hc | hc
    · exact Or.inl hc.symm
    · exact Or.inr (Or.inr hc)
  · obtain ⟨k, hmem⟩ := h.disconnecting hd
    exact ⟨k, mem_set_of_ne _ hmem hi (by simp)⟩

theorem flagInv_connectFinally (h : FlagInv s) {i : ℕ} (hs : step s (.connectFinally i) = some s') : FlagInv s' := by
  obtain ⟨hi, rfl⟩ := step_connectFinally.mp hs
  have hk : Kept s { s with IsConnecting := false } := ⟨rfl, Iff.rfl, rfl, Iff.rfl, rfl, rfl⟩
  exact h.of_kept hk (fun hm => mem_set_of_ne _ hm hi (by simp)) fun k hm => ⟨k, mem_set_of_ne _ hm hi (by simp)⟩

theorem flagInv_disconnectedCallback (h : FlagInv s) (ht : s.Timely .disconnectedCallback)
    (hs : step s .disconnectedCallback = some s') : FlagInv s' := by
  obtain ⟨-, rfl⟩ := step_disconnectedCallback.mp hs
  refine ⟨?_, h.disconnecting⟩
  rcases ht with hc | ho
  · exact Or.inl hc.symm
  · exact Or.inr (Or.inl ho)

theorem flagInv_step (h : FlagInv s) {a : ServiceAction} (ht : s.Timely a) (hs : step s a = some s') : FlagInv s' := by
  cases a with
  | call op => exact flagInv_call h hs
  | disconnectDone i =>
    obtain ⟨k, -, rfl⟩ := step_disconnectDone.mp hs
    exact flagInv_closed s _
  | resume i => exact flagInv_resume h ht hs
  | connectResult i ok => exact flagInv_connectResult h hs
  | connectedCallback i => exact flagInv_connectedCallback h ht hs
  | connectFinally i => exact flagInv_connectFinally h hs
  | drop =>
    obtain ⟨-, rfl⟩ := step_drop.mp hs
    exact flagInv_closed s _
  | disconnectedCallback => exact flagInv_disconnectedCallback h ht hs

/-! ## `IsConnecting` -/

theorem busy_Connect (i : ℕ) (s : MqttClientService) (h : (s.Connect i).1.IsConnecting = true) :
    s.IsConnecting = true ∨ (s.Connect i).2 = .connecting := by
  revert h
  unfold Connect
  split
  · exact Or.inl
  · split_ifs
    · exact fun _ => Or.inr rfl
    · exact fun h => nomatch h
    · exact Or.inl

theorem busy_goOn (i : ℕ) (k : Then) (s : MqttClientService) (h : (goOn i k s).1.IsConnecting = true) :
    s.IsConnecting = true ∨ (goOn i k s).2 = .connecting := by
  cases k with
  | nothing => exact Or.inl h
  | reConnect host port => exact busy_Connect i (s.setEndpoint host port) h
  | reconnect host port =>
    rcases busy_Connect i (s.clearFlags.setEndpoint host port) h with h' | h'
    · cases h'
    · exact Or.inr h'

theorem busy_Disconnect (i : ℕ) (k : Then) (s : MqttClientService) (h : (s.Disconnect i k).1.IsConnecting = true) :
    s.IsConnecting = true ∨ (s.Disconnect i k).2 = .connecting := by
  rcases Disconnect_cases i k s with ⟨-, hd⟩ | hd
  · rw [hd] at h ⊢
    exact busy_goOn i k s h
  · rw [hd] at h
    exact Or.inl h

theorem busy_start (i : ℕ) (op : Op) (s : MqttClientService) (h : (s.start i op).1.IsConnecting = true) :
    s.IsConnecting = true ∨ (s.start i op).2 = .connecting := by
  cases op with
  | Connect => exact busy_Connect i s h
  | ReConnect host port => exact busy_Disconnect i _ s h
  | Disconnect => exact busy_Disconnect i _ s h
  | Reconnect host port =>
    revert h
    rw [start]
    split
    · exact Or.inl
    · exact busy_Disconnect i _ s
    · exact busy_goOn i _ s

theorem BusyInv.of_set (h : BusyInv s) {i : ℕ} {old new : Pc} (hi : s.tasks[i]? = some old)
    (hold : old ≠ .connecting ∧ old ≠ .connectedCallback ∧ old ≠ .finishing) {t : MqttClientService}
    (ht : t.IsConnecting = true → s.IsConnecting = true ∨ new = .connecting) :
    BusyInv { t with tasks := s.tasks.set i new } := by
  intro hb
  rcases ht hb with hs | hnew
  · obtain ⟨pc, hmem, hpc⟩ := h hs
    refine ⟨pc, mem_set_of_ne _ hmem hi ?_, hpc⟩
    rintro rfl
    rcases hpc with rfl | rfl | rfl
    · exact hold.1 rfl
    · exact hold.2.1 rfl
    · exact hold.2.2 rfl
  · exact ⟨new, mem_set_self _ hi, Or.inl hnew⟩

theorem busyInv_step (h : BusyInv s) {a : ServiceAction} (hs : step s a = some s') : BusyInv s' := by
  cases a with
  | call op =>
    rw [step_call.mp hs]
    intro hb
    rcases busy_start s.tasks.length op s hb with h' | h'
    · obtain ⟨pc, hmem, hpc⟩ := h h'
      exact ⟨pc, List.mem_append_left _ hmem, hpc⟩
    · exact ⟨_, List.mem_append_right _ (List.mem_singleton.mpr h'.symm), Or.inl rfl⟩
  | disconnectDone i =>
    obtain ⟨k, hk, rfl⟩ := step_disconnectDone.mp hs
    exact h.of_set hk (by simp) Or.inl
  | resume i =>
    obtain ⟨k, hk, rfl⟩ := step_resume.mp hs
    have htasks : (goOn i k s).1.tasks = s.tasks := by
      rcases kept_goOn i k s with h' | ⟨-, h'⟩
      · exact h'.tasks
      · exact h'.tasks
    rw [setTask, htasks]
    exact h.of_set hk (by simp) (busy_goOn i k s)
  | connectResult i ok =>
    obtain ⟨hi, ⟨-, -, rfl⟩ | ⟨-, -, rfl⟩ | ⟨-, rfl⟩⟩ := step_connectResult.mp hs
    · exact fun _ => ⟨_, mem_set_self _ hi, Or.inr (Or.inl rfl)⟩
    · exact fun _ => ⟨_, mem_set_self _ hi, Or.inr (Or.inr rfl)⟩
    · exact fun _ => ⟨_, mem_set_self _ hi, Or.inr (Or.inr rfl)⟩
  | connectedCallback i =>
    obtain ⟨-, rfl⟩ := step_connectedCallback.mp hs
    exact fun hb => absurd hb Bool.false_ne_true
  | connectFinally i =>
    obtain ⟨-, rfl⟩ := step_connectFinally.mp hs
    exact fun hb => absurd hb Bool.false_ne_true
  | drop =>
    obtain ⟨-, rfl⟩ := step_drop.mp hs
    exact h
  | disconnectedCallback =>
    obtain ⟨-, rfl⟩ := step_disconnectedCallback.mp hs
    exact fun hb => absurd hb Bool.false_ne_true

end Invariants

/-! ## Runs -/

/-- The guard of the reconnect loop. -/
def reconnectGuard (s : MqttClientService) : Bool := !s.IsConnected && !s.IsConnecting

/-- The flags agree with the connection, and the gate and the reconnect loop act on it as it is. -/
structure Agrees (s : MqttClientService) : Prop where
  IsConnected : s.IsConnected = s.connected
  IsConnecting : s.IsConnecting = false
  gate : ∀ rs : Readings, (∀ n, rs.IsConnected n = s.IsConnected) → ∀ timeout,
    EnsureConnectedAsync rs timeout = s.connected
  loop : s.reconnectGuard = !s.connected

theorem flagInv_new (h : Option Str) (p : Int32) : FlagInv (new h p) := by
  unfold new
  split_ifs
  · exact ⟨Or.inl rfl, fun h => nomatch h⟩
  · exact ⟨Or.inl rfl, fun h => nomatch h⟩

theorem busyInv_new (h : Option Str) (p : Int32) : BusyInv (new h p) := fun hb => nomatch hb

theorem not_connecting_of_quiescent {h : Option Str} {p : Int32} {as : List ServiceAction} {s : MqttClientService}
    (hrun : Run.exec step (new h p) as = some s) (hq : s.Quiescent) : s.IsConnecting = false := by
  have hinv : BusyInv s := Run.invariant (fun _ _ _ h hs => busyInv_step h hs) (busyInv_new h p) hrun
  by_contra hb
  obtain ⟨pc, hmem, hpc⟩ := hinv (Bool.eq_true_of_not_eq_false hb)
  rcases hq.1 pc hmem with rfl | rfl <;> simp at hpc

theorem FlagInv.agree {s : MqttClientService} (h : FlagInv s) (hq : s.Quiescent) : s.IsConnected = s.connected := by
  rcases h.flag with hf | ⟨-, ho⟩ | ⟨-, hb | hd⟩
  · exact hf
  · rcases hq.1 _ ho with h | h <;> cases h
  · exact absurd hq.2 (Nat.pos_iff_ne_zero.mp hb)
  · obtain ⟨k, hmem⟩ := h.disconnecting hd
    rcases hq.1 _ hmem with h | h <;> cases h

theorem gate_eq {b : Bool} {rs : Readings} (h : ∀ n, rs.IsConnected n = b) (timeout : ℕ) :
    EnsureConnectedAsync rs timeout = b := by
  cases b with
  | true => exact if_pos (h 0)
  | false => exact EnsureConnectedAsync_shut h timeout

/-- **In the runs of timely steps the flags agree with the connection once all is done.** -/
theorem flags_agree {h : Option Str} {p : Int32} {as : List ServiceAction} {s : MqttClientService}
    (hrun : Run.exec step (new h p) as = some s) (htimely : Run.Meets step Timely (new h p) as) (hq : s.Quiescent) :
    s.Agrees := by
  have hinv : FlagInv s :=
    Run.invariant_of_meets (fun _ _ _ h ht hs => flagInv_step h ht hs) (flagInv_new h p) htimely hrun
  have hflag := hinv.agree hq
  have hconnecting := not_connecting_of_quiescent hrun hq
  refine ⟨hflag, hconnecting, fun rs hrs timeout => ?_, ?_⟩
  · exact (gate_eq hrs timeout).trans hflag
  · rw [reconnectGuard, hconnecting, hflag, Bool.not_false, Bool.and_true]

/-- A run whose steps are timely. -/
def establishRun : List ServiceAction := [.call .Connect, .connectResult 0 true, .connectedCallback 0, .connectFinally 0]

theorem establish_timely : Run.Meets step Timely (new (some "broker".toList) 1883) establishRun := by
  refine Run.Meets.cons (a := ServiceAction.call .Connect) rfl trivial ?_
  refine Run.Meets.cons (a := ServiceAction.connectResult 0 true) rfl trivial ?_
  refine Run.Meets.cons (a := ServiceAction.connectedCallback 0) rfl (Or.inl rfl) ?_
  exact Run.Meets.cons (a := ServiceAction.connectFinally 0) rfl trivial trivial

theorem flags_agree_establish : ∃ s, Run.exec step (new (some "broker".toList) 1883) establishRun = some s ∧
    s.Agrees :=
  ⟨_, rfl, flags_agree rfl establish_timely (by decide)⟩

/-- A `ReConnect` on a live connection; the callback of the old connection's end runs last. -/
def staleRun : List ServiceAction :=
  [.call .Connect, .connectResult 0 true, .connectedCallback 0, .connectFinally 0,
    .call (.ReConnect (some "other".toList) 1883), .disconnectDone 1, .resume 1, .connectResult 1 true,
    .connectedCallback 1, .connectFinally 1, .disconnectedCallback]

/-- After it the client is connected, nothing is under way, and the flag is clear. -/
theorem stale_callback_clears_flag : ∃ s, Run.exec step (new (some "broker".toList) 1883) staleRun = some s ∧
    s.Quiescent ∧ s.connected = true ∧ ¬ s.Agrees :=
  ⟨_, rfl, by decide, rfl, fun h => nomatch h.IsConnected⟩

/-- **A step that is not timely leaves the flag wrong, and no callback to come sets it right.** -/
theorem untimely_step {s s' : MqttClientService} {a : ServiceAction} (ht : ¬ s.Timely a) (hs : step s a = some s') :
    s'.IsConnected ≠ s'.connected ∧ ¬ s'.Opening ∧ ¬ s'.Closing := by
  cases a with
  | connectedCallback i =>
    obtain ⟨hi, rfl⟩ := step_connectedCallback.mp hs
    obtain ⟨hc, hclosing⟩ := not_or.mp ht
    exact ⟨fun h => hc h.symm, fun h => hc h.1, hclosing⟩
  | disconnectedCallback =>
    obtain ⟨-, rfl⟩ := step_disconnectedCallback.mp hs
    obtain ⟨hc, hopening⟩ := not_or.mp ht
    exact ⟨fun h => hc h.symm, hopening, fun h => hc h.1⟩
  | resume i =>
    obtain ⟨k, hk, rfl⟩ := step_resume.mp hs
    obtain ⟨h, p, hk', hne⟩ : ∃ h p, s.tasks[i]? = some (.disconnected (.reconnect h p)) ∧
        ¬ (s.connected = false ∨ s.Opening) := by
      simpa only [Timely, not_forall, exists_prop] using ht
    cases hk.symm.trans hk'
    obtain ⟨hc, hopening⟩ := not_or.mp hne
    have hconn : s.mqttClient = some .connected := of_decide_eq_true (Bool.eq_true_of_not_eq_false hc)
    have hgo : goOn i (.reconnect h p) s = (s.clearFlags.setEndpoint h p, .completed) := by
      simp [goOn, Connect, setEndpoint, clearFlags, hconn]
    rw [hgo]
    refine ⟨fun h => hc h.symm, fun h => hopening ⟨h.1, ?_⟩, fun h => hc h.1⟩
    exact (List.mem_or_eq_of_mem_set h.2).resolve_right (by simp)
  | call op => exact absurd trivial ht
  | disconnectDone i => exact absurd trivial ht
  | connectResult i ok => exact absurd trivial ht
  | connectFinally i => exact absurd trivial ht
  | drop => exact absurd trivial ht

end MqttClientService

end MqttServices
