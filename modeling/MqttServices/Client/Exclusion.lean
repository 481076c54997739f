import Mathlib.Data.List.Count
import MqttServices.Client.Flags
import MqttServices.Client.Target

/-!
# One connect at a time

* `outstanding`: how many calls await a `ConnectAsync`.
* `Guarded`: the steps that clear `IsConnecting` only while no connect is outstanding.
* `LockInv`: at most one connect is outstanding, and none while `IsConnecting` is clear.
* **`connects_exclusive`**: in the runs of guarded steps the connects exclude one another.
* `unguarded_step`, `exposed_breaks`: after any other step a run leads to two connects, or to one that
  `IsConnecting` does not show.
-/

namespace MqttServices

/-- A call that awaits a `ConnectAsync`. -/
def Pc.awaitsConnect : Pc → Bool
  | .connecting | .connectedCallback => true
  | _ => false

namespace MqttClientService

/-- How many calls await a `ConnectAsync`. -/
def outstanding (s : MqttClientService) : ℕ := s.tasks.countP Pc.awaitsConnect

/-- At most one `ConnectAsync` is outstanding, and `IsConnecting` is set from its issue on until it completes or
the client is connected. -/
structure Exclusive (s : MqttClientService) : Prop where
  one : s.outstanding ≤ 1
  busy : Pc.connecting ∈ s.tasks → s.connected = false → s.IsConnecting = true

/-- A step that clears `IsConnecting`, other than on behalf of the connect under way, finds none under way. -/
def Guarded (s : MqttClientService) : ServiceAction → Prop
  | .disconnectedCallback => s.outstanding = 0
  | .connectFinally _ => s.outstanding = 0
  | .call (.Reconnect _ _) => s.connected = false → s.outstanding = 0
  | .resume i => ∀ h p, s.tasks[i]? = some (.disconnected (.reconnect h p)) → s.outstanding = 0
  | _ => True

/-- At most one connect is outstanding, and none while `IsConnecting` is clear. -/
def LockInv (s : MqttClientService) : Prop := s.outstanding ≤ s.IsConnecting.toNat

/-! ## The calls that await a connect -/

section Count

variable {l : List Pc} {i : ℕ} {old : Pc}

theorem countP_add (l : List Pc) (pc : Pc) :
    (l ++ [pc]).countP Pc.awaitsConnect = l.countP Pc.awaitsConnect + pc.awaitsConnect.toNat := by
  rw [List.countP_append, List.countP_singleton]
  cases pc.awaitsConnect <;> rfl

theorem countP_move (hi : l[i]? = some old) (new : Pc) :
    (l.set i new).countP Pc.awaitsConnect + old.awaitsConnect.toNat =
      l.countP Pc.awaitsConnect + new.awaitsConnect.toNat := by
  obtain ⟨hlt, rfl⟩ := List.getElem?_eq_some_iff.mp hi
  have hpos : l[i].awaitsConnect = true → 0 < l.countP Pc.awaitsConnect :=
    fun h => List.countP_pos_iff.mpr ⟨_, List.getElem_mem hlt, h⟩
  rw [List.countP_set hlt]
  cases h : l[i].awaitsConnect with
  | true =>
    have := hpos h
    cases new.awaitsConnect <;> simp <;> omega
  | false => cases new.awaitsConnect <;> simp

theorem outstanding_pos {s : MqttClientService} {pc : Pc} (hpc : pc ∈ s.tasks) (ha : pc.awaitsConnect = true) :
    0 < s.outstanding :=
  List.countP_pos_iff.mpr ⟨pc, hpc, ha⟩

end Count

/-! ## Guarded steps -/

section Steps

variable {s s' : MqttClientService} {i : ℕ}

/-- `Connect` issues a connect only while the flag is clear, and then sets it. -/
theorem Connect_locks (i : ℕ) (s : MqttClientService) :
    s.IsConnecting.toNat + (s.Connect i).2.awaitsConnect.toNat ≤ (s.Connect i).1.IsConnecting.toNat := by
  unfold Connect
  split
  · exact Nat.le_refl _
  · split_ifs with h₁ h₂
    · simp [h₁.2, Pc.awaitsConnect]
    · simp [h₁.2, Pc.awaitsConnect]
    · exact Nat.le_refl _

/-- After the await of `Disconnect` a call takes the lock as `Connect` does; `Reconnect` opens it first. -/
theorem goOn_locks (h : LockInv s) {k : Then} (hk : ∀ host port, k = .reconnect host port → s.outstanding = 0) :
    s.outstanding + (goOn i k s).2.awaitsConnect.toNat ≤ (goOn i k s).1.IsConnecting.toNat := by
  cases k with
  | nothing => exact h
  | reConnect host port => exact (Nat.add_le_add_right h _).trans (Connect_locks i (s.setEndpoint host port))
  | reconnect host port =>
    have hc := Connect_locks i (s.clearFlags.setEndpoint host port)
    rw [hk host port rfl]
    exact (Nat.add_le_add_right (Nat.zero_le _) _).trans hc

theorem Disconnect_locks (h : LockInv s) {k : Then}
    (hk : ∀ host port, k = .reconnect host port → s.connected = false → s.outstanding = 0) :
    s.outstanding + (s.Disconnect i k).2.awaitsConnect.toNat ≤ (s.Disconnect i k).1.IsConnecting.toNat := by
  rcases Disconnect_cases i k s with ⟨hc, hd⟩ | hd
  · rw [hd]
    exact goOn_locks h fun host port hr => hk host port hr hc
  · rw [hd]
    exact h

theorem start_locks (h : LockInv s) {op : Op} (hg : s.Guarded (.call op)) :
    s.outstanding + (s.start i op).2.awaitsConnect.toNat ≤ (s.start i op).1.IsConnecting.toNat := by
  cases op with
  | Connect => exact (Nat.add_le_add_right h _).trans (Connect_locks i s)
  | ReConnect host port => exact Disconnect_locks h nofun
  | Disconnect => exact Disconnect_locks h nofun
  | Reconnect host port =>
    rw [start]
    split
    · exact h
    · exact Disconnect_locks h fun _ _ _ => hg
    · rename_i status hne hstatus
      have hc : s.connected = false := by
        simp only [connected, hstatus, decide_eq_false_iff_not]
        exact fun h => hne (Option.some_inj.mp h)
      exact goOn_locks h fun _ _ _ => hg hc

theorem lockInv_set {old new : Pc} (hi : s.tasks[i]? = some old) {t : MqttClientService}
    (hle : s.outstanding + new.awaitsConnect.toNat ≤ t.IsConnecting.toNat + old.awaitsConnect.toNat) :
    LockInv { t with tasks := s.tasks.set i new } := by
  have hmove := countP_move hi new
  simp only [LockInv, outstanding] at *
  omega

theorem lockInv_step (h : LockInv s) {a : ServiceAction} (hg : s.Guarded a) (hs : step s a = some s') : LockInv s' := by
  cases a with
  | call op =>
    rw [step_call.mp hs]
    have hlocks := start_locks (i := s.tasks.length) h hg
    rwa [outstanding, ← countP_add] at hlocks
  | disconnectDone i =>
    obtain ⟨k, hk, rfl⟩ := step_disconnectDone.mp hs
    exact lockInv_set hk (t := s.closed) h
  | resume i =>
    obtain ⟨k, hk, rfl⟩ := step_resume.mp hs
    rw [setTask, goOn_tasks]
    refine lockInv_set hk (goOn_locks h fun host port hr => hg host port ?_)
    rw [hk, hr]
  | connectResult i ok =>
    obtain ⟨hi, ⟨-, -, rfl⟩ | ⟨-, -, rfl⟩ | ⟨-, rfl⟩⟩ := step_connectResult.mp hs
    · exact lockInv_set hi (t := { s with mqttClient := some .connected }) (Nat.add_le_add_right h _)
    · exact lockInv_set hi (t := s.closed) (Nat.le_succ_of_le h)
    · exact lockInv_set hi (t := s) (Nat.le_succ_of_le h)
  | connectedCallback i =>
    obtain ⟨hi, rfl⟩ := step_connectedCallback.mp hs
    -- the flag is cleared as the one connect that was outstanding completes
    exact lockInv_set hi (t := { s with IsConnected := true, IsConnecting := false }) (h.trans (Bool.toNat_le _))
  | connectFinally i =>
    obtain ⟨hi, rfl⟩ := step_connectFinally.mp hs
    exact lockInv_set hi (t := { s with IsConnecting := false }) (Nat.le_of_eq hg)
  | drop =>
    obtain ⟨-, rfl⟩ := step_drop.mp hs
    exact h
  | disconnectedCallback =>
    obtain ⟨-, rfl⟩ := step_disconnectedCallback.mp hs
    exact Nat.le_of_eq hg

theorem lockInv_new (host : Option Str) (port : Int32) : LockInv (new host port) := Nat.le_refl 0

theorem LockInv.exclusive (h : LockInv s) : Exclusive s where
  one := h.trans (Bool.toNat_le _)
  busy := fun hmem _ => by
    have hpos := (outstanding_pos hmem rfl).trans_le h
    by_contra hb
    rw [Bool.eq_false_of_not_eq_true hb] at hpos
    exact Nat.lt_irrefl 0 hpos

/-- **In the runs of guarded steps the connects exclude one another.** -/
theorem connects_exclusive {host : Option Str} {port : Int32} {as : List ServiceAction}
    (hrun : Run.exec step (new host port) as = some s) (hg : Run.Meets step Guarded (new host port) as) :
    s.Exclusive :=
  (Run.invariant_of_meets (fun _ _ _ h hg hs => lockInv_step h hg hs) (lockInv_new host port) hg hrun).exclusive

/-! ## What a connect under way looks like -/

/-- The calls the status of the client belongs to. -/
structure StatusInv (s : MqttClientService) : Prop where
  connecting : ∀ i : ℕ, s.mqttClient = some (.connecting i) → s.tasks[i]? = some .connecting
  disconnecting : s.mqttClient = some .disconnecting → ∃ (i : ℕ) (k : Then), s.tasks[i]? = some (.disconnecting k)

theorem Connect_status (i : ℕ) (s : MqttClientService) :
    (s.Connect i).1.mqttClient = s.mqttClient ∨
      (s.Connect i).1.mqttClient = some (.connecting i) ∧ (s.Connect i).2 = .connecting := by
  unfold Connect
  split
  · exact Or.inl rfl
  · split_ifs
    · exact Or.inr ⟨rfl, rfl⟩
    · exact Or.inl rfl
    · exact Or.inl rfl

theorem goOn_status (i : ℕ) (k : Then) (s : MqttClientService) :
    (goOn i k s).1.mqttClient = s.mqttClient ∨
      (goOn i k s).1.mqttClient = some (.connecting i) ∧ (goOn i k s).2 = .connecting := by
  cases k with
  | nothing => exact Or.inl rfl
  | reConnect host port => exact Connect_status i (s.setEndpoint host port)
  | reconnect host port => exact Connect_status i (s.clearFlags.setEndpoint host port)

theorem start_status (i : ℕ) (op : Op) (s : MqttClientService) :
    (s.start i op).1.mqttClient = s.mqttClient ∨
      (s.start i op).1.mqttClient = some (.connecting i) ∧ (s.start i op).2 = .connecting ∨
      ∃ k, (s.start i op).1.mqttClient = some .disconnecting ∧ (s.start i op).2 = .disconnecting k := by
  have hgo : ∀ k, (goOn i k s).1.mqttClient = s.mqttClient ∨
      (goOn i k s).1.mqttClient = some (.connecting i) ∧ (goOn i k s).2 = .connecting ∨
      ∃ k', (goOn i k s).1.mqttClient = some .disconnecting ∧ (goOn i k s).2 = .disconnecting k' :=
    fun k => (goOn_status i k s).imp_right Or.inl
  have hdis : ∀ k, (s.Disconnect i k).1.mqttClient = s.mqttClient ∨
      (s.Disconnect i k).1.mqttClient = some (.connecting i) ∧ (s.Disconnect i k).2 = .connecting ∨
      ∃ k', (s.Disconnect i k).1.mqttClient = some .disconnecting ∧ (s.Disconnect i k).2 = .disconnecting k' := by
    intro k
    rcases Disconnect_cases i k s with ⟨-, h⟩ | h
    · rw [h]
      exact hgo k
    · rw [h]
      exact Or.inr (Or.inr ⟨k, rfl, rfl⟩)
  cases op with
  | Connect => exact (Connect_status i s).imp_right Or.inl
  | ReConnect host port => exact hdis _
  | Disconnect => exact hdis _
  | Reconnect host port =>
    rw [start]
    split
    · exact Or.inl rfl
    · exact hdis _
    · exact hgo _

theorem StatusInv.of_same (h : StatusInv s) {t : MqttClientService} (hclient : t.mqttClient = s.mqttClient)
    (hconnecting : ∀ i : ℕ, s.tasks[i]? = some .connecting → t.tasks[i]? = some .connecting)
    (hdisconnecting : ∀ (i : ℕ) (k : Then), s.tasks[i]? = some (.disconnecting k) → t.tasks[i]? = some (.disconnecting k)) :
    StatusInv t where
  connecting := fun i hi => hconnecting i (h.connecting i (hclient.symm.trans hi))
  disconnecting := fun hd => by
    obtain ⟨i, k, hk⟩ := h.disconnecting (hclient.symm.trans hd)
    exact ⟨i, k, hdisconnecting i k hk⟩

theorem getElem?_set_of_ne {l : List Pc} {i j : ℕ} {pc old : Pc} (new : Pc) (hj : l[j]? = some pc)
    (hi : l[i]? = some old) (hne : old ≠ pc) : (l.set i new)[j]? = some pc := by
  have hij : i ≠ j := fun h => hne (Option.some_inj.mp (by rw [← hi, h, hj]))
  rw [List.getElem?_set_ne hij, hj]

theorem StatusInv.of_set (h : StatusInv s) {old : Pc} (hi : s.tasks[i]? = some old) (new : Pc) {t : MqttClientService}
    (hclient : t.mqttClient = s.mqttClient) (hold : old ≠ .connecting ∧ ∀ k, old ≠ .disconnecting k) :
    StatusInv { t with tasks := s.tasks.set i new } :=
  h.of_same hclient (fun _ hj => getElem?_set_of_ne new hj hi hold.1)
    fun _ k hj => getElem?_set_of_ne new hj hi (hold.2 k)

theorem statusInv_settled {t : MqttClientService}
    (h : t.mqttClient = none ∨ t.mqttClient = some .disconnected ∨ t.mqttClient = some .connected) : StatusInv t := by
  constructor
  · intro i hi
    rw [hi] at h
    simp at h
  · intro hd
    rw [hd] at h
    simp at h

theorem statusInv_step (h : StatusInv s) {a : ServiceAction} (hs : step s a = some s') : StatusInv s' := by
  cases a with
  | call op =>
    rw [step_call.mp hs]
    have hkeep : ∀ (i : ℕ) (pc new : Pc), s.tasks[i]? = some pc → (s.tasks ++ [new])[i]? = some pc :=
      fun i pc new hi => by rw [List.getElem?_append_left (List.getElem?_eq_some_iff.mp hi).1, hi]
    rcases start_status s.tasks.length op s with hc | ⟨hc, hpc⟩ | ⟨k, hc, hpc⟩
    · exact h.of_same hc (fun i hi => hkeep i _ _ hi) fun i k hi => hkeep i _ _ hi
    · refine ⟨fun i hi => ?_, fun hd => absurd (hc.symm.trans hd) (by simp)⟩
      cases hc.symm.trans hi
      rw [called, hpc, List.getElem?_concat_length]
    · refine ⟨fun i hi => absurd (hc.symm.trans hi) (by simp), fun _ => ⟨s.tasks.length, k, ?_⟩⟩
      rw [called, hpc, List.getElem?_concat_length]
  | disconnectDone i =>
    obtain ⟨k, -, rfl⟩ := step_disconnectDone.mp hs
    exact statusInv_settled (Or.inr (Or.inl rfl))
  | resume i =>
    obtain ⟨k, hk, rfl⟩ := step_resume.mp hs
    rw [setTask, goOn_tasks]
    rcases goOn_status i k s with hc | ⟨hc, hpc⟩
    · exact h.of_set hk _ hc (by simp)
    · refine ⟨fun j hj => ?_, fun hd => absurd (hc.symm.trans hd) (by simp)⟩
      cases hc.symm.trans hj
      rw [hpc, List.getElem?_set_self (List.getElem?_eq_some_iff.mp hk).1]
  | connectResult i ok =>
    obtain ⟨hi, ⟨-, -, rfl⟩ | ⟨-, -, rfl⟩ | ⟨hown, rfl⟩⟩ := step_connectResult.mp hs
    · exact statusInv_settled (Or.inr (Or.inr rfl))
    · exact statusInv_settled (Or.inr (Or.inl rfl))
    · refine ⟨fun j hj => ?_, fun hd => ?_⟩
      · have hij : i ≠ j := fun h => hown (h ▸ hj)
        exact (List.getElem?_set_ne hij).trans (h.connecting j hj)
      · obtain ⟨j, k, hj⟩ := h.disconnecting hd
        exact ⟨j, k, getElem?_set_of_ne _ hj hi (by simp)⟩
  | connectedCallback i =>
    obtain ⟨hi, rfl⟩ := step_connectedCallback.mp hs
    exact h.of_set hi _ (t := { s with IsConnected := true, IsConnecting := false }) rfl (by simp)
  | connectFinally i =>
    obtain ⟨hi, rfl⟩ := step_connectFinally.mp hs
    exact h.of_set hi _ (t := { s with IsConnecting := false }) rfl (by simp)
  | drop =>
    obtain ⟨-, rfl⟩ := step_drop.mp hs
    exact statusInv_settled (Or.inr (Or.inl rfl))
  | disconnectedCallback =>
    obtain ⟨-, rfl⟩ := step_disconnectedCallback.mp hs
    exact h.of_same rfl (fun _ => id) fun _ _ => id

theorem statusInv_new (host : Option Str) (port : Int32) : StatusInv (new host port) := by
  unfold new
  split_ifs
  · exact statusInv_settled (Or.inl rfl)
  · exact statusInv_settled (Or.inr (Or.inl rfl))

/-! ## Steps that are not guarded -/

/-- A connect is outstanding that `IsConnecting` does not show. -/
def Exposed (s : MqttClientService) : Prop := s.IsConnecting = false ∧ 0 < s.outstanding

theorem Connect_open (i : ℕ) (h : s.IsConnecting = false) :
    (s.Connect i).1.IsConnecting = false ∨ (s.Connect i).2 = .connecting := by
  cases hb : (s.Connect i).1.IsConnecting with
  | false => exact Or.inl rfl
  | true =>
    rcases busy_Connect i s hb with h' | h'
    · cases h.symm.trans h'
    · exact Or.inr h'

theorem exposed_of_reset (ho : s.outstanding ≠ 0) {host : Option Str} {port : Int32} {t : MqttClientService}
    (hflag : t.IsConnecting = (goOn i (.reconnect host port) s).1.IsConnecting)
    (hcount : t.outstanding = s.outstanding + (goOn i (.reconnect host port) s).2.awaitsConnect.toNat) :
    t.Exposed ∨ 1 < t.outstanding := by
  have hpos : 0 < s.outstanding := Nat.pos_of_ne_zero ho
  rcases Connect_open (s := s.clearFlags.setEndpoint host port) i rfl with h | h
  · exact Or.inl ⟨hflag.trans h, hcount.symm ▸ Nat.add_pos_left hpos _⟩
  · refine Or.inr ?_
    rw [hcount, goOn, h]
    exact Nat.succ_lt_succ hpos

/-- **A step that is not guarded exposes a connect, or leads to two.** -/
theorem unguarded_step (hclient : s.mqttClient ≠ none) {a : ServiceAction} (hg : ¬ s.Guarded a)
    (hs : step s a = some s') : s'.Exposed ∨ 1 < s'.outstanding := by
  cases a with
  | call op =>
    cases op with
    | Reconnect host port =>
      obtain ⟨hc, ho⟩ : s.connected = false ∧ ¬ s.outstanding = 0 := Classical.not_imp.mp hg
      rw [step_call.mp hs, called, start_Reconnect hclient hc]
      exact exposed_of_reset ho rfl (countP_add s.tasks _)
    | Connect => exact absurd trivial hg
    | ReConnect host port => exact absurd trivial hg
    | Disconnect => exact absurd trivial hg
  | resume i =>
    obtain ⟨k, hk, rfl⟩ := step_resume.mp hs
    simp only [Guarded, not_forall, exists_prop] at hg
    obtain ⟨host, port, hk', ho⟩ := hg
    cases hk.symm.trans hk'
    rw [setTask, goOn_tasks]
    exact exposed_of_reset ho rfl (countP_move hk (goOn i (.reconnect host port) s).2)
  | connectFinally i =>
    obtain ⟨hi, rfl⟩ := step_connectFinally.mp hs
    have hmove := countP_move hi .completed
    exact Or.inl ⟨rfl, (Nat.pos_of_ne_zero hg).trans_eq hmove.symm⟩
  | disconnectedCallback =>
    obtain ⟨-, rfl⟩ := step_disconnectedCallback.mp hs
    exact Or.inl ⟨rfl, Nat.pos_of_ne_zero hg⟩
  | disconnectDone i => exact absurd trivial hg
  | connectResult i ok => exact absurd trivial hg
  | connectedCallback i => exact absurd trivial hg
  | drop => exact absurd trivial hg

theorem ReConnect_issues (i : ℕ) (host : Option Str) (port : Int32) (hc : s.mqttClient = some .disconnected)
    (hb : s.IsConnecting = false) (hvalid : validEndpoint host port = true) :
    (s.start i (.ReConnect host port)).2 = .connecting := by
  simp [start, Disconnect, goOn, Connect, setEndpoint, hc, hb, hvalid]

/-- Once it is disconnected, a client with an exposed connect takes a second one. -/
theorem exposed_reissue (h : s.Exposed) (hc : s.mqttClient = some .disconnected) :
    ∃ s', Run.Reachable step s s' ∧ ¬ s'.Exclusive := by
  have hissue := ReConnect_issues s.tasks.length (some "broker".toList) 1883 hc h.1 (by decide)
  refine ⟨s.called (.ReConnect (some "broker".toList) 1883), (Run.Reachable.refl s).tail (step_call.mpr rfl), ?_⟩
  intro hex
  have htwo := hex.one
  rw [outstanding, called, hissue, countP_add] at htwo
  exact absurd htwo (Nat.not_le.mpr (Nat.succ_lt_succ h.2))

/-- **From an exposed connect a run leads to a breach.** -/
theorem exposed_breaks (hinv : StatusInv s) (hclient : s.mqttClient ≠ none) (h : s.Exposed) :
    ∃ s', Run.Reachable step s s' ∧ ¬ s'.Exclusive := by
  obtain ⟨status, hstatus⟩ := Option.ne_none_iff_exists'.mp hclient
  cases status with
  | disconnected => exact exposed_reissue h hstatus
  | connecting i =>
    refine ⟨s, Run.Reachable.refl s, fun hex => ?_⟩
    have hbusy := hex.busy (List.mem_of_getElem? (hinv.connecting i hstatus)) (by simp [connected, hstatus])
    cases h.1.symm.trans hbusy
  | connected =>
    obtain ⟨s', hs', hbreak⟩ := exposed_reissue (s := s.closed) h rfl
    exact ⟨s', (Run.Reachable.refl s).tail (step_drop.mpr ⟨hstatus, rfl⟩) |>.trans hs', hbreak⟩
  | disconnecting =>
    obtain ⟨i, k, hk⟩ := hinv.disconnecting hstatus
    have hmove := countP_move hk (.disconnected k)
    obtain ⟨s', hs', hbreak⟩ := exposed_reissue (s := s.closed.setTask i (.disconnected k))
      ⟨h.1, h.2.trans_eq hmove.symm⟩ rfl
    exact ⟨s', (Run.Reachable.refl s).tail (step_disconnectDone.mpr ⟨k, hk, rfl⟩) |>.trans hs', hbreak⟩

/-- **After a step that is not guarded some run leads to a breach.** -/
theorem unguarded_breaks {host : Option Str} {port : Int32} {as : List ServiceAction} {a : ServiceAction}
    (hrun : Run.exec step (new host port) as = some s) (hclient : s.mqttClient ≠ none) (hg : ¬ s.Guarded a)
    (hs : step s a = some s') : ∃ t, Run.Reachable step s' t ∧ ¬ t.Exclusive := by
  have hinv : StatusInv s := Run.invariant (fun _ _ _ h hs => statusInv_step h hs) (statusInv_new host port) hrun
  rcases unguarded_step hclient hg hs with h | h
  · exact exposed_breaks (statusInv_step hinv hs) (client_step hclient hs) h
  · exact ⟨s', Run.Reachable.refl s', fun hex => absurd hex.one (Nat.not_le.mpr h)⟩

end Steps

/-! ## A callback during a later connect -/

/-- A connection is lost and `Connect` is called again before the callback of the loss runs. -/
def lateRun : List ServiceAction :=
  [.call .Connect, .connectResult 0 true, .connectedCallback 0, .connectFinally 0, .drop, .call .Connect,
    .disconnectedCallback]

/-- The callback clears `IsConnecting` under the connect that is outstanding. -/
theorem late_callback_unlocks : ∃ s, Run.exec step (new (some "broker".toList) 1883) lateRun = some s ∧
    ¬ s.Exclusive :=
  ⟨_, rfl, fun h => nomatch h.busy (by decide) rfl⟩

theorem connects_exclusive_establish : ∃ s, Run.exec step (new (some "broker".toList) 1883) establishRun = some s ∧
    s.Exclusive := by
  refine ⟨_, rfl, @connects_exclusive _ (some "broker".toList) 1883 establishRun rfl ?_⟩
  refine Run.Meets.cons (a := ServiceAction.call .Connect) rfl trivial ?_
  refine Run.Meets.cons (a := ServiceAction.connectResult 0 true) rfl trivial ?_
  refine Run.Meets.cons (a := ServiceAction.connectedCallback 0) rfl trivial ?_
  exact Run.Meets.cons (a := ServiceAction.connectFinally 0) rfl rfl trivial

end MqttClientService

end MqttServices
