import MqttServices.Client.Machine

/-!
# The broker a connection leads to

* `endpoint`: the host and port of the last `ConnectAsync` that set out.
* `Connect_endpoint`: a connect sets out only from a disconnected client, so a connection is that of the last one.
* `Bound`: the steps that set a target only while no connection to another one exists or is under way.
* **`ends_at_target`**: in the runs of bound steps a connection is one to the present host and port.
* `unbound_step`: any other step leaves the client at, or on its way to, another broker.
-/

namespace MqttServices

/-- The target that is set after the await of `Disconnect`. -/
def Then.target : Then → Option (Option Str × Int32)
  | .nothing => none
  | .reConnect brokerHost brokerPort | .reconnect brokerHost brokerPort => some (brokerHost, brokerPort)

namespace MqttClientService

/-- The host and port in the settings. -/
def target (s : MqttClientService) : Option Str × Int32 := (s.BrokerHost, s.BrokerPort)

/-- The host and port of the last connect that set out. -/
def endpoint (s : MqttClientService) : Option (Option Str × Int32) := s.attempts.getLast?

/-- The client is connected, or a connect is under way. -/
def live (s : MqttClientService) : Bool :=
  match s.mqttClient with
  | some .connected | some (.connecting _) => true
  | _ => false

/-- No call is under way. -/
def Settled (s : MqttClientService) : Prop := ∀ pc ∈ s.tasks, pc = .completed ∨ pc = .threw

instance : DecidablePred Settled := fun s => List.decidableBAll _ s.tasks

/-- A connection that exists once every call has ended is one to the host and port in the settings. -/
def EndsAtTarget (s : MqttClientService) : Prop :=
  s.Settled → s.connected = true → s.endpoint = some s.target

/-- A step that sets a target finds no connection, made or under way, to another one. -/
def Bound (s : MqttClientService) : ServiceAction → Prop
  | .call (.Reconnect host port) => s.connected = false → s.live = true → s.endpoint = some (host, port)
  | .resume i => ∀ k e, s.tasks[i]? = some (.disconnected k) → k.target = some e → s.live = true → s.endpoint = some e
  | _ => True

/-- The connection, made or under way, is one to the host and port in the settings. -/
def BoundInv (s : MqttClientService) : Prop := s.live = true → s.endpoint = some s.target

section Steps

variable {s t s' : MqttClientService} {i : ℕ}

/-! ## Connects set out from a disconnected client -/

theorem Connect_endpoint (i : ℕ) (s : MqttClientService) :
    (s.Connect i).1.target = s.target ∧
      ((s.Connect i).1.mqttClient = s.mqttClient ∧ (s.Connect i).1.attempts = s.attempts ∨
        s.mqttClient = some .disconnected ∧ (s.Connect i).1.endpoint = some s.target) := by
  unfold Connect
  split
  · exact ⟨rfl, Or.inl ⟨rfl, rfl⟩⟩
  · rename_i status hstatus
    split_ifs with h₁ h₂
    · obtain ⟨-, rfl⟩ := h₂
      exact ⟨rfl, Or.inr ⟨hstatus, List.getLast?_concat⟩⟩
    · exact ⟨rfl, Or.inl ⟨rfl, rfl⟩⟩
    · exact ⟨rfl, Or.inl ⟨rfl, rfl⟩⟩

theorem live_congr (h : t.mqttClient = s.mqttClient) : t.live = s.live := by
  rw [live, live, h]

/-- `Connect` with the target `e` in the settings: whatever it was on, it is on the way to `e` after. -/
theorem Connect_bound {e : Option Str × Int32} (i : ℕ) (ht : s.target = e) (h : s.live = true → s.endpoint = some e) :
    BoundInv (s.Connect i).1 := by
  obtain ⟨htarget, ⟨hclient, hattempts⟩ | ⟨-, hend⟩⟩ := Connect_endpoint i s
  · intro hlive
    rw [endpoint, hattempts, htarget, ht]
    exact h (live_congr hclient ▸ hlive)
  · intro _
    rw [hend, htarget]

theorem goOn_bound (h : BoundInv s) {k : Then} (hk : ∀ e, k.target = some e → s.live = true → s.endpoint = some e) :
    BoundInv (goOn i k s).1 := by
  cases k with
  | nothing => exact h
  | reConnect host port => exact Connect_bound (s := s.setEndpoint host port) i rfl (hk _ rfl)
  | reconnect host port => exact Connect_bound (s := s.clearFlags.setEndpoint host port) i rfl (hk _ rfl)

/-- `Disconnect` ends a connection, made or under way; where there is none the call goes on. -/
theorem Disconnect_bound (h : BoundInv s) (i : ℕ) (k : Then) : BoundInv (s.Disconnect i k).1 := by
  have hidle : s.live = false → BoundInv (goOn i k s).1 :=
    fun hl => goOn_bound h fun _ _ hlive => absurd hlive (Bool.eq_false_iff.mp hl)
  unfold Disconnect
  split
  · exact hidle (by simp only [live, *])
  · exact hidle (by simp only [live, *])
  · exact hidle (by simp only [live, *])
  · exact nofun
  · exact nofun

theorem start_bound (h : BoundInv s) {op : Op} (hb : s.Bound (.call op)) (i : ℕ) : BoundInv (s.start i op).1 := by
  cases op with
  | Connect => exact Connect_bound i rfl h
  | ReConnect host port => exact Disconnect_bound h i _
  | Disconnect => exact Disconnect_bound h i _
  | Reconnect host port =>
    rw [start]
    split
    · exact h
    · exact Disconnect_bound h i _
    · rename_i status hne hstatus
      have hc : s.connected = false := by
        simp only [connected, hstatus, decide_eq_false_iff_not]
        exact fun h => hne (Option.some_inj.mp h)
      refine goOn_bound h fun e he hlive => ?_
      cases he
      exact hb hc hlive

theorem boundInv_step (h : BoundInv s) {a : ServiceAction} (hb : s.Bound a) (hs : step s a = some s') : BoundInv s' := by
  cases a with
  | call op =>
    rw [step_call.mp hs]
    exact start_bound h hb s.tasks.length
  | disconnectDone i =>
    obtain ⟨k, -, rfl⟩ := step_disconnectDone.mp hs
    exact nofun
  | resume i =>
    obtain ⟨k, hk, rfl⟩ := step_resume.mp hs
    exact goOn_bound h fun e => hb k e hk
  | connectResult i ok =>
    obtain ⟨-, ⟨hown, -, rfl⟩ | ⟨-, -, rfl⟩ | ⟨-, rfl⟩⟩ := step_connectResult.mp hs
    · exact fun _ => h (by simp only [live, hown])
    · exact nofun
    · exact h
  | connectedCallback i =>
    obtain ⟨-, rfl⟩ := step_connectedCallback.mp hs
    exact h
  | connectFinally i =>
    obtain ⟨-, rfl⟩ := step_connectFinally.mp hs
    exact h
  | drop =>
    obtain ⟨-, rfl⟩ := step_drop.mp hs
    exact nofun
  | disconnectedCallback =>
    obtain ⟨-, rfl⟩ := step_disconnectedCallback.mp hs
    exact h

theorem boundInv_new (host : Option Str) (port : Int32) : BoundInv (new host port) := by
  unfold new
  split_ifs
  · exact nofun
  · exact nofun

theorem BoundInv.endsAtTarget (h : BoundInv s) : EndsAtTarget s := fun _ hc =>
  h (by simp only [live, of_decide_eq_true hc])

/-- **In the runs of bound steps a connection is one to the host and port in the settings.** -/
theorem ends_at_target {host : Option Str} {port : Int32} {as : List ServiceAction}
    (hrun : Run.exec step (new host port) as = some s) (hb : Run.Meets step Bound (new host port) as) :
    s.EndsAtTarget :=
  (Run.invariant_of_meets (fun _ _ _ h hb hs => boundInv_step h hb hs) (boundInv_new host port) hb hrun).endsAtTarget

/-! ## Steps that are not bound -/

/-- The connection, made or under way, is one to another broker. -/
def Astray (s : MqttClientService) : Prop := s.live = true ∧ s.endpoint ≠ some s.target

theorem Connect_live (i : ℕ) (h : s.live = true) :
    (s.Connect i).1.live = true ∧ (s.Connect i).1.endpoint = s.endpoint ∧ (s.Connect i).1.target = s.target := by
  obtain ⟨htarget, ⟨hclient, hattempts⟩ | ⟨hdis, -⟩⟩ := Connect_endpoint i s
  · exact ⟨(live_congr hclient).trans h, by rw [endpoint, hattempts, endpoint], htarget⟩
  · simp [live, hdis] at h

/-- A target set while a connection to another one is made or under way. -/
theorem goOn_astray {k : Then} {e : Option Str × Int32} (he : k.target = some e) (hl : s.live = true)
    (hne : s.endpoint ≠ some e) (i : ℕ) : Astray (goOn i k s).1 := by
  cases k with
  | nothing => cases he
  | reConnect host port =>
    cases he
    obtain ⟨hlive, hend, htarget⟩ := Connect_live (s := s.setEndpoint host port) i hl
    exact ⟨hlive, fun h => hne (hend.symm.trans (h.trans (congrArg some htarget)))⟩
  | reconnect host port =>
    cases he
    obtain ⟨hlive, hend, htarget⟩ := Connect_live (s := s.clearFlags.setEndpoint host port) i hl
    exact ⟨hlive, fun h => hne (hend.symm.trans (h.trans (congrArg some htarget)))⟩

/-- **A step that is not bound leaves the client at, or on its way to, another broker.** -/
theorem unbound_step {a : ServiceAction} (hb : ¬ s.Bound a) (hs : step s a = some s') : Astray s' := by
  cases a with
  | call op =>
    cases op with
    | Reconnect host port =>
      obtain ⟨hc, hl, hne⟩ : s.connected = false ∧ s.live = true ∧ s.endpoint ≠ some (host, port) := by
        simpa [Bound] using hb
      have hclient : s.mqttClient ≠ none := by
        intro hnone
        simp [live, hnone] at hl
      rw [step_call.mp hs, called, start_Reconnect hclient hc]
      exact goOn_astray (k := .reconnect host port) rfl hl hne s.tasks.length
    | Connect => exact absurd trivial hb
    | ReConnect host port => exact absurd trivial hb
    | Disconnect => exact absurd trivial hb
  | resume i =>
    obtain ⟨k, hk, rfl⟩ := step_resume.mp hs
    obtain ⟨k', e, hk', he, hl, hne⟩ : ∃ k' e, s.tasks[i]? = some (.disconnected k') ∧ k'.target = some e ∧
        s.live = true ∧ s.endpoint ≠ some e := by
      simpa [Bound] using hb
    cases hk.symm.trans hk'
    exact goOn_astray he hl hne i
  | disconnectDone i => exact absurd trivial hb
  | connectResult i ok => exact absurd trivial hb
  | connectedCallback i => exact absurd trivial hb
  | connectFinally i => exact absurd trivial hb
  | drop => exact absurd trivial hb
  | disconnectedCallback => exact absurd trivial hb

end Steps

/-! ## A connect in the gap -/

/-- `ReConnect` waits for its disconnect; before it goes on, the reconnect loop finds both flags clear, and its
`Connect` sets out for the old broker and succeeds. -/
def gapRun : List ServiceAction :=
  [.call .Connect, .connectResult 0 true, .connectedCallback 0, .connectFinally 0,
    .call (.ReConnect (some "other".toList) 1883), .disconnectDone 1, .disconnectedCallback, .call .Connect, .resume 1,
    .connectResult 2 true, .connectedCallback 2, .connectFinally 2]

/-- After it all calls have ended, and the client is connected to the old broker. -/
theorem reconnect_ends_at_old_broker : ∃ s, Run.exec step (new (some "broker".toList) 1883) gapRun = some s ∧
    s.target = (some "other".toList, 1883) ∧ s.endpoint = some (some "broker".toList, 1883) ∧ ¬ s.EndsAtTarget :=
  ⟨_, rfl, rfl, rfl, fun h => absurd (h (by decide) rfl) (by decide)⟩

/-- A `ReConnect` without such a gap. -/
def reConnectRun : List ServiceAction :=
  [.call .Connect, .connectResult 0 true, .connectedCallback 0, .connectFinally 0,
    .call (.ReConnect (some "other".toList) 1883), .disconnectDone 1, .resume 1, .connectResult 1 true,
    .connectedCallback 1, .connectFinally 1]

theorem ends_at_target_reConnect : ∃ s, Run.exec step (new (some "broker".toList) 1883) reConnectRun = some s ∧
    s.Settled ∧ s.connected = true ∧ s.EndsAtTarget := by
  refine ⟨_, rfl, by decide, rfl, @ends_at_target _ (some "broker".toList) 1883 reConnectRun rfl ?_⟩
  refine Run.Meets.cons (a := ServiceAction.call .Connect) rfl trivial ?_
  refine Run.Meets.cons (a := ServiceAction.connectResult 0 true) rfl trivial ?_
  refine Run.Meets.cons (a := ServiceAction.connectedCallback 0) rfl trivial ?_
  refine Run.Meets.cons (a := ServiceAction.connectFinally 0) rfl trivial ?_
  refine Run.Meets.cons (a := ServiceAction.call (.ReConnect (some "other".toList) 1883)) rfl trivial ?_
  refine Run.Meets.cons (a := ServiceAction.disconnectDone 1) rfl trivial ?_
  refine Run.Meets.cons (a := ServiceAction.resume 1) rfl (fun _ _ _ _ hl => nomatch hl) ?_
  refine Run.Meets.cons (a := ServiceAction.connectResult 1 true) rfl trivial ?_
  refine Run.Meets.cons (a := ServiceAction.connectedCallback 1) rfl trivial ?_
  exact Run.Meets.cons (a := ServiceAction.connectFinally 1) rfl trivial trivial

end MqttClientService

end MqttServices
