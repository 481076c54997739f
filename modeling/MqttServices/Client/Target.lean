import MqttServices.Client.Machine

/-!
# The broker a service connects to

* `Aims`: a state with the host and port of another, and further attempts for these only.
* `KeepsTarget`: every step but the ones in which `ReConnect` or `Reconnect` sets its target.
* **`aims_run`**: until the next target is set, every attempt is for the present one.
* **`client_iff`**: in every run there is an MQTT client just when the initial host was set.
-/

namespace MqttServices

namespace MqttClientService

/-- `t` has the host and port of `s`, and every attempt made since is for these. -/
structure Aims (s t : MqttClientService) : Prop where
  BrokerHost : t.BrokerHost = s.BrokerHost
  BrokerPort : t.BrokerPort = s.BrokerPort
  attempts : ∃ l, t.attempts = s.attempts ++ l ∧ ∀ e ∈ l, e = (s.BrokerHost, s.BrokerPort)

theorem Aims.of_eq {s t : MqttClientService} (hh : t.BrokerHost = s.BrokerHost) (hp : t.BrokerPort = s.BrokerPort)
    (ha : t.attempts = s.attempts) : Aims s t :=
  ⟨hh, hp, [], by rw [ha, List.append_nil], fun _ h => absurd h List.not_mem_nil⟩

theorem Aims.refl (s : MqttClientService) : Aims s s := .of_eq rfl rfl rfl

theorem Aims.trans {s t u : MqttClientService} (h₁ : Aims s t) (h₂ : Aims t u) : Aims s u := by
  obtain ⟨hh₁, hp₁, l₁, hl₁, he₁⟩ := h₁
  obtain ⟨hh₂, hp₂, l₂, hl₂, he₂⟩ := h₂
  refine ⟨hh₂.trans hh₁, hp₂.trans hp₁, l₁ ++ l₂, by rw [hl₂, hl₁, List.append_assoc], fun e he => ?_⟩
  rcases List.mem_append.mp he with he | he
  · exact he₁ e he
  · rw [he₂ e he, hh₁, hp₁]

theorem aims_Connect (i : ℕ) (s : MqttClientService) : Aims s (s.Connect i).1 := by
  unfold Connect
  split
  · exact Aims.refl s
  · split_ifs
    · exact ⟨rfl, rfl, [(s.BrokerHost, s.BrokerPort)], rfl, fun e he => List.mem_singleton.mp he⟩
    · exact .of_eq rfl rfl rfl
    · exact Aims.refl s

/-- Every step but the ones that set a target. -/
def KeepsTarget (s : MqttClientService) : ServiceAction → Prop
  | .call (.ReConnect _ _) | .call (.Reconnect _ _) => False
  | .resume i => ∀ k, s.tasks[i]? = some (.disconnected k) → k = .nothing
  | _ => True

section Steps

variable {s s' : MqttClientService}

theorem aims_step {a : ServiceAction} (hk : s.KeepsTarget a) (hs : step s a = some s') : Aims s s' := by
  cases a with
  | call op =>
    rw [step_call.mp hs]
    cases op with
    | Connect =>
      obtain ⟨hh, hp, ha⟩ := aims_Connect s.tasks.length s
      exact ⟨hh, hp, ha⟩
    | ReConnect h p => exact hk.elim
    | Reconnect h p => exact hk.elim
    | Disconnect =>
      rcases Disconnect_cases s.tasks.length .nothing s with ⟨-, h⟩ | h
      · rw [called, start, h]
        exact .of_eq rfl rfl rfl
      · rw [called, start, h]
        exact .of_eq rfl rfl rfl
  | disconnectDone i =>
    obtain ⟨k, -, rfl⟩ := step_disconnectDone.mp hs
    exact .of_eq rfl rfl rfl
  | resume i =>
    obtain ⟨k, hi, rfl⟩ := step_resume.mp hs
    cases hk k hi
    exact .of_eq rfl rfl rfl
  | connectResult i ok =>
    obtain ⟨-, ⟨-, -, rfl⟩ | ⟨-, -, rfl⟩ | ⟨-, rfl⟩⟩ := step_connectResult.mp hs <;> exact .of_eq rfl rfl rfl
  | connectedCallback i =>
    obtain ⟨-, rfl⟩ := step_connectedCallback.mp hs
    exact .of_eq rfl rfl rfl
  | connectFinally i =>
    obtain ⟨-, rfl⟩ := step_connectFinally.mp hs
    exact .of_eq rfl rfl rfl
  | drop =>
    obtain ⟨-, rfl⟩ := step_drop.mp hs
    exact .of_eq rfl rfl rfl
  | disconnectedCallback =>
    obtain ⟨-, rfl⟩ := step_disconnectedCallback.mp hs
    exact .of_eq rfl rfl rfl

/-- **Until the next target is set, every attempt is for the present one.** -/
theorem aims_run {as : List ServiceAction} (hk : Run.Meets step KeepsTarget s as) (hrun : Run.exec step s as = some s') :
    Aims s s' :=
  Run.invariant_of_meets (I := Aims s) (fun _ _ _ h hk hs => h.trans (aims_step hk hs)) (Aims.refl s) hk hrun

/-! ## The MQTT client -/

/-- Without an MQTT client every call ends at once. -/
def NoClient (s : MqttClientService) : Prop := s.mqttClient = none ∧ s.Quiescent

theorem Connect_none (i : ℕ) (h : s.mqttClient = none) : s.Connect i = (s, .threw) := by
  simp only [Connect, h]

theorem start_none (i : ℕ) (op : Op) (h : s.mqttClient = none) :
    (s.start i op).1.mqttClient = none ∧ (s.start i op).1.callbacks = s.callbacks ∧
      ((s.start i op).2 = .completed ∨ (s.start i op).2 = .threw) := by
  cases op with
  | Connect => simp [start, Connect_none i h, h]
  | ReConnect host port =>
    have hc := Connect_none (s := s.setEndpoint host port) i h
    simp [start, Disconnect, h, goOn, hc]
    exact ⟨h, rfl⟩
  | Reconnect host port => simp [start, h]
  | Disconnect => simp [start, Disconnect, h, goOn]

theorem NoClient.step (h : NoClient s) {a : ServiceAction} (hs : step s a = some s') : NoClient s' := by
  obtain ⟨hnone, htasks, hcallbacks⟩ := h
  have hdone : ∀ {i : ℕ} {pc : Pc}, s.tasks[i]? = some pc → pc = .completed ∨ pc = .threw :=
    fun hi => htasks _ (List.mem_of_getElem? hi)
  cases a with
  | call op =>
    rw [step_call.mp hs]
    obtain ⟨hclient, hcb, hpc⟩ := start_none s.tasks.length op hnone
    refine ⟨hclient, ?_, hcb.trans hcallbacks⟩
    exact List.forall_mem_append.mpr ⟨htasks, List.forall_mem_singleton.mpr hpc⟩
  | disconnectDone i =>
    obtain ⟨k, hi, -⟩ := step_disconnectDone.mp hs
    simpa using hdone hi
  | resume i =>
    obtain ⟨k, hi, -⟩ := step_resume.mp hs
    simpa using hdone hi
  | connectResult i ok => simpa using hdone (step_connectResult.mp hs).1
  | connectedCallback i => simpa using hdone (step_connectedCallback.mp hs).1
  | connectFinally i => simpa using hdone (step_connectFinally.mp hs).1
  | drop =>
    rw [(step_drop.mp hs).1] at hnone
    cases hnone
  | disconnectedCallback => exact absurd hcallbacks (Nat.pos_iff_ne_zero.mp (step_disconnectedCallback.mp hs).1)

theorem client_step (h : s.mqttClient ≠ none) {a : ServiceAction} (hs : step s a = some s') : s'.mqttClient ≠ none := by
  cases a with
  | call op =>
    rw [step_call.mp hs]
    rcases start_cases s.tasks.length op s with hk | ⟨-, hk⟩ | ⟨k, hk⟩
    · exact mt hk.client.mp h
    · exact mt hk.client.mp h
    · rw [called, hk]
      exact Option.some_ne_none _
  | disconnectDone i =>
    obtain ⟨k, -, rfl⟩ := step_disconnectDone.mp hs
    exact Option.some_ne_none _
  | resume i =>
    obtain ⟨k, -, rfl⟩ := step_resume.mp hs
    rcases kept_goOn i k s with hk | ⟨-, hk⟩
    · exact mt hk.client.mp h
    · exact mt hk.client.mp h
  | connectResult i ok =>
    obtain ⟨-, ⟨-, -, rfl⟩ | ⟨-, -, rfl⟩ | ⟨-, rfl⟩⟩ := step_connectResult.mp hs
    · exact Option.some_ne_none _
    · exact Option.some_ne_none _
    · exact h
  | connectedCallback i =>
    obtain ⟨-, rfl⟩ := step_connectedCallback.mp hs
    exact h
  | connectFinally i =>
    obtain ⟨-, rfl⟩ := step_connectFinally.mp hs
    exact h
  | drop =>
    obtain ⟨-, rfl⟩ := step_drop.mp hs
    exact Option.some_ne_none _
  | disconnectedCallback =>
    obtain ⟨-, rfl⟩ := step_disconnectedCallback.mp hs
    exact h

/-- **There is an MQTT client just when the initial host was set**, in every run. -/
theorem client_iff {host : Option Str} {port : Int32} {as : List ServiceAction}
    (hrun : Run.exec step (new host port) as = some s) : s.mqttClient ≠ none ↔ IsNullOrEmpty host = false := by
  cases h : IsNullOrEmpty host with
  | true =>
    have hnew : NoClient (new host port) := ⟨by simp [new, h], fun _ h => absurd h List.not_mem_nil, rfl⟩
    have hinv : NoClient s := Run.invariant (fun _ _ _ h hs => h.step hs) hnew hrun
    exact iff_of_false (not_not.mpr hinv.1) (by simp)
  | false =>
    have hnew : (new host port).mqttClient ≠ none := by simp [new, h]
    exact iff_of_true (Run.invariant (fun _ _ _ h hs => client_step h hs) hnew hrun) rfl

end Steps

end MqttClientService

end MqttServices
