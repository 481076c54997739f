import MqttServices.Broker.CertificateRuns

/-!
# The permissions of the certificate file

* `KeepsPrivate`: what is promised of the file while a call writes it and afterwards.
* `Stores`: the calls that get as far as the file; **`GetOrCreate_of_stores`**, `untouched_of_not_stores`: what these do
  to the disk, and the others.
* **`keepsPrivate_iff`**: the calls that keep the promise.
* `not_keepsPrivate_first`: the first start with the usual `umask`.
-/

namespace MqttServices.BrokerCertificateProvider

/-- Neither the group nor others have a permission. -/
def OwnerOnly (mode : Disk.Mode) : Prop := mode &&& 0o077 = 0

instance : DecidablePred OwnerOnly := fun mode => inferInstanceAs (Decidable (mode &&& 0o077 = 0))

theorem ownerOnly_ownerMode : OwnerOnly ownerMode := by decide

variable {K C : Type} (platform : X509Platform K C) (env : Environment K C) (settings : BrokerCertificateSettings)

/-- What is promised of the file: from the first byte of the key on, and once the call has returned. -/
structure KeepsPrivate (umask : Disk.Mode) (d : Disk Str) : Prop where
  afterFirstByte : ∀ n,
    Disk.written (certificatePath settings) ((GetOrCreate platform env (some settings)).steps.take n) = true →
      ∀ mode ∈ (d.exec umask ((GetOrCreate platform env (some settings)).steps.take n)).mode
        (certificatePath settings), OwnerOnly mode
  returned : ∀ c, (GetOrCreate platform env (some settings)).result = .ok c →
    Disk.opened (certificatePath settings) (GetOrCreate platform env (some settings)).steps = true →
      ∀ mode ∈ (d.exec umask (GetOrCreate platform env (some settings)).steps).mode (certificatePath settings),
        OwnerOnly mode

/-- The call creates a certificate and gets as far as writing it to the file. -/
structure Stores (pfx : List UInt8) : Prop where
  path : IsNullOrWhiteSpace settings.Path = false
  replaces : env.Exists (certificatePath settings) = true →
    ∃ old, Load env (certificatePath settings) settings.Password = .ok old ∧ platform.NotAfter old ≤ env.Now
  created : ∃ c, Create platform env.key env.UtcNow₁ env.UtcNow₂ settings = .ok c ∧
    platform.Export env.key c (pfxPassword settings.Password) = .ok pfx
  directory : (createDirectoryOf env (certificatePath settings)).result = .ok ()

/-- The write takes no byte, and where it is completed so, the permissions are restricted. -/
def WritesNothing (path : Str) (pfx : List UInt8) : Prop :=
  match env.WriteAllBytes path pfx with
  | .completed => pfx = [] ∧ env.SetUnixFileMode path ownerMode = .ok ()
  | .notOpened _ => True
  | .stopped n _ => pfx.take n = []

/-- The file written, and its permissions restricted. -/
def writeRestricted (path : Str) (pfx : List UInt8) : DiskAction Unit := do
  WriteAllBytes env path pfx
  RestrictToOwner env path

variable {platform env settings} {umask : Disk.Mode} {d : Disk Str} {pfx : List UInt8}

/-! ## The calls that get as far as the file -/

theorem GetOrCreate_of_blank (hpath : IsNullOrWhiteSpace settings.Path = true) :
    (GetOrCreate platform env (some settings)).steps = [] := by
  have hnil : certificatePath settings = [] := by
    rw [certificatePath, Trim_eq_nil_iff]
    exact hpath
  rw [GetOrCreate, hnil]
  rfl

/-- **A call that gets as far as the file**: steps that leave the file alone, and then the write. -/
theorem GetOrCreate_of_stores (h : Stores platform env settings pfx) :
    ∃ before, (∀ s ∈ before, Disk.Step.touches (certificatePath settings) s = false) ∧
      (GetOrCreate platform env (some settings)).steps =
        before ++ (writeRestricted env (certificatePath settings) pfx).steps ∧
      ((∃ c, (GetOrCreate platform env (some settings)).result = .ok c) ↔
        (writeRestricted env (certificatePath settings) pfx).result = .ok ()) := by
  obtain ⟨c, hc, hpfx⟩ := h.created
  have hstore : Store platform env c (certificatePath settings) settings.Password =
      ⟨(createDirectoryOf env (certificatePath settings)).steps ++
        (writeRestricted env (certificatePath settings) pfx).steps,
        (writeRestricted env (certificatePath settings) pfx).result⟩ := by
    rw [Store, Traced.bind_of_ok h.directory, hpfx, Traced.ofExcept_ok_bind]
    rfl
  have hcall : GetOrCreate platform env (some settings) =
      createAndStore platform env settings (certificatePath settings) := by
    cases hexists : env.Exists (certificatePath settings) with
    | false => exact GetOrCreate_of_absent h.path hexists
    | true =>
      obtain ⟨old, hload, hexpired⟩ := h.replaces hexists
      exact GetOrCreate_of_expired h.path hexists hload hexpired
  refine ⟨_, createDirectoryOf_untouched env (certificatePath settings) (certificatePath settings), ?_⟩
  rw [hcall, createAndStore, hc, Traced.ofExcept_ok_bind, hstore]
  cases hresult : (writeRestricted env (certificatePath settings) pfx).result with
  | ok u =>
    rw [Traced.bind_of_ok rfl]
    exact ⟨by simp, iff_of_true ⟨c, rfl⟩ rfl⟩
  | error e =>
    rw [Traced.bind_of_error rfl]
    refine ⟨by simp, iff_of_false ?_ ?_⟩
    · rintro ⟨_, ⟨⟩⟩
    · rintro ⟨⟩

theorem Store_of_not_reached {c : C} (h : ∀ pfx, platform.Export env.key c (pfxPassword settings.Password) = .ok pfx →
    (createDirectoryOf env (certificatePath settings)).result ≠ .ok ()) :
    ∃ e, Store platform env c (certificatePath settings) settings.Password =
      ⟨(createDirectoryOf env (certificatePath settings)).steps, .error e⟩ := by
  rw [Store]
  cases hdirectory : (createDirectoryOf env (certificatePath settings)).result with
  | error e =>
    rw [Traced.bind_of_error hdirectory]
    exact ⟨e, rfl⟩
  | ok u =>
    rw [Traced.bind_of_ok hdirectory]
    cases hpfx : platform.Export env.key c (pfxPassword settings.Password) with
    | error e =>
      rw [Traced.ofExcept_error_bind, Traced.steps_ofExcept, List.append_nil]
      exact ⟨e, rfl⟩
    | ok pfx => exact absurd hdirectory (h pfx hpfx)

theorem createAndStore_untouched (hpath : IsNullOrWhiteSpace settings.Path = false)
    (hreplaces : env.Exists (certificatePath settings) = true →
      ∃ old, Load env (certificatePath settings) settings.Password = .ok old ∧ platform.NotAfter old ≤ env.Now)
    (h : ∀ pfx, ¬ Stores platform env settings pfx) :
    ∀ s ∈ (createAndStore platform env settings (certificatePath settings)).steps,
      Disk.Step.touches (certificatePath settings) s = false := by
  rw [createAndStore]
  cases hc : Create platform env.key env.UtcNow₁ env.UtcNow₂ settings with
  | error e => exact List.forall_mem_nil _
  | ok c =>
    obtain ⟨e, hstore⟩ := @Store_of_not_reached _ _ platform env settings c fun pfx hpfx hdirectory =>
      h pfx ⟨hpath, hreplaces, ⟨c, hc, hpfx⟩, hdirectory⟩
    rw [Traced.ofExcept_ok_bind, hstore, Traced.bind_of_error rfl]
    exact createDirectoryOf_untouched env (certificatePath settings) (certificatePath settings)

/-- **Every other call leaves the file alone.** -/
theorem untouched_of_not_stores (h : ∀ pfx, ¬ Stores platform env settings pfx) :
    ∀ s ∈ (GetOrCreate platform env (some settings)).steps,
      Disk.Step.touches (certificatePath settings) s = false := by
  cases hpath : IsNullOrWhiteSpace settings.Path with
  | true =>
    rw [GetOrCreate_of_blank hpath]
    exact List.forall_mem_nil _
  | false =>
    cases hexists : env.Exists (certificatePath settings) with
    | false =>
      rw [GetOrCreate_of_absent hpath hexists]
      refine createAndStore_untouched hpath (fun htrue => ?_) h
      rw [hexists] at htrue
      cases htrue
    | true =>
      cases hload : Load env (certificatePath settings) settings.Password with
      | error e =>
        rw [GetOrCreate_of_unread hpath hexists hload]
        exact List.forall_mem_nil _
      | ok old =>
        rcases Int.lt_or_le env.Now (platform.NotAfter old) with hvalid | hexpired
        · rw [GetOrCreate_of_valid hpath hexists hload hvalid]
          exact List.forall_mem_nil _
        · rw [GetOrCreate_of_expired hpath hexists hload hexpired]
          exact createAndStore_untouched hpath (fun _ => ⟨old, hload, hexpired⟩) h

/-! ## The write -/

section Write

variable {path : Str}

theorem writeRestricted_of_notOpened {e : Exception} (h : env.WriteAllBytes path pfx = .notOpened e) :
    writeRestricted env path pfx = ⟨[], .error e⟩ := by
  have hwrite : WriteAllBytes env path pfx = ⟨[], .error e⟩ := by rw [WriteAllBytes, h]
  rw [writeRestricted, hwrite, Traced.bind_of_error rfl]

theorem writeRestricted_of_stopped {n : ℕ} {e : Exception} (h : env.WriteAllBytes path pfx = .stopped n e) :
    writeRestricted env path pfx = ⟨Disk.writeSteps path (pfx.take n), .error e⟩ := by
  have hwrite : WriteAllBytes env path pfx = ⟨Disk.writeSteps path (pfx.take n), .error e⟩ := by rw [WriteAllBytes, h]
  rw [writeRestricted, hwrite, Traced.bind_of_error rfl]

/-- What is done about the permissions of a file that has been written. -/
def restriction (env : Environment K C) (path : Str) : List (Disk.Step Str) :=
  if env.SetUnixFileMode path ownerMode = .ok () then [.setMode path ownerMode] else []

theorem RestrictToOwner_unix (hunix : env.IsWindows = false) (path : Str) :
    RestrictToOwner env path = ⟨restriction env path, .ok ()⟩ := by
  rw [RestrictToOwner, hunix, restriction]
  cases env.SetUnixFileMode path ownerMode with
  | ok u => rfl
  | error e => rfl

theorem writeRestricted_of_completed (hunix : env.IsWindows = false) (h : env.WriteAllBytes path pfx = .completed) :
    writeRestricted env path pfx = ⟨Disk.writeSteps path pfx ++ restriction env path, .ok ()⟩ := by
  have hwrite : WriteAllBytes env path pfx = ⟨Disk.writeSteps path pfx, .ok ()⟩ := by rw [WriteAllBytes, h]
  rw [writeRestricted, hwrite, Traced.bind_of_ok rfl, RestrictToOwner_unix hunix]

/-- **The steps of the write**: none, or the file is opened and then written or restricted. -/
theorem steps_writeRestricted (hunix : env.IsWindows = false) (path : Str) (pfx : List UInt8) :
    (writeRestricted env path pfx).steps = [] ∨ ∃ rest, (writeRestricted env path pfx).steps = .create path :: rest ∧
      ∀ s ∈ rest, (∃ b, s = Disk.Step.append path b) ∨ ∃ m, s = .setMode path m ∧ OwnerOnly m := by
  have happends : ∀ bytes : List UInt8, ∀ s ∈ bytes.map (Disk.Step.append path),
      (∃ b, s = Disk.Step.append path b) ∨ ∃ m, s = .setMode path m ∧ OwnerOnly m := by
    intro bytes s hs
    obtain ⟨b, -, rfl⟩ := List.mem_map.mp hs
    exact Or.inl ⟨b, rfl⟩
  cases h : env.WriteAllBytes path pfx with
  | notOpened e =>
    rw [writeRestricted_of_notOpened h]
    exact Or.inl rfl
  | stopped n e =>
    rw [writeRestricted_of_stopped h]
    exact Or.inr ⟨_, rfl, happends _⟩
  | completed =>
    rw [writeRestricted_of_completed hunix h]
    refine Or.inr ⟨_, rfl, List.forall_mem_append.mpr ⟨happends pfx, fun s hs => ?_⟩⟩
    rw [restriction] at hs
    split_ifs at hs
    · rw [List.mem_singleton.mp hs]
      exact Or.inr ⟨ownerMode, rfl, ownerOnly_ownerMode⟩
    · cases hs

end Write

/-! ## The promise -/

theorem keepsPrivate_of_untouched (h : ∀ s ∈ (GetOrCreate platform env (some settings)).steps,
    Disk.Step.touches (certificatePath settings) s = false) : KeepsPrivate platform env settings umask d where
  afterFirstByte n hwritten := by
    rw [Disk.written_of_not_touches fun s hs => h s (List.mem_of_mem_take hs)] at hwritten
    cases hwritten
  returned c _ hopened := by
    rw [Disk.opened_of_not_touches h] at hopened
    cases hopened

/-- A call that opens the file with permissions for the owner only keeps them so. -/
theorem keepsPrivate_of_ownerOnly (hunix : env.IsWindows = false) (h : Stores platform env settings pfx)
    (hmode : OwnerOnly (Disk.createMode umask (d.files (certificatePath settings)))) :
    KeepsPrivate platform env settings umask d := by
  obtain ⟨before, hbefore, hsteps, -⟩ := GetOrCreate_of_stores h
  have hkept := Disk.mode_of_opened hbefore (steps_writeRestricted hunix (certificatePath settings) pfx) hmode
  rw [← hsteps] at hkept
  constructor
  · exact fun n hwritten => hkept n (Disk.opened_of_written hwritten)
  · intro c _ hopened
    have hall := hkept (GetOrCreate platform env (some settings)).steps.length
    rw [List.take_length] at hall
    exact hall hopened

theorem keepsPrivate_of_writesNothing (hunix : env.IsWindows = false) (h : Stores platform env settings pfx)
    (hnothing : WritesNothing env (certificatePath settings) pfx) : KeepsPrivate platform env settings umask d := by
  obtain ⟨before, hbefore, hsteps, hresult⟩ := GetOrCreate_of_stores h
  rw [WritesNothing] at hnothing
  have hwritten : Disk.written (certificatePath settings) before = false := Disk.written_of_not_touches hbefore
  cases hwrite : env.WriteAllBytes (certificatePath settings) pfx with
  | notOpened e =>
    rw [writeRestricted_of_notOpened hwrite, List.append_nil] at hsteps
    refine keepsPrivate_of_untouched ?_
    rw [hsteps]
    exact hbefore
  | stopped n e =>
    rw [hwrite] at hnothing
    have hbytes : pfx.take n = [] := hnothing
    rw [writeRestricted_of_stopped hwrite, hbytes] at hsteps hresult
    constructor
    · intro k hk
      have hall := Disk.written_of_take hk
      rw [hsteps, Disk.written_append, hwritten] at hall
      cases hall
    · intro c hc
      cases hresult.mp ⟨c, hc⟩
  | completed =>
    rw [hwrite] at hnothing
    obtain ⟨rfl, hset⟩ := hnothing
    rw [writeRestricted_of_completed hunix hwrite, restriction, if_pos hset] at hsteps
    constructor
    · intro k hk
      have hall := Disk.written_of_take hk
      rw [hsteps, Disk.written_append, hwritten] at hall
      cases hall
    · intro c _ _ mode hmode
      rw [hsteps, Disk.exec_append, Disk.exec_append, Disk.exec_cons, Disk.exec_nil, Disk.mode_setMode,
        Disk.mode_exec_writeSteps] at hmode
      cases hmode
      exact ownerOnly_ownerMode

/-- **A call that writes a byte opens the file for its owner only**, where it keeps the promise. -/
theorem ownerOnly_of_keepsPrivate {before after : List (Disk.Step Str)} {bytes : List UInt8}
    (hbefore : ∀ s ∈ before, Disk.Step.touches (certificatePath settings) s = false)
    (hsteps : (GetOrCreate platform env (some settings)).steps =
      before ++ (Disk.writeSteps (certificatePath settings) bytes ++ after)) (hbytes : bytes ≠ [])
    (h : KeepsPrivate platform env settings umask d) :
    OwnerOnly (Disk.createMode umask (d.files (certificatePath settings))) := by
  have htake : (GetOrCreate platform env (some settings)).steps.take
      (before ++ Disk.writeSteps (certificatePath settings) bytes).length =
        before ++ Disk.writeSteps (certificatePath settings) bytes := by
    rw [hsteps, ← List.append_assoc, List.take_left]
  have hpromise := h.afterFirstByte (before ++ Disk.writeSteps (certificatePath settings) bytes).length
  rw [htake, Disk.exec_append, Disk.mode_exec_writeSteps, Disk.exec_of_not_touches hbefore] at hpromise
  refine hpromise ?_ _ rfl
  cases bytes with
  | nil => exact absurd rfl hbytes
  | cons b bytes =>
    rw [Disk.written_append]
    simp [Disk.written, Disk.writeSteps, Disk.Step.writes]

/-- **Where the permissions cannot be restricted**, the call returns all the same, and the file keeps those it was
opened with. -/
theorem mode_of_not_restricted (hunix : env.IsWindows = false) (h : Stores platform env settings pfx)
    (hwrite : env.WriteAllBytes (certificatePath settings) pfx = .completed)
    (hset : env.SetUnixFileMode (certificatePath settings) ownerMode ≠ .ok ()) :
    (∃ c, (GetOrCreate platform env (some settings)).result = .ok c) ∧
      Disk.opened (certificatePath settings) (GetOrCreate platform env (some settings)).steps = true ∧
      (d.exec umask (GetOrCreate platform env (some settings)).steps).mode (certificatePath settings) =
        some (Disk.createMode umask (d.files (certificatePath settings))) := by
  obtain ⟨before, hbefore, hsteps, hresult⟩ := GetOrCreate_of_stores h
  rw [writeRestricted_of_completed hunix hwrite] at hsteps hresult
  rw [restriction, if_neg hset, List.append_nil] at hsteps
  refine ⟨hresult.mpr rfl, ?_, ?_⟩
  · rw [hsteps]
    simp [Disk.opened, Disk.writeSteps, Disk.Step.touches]
  · rw [hsteps, Disk.exec_append, Disk.mode_exec_writeSteps, Disk.exec_of_not_touches hbefore]

/-- **What a call that gets as far as the file keeps.** -/
theorem keepsPrivate_of_stores_iff (hunix : env.IsWindows = false) (h : Stores platform env settings pfx) :
    KeepsPrivate platform env settings umask d ↔
      OwnerOnly (Disk.createMode umask (d.files (certificatePath settings))) ∨
        WritesNothing env (certificatePath settings) pfx := by
  constructor
  · intro hkeeps
    obtain ⟨before, hbefore, hsteps, -⟩ := GetOrCreate_of_stores h
    rw [WritesNothing]
    cases hwrite : env.WriteAllBytes (certificatePath settings) pfx with
    | notOpened e => exact Or.inr trivial
    | stopped n e =>
      rw [writeRestricted_of_stopped hwrite, ← List.append_nil (Disk.writeSteps _ _)] at hsteps
      by_cases hbytes : pfx.take n = []
      · exact Or.inr hbytes
      · exact Or.inl (ownerOnly_of_keepsPrivate hbefore hsteps hbytes hkeeps)
    | completed =>
      rw [writeRestricted_of_completed hunix hwrite] at hsteps
      by_cases hbytes : pfx = []
      · by_cases hset : env.SetUnixFileMode (certificatePath settings) ownerMode = .ok ()
        · exact Or.inr ⟨hbytes, hset⟩
        · obtain ⟨⟨c, hc⟩, hopened, hmode⟩ := mode_of_not_restricted hunix h hwrite hset
          exact Or.inl (hkeeps.returned c hc hopened _ hmode)
      · exact Or.inl (ownerOnly_of_keepsPrivate hbefore hsteps hbytes hkeeps)
  · rintro (hmode | hnothing)
    · exact keepsPrivate_of_ownerOnly hunix h hmode
    · exact keepsPrivate_of_writesNothing hunix h hnothing

/-- **The calls that keep the key to its owner**: where the file is opened with permissions for the owner only, or no
byte is written. -/
theorem keepsPrivate_iff (hunix : env.IsWindows = false) :
    KeepsPrivate platform env settings umask d ↔ ∀ pfx, Stores platform env settings pfx →
      OwnerOnly (Disk.createMode umask (d.files (certificatePath settings))) ∨
        WritesNothing env (certificatePath settings) pfx := by
  constructor
  · exact fun hkeeps pfx h => (keepsPrivate_of_stores_iff hunix h).mp hkeeps
  · intro hall
    by_cases hstores : ∃ pfx, Stores platform env settings pfx
    · obtain ⟨pfx, h⟩ := hstores
      exact (keepsPrivate_of_stores_iff hunix h).mpr (hall pfx h)
    · exact keepsPrivate_of_untouched (untouched_of_not_stores fun pfx h => hstores ⟨pfx, h⟩)

/-! ## The first start -/

/-- The first start on the small platform. -/
def firstEnvironment : Environment Unit ℕ := environment smallPlatform smallHost emptyDisk (smallMoment 2)

theorem exists_stores_first : ∃ pfx, pfx ≠ [] ∧ Stores smallPlatform firstEnvironment storedSettings pfx := by
  obtain ⟨c, hc⟩ := createAt_small 2 (by decide) (by decide)
  refine ⟨pfxHeader none ++ pfxBody c, by simp [pfxBody], ?_, ?_, ⟨c, hc, rfl⟩, rfl⟩
  · decide
  · rintro ⟨⟩

theorem keepsPrivate_iff_first :
    KeepsPrivate smallPlatform firstEnvironment storedSettings 0o077 emptyDisk :=
  (@keepsPrivate_iff _ _ smallPlatform firstEnvironment storedSettings 0o077 emptyDisk rfl).mpr fun _ _ =>
    Or.inl (by decide)

/-- **With the usual `umask` the first start shows the key to others**, though no operation fails. -/
theorem not_keepsPrivate_first :
    firstEnvironment.IsWindows = false ∧
      ¬ KeepsPrivate smallPlatform firstEnvironment storedSettings 0o022 emptyDisk := by
  refine ⟨rfl, fun h => ?_⟩
  obtain ⟨pfx, hne, hstores⟩ := exists_stores_first
  rcases (keepsPrivate_of_stores_iff rfl hstores).mp h with hmode | ⟨hnil, -⟩
  · exact absurd hmode (by decide)
  · exact hne hnil

end MqttServices.BrokerCertificateProvider
