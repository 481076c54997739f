import MqttServices.Broker.CertificateProvider
import MqttServices.Lib.Run

/-!
# The certificate from start to start

* `environment`: a call on a disk where no operation fails.
* `Laws`: what is asked of the platform.
* **`GetOrCreate_of_holds`**, **`GetOrCreate_of_created`**: the certificate on the disk, or a new one stored there.
* **`fingerprint_stable`**: over any run of calls the certificate stays until it expires.
* **`store_interrupted`**: what the next start makes of a store that was stopped on the way.
-/

namespace MqttServices.BrokerCertificateProvider

/-- What stays from call to call. -/
structure Host where
  ToLocalTime : ℤ → ℤ
  GetFullPath : Str → Str
  GetDirectoryName : Str → Option Str
  IsWindows : Bool
  umask : Disk.Mode

/-- When a call is made, and with which random numbers. The clock is read in this order. -/
structure Moment (K : Type) where
  key : K
  now : ℤ
  UtcNow₁ : ℤ
  UtcNow₂ : ℤ
  now_le : now ≤ UtcNow₁
  UtcNow_le : UtcNow₁ ≤ UtcNow₂

variable {K C : Type} (platform : X509Platform K C) (host : Host)

/-- A call where no operation fails. -/
def environment (d : Disk Str) (m : Moment K) : Environment K C where
  Exists path := (d.content path).isSome
  LoadPkcs12FromFile path password :=
    match d.content path with
    | none => .error ⟨.IOException, []⟩
    | some bytes => platform.LoadPkcs12 bytes password
  Now := host.ToLocalTime m.now
  UtcNow₁ := m.UtcNow₁
  UtcNow₂ := m.UtcNow₂
  key := m.key
  GetFullPath path := .ok (host.GetFullPath path)
  GetDirectoryName := host.GetDirectoryName
  CreateDirectory directory := ([directory], .ok ())
  WriteAllBytes _ _ := .completed
  SetUnixFileMode _ _ := .ok ()
  IsWindows := host.IsWindows

/-- What is asked of the platform: what is exported is loaded again with the same password, a certificate ends when
it was asked to, in whole seconds, and the local clock does not fall back by a day. -/
structure Laws : Prop where
  load_export : ∀ key c password, ∃ pfx, platform.Export key c password = .ok pfx ∧
    platform.LoadPkcs12 pfx password = .ok c
  notAfter : ∀ key request notBefore notAfter c, platform.CreateSelfSigned key request notBefore notAfter = .ok c →
    platform.NotAfter c = host.ToLocalTime (floorToSecond notAfter)
  localTime : ∀ t u, t + (ticksPerDay - ticksPerSecond) ≤ u → host.ToLocalTime t < host.ToLocalTime u

variable (settings : BrokerCertificateSettings)

/-- The file holds the certificate. -/
def Holds (d : Disk Str) (c : C) : Prop :=
  ∃ bytes, d.content (certificatePath settings) = some bytes ∧
    platform.LoadPkcs12 bytes (pfxPassword settings.Password) = .ok c

/-- A call of `GetOrCreate` on the disk. -/
def callOn (d : Disk Str) (m : Moment K) : DiskAction C :=
  GetOrCreate platform (environment platform host d m) (some settings)

/-- `Create` at the moment of the call. -/
def createAt (m : Moment K) : Except Exception C := Create platform m.key m.UtcNow₁ m.UtcNow₂ settings

variable {platform host settings}

/-! ## One call -/

/-- **A certificate created is the one that was asked for**, from a day ago until the configured days are over. -/
theorem createAt_eq_ok (laws : Laws platform host) {m : Moment K} {c : C} (h : createAt platform settings m = .ok c) :
    ∃ request, platform.CreateSelfSigned m.key request (m.UtcNow₁ - ticksPerDay)
      (m.UtcNow₂ + validityDays settings * ticksPerDay) = .ok c := by
  obtain ⟨request, -, notBefore, hbefore, notAfter, hafter, created, hcreated, pfx, hpfx, hload⟩ :=
    Create_eq_ok_iff.mp h
  obtain ⟨pfx', hpfx', hload'⟩ := laws.load_export m.key created none
  cases Except.ok.inj (hpfx.symm.trans hpfx')
  cases Except.ok.inj (hload.symm.trans hload')
  have hnotBefore : notBefore = m.UtcNow₁ - ticksPerDay := by
    rw [((AddDays_eq_ok_iff _ _ _).mp hbefore).1]
    omega
  have hnotAfter := ((AddDays_eq_ok_iff _ _ _).mp hafter).1
  rw [hnotBefore, hnotAfter] at hcreated
  exact ⟨request, hcreated⟩

/-- **A certificate created has not expired.** -/
theorem lt_NotAfter_of_createAt (laws : Laws platform host) {m : Moment K} {c : C}
    (h : createAt platform settings m = .ok c) : host.ToLocalTime m.now < platform.NotAfter c := by
  obtain ⟨request, hcreated⟩ := createAt_eq_ok laws h
  rw [laws.notAfter _ _ _ _ _ hcreated]
  apply laws.localTime
  have hfloor := sub_lt_floorToSecond (m.UtcNow₂ + validityDays settings * ticksPerDay)
  have hday := ticksPerDay_le_validity settings
  have h₁ := m.now_le
  have h₂ := m.UtcNow_le
  omega

variable (platform host) in
theorem createDirectoryOf_eq (d : Disk Str) (m : Moment K) (path : Str) : ∃ before,
    createDirectoryOf (environment platform host d m) path = ⟨before, .ok ()⟩ ∧
      ∀ s ∈ before, Disk.Step.touches path s = false := by
  refine ⟨_, ?_, createDirectoryOf_untouched (environment platform host d m) path path⟩
  rw [createDirectoryOf, Traced.bind_of_ok (a := host.GetFullPath path) rfl]
  split_ifs
  · rfl
  · rfl

variable (platform host) in
theorem RestrictToOwner_eq (d : Disk Str) (m : Moment K) (path : Str) : ∃ after,
    RestrictToOwner (environment platform host d m) path = ⟨after, .ok ()⟩ ∧
      ∀ s ∈ after, ∃ mode, s = Disk.Step.setMode path mode := by
  rw [RestrictToOwner]
  split_ifs
  · exact ⟨[], rfl, fun s hs => absurd hs List.not_mem_nil⟩
  · exact ⟨[.setMode path ownerMode], rfl, fun s hs => ⟨ownerMode, List.mem_singleton.mp hs⟩⟩

/-- **What a store does to the disk**: steps that leave the file alone, the write, and the permissions. -/
theorem createAndStore_eq (laws : Laws platform host) (d : Disk Str) (path : Str) {m : Moment K} {c : C}
    (h : createAt platform settings m = .ok c) :
    ∃ pfx before after, platform.Export m.key c (pfxPassword settings.Password) = .ok pfx ∧
      platform.LoadPkcs12 pfx (pfxPassword settings.Password) = .ok c ∧
      (∀ s ∈ before, Disk.Step.touches path s = false) ∧ (∀ s ∈ after, ∃ mode, s = Disk.Step.setMode path mode) ∧
      createAndStore platform (environment platform host d m) settings path =
        ⟨before ++ (Disk.writeSteps path pfx ++ after), .ok c⟩ := by
  obtain ⟨pfx, hpfx, hload⟩ := laws.load_export m.key c (pfxPassword settings.Password)
  obtain ⟨before, hdirectory, hbefore⟩ := createDirectoryOf_eq platform host d m path
  obtain ⟨after, hmode, hafter⟩ := RestrictToOwner_eq platform host d m path
  have hstore : Store platform (environment platform host d m) c path settings.Password =
      ⟨before ++ (Disk.writeSteps path pfx ++ after), .ok ()⟩ := by
    have hexport : platform.Export (environment platform host d m).key c (pfxPassword settings.Password) = .ok pfx :=
      hpfx
    rw [Store, hdirectory, Traced.bind_of_ok rfl, hexport, Traced.ofExcept_ok_bind, WriteAllBytes, hmode]
    rfl
  refine ⟨pfx, before, after, hpfx, hload, hbefore, hafter, ?_⟩
  have hcreate : Create platform (environment platform host d m).key (environment platform host d m).UtcNow₁
      (environment platform host d m).UtcNow₂ settings = .ok c := h
  rw [createAndStore, hcreate, Traced.ofExcept_ok_bind, hstore, Traced.bind_of_ok rfl]
  simp

section Call

variable {d : Disk Str} {m : Moment K} {c : C}

theorem exists_environment (path : Str) :
    (environment platform host d m).Exists path = true ↔ ∃ bytes, d.content path = some bytes :=
  Option.isSome_iff_exists

theorem LoadPkcs12FromFile_environment {path : Str} {bytes : List UInt8} {password : Option Str}
    (h : d.content path = some bytes) :
    (environment platform host d m).LoadPkcs12FromFile path password = platform.LoadPkcs12 bytes password := by
  simp [environment, h]

theorem Holds.exists (h : Holds platform settings d c) :
    (environment platform host d m).Exists (certificatePath settings) = true := by
  obtain ⟨bytes, hbytes, -⟩ := h
  exact (exists_environment _).mpr ⟨bytes, hbytes⟩

theorem Holds.load (h : Holds platform settings d c) :
    Load (environment platform host d m) (certificatePath settings) settings.Password = .ok c := by
  obtain ⟨bytes, hbytes, hload⟩ := h
  rw [Load_eq_ok_iff, LoadPkcs12FromFile_environment hbytes, hload]

/-- **The certificate on the disk is returned**, and nothing is written. -/
theorem callOn_of_holds (hpath : IsNullOrWhiteSpace settings.Path = false) (h : Holds platform settings d c)
    (hvalid : host.ToLocalTime m.now < platform.NotAfter c) : callOn platform host settings d m = pure c :=
  GetOrCreate_of_valid hpath h.exists h.load hvalid

/-- **Where there is no file, or an expired certificate**, one is created and stored. -/
theorem callOn_of_stale (hpath : IsNullOrWhiteSpace settings.Path = false)
    (h : d.content (certificatePath settings) = none ∨
      ∃ old, Holds platform settings d old ∧ platform.NotAfter old ≤ host.ToLocalTime m.now) :
    callOn platform host settings d m =
      createAndStore platform (environment platform host d m) settings (certificatePath settings) := by
  rcases h with h | ⟨old, hold, hexpired⟩
  · refine GetOrCreate_of_absent hpath ?_
    show (d.content (certificatePath settings)).isSome = false
    rw [h]
    rfl
  · exact GetOrCreate_of_expired hpath hold.exists hold.load hexpired

/-- **A certificate created is on the disk afterwards.** -/
theorem holds_of_createAndStore (laws : Laws platform host) (h : createAt platform settings m = .ok c) :
    (createAndStore platform (environment platform host d m) settings (certificatePath settings)).result = .ok c ∧
      Holds platform settings
        (d.exec host.umask
          (createAndStore platform (environment platform host d m) settings (certificatePath settings)).steps) c := by
  obtain ⟨pfx, before, after, -, hload, -, hafter, heq⟩ := createAndStore_eq laws d (certificatePath settings) h
  rw [heq]
  refine ⟨rfl, pfx, ?_, hload⟩
  rw [Disk.exec_append, Disk.exec_append, Disk.content_setModes hafter, Disk.content_exec_writeSteps]

end Call

/-! ## Runs -/

variable (platform host settings)

/-- The disk, and the certificate returned last. -/
structure CertificateState (C : Type) where
  disk : Disk Str
  last : Option C

/-- A call that returns. -/
def getOrCreateStep (s : CertificateState C) (m : Moment K) : Option (CertificateState C) :=
  match (callOn platform host settings s.disk m).result with
  | .ok c => some ⟨s.disk.exec host.umask (callOn platform host settings s.disk m).steps, some c⟩
  | .error _ => none

/-- What is promised of a call that leads from `s` to `t` and returns `c`. -/
structure Returned (s : CertificateState C) (m : Moment K) (t : CertificateState C) (c : C) : Prop where
  last_eq : t.last = some c
  valid : host.ToLocalTime m.now < platform.NotAfter c
  stable : ∀ p, s.last = some p → host.ToLocalTime m.now < platform.NotAfter p →
    c = p ∧ platform.Sha256 c = platform.Sha256 p
  renewed : ∀ p, s.last = some p → platform.NotAfter p ≤ host.ToLocalTime m.now → createAt platform settings m = .ok c
  stored : Holds platform settings t.disk c

/-- The file is missing or holds a certificate, which is the one returned last. -/
structure Kept (s : CertificateState C) : Prop where
  readable : s.disk.content (certificatePath settings) = none ∨ ∃ c, Holds platform settings s.disk c
  last : ∀ p, s.last = some p → Holds platform settings s.disk p

variable {platform host settings}

theorem Holds.unique {d : Disk Str} {c c' : C} (h : Holds platform settings d c) (h' : Holds platform settings d c') :
    c = c' := by
  obtain ⟨bytes, hbytes, hload⟩ := h
  obtain ⟨bytes', hbytes', hload'⟩ := h'
  rw [hbytes] at hbytes'
  cases hbytes'
  exact Except.ok.inj (hload.symm.trans hload')

theorem Kept.of_returned {s t : CertificateState C} {m : Moment K} {c : C}
    (h : Returned platform host settings s m t c) : Kept platform settings t := by
  refine ⟨Or.inr ⟨c, h.stored⟩, fun p hp => ?_⟩
  rw [h.last_eq] at hp
  cases hp
  exact h.stored

/-- **One call.** -/
theorem exists_returned (laws : Laws platform host) (hpath : IsNullOrWhiteSpace settings.Path = false)
    {s : CertificateState C} (hs : Kept platform settings s) {m : Moment K}
    (hcreate : ∃ c, createAt platform settings m = .ok c) :
    ∃ t c, getOrCreateStep platform host settings s m = some t ∧ Returned platform host settings s m t c := by
  by_cases hvalid : ∃ c, Holds platform settings s.disk c ∧ host.ToLocalTime m.now < platform.NotAfter c
  · obtain ⟨c, hc, hlt⟩ := hvalid
    refine ⟨⟨s.disk, some c⟩, c, ?_, rfl, hlt, ?_, ?_, hc⟩
    · rw [getOrCreateStep, callOn_of_holds hpath hc hlt]
      rfl
    · intro p hp _
      have hcp := hc.unique (hs.last p hp)
      exact ⟨hcp, congrArg platform.Sha256 hcp⟩
    · intro p hp hexpired
      rw [hc.unique (hs.last p hp)] at hlt
      omega
  · have hstale : s.disk.content (certificatePath settings) = none ∨
        ∃ old, Holds platform settings s.disk old ∧ platform.NotAfter old ≤ host.ToLocalTime m.now := by
      refine hs.readable.imp_right ?_
      rintro ⟨old, hold⟩
      exact ⟨old, hold, not_lt.mp fun hlt => hvalid ⟨old, hold, hlt⟩⟩
    obtain ⟨c, hc⟩ := hcreate
    obtain ⟨hresult, hholds⟩ := holds_of_createAndStore (d := s.disk) laws hc
    rw [← callOn_of_stale hpath hstale] at hresult hholds
    refine ⟨⟨_, some c⟩, c, ?_, rfl, lt_NotAfter_of_createAt laws hc, ?_, fun _ _ _ => hc, hholds⟩
    · rw [getOrCreateStep, hresult]
      rfl
    · exact fun p hp hlt => absurd ⟨p, hs.last p hp, hlt⟩ hvalid

/-- **The certificate stays until it expires**: in every run of calls, from a disk with no file at the path or a file
that loads, each returns a certificate that is valid, the one returned last until that expires and a new one then, and
leaves it on the disk. -/
theorem fingerprint_stable (laws : Laws platform host) (hpath : IsNullOrWhiteSpace settings.Path = false) {d : Disk Str}
    (hstart : d.content (certificatePath settings) = none ∨ ∃ c, Holds platform settings d c) {ms : List (Moment K)}
    (hcreate : ∀ m ∈ ms, ∃ c, createAt platform settings m = .ok c) :
    Run.Meets (getOrCreateStep platform host settings)
      (fun s m => ∃ t c, getOrCreateStep platform host settings s m = some t ∧
        Returned platform host settings s m t c) ⟨d, none⟩ ms := by
  refine Run.Meets.of_invariant (I := Kept platform settings) ?_ ?_ ⟨hstart, nofun⟩ hcreate
  · exact fun s m hs hm => exists_returned laws hpath hs hm
  · intro s m s' hs hm hstep
    obtain ⟨t, c, ht, hreturned⟩ := exists_returned laws hpath hs hm
    rw [hstep] at ht
    cases ht
    exact Kept.of_returned hreturned

/-- A host whose local time is UTC. -/
def smallHost : Host where
  ToLocalTime := id
  GetFullPath path := "/app/".toList ++ path
  GetDirectoryName _ := some "/app".toList
  IsWindows := false
  umask := 0o022

/-- A call at the start of a day. -/
def smallMoment (day : ℕ) : Moment Unit :=
  ⟨(), day * ticksPerDay, day * ticksPerDay, day * ticksPerDay, le_refl _, le_refl _⟩

/-- A disk with nothing on it. -/
def emptyDisk : Disk Str := ⟨fun _ => none, fun _ => false⟩

theorem readBody_pfxBody (n : ℕ) : readBody (pfxBody n) = .ok n := by
  have hlen : (pfxBody n).length - 1 = n := by simp [pfxBody]
  rw [readBody, hlen, if_pos rfl]

theorem read_after_header {α : Type} (password : Option Str) (body : List UInt8)
    (read : List UInt8 → Except Exception α) (e : Except Exception α) :
    (if (pfxHeader password).isPrefixOf (pfxHeader password ++ body) = true then
      read ((pfxHeader password ++ body).drop (pfxHeader password).length) else e) = read body := by
  rw [if_pos (List.isPrefixOf_iff_prefix.mpr (List.prefix_append _ _)), List.drop_left]

theorem smallLaws : Laws smallPlatform smallHost where
  load_export key c password := ⟨_, rfl, (read_after_header password (pfxBody c) readBody _).trans (readBody_pfxBody c)⟩
  notAfter key request notBefore notAfter c h := by
    simp only [smallPlatform] at h
    split_ifs at h with hle
    show (c : ℤ) * ticksPerSecond = floorToSecond notAfter
    rw [← Except.ok.inj h, toNat_mul_ticksPerSecond hle.2]
  localTime t u h := by
    simp only [ticksPerDay, ticksPerSecond] at h
    show t < u
    omega

theorem exists_createAt_small {s : BrokerCertificateSettings} (hdays : validityDays s = 3650)
    (hrequest : ∃ request, certRequest smallPlatform s = .ok request) (day : ℕ) (hfirst : 1 ≤ day)
    (hlast : day ≤ 3000000) : ∃ c, createAt smallPlatform s (smallMoment day) = .ok c := by
  obtain ⟨request, hrequest⟩ := hrequest
  have hbefore : AddDays (smallMoment day).UtcNow₁ (-1) = .ok (day * ticksPerDay + -1 * ticksPerDay) :=
    AddDays_of_days day (-1) (by omega) (by omega)
  have hafter : AddDays (smallMoment day).UtcNow₂ (validityDays s) =
      .ok (day * ticksPerDay + 3650 * ticksPerDay) := by
    rw [hdays]
    exact AddDays_of_days day 3650 (by omega) (by omega)
  have hcreated : smallPlatform.CreateSelfSigned () request (day * ticksPerDay + -1 * ticksPerDay)
      (day * ticksPerDay + 3650 * ticksPerDay) =
        .ok ((day * ticksPerDay + 3650 * ticksPerDay) / ticksPerSecond).toNat := by
    refine if_pos ?_
    simp only [ticksPerDay]
    omega
  obtain ⟨pfx, hpfx, hload⟩ := smallLaws.load_export ()
    ((day * ticksPerDay + 3650 * ticksPerDay) / ticksPerSecond).toNat none
  exact ⟨_, Create_eq_ok_iff.mpr ⟨_, hrequest, _, hbefore, _, hafter, _, hcreated, _, hpfx, hload⟩⟩

theorem createAt_small (day : ℕ) (hfirst : 1 ≤ day) (hlast : day ≤ 3000000) :
    ∃ c, createAt smallPlatform storedSettings (smallMoment day) = .ok c :=
  exists_createAt_small (by decide) ⟨_, rfl⟩ day hfirst hlast

theorem fingerprint_stable_small :
    Run.Meets (getOrCreateStep smallPlatform smallHost storedSettings)
      (fun s m => ∃ t c, getOrCreateStep smallPlatform smallHost storedSettings s m = some t ∧
        Returned smallPlatform smallHost storedSettings s m t c)
      ⟨emptyDisk, none⟩ [smallMoment 2, smallMoment 3, smallMoment 4000] := by
  refine fingerprint_stable smallLaws (by decide) (Or.inl rfl) fun m hm => ?_
  simp only [List.mem_cons, List.not_mem_nil, or_false] at hm
  rcases hm with rfl | rfl | rfl
  · exact createAt_small _ (by decide) (by decide)
  · exact createAt_small _ (by decide) (by decide)
  · exact createAt_small _ (by decide) (by decide)

/-! ## Stores that are stopped -/

variable (platform) in
/-- What is asked of the platform besides: a PFX file that is cut off is refused. -/
def RefusesTruncated : Prop := ∀ key c password pfx, platform.Export key c password = .ok pfx → ∀ k < pfx.length,
  ∃ inner, platform.LoadPkcs12 (pfx.take k) password = .error ⟨.CryptographicException, inner⟩

/-- **A damaged file is refused**, and left as it is. -/
theorem callOn_of_damaged (hpath : IsNullOrWhiteSpace settings.Path = false) {d : Disk Str} {m : Moment K}
    {bytes : List UInt8} {inner : List ExceptionType} (hbytes : d.content (certificatePath settings) = some bytes)
    (hload : platform.LoadPkcs12 bytes (pfxPassword settings.Password) = .error ⟨.CryptographicException, inner⟩) :
    callOn platform host settings d m =
      Traced.ofExcept (.error ⟨.InvalidOperationException, .CryptographicException :: inner⟩) := by
  refine GetOrCreate_of_unread hpath ((exists_environment _).mpr ⟨bytes, hbytes⟩) ?_
  rw [Load, LoadPkcs12FromFile_environment hbytes, hload]
  rfl

/-- **Where the file is missing or readable** a valid certificate is returned. -/
theorem callOn_of_readable (laws : Laws platform host) (hpath : IsNullOrWhiteSpace settings.Path = false) {d : Disk Str}
    (hd : d.content (certificatePath settings) = none ∨ ∃ c, Holds platform settings d c) {m : Moment K}
    (hcreate : ∃ c, createAt platform settings m = .ok c) :
    ∃ c, (callOn platform host settings d m).result = .ok c ∧ host.ToLocalTime m.now < platform.NotAfter c := by
  obtain ⟨t, c, hstep, hreturned⟩ := exists_returned laws hpath (s := ⟨d, none⟩) ⟨hd, nofun⟩ hcreate
  refine ⟨c, ?_, hreturned.valid⟩
  have hlast := hreturned.last_eq
  rw [getOrCreateStep] at hstep
  cases hresult : (callOn platform host settings d m).result with
  | error e =>
    rw [hresult] at hstep
    cases hstep
  | ok c' =>
    rw [hresult] at hstep
    cases hstep
    cases hlast
    rfl

/-- What a store that is stopped on the way leaves at the path: what was there, the whole certificate, or a part. -/
theorem stopped_cases (laws : Laws platform host) (hpath : IsNullOrWhiteSpace settings.Path = false) {d : Disk Str}
    {m : Moment K} {c : C} {pfx : List UInt8}
    (hstale : d.content (certificatePath settings) = none ∨
      ∃ old, Holds platform settings d old ∧ platform.NotAfter old ≤ host.ToLocalTime m.now)
    (hc : createAt platform settings m = .ok c)
    (hpfx : platform.Export m.key c (pfxPassword settings.Password) = .ok pfx) (n : ℕ) :
    let steps := (callOn platform host settings d m).steps.take n
    let content := (d.exec host.umask steps).content (certificatePath settings)
    Disk.opened (certificatePath settings) steps = false ∧ content = d.content (certificatePath settings) ∨
      content = some pfx ∧ Holds platform settings (d.exec host.umask steps) c ∨
      Disk.opened (certificatePath settings) steps = true ∧ ∃ k < pfx.length, content = some (pfx.take k) := by
  intro steps content
  obtain ⟨pfx', before, after, hpfx', hload, hbefore, hafter, heq⟩ :=
    createAndStore_eq laws d (certificatePath settings) hc
  obtain rfl : pfx' = pfx := Except.ok.inj (hpfx'.symm.trans hpfx)
  have hsteps : steps = (before ++ (Disk.writeSteps (certificatePath settings) pfx' ++ after)).take n := by
    show (callOn platform host settings d m).steps.take n = _
    rw [callOn_of_stale hpath hstale, heq]
  rcases Nat.lt_or_ge before.length n with hn | hn
  · obtain ⟨k, rfl⟩ : ∃ k, n = before.length + (k + 1) := ⟨n - before.length - 1, by omega⟩
    obtain ⟨hopened, hcontent⟩ := Disk.opened_of_lt host.umask d before pfx' hafter k
    rw [← hsteps] at hopened hcontent
    rcases Nat.lt_or_ge k pfx'.length with hk | hk
    · exact Or.inr (Or.inr ⟨hopened, k, hk, hcontent⟩)
    · rw [List.take_of_length_le hk] at hcontent
      exact Or.inr (Or.inl ⟨hcontent, pfx', hcontent, hload⟩)
  · have hstopped := Disk.opened_of_le host.umask d pfx' after hbefore hn
    rw [← hsteps] at hstopped
    exact Or.inl hstopped

/-- **A store that is stopped on the way**: where the process stops before the file is opened, or after its last byte,
the next call returns a valid certificate; between the two the file is refused from then on, and left as it is. -/
theorem store_interrupted (laws : Laws platform host) (htruncated : RefusesTruncated platform)
    (hpath : IsNullOrWhiteSpace settings.Path = false) {d : Disk Str} {m : Moment K} {c : C} {pfx : List UInt8}
    (hstale : d.content (certificatePath settings) = none ∨
      ∃ old, Holds platform settings d old ∧ platform.NotAfter old ≤ host.ToLocalTime m.now)
    (hc : createAt platform settings m = .ok c)
    (hpfx : platform.Export m.key c (pfxPassword settings.Password) = .ok pfx) (n : ℕ) (m' : Moment K)
    (hcreate : ∃ c', createAt platform settings m' = .ok c') :
    let steps := (callOn platform host settings d m).steps.take n
    let next := callOn platform host settings (d.exec host.umask steps) m'
    let torn := Disk.opened (certificatePath settings) steps = true ∧
      (d.exec host.umask steps).content (certificatePath settings) ≠ some pfx
    (¬ torn → ∃ c', next.result = .ok c' ∧ host.ToLocalTime m'.now < platform.NotAfter c') ∧
      (torn → (∃ inner, next.result = .error ⟨.InvalidOperationException, inner⟩) ∧ next.steps = []) := by
  intro steps next torn
  rcases stopped_cases laws hpath hstale hc hpfx n with
    ⟨hopened, hcontent⟩ | ⟨hcontent, hholds⟩ | ⟨hopened, k, hk, hcontent⟩
  · have hnot : ¬ torn := fun h => absurd (hopened.symm.trans h.1) Bool.false_ne_true
    refine ⟨fun _ => callOn_of_readable laws hpath ?_ hcreate, fun h => absurd h hnot⟩
    refine hstale.imp hcontent.trans ?_
    rintro ⟨old, ⟨bytes, hbytes, hold⟩, -⟩
    exact ⟨old, bytes, hcontent.trans hbytes, hold⟩
  · have hnot : ¬ torn := fun h => h.2 hcontent
    exact ⟨fun _ => callOn_of_readable laws hpath (Or.inr ⟨c, hholds⟩) hcreate, fun h => absurd h hnot⟩
  · have htorn : torn := by
      refine ⟨hopened, fun h => ?_⟩
      have hlen := congrArg List.length (Option.some.inj (hcontent.symm.trans h))
      rw [List.length_take] at hlen
      omega
    obtain ⟨inner, hinner⟩ := htruncated _ _ _ _ hpfx k hk
    have hdamaged : next = _ := callOn_of_damaged hpath hcontent hinner
    exact ⟨fun h => absurd htorn h,
      fun _ => ⟨⟨_, congrArg Traced.result hdamaged⟩, congrArg Traced.steps hdamaged⟩⟩

theorem readBody_replicate (k : ℕ) : readBody (List.replicate k 0) = .error ⟨.CryptographicException, []⟩ := by
  refine if_neg fun h => ?_
  have hmem : (1 : UInt8) ∈ List.replicate k 0 := by
    rw [h, pfxBody]
    exact List.mem_append_right _ List.mem_cons_self
  exact absurd (List.eq_of_mem_replicate hmem) (by decide)

theorem smallRefusesTruncated : RefusesTruncated smallPlatform := by
  intro key c password pfx hpfx k hk
  obtain rfl : pfxHeader password ++ pfxBody c = pfx := Except.ok.inj hpfx
  refine ⟨[], ?_⟩
  show (if (pfxHeader password).isPrefixOf ((pfxHeader password ++ pfxBody c).take k) = true then
    readBody (((pfxHeader password ++ pfxBody c).take k).drop (pfxHeader password).length) else _) = _
  rw [List.length_append, pfxBody, List.length_append, List.length_replicate, List.length_singleton] at hk
  split_ifs with hprefix
  · have hle : (pfxHeader password).length ≤ k :=
      (List.isPrefixOf_iff_prefix.mp hprefix).length_le.trans (List.length_take_le _ _)
    rw [List.take_append, List.take_of_length_le hle, List.drop_left, pfxBody,
      List.take_append_of_le_length (by rw [List.length_replicate]; omega), List.take_replicate]
    exact readBody_replicate _
  · rfl

/-- The disk after a first store, on day 2, that stops after `n` steps. -/
def stoppedDisk (n : ℕ) : Disk Str :=
  emptyDisk.exec smallHost.umask
    ((callOn smallPlatform smallHost storedSettings emptyDisk (smallMoment 2)).steps.take n)

/-- The call on the day after. -/
def nextCall (n : ℕ) : Traced (Disk.Step Str) Exception ℕ :=
  callOn smallPlatform smallHost storedSettings (stoppedDisk n) (smallMoment 3)

theorem store_interrupted_small : ∃ inside last,
    ((stoppedDisk inside).content (certificatePath storedSettings) = some [] ∧
      ∃ inner, (nextCall inside).result = .error ⟨.InvalidOperationException, inner⟩) ∧
    ∃ c', (nextCall last).result = .ok c' ∧ smallHost.ToLocalTime (smallMoment 3).now < smallPlatform.NotAfter c' := by
  obtain ⟨c, hc⟩ := createAt_small 2 (by decide) (by decide)
  obtain ⟨pfx, before, after, hpfx, -, -, hafter, heq⟩ :=
    createAndStore_eq smallLaws emptyDisk (certificatePath storedSettings) hc
  have hpath : IsNullOrWhiteSpace storedSettings.Path = false := by decide
  have hstored : callOn smallPlatform smallHost storedSettings emptyDisk (smallMoment 2) = _ :=
    callOn_of_stale hpath (Or.inl rfl)
  have hat := Disk.opened_of_lt smallHost.umask emptyDisk before pfx hafter
  have hnext := fun n => store_interrupted smallLaws smallRefusesTruncated hpath (d := emptyDisk) (Or.inl rfl) hc hpfx n
    (smallMoment 3) (createAt_small 3 (by decide) (by decide))
  rw [hstored, heq] at hnext
  have hne : pfx ≠ [] := by
    obtain rfl := Except.ok.inj hpfx
    simp [pfxBody]
  refine ⟨before.length + (0 + 1), before.length + (pfx.length + 1), ⟨?_, ?_⟩, ?_⟩
  · rw [stoppedDisk, hstored, heq]
    exact (hat 0).2
  · rw [nextCall, stoppedDisk, hstored, heq]
    refine ((hnext (before.length + (0 + 1))).2 ⟨(hat 0).1, fun h => hne ?_⟩).1
    exact (Option.some_inj.mp ((hat 0).2.symm.trans h)).symm
  · rw [nextCall, stoppedDisk, hstored, heq]
    refine (hnext (before.length + (pfx.length + 1))).1 fun htorn => htorn.2 ?_
    rw [(hat pfx.length).2, List.take_length]

/-- **A store that is stopped on the way can leave a file the next call refuses.** -/
theorem store_torn_small :
    RefusesTruncated smallPlatform ∧ (∃ c, createAt smallPlatform storedSettings (smallMoment 2) = .ok c) ∧
      ∃ n, ∀ c, (callOn smallPlatform smallHost storedSettings
        (emptyDisk.exec smallHost.umask
          ((callOn smallPlatform smallHost storedSettings emptyDisk (smallMoment 2)).steps.take n))
        (smallMoment 3)).result ≠ .ok c := by
  obtain ⟨c, hc⟩ := createAt_small 2 (by decide) (by decide)
  refine ⟨smallRefusesTruncated, ⟨c, hc⟩, ?_⟩
  obtain ⟨pfx, before, after, hpfx, -, -, hafter, heq⟩ :=
    createAndStore_eq smallLaws emptyDisk (certificatePath storedSettings) hc
  have hpath : IsNullOrWhiteSpace storedSettings.Path = false := by decide
  have hstored : callOn smallPlatform smallHost storedSettings emptyDisk (smallMoment 2) = _ :=
    callOn_of_stale hpath (Or.inl rfl)
  refine ⟨before.length + (0 + 1), fun c' hc' => ?_⟩
  obtain ⟨-, hcontent⟩ := Disk.opened_of_lt smallHost.umask emptyDisk before pfx hafter 0
  have hlen : 0 < pfx.length := by
    obtain rfl := Except.ok.inj hpfx
    simp [pfxBody]
  obtain ⟨inner, hinner⟩ := smallRefusesTruncated _ _ _ _ hpfx 0 hlen
  rw [hstored, heq, callOn_of_damaged hpath hcontent hinner] at hc'
  cases hc'

end MqttServices.BrokerCertificateProvider
