import MqttServices.Broker.BrokerService
import MqttServices.Client.CertificateValidator

/-!
# A client that pins the certificate of the broker

* `BrokerMachine`, `BrokerMachine.step`: the starts of the service on one disk, each as a new process.
* `start_cases`: what a start does, whatever is on the disk.
* `Shown`: the fingerprint a start reports is that of the certificate on the disk, which its servers present.
* `holds_run`, `replaced_run`: the certificate of one start over the later ones.
* **`pinned_client_accepts_iff`**: a client that pins the reported fingerprint accepts the servers of every later start
  until one of them replaces the certificate.
-/

namespace MqttServices

/-- A machine: its disk, and the service of the last start. -/
structure BrokerMachine (C : Type) where
  disk : Disk Str
  broker : MqttBrokerService C

namespace BrokerMachine

open BrokerCertificateProvider

variable {K C : Type} (platform : X509Platform K C) (host : Host) (settings : MqttBrokerSettings)

/-- The call of `StartBroker` in a new process. -/
def startCall (d : Disk Str) (m : Moment K) (StartAsync : ℕ → StartOutcome) : StartCall K C where
  settings := settings
  env := environment platform host d m
  StartAsync := StartAsync

/-- What a start does to the disk. -/
def diskSteps {K C : Type} (platform : X509Platform K C) (call : StartCall K C) : List (Disk.Step Str) :=
  if call.settings.EnableBroker ∧ call.settings.IsValid = .ok true then
    (GetOrCreate platform call.env call.settings.Certificate).steps
  else []

/-- A start, at a moment, whose attempts end as `StartAsync` says. -/
def step (s : BrokerMachine C) (start : Moment K × (ℕ → StartOutcome)) : Option (BrokerMachine C) :=
  let call := startCall platform host settings s.disk start.1 start.2
  some ⟨s.disk.exec host.umask (diskSteps platform call),
    (MqttBrokerService.initial.StartBroker platform call).1⟩

/-- Settings under which every start asks for the certificate at the configured path. -/
structure Serves (certificateSettings : BrokerCertificateSettings) : Prop where
  broker : settings.EnableBroker = true
  valid : settings.IsValid = .ok true
  certificate : settings.Certificate = some certificateSettings
  path : IsNullOrWhiteSpace certificateSettings.Path = false

variable (certificateSettings : BrokerCertificateSettings)

/-- A start at this moment finds the certificate expired, and creates another one. -/
def Replaces (p : C) (m : Moment K) : Prop :=
  platform.NotAfter p ≤ host.ToLocalTime m.now ∧ ∃ c, createAt platform certificateSettings m = .ok c

/-- The certificate is on the disk, and the servers of the machine present it. -/
structure Presents (s : BrokerMachine C) (c : C) : Prop where
  holds : Holds platform certificateSettings s.disk c
  servers : ∀ server ∈ s.broker.servers, server.options.certificate = c

variable {platform host settings certificateSettings} {s t : BrokerMachine C} {m : Moment K}
  {StartAsync : ℕ → StartOutcome}

/-! ## One start -/

/-- **A call of `GetOrCreate`, whatever is on the disk**: the certificate there, a new one stored there, or none and
the disk as it was. -/
theorem callOn_cases (laws : Laws platform host) (hpath : IsNullOrWhiteSpace certificateSettings.Path = false)
    (d : Disk Str) (m : Moment K) :
    (∃ c, Holds platform certificateSettings d c ∧ host.ToLocalTime m.now < platform.NotAfter c ∧
      callOn platform host certificateSettings d m = pure c) ∨
    (∃ c, createAt platform certificateSettings m = .ok c ∧
      (∀ old, Holds platform certificateSettings d old → platform.NotAfter old ≤ host.ToLocalTime m.now) ∧
      (callOn platform host certificateSettings d m).result = .ok c ∧
      Holds platform certificateSettings (d.exec host.umask (callOn platform host certificateSettings d m).steps) c) ∨
    ∃ e, callOn platform host certificateSettings d m = Traced.ofExcept (.error e) ∧
      (d.content (certificatePath certificateSettings) = none ∨ (∃ old, Holds platform certificateSettings d old) →
        ∀ c, createAt platform certificateSettings m ≠ .ok c) := by
  by_cases hvalid : ∃ c, Holds platform certificateSettings d c ∧ host.ToLocalTime m.now < platform.NotAfter c
  · obtain ⟨c, hc, hlt⟩ := hvalid
    exact Or.inl ⟨c, hc, hlt, callOn_of_holds hpath hc hlt⟩
  have hexpired : ∀ old, Holds platform certificateSettings d old → platform.NotAfter old ≤ host.ToLocalTime m.now :=
    fun old hold => not_lt.mp fun hlt => hvalid ⟨old, hold, hlt⟩
  right
  by_cases hstale : d.content (certificatePath certificateSettings) = none ∨
      ∃ old, Holds platform certificateSettings d old ∧ platform.NotAfter old ≤ host.ToLocalTime m.now
  · have hcall := @callOn_of_stale _ _ platform host certificateSettings d m hpath hstale
    cases hcreate : createAt platform certificateSettings m with
    | ok c =>
      obtain ⟨hresult, hholds⟩ := holds_of_createAndStore (d := d) laws hcreate
      rw [← hcall] at hresult hholds
      exact Or.inl ⟨c, rfl, hexpired, hresult, hholds⟩
    | error e =>
      refine Or.inr ⟨e, ?_, fun _ c hc => by cases hc⟩
      have herror : Create platform (environment platform host d m).key (environment platform host d m).UtcNow₁
          (environment platform host d m).UtcNow₂ certificateSettings = .error e := hcreate
      rw [hcall, createAndStore, herror, Traced.ofExcept_error_bind]
  · right
    rw [not_or] at hstale
    obtain ⟨bytes, hbytes⟩ := Option.ne_none_iff_exists'.mp hstale.1
    have hnone : ¬ ∃ old, Holds platform certificateSettings d old := by
      rintro ⟨old, hold⟩
      exact hstale.2 ⟨old, hold, hexpired old hold⟩
    cases hload : Load (environment platform host d m) (certificatePath certificateSettings)
        certificateSettings.Password with
    | ok c =>
      rw [Load_eq_ok_iff, LoadPkcs12FromFile_environment hbytes] at hload
      exact absurd ⟨c, bytes, hbytes, hload⟩ hnone
    | error e =>
      exact ⟨e, GetOrCreate_of_unread hpath ((exists_environment _).mpr ⟨bytes, hbytes⟩) hload,
        fun hreadable => absurd hreadable (not_or.mpr ⟨hstale.1, hnone⟩)⟩

theorem StartBroker_of_certificate (hserves : Serves settings certificateSettings) {call : StartCall K C}
    (hcall : call.settings = settings) {c : C} (hc : MqttBrokerService.certificateOf platform call = .ok c) :
    (MqttBrokerService.initial.StartBroker platform call).1.CertificateThumbprint =
        some (platform.Sha256 c).toHexString ∧
      (∀ server ∈ (MqttBrokerService.initial.StartBroker platform call).1.servers, server.options.certificate = c) ∧
      (MqttBrokerService.Starts call.StartAsync maxRetries 1 →
        (MqttBrokerService.initial.StartBroker platform call).1.Listening) := by
  obtain ⟨status, hattempted, hstatus⟩ := MqttBrokerService.startLoop_eq call.StartAsync
    (MqttBrokerService.serverOptions call.settings c) (show 0 < maxRetries by decide) 1
    { MqttBrokerService.initial with CertificateThumbprint := some (platform.Sha256 c).toHexString }
  have hstart : (MqttBrokerService.initial.StartBroker platform call).1 =
      MqttBrokerService.startLoop (MqttBrokerService.serverOptions call.settings c) call.StartAsync maxRetries 1
        { MqttBrokerService.initial with CertificateThumbprint := some (platform.Sha256 c).toHexString } := by
    rw [MqttBrokerService.StartBroker, hcall, if_pos hserves.broker, hserves.valid]
    simp only [MqttBrokerService.StartMqttServer, hc, hcall]
  obtain ⟨n, hservers, -⟩ := hattempted.servers
  rw [hstart]
  refine ⟨hattempted.fingerprint, fun server hserver => ?_, fun hstarts => ?_⟩
  · rw [hservers] at hserver
    rcases List.mem_append.mp hserver with h | h
    · exact absurd h List.not_mem_nil
    · rcases List.mem_append.mp h with h | h
      · rw [List.eq_of_mem_replicate h]
        rfl
      · rw [List.mem_singleton.mp h]
        rfl
  · obtain ⟨-, rfl⟩ := hstatus.resolve_right fun h => h.1 hstarts
    exact hattempted.listening_last

/-- **A start**: it presents the certificate on the disk, or a new one where that has expired, or has no servers. -/
theorem start_cases (laws : Laws platform host) (hserves : Serves settings certificateSettings)
    (hs : step platform host settings s (m, StartAsync) = some t) :
    (∃ c, Presents platform certificateSettings t c ∧
      t.broker.CertificateThumbprint = some (platform.Sha256 c).toHexString ∧
      (MqttBrokerService.Starts StartAsync maxRetries 1 → t.broker.Listening) ∧
      (t.disk = s.disk ∧ host.ToLocalTime m.now < platform.NotAfter c ∨
        createAt platform certificateSettings m = .ok c ∧
        ∀ old, Holds platform certificateSettings s.disk old → platform.NotAfter old ≤ host.ToLocalTime m.now)) ∨
    t.disk = s.disk ∧ t.broker = MqttBrokerService.initial ∧
      (s.disk.content (certificatePath certificateSettings) = none ∨
          (∃ old, Holds platform certificateSettings s.disk old) →
        ∀ c, createAt platform certificateSettings m ≠ .ok c) := by
  have hsteps : diskSteps platform (startCall platform host settings s.disk m StartAsync) =
      (callOn platform host certificateSettings s.disk m).steps := by
    rw [diskSteps, if_pos ⟨hserves.broker, hserves.valid⟩, callOn, ← hserves.certificate]
    rfl
  have hcertificate : MqttBrokerService.certificateOf platform (startCall platform host settings s.disk m StartAsync) =
      (callOn platform host certificateSettings s.disk m).result := by
    rw [MqttBrokerService.certificateOf, callOn, ← hserves.certificate]
    rfl
  cases hs
  rw [hsteps]
  rcases callOn_cases laws hserves.path s.disk m with ⟨c, hc, hlt, hcall⟩ | ⟨c, hc, hexpired, hresult, hholds⟩ |
    ⟨e, hcall, hcreate⟩
  · rw [hcall, Traced.result_pure] at hcertificate
    obtain ⟨hshown, hservers, hlistening⟩ := StartBroker_of_certificate hserves rfl hcertificate
    rw [hcall]
    exact Or.inl ⟨c, ⟨hc, hservers⟩, hshown, hlistening, Or.inl ⟨rfl, hlt⟩⟩
  · rw [hresult] at hcertificate
    obtain ⟨hshown, hservers, hlistening⟩ := StartBroker_of_certificate hserves rfl hcertificate
    exact Or.inl ⟨c, ⟨hholds, hservers⟩, hshown, hlistening, Or.inr ⟨hc, hexpired⟩⟩
  · rw [hcall] at hcertificate ⊢
    refine Or.inr ⟨rfl, MqttBrokerService.StartBroker_of_unattempted ?_, hcreate⟩
    exact Or.inr (Or.inr ⟨e, hcertificate⟩)

/-- A start on a disk that holds a certificate keeps it, or replaces it. -/
theorem holds_step (laws : Laws platform host) (hserves : Serves settings certificateSettings) {p : C}
    (hp : Holds platform certificateSettings s.disk p) (hs : step platform host settings s (m, StartAsync) = some t) :
    ∃ q, Presents platform certificateSettings t q ∧
      (q = p ∧ ¬ Replaces platform host certificateSettings p m ∨
        createAt platform certificateSettings m = .ok q ∧ Replaces platform host certificateSettings p m) := by
  rcases start_cases laws hserves hs with ⟨c, hpresents, -, -, ⟨hdisk, hlt⟩ | ⟨hcreate, hexpired⟩⟩ |
    ⟨hdisk, hbroker, hcreate⟩
  · have hcp : c = p := hpresents.holds.unique (hdisk ▸ hp)
    refine ⟨c, hpresents, Or.inl ⟨hcp, fun hreplaces => ?_⟩⟩
    rw [hcp] at hlt
    exact absurd hlt (not_lt.mpr hreplaces.1)
  · exact ⟨c, hpresents, Or.inr ⟨hcreate, hexpired p hp, c, hcreate⟩⟩
  · refine ⟨p, ⟨hdisk ▸ hp, fun server hserver => ?_⟩, Or.inl ⟨rfl, ?_⟩⟩
    · rw [hbroker] at hserver
      exact absurd hserver List.not_mem_nil
    · rintro ⟨-, c, hc⟩
      exact hcreate (Or.inr ⟨p, hp⟩) c hc

/-! ## From start to start -/

/-- What the machine reports is the fingerprint of the certificate it presents. -/
def Shown (platform : X509Platform K C) (certificateSettings : BrokerCertificateSettings) (s : BrokerMachine C) :
    Prop :=
  ∀ fingerprint, s.broker.CertificateThumbprint = some fingerprint →
    ∃ p, Presents platform certificateSettings s p ∧ fingerprint = (platform.Sha256 p).toHexString

theorem shown_step (laws : Laws platform host) (hserves : Serves settings certificateSettings)
    (hs : step platform host settings s (m, StartAsync) = some t) : Shown platform certificateSettings t := by
  intro fingerprint hfingerprint
  rcases start_cases laws hserves hs with ⟨c, hpresents, hshown, -, -⟩ | ⟨-, hbroker, -⟩
  · rw [hshown] at hfingerprint
    exact ⟨c, hpresents, (Option.some_inj.mp hfingerprint).symm⟩
  · rw [hbroker] at hfingerprint
    cases hfingerprint

/-- Once another certificate is presented, the one that was is not presented again. -/
theorem replaced_run (laws : Laws platform host) (hserves : Serves settings certificateSettings) {p q : C}
    (hq : Presents platform certificateSettings s q) (hne : platform.Sha256 q ≠ platform.Sha256 p)
    {bs : List (Moment K × (ℕ → StartOutcome))}
    (hfresh : ∀ b ∈ bs, ∀ c, createAt platform certificateSettings b.1 = .ok c → platform.Sha256 c ≠ platform.Sha256 p)
    (hrun : Run.exec (step platform host settings) s bs = some t) :
    ∃ q, Presents platform certificateSettings t q ∧ platform.Sha256 q ≠ platform.Sha256 p := by
  refine Run.invariant_of_meets (I := fun u => ∃ q, Presents platform certificateSettings u q ∧
    platform.Sha256 q ≠ platform.Sha256 p) ?_ ⟨q, hq, hne⟩ (Run.Meets.of_forall hfresh s) hrun
  rintro u ⟨m, StartAsync⟩ v ⟨q, hq, hne⟩ hcreated hs
  obtain ⟨q', hq', ⟨rfl, -⟩ | ⟨hcreate, -⟩⟩ := holds_step laws hserves hq.holds hs
  · exact ⟨q', hq', hne⟩
  · exact ⟨q', hq', hcreated q' hcreate⟩

/-- **The certificate over the starts**: it is the one presented until a start replaces it. -/
theorem presents_run (laws : Laws platform host) (hserves : Serves settings certificateSettings) {p : C}
    (hp : Presents platform certificateSettings s p) {bs : List (Moment K × (ℕ → StartOutcome))}
    (hfresh : ∀ b ∈ bs, ∀ c, createAt platform certificateSettings b.1 = .ok c → platform.Sha256 c ≠ platform.Sha256 p)
    (hrun : Run.exec (step platform host settings) s bs = some t) :
    ∃ q, Presents platform certificateSettings t q ∧
      (platform.Sha256 q = platform.Sha256 p ↔ ∀ b ∈ bs, ¬ Replaces platform host certificateSettings p b.1) := by
  induction bs generalizing s with
  | nil =>
    cases hrun
    exact ⟨p, hp, iff_of_true rfl (List.forall_mem_nil _)⟩
  | cons b bs ih =>
    obtain ⟨u, hu, hrest⟩ := Run.exec_cons_eq_some.mp hrun
    obtain ⟨hhead, htail⟩ := List.forall_mem_cons.mp hfresh
    obtain ⟨q, hq, ⟨rfl, hkept⟩ | ⟨hcreate, hreplaces⟩⟩ := holds_step laws hserves hp.holds hu
    · obtain ⟨r, hr, hiff⟩ := ih hq htail hrest
      refine ⟨r, hr, hiff.trans ?_⟩
      rw [List.forall_mem_cons]
      exact ⟨fun h => ⟨hkept, h⟩, And.right⟩
    · obtain ⟨r, hr, hne⟩ := replaced_run laws hserves hq (hhead q hcreate) htail hrest
      exact ⟨r, hr, iff_of_false hne fun h => h b List.mem_cons_self hreplaces⟩

/-! ## The client -/

open MqttCertificateValidator

/-- A client whose configured value spells a fingerprint accepts the certificates that have it. -/
theorem accepts_spelled_iff {client : MqttClientSettings} (hallow : client.AllowUntrustedCertificates = false)
    {fingerprint : Digest} {v : Str} (hv : client.TrustedCertificateThumbprint = some v)
    (hspell : Spelling.Spells IsAsciiHexDigit ToUpperInvariant fingerprint.toHexString v) (Sha256 : C → Digest) (c : C)
    (e : Int32) : (IsAcceptable Sha256 client (some c) e).1 = true ↔ Sha256 c = fingerprint := by
  have hdigits : digits (orEmpty client.TrustedCertificateThumbprint) = fingerprint.toHexString := by
    rw [hv]
    exact hspell.reduce_eq.trans (digits_toHexString fingerprint)
  have hne : digits (orEmpty client.TrustedCertificateThumbprint) ≠ [] := by
    rw [hdigits]
    exact List.ne_nil_of_length_pos (by rw [fingerprint.length_toHexString]; decide)
  rw [IsAcceptable_of_digit hallow hne, IsPinnedCertificate_iff, hdigits]
  constructor
  · rintro ⟨d, hd, h⟩
    cases hd
    exact (Digest.toHexString_injective h).symm
  · rintro rfl
    exact ⟨c, rfl, rfl⟩

/-- **A pinned client over the restarts of the broker**: where it pins the fingerprint one start reports, however it is
spelled, it accepts what the servers of a later start present, whatever the platform makes of it, if and only if no
start in between has found the certificate expired and created another one. -/
theorem pinned_client_accepts_iff (laws : Laws platform host) (hserves : Serves settings certificateSettings)
    {client : MqttClientSettings} (hallow : client.AllowUntrustedCertificates = false) {d : Disk Str}
    {as bs : List (Moment K × (ℕ → StartOutcome))}
    (hrun : Run.exec (step platform host settings) ⟨d, MqttBrokerService.initial⟩ as = some s) {fingerprint v : Str}
    (hshown : s.broker.CertificateThumbprint = some fingerprint) (hv : client.TrustedCertificateThumbprint = some v)
    (hspell : Spelling.Spells IsAsciiHexDigit ToUpperInvariant fingerprint v)
    (hrest : Run.exec (step platform host settings) s bs = some t)
    (hfresh : ∀ b ∈ bs, ∀ c, createAt platform certificateSettings b.1 = .ok c →
      (platform.Sha256 c).toHexString ≠ fingerprint) :
    ∃ p, Holds platform certificateSettings s.disk p ∧ fingerprint = (platform.Sha256 p).toHexString ∧
      ∀ server ∈ t.broker.servers, ∀ e,
        (IsAcceptable platform.Sha256 client (some server.options.certificate) e).1 = true ↔
          ∀ b ∈ bs, ¬ Replaces platform host certificateSettings p b.1 := by
  have hall : Shown platform certificateSettings s := by
    refine Run.invariant (fun _ _ _ _ hs => shown_step laws hserves hs) ?_ hrun
    intro fingerprint h
    cases h
  obtain ⟨p, hp, rfl⟩ := hall fingerprint hshown
  obtain ⟨q, hq, hiff⟩ := presents_run laws hserves hp
    (fun b hb c hc heq => hfresh b hb c hc (congrArg Digest.toHexString heq)) hrest
  refine ⟨p, hp.holds, rfl, fun server hserver e => ?_⟩
  rw [accepts_spelled_iff hallow hv hspell, hq.servers server hserver]
  exact hiff

/-- Settings of a broker that keeps its certificate. -/
def keptSettings : MqttBrokerSettings :=
  { MqttBrokerService.smallBrokerSettings with Certificate := some storedSettings }

theorem serves_keptSettings : Serves keptSettings storedSettings := ⟨rfl, by decide, rfl, by decide⟩

/-- A start on a day, where the first attempt succeeds. -/
def startOn (day : ℕ) : Moment Unit × (ℕ → StartOutcome) := (smallMoment day, fun _ => .started)

theorem createAt_small_eq {day c : ℕ} (h : createAt smallPlatform storedSettings (smallMoment day) = .ok c) :
    c = ((day * ticksPerDay + 3650 * ticksPerDay : ℤ) / ticksPerSecond).toNat := by
  obtain ⟨request, hcreated⟩ := createAt_eq_ok smallLaws h
  have hdays : validityDays storedSettings = 3650 := by decide
  rw [hdays] at hcreated
  simp only [smallPlatform] at hcreated
  split_ifs at hcreated
  exact (Except.ok.inj hcreated).symm

/-- **A client that pinned the broker on one day** trusts it on the next. -/
theorem pinned_client_accepts_iff_days : ∃ s t fingerprint,
    Run.exec (step smallPlatform smallHost keptSettings) ⟨emptyDisk, MqttBrokerService.initial⟩ [startOn 2] = some s ∧
    s.broker.CertificateThumbprint = some fingerprint ∧
    Run.exec (step smallPlatform smallHost keptSettings) s [startOn 3] = some t ∧ t.broker.Listening ∧
    ∀ server ∈ t.broker.servers, ∀ e,
      (IsAcceptable smallPlatform.Sha256 (pinSettings fingerprint) (some server.options.certificate) e).1 = true := by
  obtain ⟨s, hs⟩ : ∃ s, step smallPlatform smallHost keptSettings ⟨emptyDisk, MqttBrokerService.initial⟩ (startOn 2) =
    some s := ⟨_, rfl⟩
  obtain ⟨t, ht⟩ : ∃ t, step smallPlatform smallHost keptSettings s (startOn 3) = some t := ⟨_, rfl⟩
  have hrun : Run.exec (step smallPlatform smallHost keptSettings) ⟨emptyDisk, MqttBrokerService.initial⟩ [startOn 2] =
    some s := Run.exec_cons_eq_some.mpr ⟨s, hs, rfl⟩
  have hrest : Run.exec (step smallPlatform smallHost keptSettings) s [startOn 3] = some t :=
    Run.exec_cons_eq_some.mpr ⟨t, ht, rfl⟩
  obtain ⟨first, hfirst⟩ := createAt_small 2 (by decide) (by decide)
  obtain ⟨second, hsecond⟩ := createAt_small 3 (by decide) (by decide)
  obtain ⟨c, hpresents, hshown, -, hnew⟩ := (start_cases smallLaws serves_keptSettings hs).resolve_right
    fun h => h.2.2 (Or.inl rfl) first hfirst
  obtain ⟨-, -, -, hlistening, -⟩ := (start_cases smallLaws serves_keptSettings ht).resolve_right
    fun h => h.2.2 (Or.inr ⟨c, hpresents.holds⟩) second hsecond
  have hc : createAt smallPlatform storedSettings (smallMoment 2) = .ok c := by
    refine (hnew.resolve_left fun h => ?_).1
    obtain ⟨bytes, hbytes, -⟩ := hpresents.holds
    rw [h.1] at hbytes
    cases hbytes
  have hspell : Spelling.Spells IsAsciiHexDigit ToUpperInvariant (smallPlatform.Sha256 c).toHexString
      (smallPlatform.Sha256 c).toHexString := (Spelling.spells_iff fun _ => Digest.isAsciiHexDigit_of_mem).mpr rfl
  have hfresh : ∀ b ∈ [startOn 3], ∀ c', createAt smallPlatform storedSettings b.1 = .ok c' →
      (smallPlatform.Sha256 c').toHexString ≠ (smallPlatform.Sha256 c).toHexString := by
    intro b hb c' hc' heq
    rw [List.mem_singleton.mp hb] at hc'
    have hdigest := Digest.toHexString_injective heq
    rw [createAt_small_eq hc, createAt_small_eq hc'] at hdigest
    exact absurd hdigest (by decide)
  obtain ⟨p, hp, -, haccepts⟩ := @pinned_client_accepts_iff _ _ smallPlatform smallHost keptSettings storedSettings s t
    smallLaws serves_keptSettings (pinSettings (smallPlatform.Sha256 c).toHexString) rfl emptyDisk [startOn 2]
    [startOn 3] hrun _ _ hshown rfl hspell hrest hfresh
  obtain rfl : p = c := hp.unique hpresents.holds
  refine ⟨s, t, _, hrun, hshown, hrest, hlistening MqttBrokerService.starts_first, fun server hserver e => ?_⟩
  rw [haccepts server hserver e]
  rintro b hb ⟨hexpired, -⟩
  rw [List.mem_singleton.mp hb, createAt_small_eq hc] at hexpired
  exact absurd hexpired (by decide)

end BrokerMachine

end MqttServices
