import MqttServices.Broker.CertificateRuns

/-!
# The validity of a generated certificate

* `UsableValidity`: what the configured validity is to give.
* `usableValidity_of_le`: what it gives where it ends within the range of `DateTimeOffset`.
* **`usableValidity_iff`**: it does just there.
* `usableValidity_of_le_days`, `not_usableValidity_of_lt_days`: the days that are usable at any time between 2000 and
  2100, and those that never are.
-/

namespace MqttServices.BrokerCertificateProvider

/-- The beginning of the year 2000. -/
def year2000 : ℤ := 730119 * ticksPerDay

/-- The end of the year 2100. -/
def year2101 : ℤ := 767009 * ticksPerDay

variable {K C : Type} (platform : X509Platform K C) (host : Host) (NotBefore : C → ℤ)
  (settings : BrokerCertificateSettings) (m : Moment K)

/-- What the configured validity is to give at `m`: a period within range, a certificate that is valid from the time of
its creation until a day before its end, and that the next calls keep until then. -/
structure UsableValidity : Prop where
  inRange : ∃ notBefore notAfter, AddDays m.UtcNow₁ (-1) = .ok notBefore ∧
    AddDays m.UtcNow₂ (validityDays settings) = .ok notAfter ∧ notBefore < notAfter
  valid : ∀ c, createAt platform settings m = .ok c → ∀ now, m.UtcNow₁ ≤ now →
    now ≤ m.UtcNow₂ + (validityDays settings - 1) * ticksPerDay →
      NotBefore c ≤ host.ToLocalTime now ∧ host.ToLocalTime now < platform.NotAfter c
  kept : ∀ c, createAt platform settings m = .ok c → IsNullOrWhiteSpace settings.Path = false → ∀ d : Disk Str,
    (d.content (certificatePath settings) = none ∨
      ∃ old, Holds platform settings d old ∧ platform.NotAfter old ≤ host.ToLocalTime m.now) →
    ∀ m' : Moment K, host.ToLocalTime m'.now < platform.NotAfter c →
      callOn platform host settings (d.exec host.umask (callOn platform host settings d m).steps) m' = pure c

/-- What is asked of the platform besides: a certificate begins when it was asked to, in whole seconds. -/
def BeginsAsAsked : Prop :=
  ∀ key request notBefore notAfter c, platform.CreateSelfSigned key request notBefore notAfter = .ok c →
    NotBefore c = host.ToLocalTime (floorToSecond notBefore)

variable {platform host NotBefore settings m}

/-- **What is created is what was asked for**: it begins a day ago, and ends after the configured days. -/
theorem period_of_createAt (laws : Laws platform host) (hbegins : BeginsAsAsked platform host NotBefore) {c : C}
    (h : createAt platform settings m = .ok c) :
    NotBefore c = host.ToLocalTime (floorToSecond (m.UtcNow₁ - ticksPerDay)) ∧
      platform.NotAfter c =
        host.ToLocalTime (floorToSecond (m.UtcNow₂ + validityDays settings * ticksPerDay)) := by
  obtain ⟨request, hcreated⟩ := createAt_eq_ok laws h
  exact ⟨hbegins _ _ _ _ _ hcreated, laws.notAfter _ _ _ _ _ hcreated⟩

/-- **A validity that ends within range is usable.** -/
theorem usableValidity_of_le (laws : Laws platform host) (hbegins : BeginsAsAsked platform host NotBefore)
    (hclock : year2000 ≤ m.UtcNow₁) (hrange : m.UtcNow₂ + validityDays settings * ticksPerDay ≤ maxTicks) :
    UsableValidity platform host NotBefore settings m where
  inRange := by
    have hdays := one_le_validityDays settings
    have hle := m.UtcNow_le
    simp only [year2000, ticksPerDay] at hclock hrange
    refine ⟨_, _, (AddDays_eq_ok_iff _ _ _).mpr ⟨rfl, ?_, ?_⟩, (AddDays_eq_ok_iff _ _ _).mpr ⟨rfl, ?_, ?_⟩, ?_⟩
    all_goals simp only [ticksPerDay, maxTicks] at hrange ⊢; omega
  valid c hc now hfirst hlast := by
    obtain ⟨hnotBefore, hnotAfter⟩ := period_of_createAt laws hbegins hc
    rw [hnotBefore, hnotAfter]
    constructor
    · apply le_of_lt
      apply laws.localTime
      have hfloor := floorToSecond_le (m.UtcNow₁ - ticksPerDay)
      have hsecond : 0 < ticksPerSecond := by decide
      omega
    · apply laws.localTime
      have hfloor := sub_lt_floorToSecond (m.UtcNow₂ + validityDays settings * ticksPerDay)
      rw [Int.sub_mul] at hlast
      omega
  kept c hc hpath d hstale m' hvalid := by
    obtain ⟨-, hholds⟩ := holds_of_createAndStore (d := d) laws hc
    rw [← callOn_of_stale hpath hstale] at hholds
    exact callOn_of_holds hpath hholds hvalid

theorem le_maxTicks_of_usableValidity (h : UsableValidity platform host NotBefore settings m) :
    m.UtcNow₂ + validityDays settings * ticksPerDay ≤ maxTicks := by
  obtain ⟨notBefore, notAfter, -, hafter, -⟩ := h.inRange
  obtain ⟨heq, -, hmax⟩ := (AddDays_eq_ok_iff _ _ _).mp hafter
  rw [← heq]
  exact hmax

/-- **A configured validity is usable just when it ends within range.** -/
theorem usableValidity_iff (laws : Laws platform host) (hbegins : BeginsAsAsked platform host NotBefore)
    (hclock : year2000 ≤ m.UtcNow₁) :
    UsableValidity platform host NotBefore settings m ↔
      m.UtcNow₂ + validityDays settings * ticksPerDay ≤ maxTicks :=
  ⟨le_maxTicks_of_usableValidity, usableValidity_of_le laws hbegins hclock⟩

/-! ## Days -/

theorem validityDays_le {n : ℤ} (hdefault : 3650 ≤ n) (h : settings.ValidityDays.toInt ≤ n) :
    validityDays settings ≤ n := by
  rw [validityDays]
  split_ifs
  · exact h
  · exact hdefault

/-- **Days that are usable at any time between 2000 and 2100**, negative ones and zero among them. -/
theorem usableValidity_of_le_days (laws : Laws platform host) (hbegins : BeginsAsAsked platform host NotBefore)
    (hclock : year2000 ≤ m.UtcNow₁) (hend : m.UtcNow₂ < year2101) (hdays : settings.ValidityDays.toInt ≤ 2885050) :
    UsableValidity platform host NotBefore settings m := by
  apply usableValidity_of_le laws hbegins hclock
  have hle := validityDays_le (by decide) hdays
  simp only [year2101, ticksPerDay, maxTicks] at hend ⊢
  omega

/-- **Days that are usable at no time since 2000.** -/
theorem not_usableValidity_of_lt_days (hclock : year2000 ≤ m.UtcNow₁) (hdays : 2921939 < settings.ValidityDays.toInt) :
    ¬ UsableValidity platform host NotBefore settings m := by
  intro h
  have hmax := le_maxTicks_of_usableValidity h
  have hpos : 0 < settings.ValidityDays := by
    rw [Int32.lt_iff_toInt_lt, Int32.toInt_zero]
    omega
  have hle := m.UtcNow_le
  rw [validityDays, if_pos hpos] at hmax
  simp only [year2000, ticksPerDay, maxTicks] at hclock hmax
  omega

/-! ## A small platform -/

/-- The seconds of two bodies in a row. -/
def readPeriod (bytes : List UInt8) : Except Exception (ℕ × ℕ) := do
  let n := (bytes.takeWhile (· = 0)).length
  let first ← readBody (bytes.take (n + 1))
  let last ← readBody (bytes.drop (n + 1))
  pure (first, last)

/-- A platform on which a certificate is the second it begins in and the one it ends in. -/
def periodPlatform : X509Platform Unit (ℕ × ℕ) where
  TryParse := smallPlatform.TryParse
  AddDnsName := smallPlatform.AddDnsName
  X500DistinguishedName := smallPlatform.X500DistinguishedName
  CreateSelfSigned _ _ notBefore notAfter :=
    if notBefore ≤ notAfter ∧ 0 ≤ notBefore then
      .ok ((notBefore / ticksPerSecond).toNat, (notAfter / ticksPerSecond).toNat)
    else .error ⟨.other "ArgumentException".toList, []⟩
  Export _ c password := .ok (pfxHeader password ++ (pfxBody c.1 ++ pfxBody c.2))
  LoadPkcs12 bytes password :=
    if (pfxHeader password).isPrefixOf bytes then readPeriod (bytes.drop (pfxHeader password).length)
    else .error ⟨.CryptographicException, []⟩
  NotAfter c := c.2 * ticksPerSecond
  Sha256 c := smallPlatform.Sha256 c.2

theorem readPeriod_pfxBody (c : ℕ × ℕ) : readPeriod (pfxBody c.1 ++ pfxBody c.2) = .ok c := by
  have htake : ((pfxBody c.1 ++ pfxBody c.2).takeWhile (· = 0)).length = c.1 := by
    rw [pfxBody, List.append_assoc, List.takeWhile_append_of_pos (by simp)]
    simp
  have hlen : (pfxBody c.1).length = c.1 + 1 := by simp [pfxBody]
  rw [readPeriod, htake, List.take_left' hlen, List.drop_left' hlen, readBody_pfxBody, readBody_pfxBody]
  rfl

theorem periodLaws : Laws periodPlatform smallHost where
  load_export key c password :=
    ⟨_, rfl, (read_after_header password (pfxBody c.1 ++ pfxBody c.2) readPeriod _).trans (readPeriod_pfxBody c)⟩
  notAfter key request notBefore notAfter c h := by
    simp only [periodPlatform] at h
    split_ifs at h with hle
    rw [← Except.ok.inj h]
    exact toNat_mul_ticksPerSecond (hle.2.trans hle.1)
  localTime := smallLaws.localTime

/-- The time a certificate of the small platform begins at. -/
def periodNotBefore (c : ℕ × ℕ) : ℤ := c.1 * ticksPerSecond

theorem periodBegins : BeginsAsAsked periodPlatform smallHost periodNotBefore := by
  intro key request notBefore notAfter c h
  simp only [periodPlatform] at h
  split_ifs at h with hle
  rw [← Except.ok.inj h]
  exact toNat_mul_ticksPerSecond hle.2

theorem usableValidity_iff_stored :
    UsableValidity periodPlatform smallHost periodNotBefore storedSettings (smallMoment 740000) :=
  (@usableValidity_iff _ _ _ _ _ storedSettings (smallMoment 740000) periodLaws periodBegins (by decide)).mpr
    (by decide)

/-- Settings that ask for the longest validity. -/
def longestSettings : BrokerCertificateSettings := { ValidityDays := Int32.maxValue }

/-- **The longest validity makes the start fail.** -/
theorem not_usableValidity_longest :
    createAt periodPlatform longestSettings (smallMoment 740000) = .error ⟨.ArgumentOutOfRangeException, []⟩ ∧
      ¬ UsableValidity periodPlatform smallHost periodNotBefore longestSettings (smallMoment 740000) :=
  ⟨by decide, not_usableValidity_of_lt_days (by decide) (by decide)⟩

end MqttServices.BrokerCertificateProvider
