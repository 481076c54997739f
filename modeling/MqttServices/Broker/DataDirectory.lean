import MqttServices.Broker.CertificateProvider
import MqttServices.Common.Path

/-!
# The data directory

* `Anchor`: the path of the certificate, made absolute below the data directory.
* `Anchor_eq_nil_iff`, `Anchor_Anchor`: a blank path stays empty, and an anchored one stays as it is;
  **`certificatePath_anchorCertificate`**: the provider uses it as it is.
* `Anchored`, **`anchored_iff`**: the paths that are anchored in the directory; `anchored_of_downward`: those without
  dot-dot segments.
-/

namespace MqttServices.DataDirectory

variable (rules : PathRules)

def Anchor (path : Option Str) (dataDirectory : Str) : Str :=
  let value := Trim (orEmpty path)
  if value.length = 0 ∨ rules.IsPathRooted value then value else rules.Combine dataDirectory value

/-- An anchored path is empty just when the configured one is blank. Otherwise it is fully qualified, and below the
directory where the configured one was not fully qualified. Anchoring it again changes nothing. -/
structure Anchored (path : Option Str) (dataDirectory : Str) : Prop where
  empty_iff : Anchor rules path dataDirectory = [] ↔ IsNullOrWhiteSpace path = true
  qualified : Anchor rules path dataDirectory ≠ [] → rules.IsPathFullyQualified (Anchor rules path dataDirectory) = true
  below : Anchor rules path dataDirectory ≠ [] → rules.IsPathFullyQualified (orEmpty path) = false →
    rules.Below dataDirectory (Anchor rules path dataDirectory)
  idempotent : Anchor rules (some (Anchor rules path dataDirectory)) dataDirectory = Anchor rules path dataDirectory

/-- The path is blank; or rooted, then fully qualified, and below the directory where only blanks before it keep it from
being so as it stands; or neither, and descends from the directory. -/
def Stays (path : Option Str) (dataDirectory : Str) : Prop :=
  let value := Trim (orEmpty path)
  value = [] ∨
    if rules.IsPathRooted value then
      rules.IsPathFullyQualified value = true ∧
        (rules.IsPathFullyQualified (orEmpty path) = true ∨ rules.Below dataDirectory value)
    else rules.Descends dataDirectory value

instance (path : Option Str) (dataDirectory : Str) : Decidable (Stays rules path dataDirectory) := by
  unfold Stays
  infer_instance

variable {rules} {path : Option Str} {dataDirectory : Str}

/-! ## The three cases -/

theorem Anchor_of_blank (h : Trim (orEmpty path) = []) : Anchor rules path dataDirectory = [] := by
  simp only [Anchor, h, List.length_nil, true_or, if_true]

theorem Anchor_of_rooted (h : rules.IsPathRooted (Trim (orEmpty path)) = true) :
    Anchor rules path dataDirectory = Trim (orEmpty path) := if_pos (.inr h)

theorem Anchor_of_not_rooted (hne : Trim (orEmpty path) ≠ []) (h : rules.IsPathRooted (Trim (orEmpty path)) = false) :
    Anchor rules path dataDirectory = rules.Combine dataDirectory (Trim (orEmpty path)) := by
  rw [Anchor, if_neg]
  simp [hne, h]

/-- What is combined is fully qualified and has no blank at either end. -/
theorem Combine_spec (hl : rules.Lawful) (hd : rules.IsPathFullyQualified dataDirectory = true)
    (hne : Trim (orEmpty path) ≠ []) (h : rules.IsPathRooted (Trim (orEmpty path)) = false) :
    rules.IsPathFullyQualified (rules.Combine dataDirectory (Trim (orEmpty path))) = true ∧
      Trim (rules.Combine dataDirectory (Trim (orEmpty path))) = rules.Combine dataDirectory (Trim (orEmpty path)) := by
  have hdirectory := hl.ne_nil_of_qualified hd
  obtain ⟨between, hcombine⟩ := PathRules.exists_Combine_eq hl hdirectory hne h
  rw [hcombine]
  refine ⟨hl.qualified_append _ hd, (Trim_eq_self_iff _).mpr ⟨?_, ?_⟩⟩
  · obtain ⟨c, hc, hwhite⟩ := hl.head_of_qualified hd
    rw [List.head?_append_of_ne_nil _ hdirectory]
    intro c' hc'
    rw [Option.mem_unique hc' hc]
    exact hwhite
  · rw [← List.append_assoc, List.getLast?_append_of_ne_nil _ hne]
    exact last_of_Trim _

/-! ## What always holds -/

/-- **A path is anchored to nothing just when it is blank.** -/
theorem Anchor_eq_nil_iff (hl : rules.Lawful) (hd : rules.IsPathFullyQualified dataDirectory = true) :
    Anchor rules path dataDirectory = [] ↔ IsNullOrWhiteSpace path = true := by
  rw [IsNullOrWhiteSpace, ← Trim_eq_nil_iff]
  by_cases hne : Trim (orEmpty path) = []
  · exact iff_of_true (Anchor_of_blank hne) hne
  · refine iff_of_false (fun hempty => ?_) hne
    cases h : rules.IsPathRooted (Trim (orEmpty path)) with
    | true =>
      rw [Anchor_of_rooted h] at hempty
      exact hne hempty
    | false =>
      rw [Anchor_of_not_rooted hne h] at hempty
      exact hl.ne_nil_of_qualified (Combine_spec hl hd hne h).1 hempty

/-- An anchored path has no blank at either end and, where it is not empty, is rooted. -/
theorem Anchor_spec (hl : rules.Lawful) (hd : rules.IsPathFullyQualified dataDirectory = true) :
    Trim (Anchor rules path dataDirectory) = Anchor rules path dataDirectory ∧
      (Anchor rules path dataDirectory ≠ [] → rules.IsPathRooted (Anchor rules path dataDirectory) = true) := by
  by_cases hne : Trim (orEmpty path) = []
  · rw [Anchor_of_blank hne]
    exact ⟨rfl, fun h => absurd rfl h⟩
  · cases h : rules.IsPathRooted (Trim (orEmpty path)) with
    | true =>
      rw [Anchor_of_rooted h]
      exact ⟨Trim_Trim _, fun _ => h⟩
    | false =>
      obtain ⟨hqualified, htrim⟩ := Combine_spec hl hd hne h
      rw [Anchor_of_not_rooted hne h]
      exact ⟨htrim, fun _ => hl.rooted_of_qualified hqualified⟩

/-- **An anchored path is anchored to itself.** -/
theorem Anchor_Anchor (hl : rules.Lawful) (hd : rules.IsPathFullyQualified dataDirectory = true) :
    Anchor rules (some (Anchor rules path dataDirectory)) dataDirectory = Anchor rules path dataDirectory := by
  obtain ⟨htrim, hrooted⟩ := @Anchor_spec rules path dataDirectory hl hd
  generalize Anchor rules path dataDirectory = anchored at htrim hrooted
  have hvalue : Trim (orEmpty (some anchored)) = anchored := htrim
  by_cases hne : anchored = []
  · rw [hne]
    exact Anchor_of_blank rfl
  · rw [Anchor_of_rooted (hvalue.symm ▸ hrooted hne), hvalue]

/-- The settings of the certificate with their path anchored, as `Program` hands them to the broker. -/
def anchorCertificate (rules : PathRules) (settings : BrokerCertificateSettings) (dataDirectory : Str) :
    BrokerCertificateSettings :=
  { settings with Path := some (Anchor rules settings.Path dataDirectory) }

/-- **The certificate is looked for where its path was anchored.** -/
theorem certificatePath_anchorCertificate (hl : rules.Lawful) (hd : rules.IsPathFullyQualified dataDirectory = true)
    (settings : BrokerCertificateSettings) :
    BrokerCertificateProvider.certificatePath (anchorCertificate rules settings dataDirectory) =
      Anchor rules settings.Path dataDirectory := (Anchor_spec hl hd).1

/-! ## What stays in the directory -/

theorem anchored_iff_of_lawful (hl : rules.Lawful) (hd : rules.IsPathFullyQualified dataDirectory = true) :
    Anchored rules path dataDirectory ↔ Stays rules path dataDirectory := by
  have hiff : Anchored rules path dataDirectory ↔ (Anchor rules path dataDirectory ≠ [] →
      rules.IsPathFullyQualified (Anchor rules path dataDirectory) = true ∧
        (rules.IsPathFullyQualified (orEmpty path) = false →
          rules.Below dataDirectory (Anchor rules path dataDirectory))) :=
    ⟨fun h hne => ⟨h.qualified hne, h.below hne⟩,
      fun h => ⟨Anchor_eq_nil_iff hl hd, fun hne => (h hne).1, fun hne => (h hne).2, Anchor_Anchor hl hd⟩⟩
  rw [hiff, Stays]
  by_cases hne : Trim (orEmpty path) = []
  · exact iff_of_true (fun h => absurd (Anchor_of_blank hne) h) (.inl hne)
  · rw [or_iff_right hne]
    cases h : rules.IsPathRooted (Trim (orEmpty path)) with
    | true =>
      rw [Anchor_of_rooted h, if_pos rfl, forall_prop_of_true hne, ← Bool.not_eq_true, ← or_iff_not_imp_left]
    | false =>
      obtain ⟨hqualified, -⟩ := Combine_spec hl hd hne h
      have hliteral : rules.IsPathFullyQualified (orEmpty path) = false := by
        refine Bool.eq_false_iff.mpr fun hliteral => ?_
        rw [hl.rooted_of_qualified (hl.qualified_Trim hliteral)] at h
        cases h
      rw [Anchor_of_not_rooted hne h, if_neg Bool.false_ne_true,
        forall_prop_of_true (hl.ne_nil_of_qualified hqualified), and_iff_right hqualified, forall_prop_of_true hliteral,
        PathRules.below_Combine_iff hl hd hne h]

/-- **The paths that are anchored in the directory**, on either platform. -/
theorem anchored_iff (platform : Platform) (path : Option Str) {dataDirectory : Str}
    (hd : platform.pathRules.IsPathFullyQualified dataDirectory = true) :
    Anchored platform.pathRules path dataDirectory ↔ Stays platform.pathRules path dataDirectory :=
  anchored_iff_of_lawful platform.lawful hd

theorem anchored_iff_shipped :
    Anchored Platform.Unix.pathRules (some "broker.pfx".toList) "/var/lib/mqttbroker".toList :=
  (anchored_iff .Unix _ (by decide)).mpr (by decide)

/-- A path without a root and without dot-dot segments that names something is anchored in the directory. -/
theorem anchored_of_downward (platform : Platform) {path : Option Str} {dataDirectory : Str}
    (hd : platform.pathRules.IsPathFullyQualified dataDirectory = true)
    (hcomplete : platform.pathRules.rootLength (platform.pathRules.parts dataDirectory) ≤
      (platform.pathRules.parts dataDirectory).length)
    (hrooted : platform.pathRules.IsPathRooted (Trim (orEmpty path)) = false)
    (hup : .up ∉ (platform.pathRules.pieces (Trim (orEmpty path))).map PathRules.segment)
    (hname : ∃ s ∈ (platform.pathRules.pieces (Trim (orEmpty path))).map PathRules.segment, s ≠ .here) :
    Anchored platform.pathRules path dataDirectory := by
  refine (anchored_iff_of_lawful platform.lawful hd).mpr (.inr ?_)
  rw [hrooted, if_neg Bool.false_ne_true]
  exact ⟨hcomplete, (Location.below_of_up_notMem _ _ hup).mpr hname⟩

/-- A path that leads up leaves the directory, and one with a drive only is not even absolute. -/
theorem parent_leaves :
    (Platform.Unix.pathRules.IsPathFullyQualified "/var/lib/mqttbroker".toList = true ∧
      ¬ Anchored Platform.Unix.pathRules (some "../publish/broker.pfx".toList) "/var/lib/mqttbroker".toList) ∧
    ((Platform.Windows Char.toUpper).pathRules.IsPathFullyQualified "C:\\ProgramData\\MqttBroker".toList = true ∧
      ¬ Anchored (Platform.Windows Char.toUpper).pathRules (some "C:broker.pfx".toList)
        "C:\\ProgramData\\MqttBroker".toList) := by
  refine ⟨⟨by decide, fun h => ?_⟩, ⟨by decide, fun h => ?_⟩⟩
  · exact absurd (h.below (by decide) (by decide)) (by decide)
  · exact absurd (h.qualified (by decide)) (by decide)

end MqttServices.DataDirectory
