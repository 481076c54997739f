import Mathlib.Data.Set.Image
import MqttServices.Broker.Certificate

/-!
# The names of a generated certificate

* `values`, `ConfiguredName`: the names the settings ask for.
* `AddSubjectAlternativeName_eq_ok`, **`foldlM_eq_ok`**: what one entry adds, and what a list of entries adds.
* `CarriesNames`: a certificate carries the names of its request.
* **`generated_names`**: a generated certificate carries the names configured and no other.
-/

namespace MqttServices.BrokerCertificateProvider

variable {K C : Type} (platform : X509Platform K C)

/-- The values of the entries that are not blank. -/
def values (entries : List (Option Str)) : List Str :=
  (entries.map fun entry => Trim (orEmpty entry)).filter (· ≠ [])

/-- The name that a value stands for. -/
def alternativeName (value : Str) : SubjectAlternativeName :=
  match platform.TryParse value with
  | some address => .ip address
  | none => .dns value

/-- The loopback names, and the name of every entry and of the subject. -/
def ConfiguredName (settings : BrokerCertificateSettings) (hostNames : List (Option Str))
    (name : SubjectAlternativeName) : Prop :=
  name ∈ loopbackNames ∨
    ∃ value ∈ values (hostNames ++ [some (subjectName settings)]), name = alternativeName platform value

/-- The builder takes the value. -/
def Accepts (value : Str) : Prop := platform.TryParse value = none → platform.AddDnsName value = .ok ()

/-- The values that are added to the loopback names. -/
def added (entries : List (Option Str)) : List Str := (values entries).filter (· ≠ "localhost".toList)

theorem added_of_skipped {entry : Option Str} (h : Trim (orEmpty entry) = [] ∨ Trim (orEmpty entry) = "localhost".toList)
    (entries : List (Option Str)) : added (entry :: entries) = added entries := by
  rw [added, values, List.map_cons]
  rcases h with h | h
  · rw [h, List.filter_cons_of_neg (of_decide_eq_true rfl)]
    rfl
  · rw [h, List.filter_cons_of_pos (by decide), List.filter_cons_of_neg (by decide)]
    rfl

theorem added_of_not_skipped {entry : Option Str}
    (h : ¬ (Trim (orEmpty entry) = [] ∨ Trim (orEmpty entry) = "localhost".toList)) (entries : List (Option Str)) :
    added (entry :: entries) = Trim (orEmpty entry) :: added entries := by
  rw [not_or] at h
  rw [added, values, List.map_cons, List.filter_cons, if_pos (decide_eq_true h.1), List.filter_cons,
    if_pos (decide_eq_true h.2)]
  rfl

theorem mem_added {entries : List (Option Str)} {value : Str} :
    value ∈ added entries ↔ value ∈ values entries ∧ value ≠ "localhost".toList := by
  rw [added, List.mem_filter, decide_eq_true_iff]

variable {platform}

/-! ## What the builder holds -/

theorem AddSubjectAlternativeName_of_skipped {entry : Option Str}
    (h : Trim (orEmpty entry) = [] ∨ Trim (orEmpty entry) = "localhost".toList) (names : List SubjectAlternativeName) :
    AddSubjectAlternativeName platform names entry = .ok names := by
  rw [AddSubjectAlternativeName]
  exact if_pos h

theorem AddSubjectAlternativeName_eq_ok {entry : Option Str}
    (h : ¬ (Trim (orEmpty entry) = [] ∨ Trim (orEmpty entry) = "localhost".toList))
    (names names' : List SubjectAlternativeName) :
    AddSubjectAlternativeName platform names entry = .ok names' ↔
      Accepts platform (Trim (orEmpty entry)) ∧ names' = names ++ [alternativeName platform (Trim (orEmpty entry))] := by
  simp only [AddSubjectAlternativeName, if_neg h, Accepts, alternativeName]
  cases platform.TryParse (Trim (orEmpty entry)) with
  | some address => simp [eq_comm]
  | none =>
    cases platform.AddDnsName (Trim (orEmpty entry)) with
    | ok u => simp [Except.map, eq_comm]
    | error e => simp [Except.map]

/-- **What a list of entries adds.** -/
theorem foldlM_eq_ok (entries : List (Option Str)) (names names' : List SubjectAlternativeName) :
    entries.foldlM (AddSubjectAlternativeName platform) names = .ok names' ↔
      (∀ value ∈ added entries, Accepts platform value) ∧
        names' = names ++ (added entries).map (alternativeName platform) := by
  induction entries generalizing names with
  | nil =>
    have hnil : added [] = [] := rfl
    change Except.ok names = Except.ok names' ↔ _
    rw [hnil, List.map_nil, List.append_nil, Except.ok.injEq, eq_comm]
    exact (and_iff_right fun _ h => absurd h List.not_mem_nil).symm
  | cons entry entries ih =>
    rw [List.foldlM_cons, bind_eq_ok_iff]
    by_cases h : Trim (orEmpty entry) = [] ∨ Trim (orEmpty entry) = "localhost".toList
    · rw [added_of_skipped h, ← ih names]
      constructor
      · rintro ⟨names₁, h₁, h₂⟩
        rw [AddSubjectAlternativeName_of_skipped h] at h₁
        cases h₁
        exact h₂
      · exact fun h₂ => ⟨names, AddSubjectAlternativeName_of_skipped h names, h₂⟩
    · rw [added_of_not_skipped h, List.forall_mem_cons, List.map_cons]
      constructor
      · rintro ⟨names₁, h₁, h₂⟩
        obtain ⟨haccept, rfl⟩ := (AddSubjectAlternativeName_eq_ok h _ _).mp h₁
        obtain ⟨hall, rfl⟩ := (ih _).mp h₂
        exact ⟨⟨haccept, hall⟩, List.append_assoc _ _ _⟩
      · rintro ⟨⟨haccept, hall⟩, rfl⟩
        refine ⟨_, (AddSubjectAlternativeName_eq_ok h _ _).mpr ⟨haccept, rfl⟩, (ih _).mpr ⟨hall, ?_⟩⟩
        rw [List.append_assoc, List.singleton_append]

/-- `localhost` stands for itself, so that skipping it loses nothing. -/
theorem configuredName_iff (hlocalhost : platform.TryParse "localhost".toList = none)
    {settings : BrokerCertificateSettings} {hostNames : List (Option Str)} {name : SubjectAlternativeName} :
    ConfiguredName platform settings hostNames name ↔
      name ∈ loopbackNames ++
        (added (hostNames ++ [some (subjectName settings)])).map (alternativeName platform) := by
  rw [ConfiguredName, List.mem_append, List.mem_map]
  constructor
  · rintro (h | ⟨value, hvalue, rfl⟩)
    · exact Or.inl h
    · by_cases hskip : value = "localhost".toList
      · have hdns : alternativeName platform value = .dns "localhost".toList := by
          rw [alternativeName, hskip, hlocalhost]
        rw [hdns]
        exact Or.inl (List.mem_cons_of_mem _ (List.mem_cons_of_mem _ List.mem_cons_self))
      · exact Or.inr ⟨value, mem_added.mpr ⟨hvalue, hskip⟩, rfl⟩
  · rintro (h | ⟨value, hvalue, rfl⟩)
    · exact Or.inl h
    · exact Or.inr ⟨value, (mem_added.mp hvalue).1, rfl⟩

/-! ## The certificate -/

/-- The request asks for these alternative names and no others. -/
def Requests (request : CertificateRequest) (names : List SubjectAlternativeName) : Prop :=
  ∀ names', .subjectAlternativeName names' ∈ request.CertificateExtensions ↔ names' = names

/-- A certificate that was created, exported and loaded again carries the encoded names of its request. -/
def CarriesNames (platform : X509Platform K C) {N : Type} (encode : SubjectAlternativeName → N)
    (SubjectAlternativeNames : C → Set N) : Prop :=
  ∀ key request notBefore notAfter created pfx c names,
    platform.CreateSelfSigned key request notBefore notAfter = .ok created →
    platform.Export key created none = .ok pfx → platform.LoadPkcs12 pfx none = .ok c → Requests request names →
      SubjectAlternativeNames c = Set.image encode {name | name ∈ names}

theorem certRequest_eq_ok {settings : BrokerCertificateSettings} {request : CertificateRequest}
    (h : certRequest platform settings = .ok request) :
    ∃ names, subjectAlternativeNames platform settings = .ok names ∧ Requests request names := by
  obtain ⟨names, hnames, h⟩ := bind_eq_ok_iff.mp h
  obtain ⟨subject, -, h⟩ := bind_eq_ok_iff.mp h
  cases h
  exact ⟨names, hnames, fun names' => by simp⟩

/-- **The names of a generated certificate**: where the builder takes every name, it holds the configured ones, and a
certificate generated from these settings carries them and no other. -/
theorem generated_names (hlocalhost : platform.TryParse "localhost".toList = none) {N : Type}
    {encode : SubjectAlternativeName → N} {SubjectAlternativeNames : C → Set N}
    (hcarries : CarriesNames platform encode SubjectAlternativeNames) {settings : BrokerCertificateSettings}
    {hostNames : List (Option Str)} (hnames : settings.HostNames = some hostNames)
    (haccepts : ∀ value ∈ values (hostNames ++ [some (subjectName settings)]), Accepts platform value) :
    (∃ names, subjectAlternativeNames platform settings = .ok names ∧
      ∀ name, name ∈ names ↔ ConfiguredName platform settings hostNames name) ∧
    ∀ key UtcNow₁ UtcNow₂ c, Create platform key UtcNow₁ UtcNow₂ settings = .ok c →
      SubjectAlternativeNames c = Set.image encode {name | ConfiguredName platform settings hostNames name} := by
  have hbuild : subjectAlternativeNames platform settings = .ok (loopbackNames ++
      (added (hostNames ++ [some (subjectName settings)])).map (alternativeName platform)) := by
    simp only [subjectAlternativeNames, hnames]
    exact (foldlM_eq_ok _ _ _).mpr ⟨fun value hvalue => haccepts value (mem_added.mp hvalue).1, rfl⟩
  refine ⟨⟨_, hbuild, fun name => (configuredName_iff hlocalhost).symm⟩, fun key UtcNow₁ UtcNow₂ c hcreate => ?_⟩
  obtain ⟨request, hrequest, notBefore, -, notAfter, -, created, hcreated, pfx, hpfx, hload⟩ :=
    Create_eq_ok_iff.mp hcreate
  obtain ⟨names, hnames', hrequests⟩ := certRequest_eq_ok hrequest
  rw [hcarries _ _ _ _ _ _ _ _ hcreated hpfx hload hrequests]
  congr 1
  ext name
  rw [Set.mem_ofPred_eq, Set.mem_ofPred_eq, configuredName_iff hlocalhost, Except.ok.inj (hnames'.symm.trans hbuild)]

/-! ## A certificate for two host names -/

/-- Settings with a padded name, a missing one and an address. -/
def namedSettings : BrokerCertificateSettings :=
  { HostNames := some [some " broker ".toList, none, some "10.0.0.7".toList] }

/-- The request for these settings. -/
def namedRequest : CertificateRequest where
  SubjectName := [("CN".toList, "localhost".toList)]
  CertificateExtensions :=
    [.basicConstraints true true 0 true,
      .keyUsage [.DataEncipherment, .KeyEncipherment, .DigitalSignature, .KeyCertSign] false,
      .subjectKeyIdentifier false,
      .enhancedKeyUsage [ServerAuthenticationOid] false,
      .subjectAlternativeName (loopbackNames ++ [.dns "broker".toList, .ip (.v4 0x0A000007)])]

/-- A platform with the certificate of this request only. -/
def namedPlatform : X509Platform Unit Unit where
  TryParse value := if value = "10.0.0.7".toList then some (.v4 0x0A000007) else none
  AddDnsName _ := .ok ()
  X500DistinguishedName name := .ok [("CN".toList, name.drop 3)]
  CreateSelfSigned _ request _ _ :=
    if request = namedRequest then .ok () else .error ⟨.CryptographicException, []⟩
  Export _ _ _ := .ok [0x30]
  LoadPkcs12 _ _ := .ok ()
  NotAfter _ := 0
  Sha256 _ := ⟨List.replicate 32 0, List.length_replicate⟩

theorem carriesNames_named : CarriesNames namedPlatform id fun _ =>
    {name | name ∈ loopbackNames ++ [.dns "broker".toList, .ip (.v4 0x0A000007)]} := by
  intro key request notBefore notAfter created pfx c names hcreated _ _ hrequests
  have hrequest : request = namedRequest := by
    by_contra hne
    have hrefused : namedPlatform.CreateSelfSigned key request notBefore notAfter =
        .error ⟨.CryptographicException, []⟩ := if_neg hne
    rw [hrefused] at hcreated
    cases hcreated
  have hmem := (hrequests (loopbackNames ++ [.dns "broker".toList, .ip (.v4 0x0A000007)])).mp (by
    rw [hrequest, namedRequest]
    exact List.mem_of_getElem? (i := 4) rfl)
  rw [hmem, Set.image_id]

theorem generated_names_named :
    {name | name ∈ loopbackNames ++ [.dns "broker".toList, .ip (.v4 0x0A000007)]} =
      Set.image id {name | ConfiguredName namedPlatform namedSettings
        [some " broker ".toList, none, some "10.0.0.7".toList] name} :=
  (generated_names rfl carriesNames_named rfl fun _ _ _ => rfl).2 () ticksPerDay ticksPerDay () (by decide)

end MqttServices.BrokerCertificateProvider
