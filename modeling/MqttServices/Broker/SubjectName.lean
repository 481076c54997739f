import MqttServices.Broker.CertificateProvider
import MqttServices.Lib.X500Name

/-!
# The name in a generated certificate

* `X500DistinguishedName`: how the platform reads the text that `Create` makes of the name.
* **`certRequest_SubjectName_iff`**: the names that become the common name, and nothing else.
* `certRequest_SubjectName_list`: a name that adds an attribute of its own.
-/

namespace MqttServices

/-- `char.IsControl`. -/
def IsControl (c : Char) : Bool := c.toNat ≤ 0x1F || (0x7F ≤ c.toNat && c.toNat ≤ 0x9F)

/-- The syntax of distinguished names. Line breaks do not separate unless asked for; whether a plus sign does depends on
the platform. -/
def distinguishedNames (ParseOid : Str → Option Str) (plusSeparates : Bool) : X500.Grammar Str where
  isWhiteSpace := IsWhiteSpace
  isControl := IsControl
  isSeparator c := c = ',' || c = ';' || (plusSeparates && c = '+')
  attributeOf := ParseOid

/-- `new X500DistinguishedName(distinguishedName)`. -/
def X500DistinguishedName (ParseOid : Str → Option Str) (plusSeparates : Bool) (distinguishedName : Str) :
    Except Exception DistinguishedName :=
  match X500.parse (distinguishedNames ParseOid plusSeparates) distinguishedName with
  | some attributes => .ok attributes
  | none => .error ⟨.CryptographicException, []⟩

/-- The key of the common name. -/
def commonName : Str := "CN".toList

/-- A name that neither begins with a quote nor holds a separator. -/
def IsPlainName (plusSeparates : Bool) (name : Str) : Bool :=
  name.head? != some '"' && name.all fun c => !(c = ',' || c = ';' || (plusSeparates && c = '+'))

variable {ParseOid : Str → Option Str} {plusSeparates : Bool}

theorem X500DistinguishedName_eq_ok_iff {s : Str} {attributes : DistinguishedName} :
    X500DistinguishedName ParseOid plusSeparates s = .ok attributes ↔
      X500.parse (distinguishedNames ParseOid plusSeparates) s = some attributes := by
  rw [X500DistinguishedName]
  cases X500.parse (distinguishedNames ParseOid plusSeparates) s with
  | none =>
    refine iff_of_false ?_ ?_
    · rintro ⟨⟩
    · rintro ⟨⟩
  | some read =>
    dsimp only
    rw [Except.ok.injEq, Option.some.injEq]

theorem isKey_commonName : X500.IsKey (distinguishedNames ParseOid plusSeparates) commonName := by
  refine ⟨List.cons_ne_nil _ _, fun c hc => ?_⟩
  have hletters : c ∈ ['C', 'N'] := hc
  rw [List.mem_pair] at hletters
  rcases hletters with rfl | rfl
  · exact ⟨by decide, rfl, rfl⟩
  · exact ⟨by decide, rfl, rfl⟩

theorem isPlainName_iff {name : Str} :
    IsPlainName plusSeparates name = true ↔ X500.IsPlain (distinguishedNames ParseOid plusSeparates) name := by
  rw [IsPlainName, Bool.and_eq_true, bne_iff_ne, List.all_eq_true, X500.IsPlain]
  refine and_congr_right fun _ => forall₂_congr fun c _ => ?_
  rw [Bool.not_eq_true']
  rfl

/-- **The names that are read back from the text made of them.** -/
theorem X500DistinguishedName_commonName_iff (hCN : ParseOid commonName = some commonName) {name : Str}
    (hne : name ≠ []) (htrim : Trim name = name) :
    X500DistinguishedName ParseOid plusSeparates ("CN=".toList ++ name) = .ok [(commonName, name)] ↔
      IsPlainName plusSeparates name = true := by
  obtain ⟨hhead, hlast⟩ := (Trim_eq_self_iff name).mp htrim
  rw [X500DistinguishedName_eq_ok_iff, isPlainName_iff]
  exact X500.parse_eq_iff isKey_commonName hCN hne hhead hlast

namespace BrokerCertificateProvider

variable {K C : Type} {platform : X509Platform K C} {settings : BrokerCertificateSettings}

theorem subjectName_of_not_blank (h : IsNullOrWhiteSpace settings.SubjectName = false) :
    subjectName settings = Trim (orEmpty settings.SubjectName) := if_neg (Bool.eq_false_iff.mp h)

theorem certRequest_SubjectName {names : List SubjectAlternativeName}
    (hnames : subjectAlternativeNames platform settings = .ok names) :
    (certRequest platform settings).map CertificateRequest.SubjectName =
      platform.X500DistinguishedName ("CN=".toList ++ subjectName settings) := by
  rw [certRequest, hnames]
  show Except.map _ ((platform.X500DistinguishedName ("CN=".toList ++ subjectName settings)).bind _) = _
  cases platform.X500DistinguishedName ("CN=".toList ++ subjectName settings) with
  | ok subject => rfl
  | error e => rfl

/-- **The configured name becomes the common name, and nothing else, just when it is plain.** -/
theorem certRequest_SubjectName_iff (hCN : ParseOid commonName = some commonName)
    (hplatform : platform.X500DistinguishedName = X500DistinguishedName ParseOid plusSeparates)
    (hblank : IsNullOrWhiteSpace settings.SubjectName = false) :
    (platform.X500DistinguishedName ("CN=".toList ++ subjectName settings) =
        .ok [(commonName, Trim (orEmpty settings.SubjectName))] ↔
      IsPlainName plusSeparates (Trim (orEmpty settings.SubjectName)) = true) ∧
    ∀ names, subjectAlternativeNames platform settings = .ok names →
      ((certRequest platform settings).map CertificateRequest.SubjectName =
          .ok [(commonName, Trim (orEmpty settings.SubjectName))] ↔
        IsPlainName plusSeparates (Trim (orEmpty settings.SubjectName)) = true) := by
  have hne : Trim (orEmpty settings.SubjectName) ≠ [] := by
    rw [Ne, Trim_eq_nil_iff]
    exact Bool.eq_false_iff.mp hblank
  have hread : platform.X500DistinguishedName ("CN=".toList ++ subjectName settings) =
      .ok [(commonName, Trim (orEmpty settings.SubjectName))] ↔
        IsPlainName plusSeparates (Trim (orEmpty settings.SubjectName)) = true := by
    rw [hplatform, subjectName_of_not_blank hblank]
    exact X500DistinguishedName_commonName_iff hCN hne (Trim_Trim _)
  refine ⟨hread, fun names hnames => ?_⟩
  rw [certRequest_SubjectName hnames]
  exact hread

/-! ## Names on a small platform -/

/-- The usual keys, of either case. -/
def usualOid (key : Str) : Option Str :=
  ["CN".toList, "O".toList, "OU".toList, "L".toList, "S".toList, "C".toList].find? fun name =>
    name = key.map Char.toUpper

/-- A small platform that reads distinguished names. -/
def readingPlatform (plusSeparates : Bool) : X509Platform Unit ℕ :=
  { smallPlatform with X500DistinguishedName := X500DistinguishedName usualOid plusSeparates }

/-- Settings with a name. -/
def named (name : Str) : BrokerCertificateSettings := { SubjectName := some name }

theorem certRequest_SubjectName_iff_internal :
    (certRequest (readingPlatform true) (named " broker.internal ".toList)).map CertificateRequest.SubjectName =
        .ok [(commonName, Trim (orEmpty (named " broker.internal ".toList).SubjectName))] ↔
      IsPlainName true (Trim (orEmpty (named " broker.internal ".toList).SubjectName)) = true :=
  (@certRequest_SubjectName_iff _ _ _ _ _ (named " broker.internal ".toList) (by decide) rfl (by decide)).2
    (loopbackNames ++ [.dns "broker.internal".toList]) (by decide)

/-- **A comma in the name adds an attribute, or makes the start fail; quotes around the name are lost.** -/
theorem certRequest_SubjectName_list :
    IsNullOrWhiteSpace (named "broker, O=lab".toList).SubjectName = false ∧
      (certRequest (readingPlatform false) (named "broker, O=lab".toList)).map CertificateRequest.SubjectName =
        .ok [(commonName, "broker".toList), ("O".toList, "lab".toList)] ∧
      (certRequest (readingPlatform false) (named "broker, O=lab".toList)).map CertificateRequest.SubjectName ≠
        .ok [(commonName, Trim (orEmpty (named "broker, O=lab".toList).SubjectName))] ∧
      certRequest (readingPlatform false) (named "broker, lab".toList) =
        .error ⟨.CryptographicException, []⟩ ∧
      (certRequest (readingPlatform false) (named "\"broker\"".toList)).map CertificateRequest.SubjectName =
        .ok [(commonName, "broker".toList)] := by
  decide

end BrokerCertificateProvider

end MqttServices
