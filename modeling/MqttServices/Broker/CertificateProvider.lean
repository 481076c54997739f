import MqttServices.Broker.Certificate
import MqttServices.Lib.Disk

/-!
# The certificate on the disk

* `Environment`: what the file operations of one call answer; every outcome of each is one.
* `GetOrCreate`: the certificate the broker presents, with the steps taken on the disk.
* **`overwrites_only_expired`**: a file is written only where there is none, or in place of a certificate that was read
  and has expired.
-/

namespace MqttServices.BrokerCertificateProvider

/-- How `File.WriteAllBytes` ends. -/
inductive WriteOutcome where
  | completed
  | notOpened (e : Exception)
  | stopped (written : ℕ) (e : Exception)
  deriving DecidableEq

/-- What the operations of one call answer, and what the clocks read. -/
structure Environment (K C : Type) where
  Exists : Str → Bool
  LoadPkcs12FromFile : Str → (password : Option Str) → Except Exception C
  Now : ℤ
  UtcNow₁ : ℤ
  UtcNow₂ : ℤ
  key : K
  GetFullPath : Str → Except Exception Str
  GetDirectoryName : Str → Option Str
  CreateDirectory : Str → List Str × Except Exception Unit
  WriteAllBytes : Str → List UInt8 → WriteOutcome
  SetUnixFileMode : Str → Disk.Mode → Except Exception Unit
  IsWindows : Bool

variable {K C : Type} (platform : X509Platform K C) (env : Environment K C)

/-- A computation with its steps on the disk. -/
abbrev DiskAction (α : Type) := Traced (Disk.Step Str) Exception α

/-- The password of the PFX file, where an empty one means none. -/
def pfxPassword (password : Option Str) : Option Str := if IsNullOrEmpty password then none else password

/-- `UnixFileMode.UserRead | UnixFileMode.UserWrite`. -/
def ownerMode : Disk.Mode := 0o600

def Load (path : Str) (password : Option Str) : Except Exception C :=
  match env.LoadPkcs12FromFile path (pfxPassword password) with
  | .ok certificate => .ok certificate
  | .error e =>
    -- The exception that is caught becomes the inner one; an `IOException` is logged and goes on.
    if e.type = .CryptographicException then .error ⟨.InvalidOperationException, e.type :: e.inner⟩ else .error e

/-- `Directory.CreateDirectory`. -/
def CreateDirectory (directory : Str) : DiskAction Unit :=
  ⟨(env.CreateDirectory directory).1.map .createDirectory, (env.CreateDirectory directory).2⟩

/-- `File.WriteAllBytes`. -/
def WriteAllBytes (path : Str) (bytes : List UInt8) : DiskAction Unit :=
  match env.WriteAllBytes path bytes with
  | .completed => ⟨Disk.writeSteps path bytes, .ok ()⟩
  | .notOpened e => ⟨[], .error e⟩
  | .stopped written e => ⟨Disk.writeSteps path (bytes.take written), .error e⟩

def RestrictToOwner (path : Str) : DiskAction Unit :=
  if env.IsWindows then pure ()
  else
    match env.SetUnixFileMode path ownerMode with
    | .ok () => Traced.take [.setMode path ownerMode]
    | .error _ => pure ()

/-- The directory of the file, created where it has one. -/
def createDirectoryOf (path : Str) : DiskAction Unit := do
  let fullPath ← Traced.ofExcept (env.GetFullPath path)
  if IsNullOrEmpty (env.GetDirectoryName fullPath) then pure ()
  else CreateDirectory env (orEmpty (env.GetDirectoryName fullPath))

def Store (certificate : C) (path : Str) (password : Option Str) : DiskAction Unit := do
  createDirectoryOf env path
  let pfx ← Traced.ofExcept (platform.Export env.key certificate (pfxPassword password))
  WriteAllBytes env path pfx
  RestrictToOwner env path

/-- A certificate created and stored. -/
def createAndStore (settings : BrokerCertificateSettings) (path : Str) : DiskAction C := do
  let certificate ← Traced.ofExcept (Create platform env.key env.UtcNow₁ env.UtcNow₂ settings)
  Store platform env certificate path settings.Password
  pure certificate

/-- The configured path. -/
def certificatePath (settings : BrokerCertificateSettings) : Str := Trim (orEmpty settings.Path)

def GetOrCreate (settings : Option BrokerCertificateSettings) : DiskAction C :=
  match settings with
  | none => Traced.ofExcept (.error ⟨.ArgumentNullException, []⟩)
  | some settings =>
    let path := certificatePath settings
    if path = [] then Traced.ofExcept (Create platform env.key env.UtcNow₁ env.UtcNow₂ settings)
    else if env.Exists path then do
      let stored ← Traced.ofExcept (Load env path settings.Password)
      if platform.NotAfter stored > env.Now then pure stored else createAndStore platform env settings path
    else createAndStore platform env settings path

variable {platform env} {settings : BrokerCertificateSettings}

theorem certificatePath_ne_nil (h : IsNullOrWhiteSpace settings.Path = false) : certificatePath settings ≠ [] := by
  rw [certificatePath, Ne, Trim_eq_nil_iff]
  exact Bool.eq_false_iff.mp h

/-! ## The branches -/

variable (env) in
theorem createDirectoryOf_untouched (path path' : Str) :
    ∀ s ∈ (createDirectoryOf env path).steps, Disk.Step.touches path' s = false := by
  rw [createDirectoryOf]
  cases env.GetFullPath path with
  | error e => exact List.forall_mem_nil _
  | ok fullPath =>
    rw [Traced.ofExcept_ok_bind]
    split_ifs
    · exact List.forall_mem_nil _
    · intro s hs
      obtain ⟨directory, -, rfl⟩ := List.mem_map.mp hs
      rfl

section Branches

variable (hpath : IsNullOrWhiteSpace settings.Path = false)
include hpath

theorem GetOrCreate_of_absent (hexists : env.Exists (certificatePath settings) = false) :
    GetOrCreate platform env (some settings) = createAndStore platform env settings (certificatePath settings) := by
  simp [GetOrCreate, certificatePath_ne_nil hpath, hexists]

theorem GetOrCreate_of_unread {e : Exception} (hexists : env.Exists (certificatePath settings) = true)
    (hload : Load env (certificatePath settings) settings.Password = .error e) :
    GetOrCreate platform env (some settings) = Traced.ofExcept (.error e) := by
  simp only [GetOrCreate, certificatePath_ne_nil hpath, hexists, hload, if_true, if_false]
  rfl

theorem GetOrCreate_of_valid {c : C} (hexists : env.Exists (certificatePath settings) = true)
    (hload : Load env (certificatePath settings) settings.Password = .ok c) (hvalid : env.Now < platform.NotAfter c) :
    GetOrCreate platform env (some settings) = pure c := by
  simp only [GetOrCreate, certificatePath_ne_nil hpath, hexists, hload, if_true, if_false]
  rw [Traced.ofExcept_ok_bind, if_pos hvalid]

theorem GetOrCreate_of_expired {c : C} (hexists : env.Exists (certificatePath settings) = true)
    (hload : Load env (certificatePath settings) settings.Password = .ok c) (hexpired : platform.NotAfter c ≤ env.Now) :
    GetOrCreate platform env (some settings) = createAndStore platform env settings (certificatePath settings) := by
  simp only [GetOrCreate, certificatePath_ne_nil hpath, hexists, hload, if_true, if_false]
  rw [Traced.ofExcept_ok_bind, if_neg (Int.not_lt.mpr hexpired)]

end Branches

theorem Load_eq_ok_iff {path : Str} {password : Option Str} {c : C} :
    Load env path password = .ok c ↔ env.LoadPkcs12FromFile path (pfxPassword password) = .ok c := by
  rw [Load]
  cases env.LoadPkcs12FromFile path (pfxPassword password) with
  | ok c' => rfl
  | error e =>
    dsimp only
    split_ifs
    · exact iff_of_false nofun nofun
    · exact iff_of_false nofun nofun

theorem Load_eq_error {path : Str} {password : Option Str} {e : Exception}
    (h : env.LoadPkcs12FromFile path (pfxPassword password) = .error e) : ∃ e', Load env path password = .error e' := by
  rw [Load, h]
  dsimp only
  split_ifs
  · exact ⟨_, rfl⟩
  · exact ⟨_, rfl⟩

/-- **A certificate file is overwritten only when it was read and has expired**, and a file that cannot be read is left
as it is, as is everything else. -/
theorem overwrites_only_expired (hpath : IsNullOrWhiteSpace settings.Path = false) :
    (∀ s ∈ (GetOrCreate platform env (some settings)).steps, s.touches (certificatePath settings) = true →
      env.Exists (certificatePath settings) = false ∨
        ∃ c, env.LoadPkcs12FromFile (certificatePath settings) (pfxPassword settings.Password) = .ok c ∧
          platform.NotAfter c ≤ env.Now) ∧
    ∀ e, env.Exists (certificatePath settings) = true →
      env.LoadPkcs12FromFile (certificatePath settings) (pfxPassword settings.Password) = .error e →
      (∃ e', (GetOrCreate platform env (some settings)).result = .error e') ∧
        ∀ (umask : Disk.Mode) (d : Disk Str), d.exec umask (GetOrCreate platform env (some settings)).steps = d := by
  constructor
  · intro s hs _
    cases hexists : env.Exists (certificatePath settings) with
    | false => exact Or.inl rfl
    | true =>
      refine Or.inr ?_
      cases hload : Load env (certificatePath settings) settings.Password with
      | error e =>
        rw [GetOrCreate_of_unread hpath hexists hload] at hs
        cases hs
      | ok c =>
        refine ⟨c, Load_eq_ok_iff.mp hload, Int.not_lt.mp fun hvalid => ?_⟩
        rw [GetOrCreate_of_valid hpath hexists hload hvalid] at hs
        cases hs
  · intro e hexists hread
    obtain ⟨e', hload⟩ := Load_eq_error hread
    rw [GetOrCreate_of_unread hpath hexists hload]
    exact ⟨⟨e', rfl⟩, fun umask d => rfl⟩

/-! ## A small platform -/

/-- What a PFX file starts with. -/
def pfxHeader (password : Option Str) : List UInt8 := (orEmpty password).map fun c => UInt8.ofNat c.toNat

/-- A certificate that ends in the second `n`. -/
def pfxBody (n : ℕ) : List UInt8 := List.replicate n 0 ++ [1]

/-- What a body holds. -/
def readBody (bytes : List UInt8) : Except Exception ℕ :=
  if bytes = pfxBody (bytes.length - 1) then .ok (bytes.length - 1) else .error ⟨.CryptographicException, []⟩

/-- A platform on which a certificate is the second it ends in. -/
def smallPlatform : X509Platform Unit ℕ where
  TryParse _ := none
  AddDnsName _ := .ok ()
  X500DistinguishedName name := .ok [("CN".toList, name.drop 3)]
  CreateSelfSigned _ _ notBefore notAfter :=
    if notBefore ≤ notAfter ∧ 0 ≤ notAfter then .ok (notAfter / ticksPerSecond).toNat
    else .error ⟨.other "ArgumentException".toList, []⟩
  Export _ n password := .ok (pfxHeader password ++ pfxBody n)
  LoadPkcs12 bytes password :=
    if (pfxHeader password).isPrefixOf bytes then readBody (bytes.drop (pfxHeader password).length)
    else .error ⟨.CryptographicException, []⟩
  NotAfter n := n * ticksPerSecond
  Sha256 n := ⟨List.ofFn fun i : Fin 32 => UInt8.ofNat (n / 256 ^ i.val), List.length_ofFn⟩

/-- Settings with a path. -/
def storedSettings : BrokerCertificateSettings := { Path := some "broker.pfx".toList }

/-- A call on a file that is damaged. -/
def damagedEnvironment : Environment Unit ℕ where
  Exists _ := true
  LoadPkcs12FromFile _ _ := .error ⟨.CryptographicException, []⟩
  Now := 2 * ticksPerDay
  UtcNow₁ := 2 * ticksPerDay
  UtcNow₂ := 2 * ticksPerDay
  key := ()
  GetFullPath path := .ok path
  GetDirectoryName _ := none
  CreateDirectory directory := ([directory], .ok ())
  WriteAllBytes _ _ := .completed
  SetUnixFileMode _ _ := .ok ()
  IsWindows := false

theorem overwrites_only_expired_damaged :
    (∃ e', (GetOrCreate smallPlatform damagedEnvironment (some storedSettings)).result = .error e') ∧
      ∀ (umask : Disk.Mode) (d : Disk Str),
        d.exec umask (GetOrCreate smallPlatform damagedEnvironment (some storedSettings)).steps = d :=
  (@overwrites_only_expired _ _ smallPlatform damagedEnvironment storedSettings (by decide)).2
    ⟨.CryptographicException, []⟩ rfl rfl

end MqttServices.BrokerCertificateProvider
