import LyraUpgrade.Core.Manifest

/-!
# Upgrade plans

The plan of `core/src/preflight.rs`: what the user confirms, and what every later
stage compares the machine with.  A plan is identified by the digest of its
compact JSON text; `UpgradePlan.canonicalJson_injective` says that the text
leaves nothing of the plan out.

SHA-256 is a parameter, a function from texts to digests in lower-case
hexadecimal.
-/

namespace LyraUpgrade

open Encoding

/-! ## Encoding of facts and changes -/

def RepositoryFact.toJson (self : RepositoryFact) : Json := .obj
  [("alias", .str self.alias), ("enabled", .bool self.enabled), ("official", .bool self.official),
   ("metadata_valid", .bool self.metadataValid),
   ("signing_key_trusted", .bool self.signingKeyTrusted)]

theorem RepositoryFact.toJson_injective : Function.Injective RepositoryFact.toJson := by
  rintro ⟨⟩ ⟨⟩ h
  simpa [RepositoryFact.toJson, and_assoc] using h

def InstalledPackage.toJson (self : InstalledPackage) : Json := .obj
  [("name", .str self.name), ("version", .str self.version),
   ("architecture", .str self.architecture), ("vendor", .str self.vendor)]

theorem InstalledPackage.toJson_injective : Function.Injective InstalledPackage.toJson := by
  rintro ⟨⟩ ⟨⟩ h
  simpa [InstalledPackage.toJson, and_assoc] using h

def PackageAction.toJson : PackageAction → Json
  | .install => .str "Install"
  | .upgrade => .str "Upgrade"
  | .downgrade => .str "Downgrade"
  | .remove => .str "Remove"
  | .reinstall => .str "Reinstall"

theorem PackageAction.toJson_injective : Function.Injective PackageAction.toJson := by
  intro a b h
  cases a <;> cases b <;> simp_all [PackageAction.toJson]

def PackageChange.toJson (self : PackageChange) : Json := .obj
  [("name", .str self.name), ("architecture", .str self.architecture),
   ("action", self.action.toJson), ("current_version", optionToJson .str self.currentVersion),
   ("proposed_version", optionToJson .str self.proposedVersion),
   ("current_vendor", optionToJson .str self.currentVendor),
   ("proposed_vendor", optionToJson .str self.proposedVendor),
   ("repository_alias", optionToJson .str self.repositoryAlias),
   ("download_bytes", .num self.downloadBytes),
   ("installed_size_before", .num self.installedSizeBefore),
   ("installed_size_after", .num self.installedSizeAfter)]

theorem PackageChange.toJson_injective : Function.Injective PackageChange.toJson := by
  rintro ⟨⟩ ⟨⟩ h
  simpa [PackageChange.toJson, and_assoc, PackageAction.toJson_injective.eq_iff,
    optionStr_injective.eq_iff] using h

/-! ## Plans -/

/-- `BTreeMap<String, String>`: entries with increasing keys. -/
structure FactMap where
  entries : List (String × String)
  ordered : entries.Pairwise (·.1 < ·.1)
  deriving DecidableEq

/-- `BTreeMap::new`. -/
def FactMap.empty : FactMap := ⟨[], List.Pairwise.nil⟩

def FactMap.get? (self : FactMap) (key : String) : Option String := self.entries.lookup key

def FactMap.toJson (self : FactMap) : Json :=
  .obj (self.entries.map fun entry => (entry.1, .str entry.2))

theorem FactMap.toJson_injective : Function.Injective FactMap.toJson := by
  rintro ⟨xs, hxs⟩ ⟨ys, hys⟩ h
  simp only [FactMap.toJson, Json.obj.injEq] at h
  have hpair : Function.Injective fun entry : String × String => (entry.1, Json.str entry.2) := by
    rintro ⟨a, b⟩ ⟨c, d⟩ h
    simpa using h
  rw [FactMap.mk.injEq]
  exact List.map_injective_iff.mpr hpair h

def planSchemaVersion : ℕ := 3

structure UpgradePlan where
  schemaVersion : ℕ
  operation : OperationKind
  source : ReleaseIdentity
  target : Option ReleaseIdentity
  manifestSha256 : Option String
  requiredBytes : ℕ
  facts : FactMap
  repositories : List RepositoryFact
  metadataValidRepositories : List String
  thirdPartyRepositories : List String
  heldPackages : List String
  installedPackages : List InstalledPackage
  orphanedPackages : List String
  packageChanges : List PackageChange
  rebootRequired : Bool
  deriving DecidableEq

namespace UpgradePlan

def toJson (self : UpgradePlan) : Json := .obj
  [("schema_version", .num self.schemaVersion), ("operation", self.operation.toJson),
   ("source", self.source.toJson), ("target", optionToJson ReleaseIdentity.toJson self.target),
   ("manifest_sha256", optionToJson .str self.manifestSha256),
   ("required_bytes", .num self.requiredBytes), ("facts", self.facts.toJson),
   ("repositories", listToJson RepositoryFact.toJson self.repositories),
   ("metadata_valid_repositories", listToJson .str self.metadataValidRepositories),
   ("third_party_repositories", listToJson .str self.thirdPartyRepositories),
   ("held_packages", listToJson .str self.heldPackages),
   ("installed_packages", listToJson InstalledPackage.toJson self.installedPackages),
   ("orphaned_packages", listToJson .str self.orphanedPackages),
   ("package_changes", listToJson PackageChange.toJson self.packageChanges),
   ("reboot_required", .bool self.rebootRequired)]

/-- The members of the object determine the plan, field by field. -/
theorem toJson_injective : Function.Injective UpgradePlan.toJson := by
  rintro ⟨⟩ ⟨⟩ h
  have htarget := optionToJson_injective ReleaseIdentity.toJson_injective
    fun r => by simp [ReleaseIdentity.toJson]
  simpa [UpgradePlan.toJson, and_assoc, OperationKind.toJson_injective.eq_iff,
    ReleaseIdentity.toJson_injective.eq_iff, htarget.eq_iff, optionStr_injective.eq_iff,
    FactMap.toJson_injective.eq_iff, listStr_injective.eq_iff,
    (listToJson_injective RepositoryFact.toJson_injective).eq_iff,
    (listToJson_injective InstalledPackage.toJson_injective).eq_iff,
    (listToJson_injective PackageChange.toJson_injective).eq_iff] using h

/-- `UpgradePlan::canonical_json`. -/
def canonicalJson (self : UpgradePlan) : List Char := self.toJson.render

theorem canonicalJson_injective : Function.Injective canonicalJson :=
  Json.render_injective.comp toJson_injective

/-- `UpgradePlan::sha256`. -/
def sha256 (digest : List Char → String) (self : UpgradePlan) : String :=
  digest self.canonicalJson

end UpgradePlan

/-- No two plans have the same digest unless they have the same text. -/
def CollisionFree (digest : List Char → String) : Prop :=
  Set.InjOn digest (Set.range UpgradePlan.canonicalJson)

/-- Without collisions the digest identifies the plan. -/
theorem CollisionFree.eq_of_sha256 {digest : List Char → String} (h : CollisionFree digest)
    {p q : UpgradePlan} (hpq : p.sha256 digest = q.sha256 digest) : p = q :=
  UpgradePlan.canonicalJson_injective (h ⟨p, rfl⟩ ⟨q, rfl⟩ hpq)

/-! ## Building a plan -/

inductive PlanError
  | blocked (blockers : List PreflightIssue)
  | targetRequired
  | manifestRequired
  | targetNotAllowed
  deriving DecidableEq, Repr

/-- The text of the Secure Boot fact. -/
def secureBootText : Option Bool → String
  | some true => "true"
  | some false => "false"
  | none => "unknown"

/-- The facts a plan records by name. -/
def planFacts (facts : HostFacts) : FactMap where
  entries := [("root_filesystem", facts.rootFilesystem),
    ("secure_boot", secureBootText facts.secureBootEnabled)]
  ordered := by
    simp only [List.pairwise_cons, List.mem_singleton, forall_eq, List.not_mem_nil, false_imp_iff,
      implies_true, List.Pairwise.nil, and_true]
    decide

/-- Target and manifest digest are those the kind of operation asks for. -/
def checkTarget (operation : OperationKind) (release : ReleaseIdentity)
    (target : Option ReleaseIdentity) (manifestSha256 : Option String) : Except PlanError Unit :=
  if operation.isSignedOffline then
    match target with
    | none => .error .targetRequired
    | some target =>
        if target.edition ≠ release.edition || target.architecture ≠ release.architecture ||
            (operation = .releaseUpgrade && target.version = release.version) ||
            (operation = .packageMigration && target ≠ release) then .error .targetNotAllowed
        else if manifestSha256.any isSha256 then .ok () else .error .manifestRequired
  else if target.isSome || manifestSha256.isSome then .error .targetNotAllowed
  else .ok ()

/-- `build_plan`. -/
def buildPlan (operation : OperationKind) (facts : HostFacts) (report : PreflightReport)
    (target : Option ReleaseIdentity) (manifestSha256 : Option String) (solver : SolverResult) :
    Except PlanError UpgradePlan :=
  if !report.passed then .error (.blocked report.blockers)
  else match checkTarget operation facts.release target manifestSha256 with
    | .error e => .error e
    | .ok () => .ok
      { schemaVersion := planSchemaVersion
        operation := operation
        source := facts.release
        target := target
        manifestSha256 := manifestSha256
        requiredBytes := report.requiredBytes
        facts := planFacts facts
        repositories := sortByKey (·.alias) facts.repositories
        metadataValidRepositories := dedup (sort solver.metadataValidRepositories)
        thirdPartyRepositories := report.thirdPartyRepositories
        heldPackages := report.heldPackages
        installedPackages := sort facts.installedPackages
        orphanedPackages := report.orphanedPackages
        packageChanges := sort solver.changes
        rebootRequired := solver.rebootRequired || operation.isSignedOffline }

end LyraUpgrade
