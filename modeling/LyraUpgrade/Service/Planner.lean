import LyraUpgrade.Core.Plan
import LyraUpgrade.Core.Route

/-!
# Planning and revalidation

`service/src/planner.rs`: the plan that is shown to the user, and the check by
which staging and the offline executor hold a later state of the machine to the
plan the user confirmed.

The equality of the plans is an equality of digests.  Without collisions it is an
equality of the plans themselves (`CollisionFree.eq_of_sha256`), and an equality of
normalized plans says that the lists they were built from agree up to the order;
`revalidateReleasePlan_binds` collects all of it.

## Main definitions

* `PlannedUpdate` — a plan with the facts and the solver result it was made from.
* `planWithinRelease`, `planRelease` — the policy checks and the plan, from what was
  observed of the machine.
* `checkConfirmedReleasePlan`, `revalidateReleasePlan` — the two checks.
* `BindsTransaction` — what the second one establishes.
-/

namespace LyraUpgrade

/-- `PlannerError`, without the operating system's details. -/
inductive PlannerError
  | planChanged
  | migration (error : MigrationError)
  | discovery
  | spawn
  | solverExit
  | solverXml
  | vendorMetadata
  | blocked (blockers : List PreflightIssue)
  | plan (error : PlanError)
  | repositoryKey
  deriving DecidableEq, Repr

structure PlannedUpdate where
  facts : HostFacts
  solver : SolverResult
  preflight : PreflightReport
  plan : UpgradePlan
  planSha256 : String
  manifest : Option ReleaseManifest
  deriving DecidableEq

/-- The preflight policy of a release: the default with the manifest's floor. -/
def releasePreflightPolicy (manifest : ReleaseManifest) : PreflightPolicy :=
  { minimumFreeSpaceBytes := manifest.minimumFreeSpaceBytes }

section

variable (digest : List Char → String)

/-- The digest of a manifest: of its compact text. -/
def ReleaseManifest.sha256 (manifest : ReleaseManifest) : String := digest manifest.canonicalJson

/-- `plan_update_with_cached_metadata`, after the observations. -/
def planWithinRelease (facts : HostFacts) (solver : SolverResult) :
    Except PlannerError PlannedUpdate :=
  let preflight := evaluateSolverPreflight facts {} solver {}
  if !preflight.passed then .error (.blocked preflight.blockers)
  else match buildPlan .updateWithinRelease facts preflight none none solver with
    | .error e => .error (.plan e)
    | .ok plan => .ok
        { facts := facts, solver := solver, preflight := preflight, plan := plan
          planSha256 := plan.sha256 digest, manifest := none }

/-- `plan_release_upgrade`, after the observations. -/
def planRelease (manifest : ReleaseManifest) (facts : HostFacts) (solver : SolverResult) :
    Except PlannerError PlannedUpdate :=
  match validateMigrationPlan manifest facts.installedPackages solver.changes with
  | .error e => .error (.migration e)
  | .ok () =>
      let preflight := evaluateSolverPreflight facts (releasePreflightPolicy manifest) solver
        manifest.solverPolicy
      if !preflight.passed then .error (.blocked preflight.blockers)
      else match buildPlan manifest.operation facts preflight (some manifest.target)
          (some (manifest.sha256 digest)) solver with
        | .error e => .error (.plan e)
        | .ok plan => .ok
            { facts := facts, solver := solver, preflight := preflight, plan := plan
              planSha256 := plan.sha256 digest, manifest := some manifest }

/-- `check_confirmed_release_plan`. -/
def checkConfirmedReleasePlan (manifest : ReleaseManifest) (confirmed : UpgradePlan)
    (expectedHash : String) : Except PlannerError Unit :=
  if confirmed.operation ≠ manifest.operation ∨ confirmed.source ≠ manifest.source ∨
      confirmed.target ≠ some manifest.target ∨
      confirmed.manifestSha256 ≠ some (manifest.sha256 digest) ∨
      confirmed.sha256 digest ≠ expectedHash then .error .planChanged
  else match validateMigrationPlan manifest confirmed.installedPackages
      confirmed.packageChanges with
    | .error e => .error (.migration e)
    | .ok () =>
        let blockers := vendorPolicyBlockers confirmed.packageChanges manifest.solverPolicy
        if !blockers.isEmpty then .error (.blocked blockers) else .ok ()

/-- `revalidate_release_plan`.  Cached downloads change the space that is still
needed, not the reviewed transaction: the fresh estimate has to be met, but
`requiredBytes` is not compared. -/
def revalidateReleasePlan (facts : HostFacts) (solver : SolverResult) (manifest : ReleaseManifest)
    (confirmed : UpgradePlan) (expectedHash : String) : Except PlannerError Unit :=
  match checkConfirmedReleasePlan digest manifest confirmed expectedHash with
  | .error e => .error e
  | .ok () =>
      match validateMigrationPlan manifest facts.installedPackages solver.changes with
      | .error e => .error (.migration e)
      | .ok () =>
          let report := evaluateSolverPreflight facts (releasePreflightPolicy manifest) solver
            manifest.solverPolicy
          if !report.passed then .error (.blocked report.blockers)
          else match buildPlan manifest.operation facts report (some manifest.target)
              confirmed.manifestSha256 solver with
            | .error e => .error (.plan e)
            | .ok rebuilt =>
                if { rebuilt with requiredBytes := confirmed.requiredBytes }.sha256 digest ≠
                    expectedHash then .error .planChanged
                else .ok ()

end

/-! ## What the checks establish -/

/-- The confirmed plan, the manifest and the machine belong together. -/
structure BindsTransaction (digest : List Char → String) (facts : HostFacts)
    (solver : SolverResult) (manifest : ReleaseManifest) (confirmed : UpgradePlan)
    (expectedHash : String) : Prop where
  hash : confirmed.sha256 digest = expectedHash
  operation : confirmed.operation = manifest.operation
  source : confirmed.source = manifest.source
  target : confirmed.target = some manifest.target
  manifest_hash : confirmed.manifestSha256 = some (manifest.sha256 digest)
  changes : solver.changes.Perm confirmed.packageChanges
  installed : facts.installedPackages.Perm confirmed.installedPackages
  release : facts.release = confirmed.source
  held : dedup (sort facts.heldPackages) = confirmed.heldPackages
  orphaned : dedup (sort facts.orphanedPackages) = confirmed.orphanedPackages
  repositories : facts.repositories.Perm confirmed.repositories
  filesystem : confirmed.facts.get? "root_filesystem" = some facts.rootFilesystem
  secure_boot : confirmed.facts.get? "secure_boot" =
    some (secureBootText facts.secureBootEnabled)
  authorized : Authorized solver.changes manifest.solverPolicy
  fresh_space : saturatingAdd (saturatingAdd (saturatingAdd solver.downloadBytes
    solver.transactionSizeIncrease) solver.estimatedSnapshotBytes)
    (releasePreflightPolicy manifest).freeSpaceMarginBytes ≤ facts.availableBytes
  floor : manifest.minimumFreeSpaceBytes ≤ facts.availableBytes
  /-- Nothing but `requiredBytes` may differ. -/
  rebuilt : ∃ plan, buildPlan manifest.operation facts (evaluateSolverPreflight facts
      (releasePreflightPolicy manifest) solver manifest.solverPolicy) (some manifest.target)
      (some (manifest.sha256 digest)) solver = .ok plan ∧
    { plan with requiredBytes := confirmed.requiredBytes } = confirmed

section

variable {digest : List Char → String} {facts : HostFacts} {solver : SolverResult}
variable {manifest : ReleaseManifest} {confirmed : UpgradePlan} {expectedHash : String}

/-- The first check compares the plan with the manifest and the digest. -/
theorem checkConfirmedReleasePlan_eq_ok
    (h : checkConfirmedReleasePlan digest manifest confirmed expectedHash = .ok ()) :
    confirmed.operation = manifest.operation ∧ confirmed.source = manifest.source ∧
      confirmed.target = some manifest.target ∧
      confirmed.manifestSha256 = some (manifest.sha256 digest) ∧
      confirmed.sha256 digest = expectedHash := by
  unfold checkConfirmedReleasePlan at h
  split_ifs at h with hdiffer
  simpa only [not_or, not_not] using hdiffer

/-- A built plan is the normal form of the facts and the solver result. -/
theorem buildPlan_eq_ok {operation : OperationKind} {report : PreflightReport}
    {target : Option ReleaseIdentity} {manifestSha256 : Option String} {plan : UpgradePlan}
    (h : buildPlan operation facts report target manifestSha256 solver = .ok plan) :
    plan =
      { schemaVersion := planSchemaVersion
        operation := operation
        source := facts.release
        target := target
        manifestSha256 := manifestSha256
        requiredBytes := report.requiredBytes
        facts := planFacts facts
        repositories := sortByKey (·.alias) facts.repositories
        metadataValidRepositories := dedup (sort solver.metadataValidRepositories)
        thirdPartyRepositories := report.thirdPartyRepositories
        heldPackages := report.heldPackages
        installedPackages := sort facts.installedPackages
        orphanedPackages := report.orphanedPackages
        packageChanges := sort solver.changes
        rebootRequired := solver.rebootRequired || operation.isSignedOffline } := by
  unfold buildPlan at h
  split_ifs at h
  cases hcheck : checkTarget operation facts.release target manifestSha256 with
  | error e => rw [hcheck] at h; cases h
  | ok u => rw [hcheck] at h; cases h; rfl

/-- A revalidated plan passed the first check, the policies, and the comparison. -/
theorem revalidateReleasePlan_eq_ok
    (h : revalidateReleasePlan digest facts solver manifest confirmed expectedHash = .ok ()) :
    checkConfirmedReleasePlan digest manifest confirmed expectedHash = .ok () ∧
      (evaluateSolverPreflight facts (releasePreflightPolicy manifest) solver
        manifest.solverPolicy).passed ∧
      ∃ plan, buildPlan manifest.operation facts (evaluateSolverPreflight facts
          (releasePreflightPolicy manifest) solver manifest.solverPolicy) (some manifest.target)
          confirmed.manifestSha256 solver = .ok plan ∧
        { plan with requiredBytes := confirmed.requiredBytes }.sha256 digest = expectedHash := by
  unfold revalidateReleasePlan at h
  cases hconfirmed : checkConfirmedReleasePlan digest manifest confirmed expectedHash with
  | error e => rw [hconfirmed] at h; cases h
  | ok u =>
      rw [hconfirmed] at h
      dsimp only at h
      cases hmigration : validateMigrationPlan manifest facts.installedPackages solver.changes with
      | error e => rw [hmigration] at h; cases h
      | ok u' =>
          rw [hmigration] at h
          dsimp only at h
          split_ifs at h with hpassed
          cases hbuild : buildPlan manifest.operation facts (evaluateSolverPreflight facts
              (releasePreflightPolicy manifest) solver manifest.solverPolicy)
              (some manifest.target) confirmed.manifestSha256 solver with
          | error e => rw [hbuild] at h; cases h
          | ok plan =>
              rw [hbuild] at h
              dsimp only at h
              split_ifs at h with hhash
              exact ⟨rfl, by simpa using hpassed, plan, rfl, not_not.mp hhash⟩

/-- A passing host has the space, and the floor of the policy below it. -/
theorem requiredBytes_le_of_hostIssues {policy : PreflightPolicy}
    (h : hostIssues facts policy = []) : requiredBytes facts policy ≤ facts.availableBytes := by
  simp only [hostIssues, List.append_eq_nil_iff, issueIf_eq_nil, decide_eq_false_iff_not,
    not_lt] at h
  exact h.1.1.1.2

/-- **Revalidation binds the confirmed transaction.** -/
theorem revalidateReleasePlan_binds (hcollision : CollisionFree digest)
    (h : revalidateReleasePlan digest facts solver manifest confirmed expectedHash = .ok ()) :
    BindsTransaction digest facts solver manifest confirmed expectedHash := by
  obtain ⟨hconfirmed, hpassed, plan, hbuild, hhash⟩ := revalidateReleasePlan_eq_ok h
  obtain ⟨hoperation, hsource, htarget, hmanifest, hexpected⟩ :=
    checkConfirmedReleasePlan_eq_ok hconfirmed
  rw [hmanifest] at hbuild
  have hplan := buildPlan_eq_ok hbuild
  have heq : { plan with requiredBytes := confirmed.requiredBytes } = confirmed :=
    hcollision.eq_of_sha256 (hhash.trans hexpected.symm)
  obtain ⟨hhost, hsolver⟩ := evaluateSolverPreflight_passed.mp hpassed
  have hspace := requiredBytes_le_of_hostIssues hhost
  rw [hplan] at heq
  refine
    { hash := hexpected, operation := hoperation, source := hsource, target := htarget
      manifest_hash := hmanifest, authorized := authorized_of_solverIssues hsolver
      fresh_space := (Nat.le_max_left _ _).trans hspace
      floor := (Nat.le_max_right _ _).trans hspace
      rebuilt := ⟨plan, hbuild, by rw [hplan]; exact heq⟩
      changes := ?_, installed := ?_, release := ?_, held := ?_, orphaned := ?_
      repositories := ?_, filesystem := ?_, secure_boot := ?_ }
  all_goals rw [← heq]
  · exact (sort_perm _).symm
  · exact (sort_perm _).symm
  · rfl
  · rfl
  · exact (sortByKey_perm _ _).symm
  · rfl
  · rfl

end

/-! ## A confirmed upgrade

A release upgrade of one package, with the digests its texts have. -/

namespace Sample

def source : ReleaseIdentity := ⟨"1.0", "desktop", "x86_64", "b1"⟩
def target : ReleaseIdentity := ⟨"1.1", "desktop", "x86_64", "b2"⟩

/-- An upgrade from 1.0 to 1.1 from one repository. -/
def manifest : ReleaseManifest where
  schemaVersion := 1
  sequence := 7
  status := .available
  validFrom := "2026-01-01T00:00:00Z"
  validUntil := "2027-01-01T00:00:00Z"
  source := source
  target := target
  minimumUpdaterVersion := "0.2.0"
  minimumFreeSpaceBytes := 4096
  repositories := [⟨"lyra", "https://lyra.example/", "https://lyra.example/key",
    "0123456789ABCDEF0123456789ABCDEF01234567", 90⟩]
  allowedRemovals := []
  allowedVendorTransitions := []
  lockstepPackages := []
  packageMigration := none

/-- A host on which the upgrade still fits. -/
def facts : HostFacts where
  release := source
  rootFilesystem := "btrfs"
  snapperRootConfigured := true
  rpmDatabaseHealthy := true
  packageLockFree := true
  availableBytes := 2000000000
  requiredDownloadBytes := 0
  requiredTransactionBytes := 0
  requiredSnapshotBytes := 0
  onBattery := false
  batteryPercent := none
  secureBootEnabled := some true
  repositories := [⟨"lyra", true, true, true, true⟩]
  heldPackages := []
  installedPackages := [⟨"dracut", "1-1", "x86_64", "Lyra"⟩]
  storage := some ⟨true, true, 300000000, none⟩
  orphanedPackages := []

def solver : SolverResult where
  schemaVersion := 1
  successful := true
  problems := []
  metadataValidRepositories := ["lyra"]
  changes := [⟨"dracut", "x86_64", .upgrade, some "1-1", some "2-1", some "Lyra", some "Lyra",
    some "lyra", 100, 10, 12⟩]
  downloadBytes := 100
  transactionSizeIncrease := 2
  estimatedSnapshotBytes := 50
  rebootRequired := true

def manifestSha256 : String := "f4271236a1c36283d118a6da776e2bd2e4b266e88c8c090abe2de127d65b7461"

def planSha256 : String := "67d0c3f08938f90df76bfe0f5be89720fb08cb42742fa9fc69853dfd1fec19dd"

/-- The plan that was confirmed, before any package was downloaded. -/
def plan : UpgradePlan where
  schemaVersion := 3
  operation := .releaseUpgrade
  source := source
  target := some target
  manifestSha256 := some manifestSha256
  requiredBytes := 1073742976
  facts := planFacts facts
  repositories := facts.repositories
  metadataValidRepositories := ["lyra"]
  thirdPartyRepositories := []
  heldPackages := []
  installedPackages := facts.installedPackages
  orphanedPackages := []
  packageChanges := solver.changes
  rebootRequired := true

/-- SHA-256 on the two texts of the sample, and no collision elsewhere. -/
def digest (text : List Char) : String :=
  if text = plan.canonicalJson then planSha256
  else if text = manifest.canonicalJson then manifestSha256
  else String.ofList ('x' :: text)

theorem digest_plan : plan.sha256 digest = planSha256 := by
  rw [UpgradePlan.sha256, digest, if_pos rfl]

theorem digest_manifest : manifest.sha256 digest = manifestSha256 := by
  have hne : manifest.canonicalJson ≠ plan.canonicalJson := by decide +kernel
  rw [ReleaseManifest.sha256, digest, if_neg hne, if_pos rfl]

theorem digest_injective : Function.Injective digest := by
  have hhead : ∀ text, String.ofList ('x' :: text) ≠ planSha256 ∧
      String.ofList ('x' :: text) ≠ manifestSha256 := by
    intro text
    constructor <;>
    · intro h
      have := congrArg (·.toList.head?) h
      rw [String.toList_ofList, List.head?_cons] at this
      exact absurd this (by decide)
  have hne : planSha256 ≠ manifestSha256 := by decide
  intro a b h
  unfold digest at h
  split_ifs at h with ha hb hb' hma hb hmb hb hmb
  · rw [ha, hb]
  · exact absurd h hne
  · exact absurd h.symm (hhead b).1
  · exact absurd h.symm hne
  · rw [hma, hmb]
  · exact absurd h.symm (hhead b).2
  · exact absurd h (hhead a).1
  · exact absurd h (hhead a).2
  · have := String.ofList_injective h
    simpa using this

end Sample

theorem revalidateReleasePlan_binds_sample :
    BindsTransaction Sample.digest Sample.facts Sample.solver Sample.manifest Sample.plan
      Sample.planSha256 :=
  revalidateReleasePlan_binds Sample.digest_injective.injOn (by decide +kernel)

end LyraUpgrade
