import LyraUpgrade.Core.Persistence
import Mathlib.Data.List.Sort
import Mathlib.Data.List.Destutter

/-!
# Host facts and preflight

The fact and report types of `core/src/preflight.rs` and `evaluate_preflight`.
Orders are the ones the source derives: fields from left to right, enumerators in
declaration order.
-/

namespace LyraUpgrade

/-! ## Sorting -/

/-- `slice::sort` on a type with a derived order: a stable sort. -/
def sort {α : Type} [Ord α] (xs : List α) : List α :=
  xs.insertionSort fun a b => (compare a b).isLE

/-- `Vec::sort_by` with the comparison of a key. -/
def sortByKey {α κ : Type} [Ord κ] (key : α → κ) (xs : List α) : List α :=
  xs.insertionSort fun a b => (compare (key a) (key b)).isLE

/-- `Vec::dedup`: of equal neighbours only the first stays. -/
def dedup {α : Type} [DecidableEq α] (xs : List α) : List α := xs.destutter (· ≠ ·)

theorem sort_perm {α : Type} [Ord α] (xs : List α) : (sort xs).Perm xs :=
  List.perm_insertionSort _ xs

theorem sortByKey_perm {α κ : Type} [Ord κ] (key : α → κ) (xs : List α) :
    (sortByKey key xs).Perm xs :=
  List.perm_insertionSort _ xs

private theorem mem_destutter' {α : Type} [DecidableEq α] {a x : α} {xs : List α} :
    a ∈ xs.destutter' (· ≠ ·) x ↔ a ∈ x :: xs := by
  induction xs generalizing x with
  | nil => simp
  | cons y ys ih =>
      by_cases hxy : x = y
      · subst hxy
        rw [List.destutter'_cons_neg _ (by simp), ih]
        simp
      · rw [List.destutter'_cons_pos _ hxy, List.mem_cons, ih]
        simp only [List.mem_cons]

/-- Dropping repetitions drops no element. -/
theorem mem_dedup {α : Type} [DecidableEq α] {a : α} {xs : List α} : a ∈ dedup xs ↔ a ∈ xs := by
  cases xs with
  | nil => simp [dedup]
  | cons x xs => exact mem_destutter'

theorem dedup_sort_eq_nil {α : Type} [Ord α] [DecidableEq α] {xs : List α} :
    dedup (sort xs) = [] ↔ xs = [] := by
  constructor
  · intro h
    refine List.eq_nil_iff_forall_not_mem.mpr fun a ha => ?_
    have : a ∈ dedup (sort xs) := mem_dedup.mpr ((sort_perm xs).mem_iff.mpr ha)
    rw [h] at this
    cases this
  · rintro rfl
    rfl

/-! ## Facts -/

structure InstalledPackage where
  name : String
  version : String
  architecture : String
  vendor : String
  deriving DecidableEq, Repr, Ord

structure StorageFacts where
  rootWritable : Bool
  homeIsolated : Bool
  bootAvailableBytes : ℕ
  espAvailableBytes : Option ℕ
  deriving DecidableEq, Repr

structure RepositoryFact where
  «alias» : String
  enabled : Bool
  official : Bool
  metadataValid : Bool
  signingKeyTrusted : Bool
  deriving DecidableEq, Repr

structure HostFacts where
  release : ReleaseIdentity
  rootFilesystem : String
  snapperRootConfigured : Bool
  rpmDatabaseHealthy : Bool
  packageLockFree : Bool
  availableBytes : ℕ
  requiredDownloadBytes : ℕ
  requiredTransactionBytes : ℕ
  requiredSnapshotBytes : ℕ
  onBattery : Bool
  batteryPercent : Option ℕ
  secureBootEnabled : Option Bool
  repositories : List RepositoryFact
  heldPackages : List String
  installedPackages : List InstalledPackage
  storage : Option StorageFacts
  orphanedPackages : List String
  deriving DecidableEq, Repr

structure PreflightPolicy where
  minimumBatteryPercent : ℕ := 40
  freeSpaceMarginBytes : ℕ := 1024 * 1024 * 1024
  minimumFreeSpaceBytes : ℕ := 0
  requireSecureBootFact : Bool := true
  deriving DecidableEq, Repr

inductive PreflightIssue
  | storageLayoutUnknown
  | rootNotWritable
  | homeNotIsolated
  | insufficientBootSpace
  | insufficientEspSpace
  | unsupportedEdition
  | unsupportedArchitecture
  | rootNotBtrfs
  | snapperUnavailable
  | rpmDatabaseUnhealthy
  | packageManagerBusy
  | insufficientSpace
  | batteryTooLow
  | batteryStateUnknown
  | secureBootStateUnknown
  | repositoryMetadataInvalid («alias» : String)
  | repositoryKeyUntrusted («alias» : String)
  | unsupportedSolverSchema
  | solverFailed
  | unauthorizedDowngrade (package : String)
  | unauthorizedRemoval (package : String)
  | unauthorizedVendorChange (package : String)
  | lockstepViolation
  deriving DecidableEq, Repr, Ord

structure PreflightReport where
  requiredBytes : ℕ
  availableBytes : ℕ
  blockers : List PreflightIssue
  thirdPartyRepositories : List String
  heldPackages : List String
  orphanedPackages : List String
  deriving DecidableEq, Repr

def PreflightReport.passed (self : PreflightReport) : Bool := self.blockers.isEmpty

/-! ## Evaluation -/

/-- One issue if the condition holds. -/
def issueIf (condition : Bool) (issue : PreflightIssue) : List PreflightIssue :=
  if condition then [issue] else []

/-- What the storage layout is blocked for. -/
def storageIssues : Option StorageFacts → List PreflightIssue
  | none => [.storageLayoutUnknown]
  | some storage =>
      issueIf (!storage.rootWritable) .rootNotWritable ++
      issueIf (!storage.homeIsolated) .homeNotIsolated ++
      issueIf (storage.bootAvailableBytes < 256 * 1024 * 1024) .insufficientBootSpace ++
      issueIf (storage.espAvailableBytes.any (· < 32 * 1024 * 1024)) .insufficientEspSpace

/-- The space an upgrade needs, with the margin and the floor of the policy. -/
def requiredBytes (facts : HostFacts) (policy : PreflightPolicy) : ℕ :=
  max (saturatingAdd (saturatingAdd (saturatingAdd facts.requiredDownloadBytes
    facts.requiredTransactionBytes) facts.requiredSnapshotBytes) policy.freeSpaceMarginBytes)
    policy.minimumFreeSpaceBytes

def batteryIssues (facts : HostFacts) (policy : PreflightPolicy) : List PreflightIssue :=
  if facts.onBattery then
    match facts.batteryPercent with
    | some percent => issueIf (percent < policy.minimumBatteryPercent) .batteryTooLow
    | none => [.batteryStateUnknown]
  else []

def repositoryIssues (repository : RepositoryFact) : List PreflightIssue :=
  issueIf (!repository.metadataValid) (.repositoryMetadataInvalid repository.alias) ++
  issueIf (!repository.signingKeyTrusted) (.repositoryKeyUntrusted repository.alias)

/-- Every issue of the host, in the order in which the source finds them. -/
def hostIssues (facts : HostFacts) (policy : PreflightPolicy) : List PreflightIssue :=
  storageIssues facts.storage ++
  issueIf (facts.release.edition ≠ "desktop") .unsupportedEdition ++
  issueIf (facts.release.architecture ≠ "x86_64") .unsupportedArchitecture ++
  issueIf (facts.rootFilesystem ≠ "btrfs") .rootNotBtrfs ++
  issueIf (!facts.snapperRootConfigured) .snapperUnavailable ++
  issueIf (!facts.rpmDatabaseHealthy) .rpmDatabaseUnhealthy ++
  issueIf (!facts.packageLockFree) .packageManagerBusy ++
  issueIf (facts.availableBytes < requiredBytes facts policy) .insufficientSpace ++
  batteryIssues facts policy ++
  issueIf (policy.requireSecureBootFact && facts.secureBootEnabled.isNone)
    .secureBootStateUnknown ++
  (facts.repositories.filter (·.enabled)).flatMap repositoryIssues

/-- `evaluate_preflight`. -/
def evaluatePreflight (facts : HostFacts) (policy : PreflightPolicy) : PreflightReport where
  requiredBytes := requiredBytes facts policy
  availableBytes := facts.availableBytes
  blockers := dedup (sort (hostIssues facts policy))
  thirdPartyRepositories := dedup (sort
    (((facts.repositories.filter (·.enabled)).filter (!·.official)).map (·.alias)))
  heldPackages := dedup (sort facts.heldPackages)
  orphanedPackages := dedup (sort facts.orphanedPackages)

@[simp] theorem issueIf_eq_nil {condition : Bool} {issue : PreflightIssue} :
    issueIf condition issue = [] ↔ condition = false := by
  cases condition <;> simp [issueIf]

/-- A passing report means that no check of the host raised anything. -/
theorem evaluatePreflight_passed {facts : HostFacts} {policy : PreflightPolicy} :
    (evaluatePreflight facts policy).passed ↔ hostIssues facts policy = [] := by
  rw [PreflightReport.passed, List.isEmpty_iff]
  exact dedup_sort_eq_nil

end LyraUpgrade
