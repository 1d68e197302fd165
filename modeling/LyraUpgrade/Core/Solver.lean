import LyraUpgrade.Core.Preflight

/-!
# Solver results and their policy

`core/src/solver.rs`: what the package solver proposes, and the policy it is held
to.  `evaluate_preflight` judges the host; `evaluateSolverPreflight` adds the
proposed transaction.
-/

namespace LyraUpgrade

inductive PackageAction
  | install
  | upgrade
  | downgrade
  | remove
  | reinstall
  deriving DecidableEq, Repr, Ord

structure PackageChange where
  name : String
  architecture : String
  action : PackageAction
  currentVersion : Option String
  proposedVersion : Option String
  currentVendor : Option String
  proposedVendor : Option String
  repositoryAlias : Option String
  downloadBytes : ℕ
  installedSizeBefore : ℕ
  installedSizeAfter : ℕ
  deriving DecidableEq, Repr, Ord

structure SolverResult where
  schemaVersion : ℕ
  successful : Bool
  problems : List String
  metadataValidRepositories : List String
  changes : List PackageChange
  downloadBytes : ℕ
  transactionSizeIncrease : ℕ
  estimatedSnapshotBytes : ℕ
  rebootRequired : Bool
  deriving DecidableEq, Repr

/-- A directed vendor change.  Without `packages` it is granted to every package,
with it to exactly the named ones. -/
structure VendorTransition where
  «from» : String
  «to» : String
  packages : Option (List String)
  deriving DecidableEq, Repr

structure SolverPolicy where
  allowedRemovals : List String := []
  allowedVendorTransitions : List VendorTransition := []
  lockstepPackages : List (List String) := []
  deriving DecidableEq, Repr

/-- `valid_package`. -/
def validPackage (value : String) : Bool :=
  !value.isEmpty && value.toList.all fun c =>
    c.isAlphanum || c = '+' || c = '.' || c = '-' || c = '_'

/-- `valid_vendor`. -/
def validVendor (value : String) : Bool :=
  !(trim value.toList).isEmpty && value.utf8ByteSize ≤ 512 && !value.toList.any isControl

/-- The scope of a rule, if there is one, names valid packages once each. -/
def validScope (packages : Option (List String)) : Bool :=
  packages.all fun names => !names.isEmpty && decide names.Nodup && names.all validPackage

/-- The rules from left to right; `pairs` remembers for each directed pair whether
its last rule was scoped. -/
def validRulesFrom (pairs : List ((String × String) × Bool)) : List VendorTransition → Bool
  | [] => true
  | rule :: rules =>
      validVendor rule.from && validVendor rule.«to» && validScope rule.packages &&
      (pairs.lookup (rule.from, rule.«to»)).all (· = rule.packages.isSome) &&
      validRulesFrom (((rule.from, rule.«to»), rule.packages.isSome) :: pairs) rules

/-- `valid_vendor_transitions`: a grant for a whole pair must not silently override
a restricted one. -/
def validVendorTransitions (rules : List VendorTransition) : Bool := validRulesFrom [] rules

/-- The vendor change of one package is one the policy permits. -/
def vendorPermitted (policy : SolverPolicy) (validRules : Bool) (change : PackageChange) : Bool :=
  let origin := change.currentVendor.filter validVendor
  let proposed := change.proposedVendor.filter validVendor
  match change.action with
  | .install => origin.isNone && change.currentVendor.isNone && proposed.isSome
  | .remove => origin.isSome && change.proposedVendor.isNone
  | _ =>
      match origin, proposed with
      | some origin, some proposed =>
          origin = proposed || (validRules && policy.allowedVendorTransitions.any fun allowed =>
            allowed.from = origin && allowed.«to» = proposed &&
              allowed.packages.all (·.contains change.name))
      | _, _ => false

/-- `vendor_policy_blockers`. -/
def vendorPolicyBlockers (changes : List PackageChange) (policy : SolverPolicy) :
    List PreflightIssue :=
  let validRules := validVendorTransitions policy.allowedVendorTransitions
  changes.filterMap fun change =>
    if vendorPermitted policy validRules change then none
    else some (.unauthorizedVendorChange change.name)

/-- The facts with the solver's own numbers and the repositories it proved. -/
def enrichFacts (facts : HostFacts) (solver : SolverResult) : HostFacts :=
  { facts with
    repositories := facts.repositories.map fun repository =>
      if repository.enabled then
        { repository with
          metadataValid := solver.metadataValidRepositories.contains repository.alias }
      else repository
    requiredDownloadBytes := solver.downloadBytes
    requiredTransactionBytes := solver.transactionSizeIncrease
    requiredSnapshotBytes := solver.estimatedSnapshotBytes }

def changeIssues (policy : SolverPolicy) (change : PackageChange) : List PreflightIssue :=
  issueIf (change.action = .downgrade) (.unauthorizedDowngrade change.name) ++
  issueIf (change.action = .remove && !policy.allowedRemovals.contains change.name)
    (.unauthorizedRemoval change.name)

/-- The members of a lockstep group that the transaction touches. -/
def changedMembers (changes : List PackageChange) (group : List String) : List String :=
  group.filter fun package => changes.any (·.name = package)

def lockstepIssues (changes : List PackageChange) (group : List String) : List PreflightIssue :=
  let changed := changedMembers changes group
  issueIf (!changed.isEmpty && changed.length ≠ group.length) .lockstepViolation

/-- Every issue of the proposed transaction. -/
def solverIssues (solver : SolverResult) (policy : SolverPolicy) : List PreflightIssue :=
  issueIf (solver.schemaVersion ≠ 1) .unsupportedSolverSchema ++
  issueIf (!solver.successful || !solver.problems.isEmpty) .solverFailed ++
  solver.changes.flatMap (changeIssues policy) ++
  vendorPolicyBlockers solver.changes policy ++
  policy.lockstepPackages.flatMap (lockstepIssues solver.changes)

/-- `evaluate_solver_preflight`. -/
def evaluateSolverPreflight (facts : HostFacts) (preflightPolicy : PreflightPolicy)
    (solver : SolverResult) (solverPolicy : SolverPolicy) : PreflightReport :=
  let report := evaluatePreflight (enrichFacts facts solver) preflightPolicy
  { report with blockers := dedup (sort (report.blockers ++ solverIssues solver solverPolicy)) }

/-! ## What a passing report says -/

variable {facts : HostFacts} {preflightPolicy : PreflightPolicy}
variable {solver : SolverResult} {policy : SolverPolicy}

/-- A passing report means that neither the host nor the transaction raised
anything. -/
theorem evaluateSolverPreflight_passed :
    (evaluateSolverPreflight facts preflightPolicy solver policy).passed ↔
      hostIssues (enrichFacts facts solver) preflightPolicy = [] ∧
        solverIssues solver policy = [] := by
  rw [PreflightReport.passed, List.isEmpty_iff]
  simp only [evaluateSolverPreflight, dedup_sort_eq_nil, List.append_eq_nil_iff]
  refine and_congr_left fun _ => ?_
  rw [← evaluatePreflight_passed, PreflightReport.passed, List.isEmpty_iff]

/-- The transaction contains nothing the policy forbids. -/
structure Authorized (changes : List PackageChange) (policy : SolverPolicy) : Prop where
  no_downgrade : ∀ change ∈ changes, change.action ≠ .downgrade
  removal_allowed : ∀ change ∈ changes, change.action = .remove →
    change.name ∈ policy.allowedRemovals
  vendor_permitted : ∀ change ∈ changes,
    vendorPermitted policy (validVendorTransitions policy.allowedVendorTransitions) change
  lockstep : ∀ group ∈ policy.lockstepPackages,
    (∀ package ∈ group, ∀ change ∈ changes, change.name ≠ package) ∨
    (∀ package ∈ group, ∃ change ∈ changes, change.name = package)

private theorem changedMembers_eq_nil {changes : List PackageChange} {group : List String} :
    changedMembers changes group = [] ↔
      ∀ package ∈ group, ∀ change ∈ changes, change.name ≠ package := by
  simp [changedMembers, List.filter_eq_nil_iff]

private theorem changedMembers_length {changes : List PackageChange} {group : List String} :
    (changedMembers changes group).length = group.length ↔
      ∀ package ∈ group, ∃ change ∈ changes, change.name = package := by
  rw [changedMembers, List.length_filter_eq_length_iff]
  simp

theorem lockstepIssues_eq_nil {changes : List PackageChange} {group : List String} :
    lockstepIssues changes group = [] ↔
      (∀ package ∈ group, ∀ change ∈ changes, change.name ≠ package) ∨
      (∀ package ∈ group, ∃ change ∈ changes, change.name = package) := by
  rw [← changedMembers_eq_nil, ← changedMembers_length]
  simp only [lockstepIssues, issueIf_eq_nil, Bool.and_eq_false_iff, Bool.not_eq_false',
    List.isEmpty_iff, decide_eq_false_iff_not, not_not]

theorem vendorPolicyBlockers_eq_nil {changes : List PackageChange} :
    vendorPolicyBlockers changes policy = [] ↔ ∀ change ∈ changes,
      vendorPermitted policy (validVendorTransitions policy.allowedVendorTransitions) change := by
  simp only [vendorPolicyBlockers, List.filterMap_eq_nil_iff]
  refine forall_congr' fun change => imp_congr_right fun _ => ?_
  split_ifs with h <;> simp [h]

/-- A transaction without issues is authorized. -/
theorem authorized_of_solverIssues (h : solverIssues solver policy = []) :
    Authorized solver.changes policy := by
  simp only [solverIssues, List.append_eq_nil_iff, List.flatMap_eq_nil_iff] at h
  obtain ⟨⟨⟨-, hchanges⟩, hvendor⟩, hlockstep⟩ := h
  constructor
  · intro change hmem hdown
    have := hchanges change hmem
    simp [changeIssues, hdown] at this
  · intro change hmem hremove
    have := hchanges change hmem
    simpa [changeIssues, hremove] using this
  · exact vendorPolicyBlockers_eq_nil.mp hvendor
  · exact fun group hmem => lockstepIssues_eq_nil.mp (hlockstep group hmem)

end LyraUpgrade
