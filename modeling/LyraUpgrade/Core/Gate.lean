import LyraUpgrade.Core.Solver
import Mathlib.Order.Compare

/-!
# The solver preflight is exact

`evaluate_solver_preflight` lists what is wrong with a host and a proposed transaction.
`Violates` says for each issue which rule it stands for; the list holds an issue exactly
when its rule is broken, and it is sorted and without repetitions.  Hence a report
passes exactly when every rule holds (`Admissible`).

## Main results

* `mem_blockers` — an issue is reported exactly when its rule is broken.
* `solver_preflight_exact` — the list is strictly sorted, and it is empty exactly for an
  admissible host and transaction.
-/

namespace LyraUpgrade

/-! ## Sorted lists without repetitions -/

section

variable {α : Type} [Ord α]

/-- Strictly ascending: sorted, and no element twice. -/
abbrev Ascending (xs : List α) : Prop := xs.Pairwise fun a b => compare a b = .lt

theorem sort_pairwise [Std.TransOrd α] (xs : List α) :
    (sort xs).Pairwise fun a b => (compare a b).isLE := by
  have htotal : Std.Total fun a b : α => ((compare a b).isLE : Prop) := by
    refine ⟨fun a b => ?_⟩
    have hswap : compare b a = (compare a b).swap := Std.OrientedCmp.eq_swap
    rw [hswap]
    cases compare a b <;> simp
  have htrans : IsTrans α fun a b : α => (compare a b).isLE :=
    ⟨fun a b c hab hbc => Std.TransCmp.isLE_trans hab hbc⟩
  exact List.pairwise_insertionSort (fun a b : α => ((compare a b).isLE : Prop)) xs

/-- In a sorted list without equal neighbours every element is smaller than the later ones. -/
theorem ascending_of_pairwise [Std.TransOrd α] [Std.LawfulEqOrd α] {xs : List α}
    (hsorted : xs.Pairwise fun a b => (compare a b).isLE) (hchain : xs.IsChain (· ≠ ·)) :
    Ascending xs := by
  induction xs with
  | nil => exact List.Pairwise.nil
  | cons x xs ih =>
      rw [List.pairwise_cons] at hsorted
      refine List.pairwise_cons.mpr ⟨fun z hz => ?_, ih hsorted.2 hchain.tail⟩
      cases xs with
      | nil => cases hz
      | cons y ys =>
          have hne : x ≠ y := (List.isChain_cons_cons.mp hchain).1
          have hlt : compare x y = .lt := by
            have hle := hsorted.1 y (List.mem_cons_self ..)
            cases hcompare : compare x y with
            | lt => rfl
            | eq => exact absurd (Std.LawfulEqOrd.compare_eq_iff_eq.mp hcompare) hne
            | gt => rw [hcompare] at hle; cases hle
          rcases List.mem_cons.mp hz with rfl | hz
          · exact hlt
          · exact Std.TransCmp.lt_of_lt_of_isLE hlt ((List.pairwise_cons.mp hsorted.2).1 z hz)

/-- Equal elements of a sorted list are neighbours, so that `dedup` leaves one of each. -/
theorem ascending_dedup_sort [DecidableEq α] [Std.TransOrd α] [Std.LawfulEqOrd α]
    (xs : List α) : Ascending (dedup (sort xs)) :=
  ascending_of_pairwise ((sort_pairwise xs).sublist (List.destutter_sublist ..))
    (List.isChain_destutter ..)

end

/-! ## The order of the issues -/

namespace PreflightIssue

/-- The package or repository an issue names. -/
def subject : PreflightIssue → String
  | repositoryMetadataInvalid name | repositoryKeyUntrusted name | unauthorizedDowngrade name
  | unauthorizedRemoval name | unauthorizedVendorChange name => name
  | _ => ""

/-- Issues are compared by their kind, and then by the name. -/
theorem compare_eq (a b : PreflightIssue) :
    compare a b = (compare a.ctorIdx b.ctorIdx).then (compare a.subject b.subject) := by
  cases a <;> cases b <;> first | rfl | exact Ordering.then_eq

instance : Std.TransOrd PreflightIssue := by
  have h : (compare : PreflightIssue → PreflightIssue → Ordering) =
      compareLex (compareOn PreflightIssue.ctorIdx) (compareOn subject) :=
    funext fun a => funext fun b => compare_eq a b
  unfold Std.TransOrd
  rw [h]
  infer_instance

/-- Kind and name determine the issue. -/
theorem eq_of_subject {a b : PreflightIssue} (hkind : a.ctorIdx = b.ctorIdx)
    (hsubject : a.subject = b.subject) : a = b := by
  cases a <;> cases b <;>
    first | rfl | (simp only [subject] at hsubject; rw [hsubject]; done) | cases hkind

instance : Std.LawfulEqOrd PreflightIssue where
  compare_self := Std.ReflCmp.compare_self
  eq_of_compare := by
    intro a b h
    rw [compare_eq, Ordering.then_eq_eq] at h
    exact eq_of_subject (Std.LawfulEqOrd.compare_eq_iff_eq.mp h.1)
      (Std.LawfulEqOrd.compare_eq_iff_eq.mp h.2)

end PreflightIssue

/-! ## The rules -/

section

variable (facts : HostFacts) (preflightPolicy : PreflightPolicy)
variable (solver : SolverResult) (policy : SolverPolicy)

/-- The transaction touches the package. -/
def Touches (package : String) : Prop := ∃ change ∈ solver.changes, change.name = package

/-- The space the transaction needs, as the solver estimates it. -/
def neededBytes : ℕ :=
  solver.downloadBytes + solver.transactionSizeIncrease + solver.estimatedSnapshotBytes +
    preflightPolicy.freeSpaceMarginBytes

/-- The rule that an issue reports as broken. -/
def Violates : PreflightIssue → Prop
  | .storageLayoutUnknown => facts.storage = none
  | .rootNotWritable => ∃ storage, facts.storage = some storage ∧ storage.rootWritable = false
  | .homeNotIsolated => ∃ storage, facts.storage = some storage ∧ storage.homeIsolated = false
  | .insufficientBootSpace => ∃ storage, facts.storage = some storage ∧
      storage.bootAvailableBytes < 256 * 1024 * 1024
  | .insufficientEspSpace => ∃ storage, facts.storage = some storage ∧
      ∃ bytes, storage.espAvailableBytes = some bytes ∧ bytes < 32 * 1024 * 1024
  | .unsupportedEdition => facts.release.edition ≠ "desktop"
  | .unsupportedArchitecture => facts.release.architecture ≠ "x86_64"
  | .rootNotBtrfs => facts.rootFilesystem ≠ "btrfs"
  | .snapperUnavailable => facts.snapperRootConfigured = false
  | .rpmDatabaseUnhealthy => facts.rpmDatabaseHealthy = false
  | .packageManagerBusy => facts.packageLockFree = false
  | .insufficientSpace => facts.availableBytes <
      max (min (neededBytes preflightPolicy solver) u64Max) preflightPolicy.minimumFreeSpaceBytes
  | .batteryTooLow => facts.onBattery ∧ ∃ percent, facts.batteryPercent = some percent ∧
      percent < preflightPolicy.minimumBatteryPercent
  | .batteryStateUnknown => facts.onBattery ∧ facts.batteryPercent = none
  | .secureBootStateUnknown =>
      preflightPolicy.requireSecureBootFact ∧ facts.secureBootEnabled = none
  | .repositoryMetadataInvalid name => ∃ repository ∈ facts.repositories,
      repository.enabled ∧ name = repository.alias ∧
        repository.alias ∉ solver.metadataValidRepositories
  | .repositoryKeyUntrusted name => ∃ repository ∈ facts.repositories,
      repository.enabled ∧ name = repository.alias ∧ repository.signingKeyTrusted = false
  | .unsupportedSolverSchema => solver.schemaVersion ≠ 1
  | .solverFailed => solver.successful = false ∨ solver.problems ≠ []
  | .unauthorizedDowngrade name => ∃ change ∈ solver.changes,
      name = change.name ∧ change.action = .downgrade
  | .unauthorizedRemoval name => ∃ change ∈ solver.changes,
      name = change.name ∧ change.action = .remove ∧ change.name ∉ policy.allowedRemovals
  | .unauthorizedVendorChange name =>
      .unauthorizedVendorChange name ∈ vendorPolicyBlockers solver.changes policy
  | .lockstepViolation => ∃ group ∈ policy.lockstepPackages,
      (∃ package ∈ group, Touches solver package) ∧ ∃ package ∈ group, ¬ Touches solver package

/-- Every rule holds. -/
structure Admissible : Prop where
  storage : ∃ storage, facts.storage = some storage ∧ storage.rootWritable ∧
    storage.homeIsolated ∧ 256 * 1024 * 1024 ≤ storage.bootAvailableBytes ∧
    ∀ bytes ∈ storage.espAvailableBytes, 32 * 1024 * 1024 ≤ bytes
  edition : facts.release.edition = "desktop"
  architecture : facts.release.architecture = "x86_64"
  filesystem : facts.rootFilesystem = "btrfs"
  snapper : facts.snapperRootConfigured
  rpmDatabase : facts.rpmDatabaseHealthy
  packageLock : facts.packageLockFree
  space : max (min (neededBytes preflightPolicy solver) u64Max)
    preflightPolicy.minimumFreeSpaceBytes ≤ facts.availableBytes
  battery : facts.onBattery → ∃ percent, facts.batteryPercent = some percent ∧
    preflightPolicy.minimumBatteryPercent ≤ percent
  secureBoot : preflightPolicy.requireSecureBootFact → facts.secureBootEnabled.isSome
  repositories : ∀ repository ∈ facts.repositories, repository.enabled →
    repository.signingKeyTrusted ∧ repository.alias ∈ solver.metadataValidRepositories
  schema : solver.schemaVersion = 1
  successful : solver.successful
  problems : solver.problems = []
  downgrades : ∀ change ∈ solver.changes, change.action ≠ .downgrade
  removals : ∀ change ∈ solver.changes, change.action = .remove →
    change.name ∈ policy.allowedRemovals
  vendors : vendorPolicyBlockers solver.changes policy = []
  lockstep : ∀ group ∈ policy.lockstepPackages,
    (∀ package ∈ group, ¬ Touches solver package) ∨ ∀ package ∈ group, Touches solver package

end

section

variable {facts : HostFacts} {preflightPolicy : PreflightPolicy}
variable {solver : SolverResult} {policy : SolverPolicy}

/-- The nested saturating sums saturate once. -/
theorem requiredBytes_enrichFacts : requiredBytes (enrichFacts facts solver) preflightPolicy =
    max (min (neededBytes preflightPolicy solver) u64Max)
      preflightPolicy.minimumFreeSpaceBytes := by
  simp only [requiredBytes, enrichFacts, saturatingAdd, neededBytes]
  congr 1
  omega

@[simp] theorem mem_issueIf {condition : Bool} {issue issue' : PreflightIssue} :
    issue' ∈ issueIf condition issue ↔ issue' = issue ∧ condition := by
  cases condition <;> simp [issueIf]

variable {issue : PreflightIssue}

theorem mem_storageIssues {storage? : Option StorageFacts} : issue ∈ storageIssues storage? ↔
    (issue = .storageLayoutUnknown ∧ storage? = none) ∨ ∃ storage, storage? = some storage ∧
      ((issue = .rootNotWritable ∧ storage.rootWritable = false) ∨
      (issue = .homeNotIsolated ∧ storage.homeIsolated = false) ∨
      (issue = .insufficientBootSpace ∧ storage.bootAvailableBytes < 256 * 1024 * 1024) ∨
      (issue = .insufficientEspSpace ∧
        ∃ bytes, storage.espAvailableBytes = some bytes ∧ bytes < 32 * 1024 * 1024)) := by
  cases storage? with
  | none => simp [storageIssues]
  | some storage =>
      have hesp : storage.espAvailableBytes.any (· < 32 * 1024 * 1024) ↔
          ∃ bytes, storage.espAvailableBytes = some bytes ∧ bytes < 32 * 1024 * 1024 := by
        cases storage.espAvailableBytes <;> simp
      simp only [storageIssues, List.mem_append, mem_issueIf, hesp, Option.some.injEq]
      simp [or_assoc]

theorem mem_batteryIssues : issue ∈ batteryIssues facts preflightPolicy ↔ facts.onBattery ∧
    ((issue = .batteryTooLow ∧ ∃ percent, facts.batteryPercent = some percent ∧
      percent < preflightPolicy.minimumBatteryPercent) ∨
    (issue = .batteryStateUnknown ∧ facts.batteryPercent = none)) := by
  unfold batteryIssues
  cases facts.onBattery <;> cases facts.batteryPercent <;> simp

theorem mem_repositoryIssues {repository : RepositoryFact} :
    issue ∈ repositoryIssues repository ↔
      (issue = .repositoryMetadataInvalid repository.alias ∧ repository.metadataValid = false) ∨
      (issue = .repositoryKeyUntrusted repository.alias ∧
        repository.signingKeyTrusted = false) := by
  simp [repositoryIssues]

/-- The issues of the enabled repositories, by what the solver has proved. -/
theorem mem_enabledIssues :
    (∃ repository ∈ (enrichFacts facts solver).repositories.filter (·.enabled),
      issue ∈ repositoryIssues repository) ↔
    ∃ repository ∈ facts.repositories, repository.enabled ∧
      ((issue = .repositoryMetadataInvalid repository.alias ∧
        repository.alias ∉ solver.metadataValidRepositories) ∨
      (issue = .repositoryKeyUntrusted repository.alias ∧
        repository.signingKeyTrusted = false)) := by
  have hmap : (enrichFacts facts solver).repositories.filter (·.enabled) =
      (facts.repositories.filter (·.enabled)).map fun repository =>
        { repository with
          metadataValid := solver.metadataValidRepositories.contains repository.alias } := by
    simp only [enrichFacts]
    induction facts.repositories with
    | nil => rfl
    | cons repository repositories ih =>
        rw [List.map_cons, List.filter_cons, List.filter_cons]
        cases henabled : repository.enabled <;>
          simp only [henabled, Bool.false_eq_true, ↓reduceIte, List.map_cons, ih]
  rw [hmap]
  simp [mem_repositoryIssues, and_assoc]

theorem mem_changeIssues {change : PackageChange} : issue ∈ changeIssues policy change ↔
    (issue = .unauthorizedDowngrade change.name ∧ change.action = .downgrade) ∨
    (issue = .unauthorizedRemoval change.name ∧ change.action = .remove ∧
      change.name ∉ policy.allowedRemovals) := by
  simp [changeIssues]

theorem subject_of_mem_vendorPolicyBlockers
    (h : issue ∈ vendorPolicyBlockers solver.changes policy) :
    issue = .unauthorizedVendorChange issue.subject := by
  obtain ⟨change, -, hchange⟩ := List.mem_filterMap.mp h
  split_ifs at hchange
  cases hchange
  rfl

theorem mem_lockstepIssues {group : List String} : issue ∈ lockstepIssues solver.changes group ↔
    issue = .lockstepViolation ∧ (∃ package ∈ group, Touches solver package) ∧
      ∃ package ∈ group, ¬ Touches solver package := by
  have hnone : lockstepIssues solver.changes group ≠ [] ↔
      (∃ package ∈ group, Touches solver package) ∧
        ∃ package ∈ group, ¬ Touches solver package := by
    rw [ne_eq, lockstepIssues_eq_nil]
    simp [Touches]
  rw [← hnone]
  simp only [lockstepIssues, mem_issueIf, ne_eq, issueIf_eq_nil, Bool.not_eq_false]

/-- **An issue is found exactly when its rule is broken.** -/
theorem mem_issues : issue ∈ hostIssues (enrichFacts facts solver) preflightPolicy ∨
    issue ∈ solverIssues solver policy ↔ Violates facts preflightPolicy solver policy issue := by
  simp only [hostIssues, solverIssues, List.mem_append, List.mem_flatMap, mem_issueIf,
    mem_storageIssues, mem_batteryIssues, mem_enabledIssues, mem_changeIssues, mem_lockstepIssues,
    requiredBytes_enrichFacts]
  have hvendor : issue ∈ vendorPolicyBlockers solver.changes policy →
      issue = .unauthorizedVendorChange issue.subject := subject_of_mem_vendorPolicyBlockers
  cases issue <;> simp at hvendor <;> simp [Violates, enrichFacts, hvendor]

/-- Where no rule is broken every rule holds. -/
theorem admissible_iff : Admissible facts preflightPolicy solver policy ↔
    ∀ issue, ¬ Violates facts preflightPolicy solver policy issue := by
  constructor
  · intro h issue hissue
    obtain ⟨storage, hstorage, hroot, hhome, hboot, hesp⟩ := h.storage
    cases issue with
    | storageLayoutUnknown => rw [Violates, hstorage] at hissue; cases hissue
    | rootNotWritable | homeNotIsolated | insufficientBootSpace =>
        simp only [Violates, hstorage, Option.some.injEq] at hissue
        grind
    | insufficientEspSpace =>
        obtain ⟨storage', hstorage', bytes, hbytes, hlt⟩ := hissue
        rw [hstorage] at hstorage'
        cases hstorage'
        exact absurd (hesp bytes hbytes) (Nat.not_le.mpr hlt)
    | unsupportedEdition => exact hissue h.edition
    | unsupportedArchitecture => exact hissue h.architecture
    | rootNotBtrfs => exact hissue h.filesystem
    | snapperUnavailable => exact absurd h.snapper (by rw [hissue]; decide)
    | rpmDatabaseUnhealthy => exact absurd h.rpmDatabase (by rw [hissue]; decide)
    | packageManagerBusy => exact absurd h.packageLock (by rw [hissue]; decide)
    | insufficientSpace => exact absurd h.space (Nat.not_le.mpr hissue)
    | batteryTooLow | batteryStateUnknown =>
        obtain ⟨percent, hpercent, hle⟩ := h.battery hissue.1
        simp only [Violates, hpercent] at hissue
        grind
    | secureBootStateUnknown =>
        have hsome := h.secureBoot hissue.1
        rw [hissue.2] at hsome
        cases hsome
    | repositoryMetadataInvalid name | repositoryKeyUntrusted name =>
        obtain ⟨repository, hmem, henabled, -, hbroken⟩ := hissue
        have hrule := h.repositories repository hmem henabled
        grind
    | unsupportedSolverSchema => exact hissue h.schema
    | solverFailed =>
        rcases hissue with hfailed | hproblems
        · exact absurd h.successful (by rw [hfailed]; decide)
        · exact hproblems h.problems
    | unauthorizedDowngrade name =>
        obtain ⟨change, hmem, -, hdowngrade⟩ := hissue
        exact h.downgrades change hmem hdowngrade
    | unauthorizedRemoval name =>
        obtain ⟨change, hmem, -, hremove, hforbidden⟩ := hissue
        exact hforbidden (h.removals change hmem hremove)
    | unauthorizedVendorChange name => rw [Violates, h.vendors] at hissue; cases hissue
    | lockstepViolation =>
        obtain ⟨group, hgroup, ⟨package, hpackage, htouched⟩, other, hother, huntouched⟩ := hissue
        rcases h.lockstep group hgroup with hnone | hall
        · exact hnone package hpackage htouched
        · exact huntouched (hall other hother)
  · intro h
    obtain ⟨storage, hstorage⟩ := Option.ne_none_iff_exists'.mp (h .storageLayoutUnknown)
    exact {
      storage := ⟨storage, hstorage,
        eq_true_of_ne_false fun hbroken => h .rootNotWritable ⟨storage, hstorage, hbroken⟩,
        eq_true_of_ne_false fun hbroken => h .homeNotIsolated ⟨storage, hstorage, hbroken⟩,
        Nat.not_lt.mp fun hbroken => h .insufficientBootSpace ⟨storage, hstorage, hbroken⟩,
        fun bytes hbytes => Nat.not_lt.mp fun hbroken =>
          h .insufficientEspSpace ⟨storage, hstorage, bytes, hbytes, hbroken⟩⟩
      edition := not_not.mp (h .unsupportedEdition)
      architecture := not_not.mp (h .unsupportedArchitecture)
      filesystem := not_not.mp (h .rootNotBtrfs)
      snapper := eq_true_of_ne_false (h .snapperUnavailable)
      rpmDatabase := eq_true_of_ne_false (h .rpmDatabaseUnhealthy)
      packageLock := eq_true_of_ne_false (h .packageManagerBusy)
      space := Nat.not_lt.mp (h .insufficientSpace)
      battery := by
        intro hbattery
        have hknown : facts.batteryPercent ≠ none := fun hnone =>
          h .batteryStateUnknown ⟨hbattery, hnone⟩
        obtain ⟨percent, hpercent⟩ := Option.ne_none_iff_exists'.mp hknown
        exact ⟨percent, hpercent, Nat.not_lt.mp fun hlow =>
          h .batteryTooLow ⟨hbattery, percent, hpercent, hlow⟩⟩
      secureBoot := fun hrequired => Option.isSome_iff_ne_none.mpr fun hnone =>
        h .secureBootStateUnknown ⟨hrequired, hnone⟩
      repositories := fun repository hmem henabled =>
        ⟨eq_true_of_ne_false fun hbroken =>
            h (.repositoryKeyUntrusted repository.alias) ⟨repository, hmem, henabled, rfl, hbroken⟩,
          not_not.mp fun hbroken =>
            h (.repositoryMetadataInvalid repository.alias)
              ⟨repository, hmem, henabled, rfl, hbroken⟩⟩
      schema := not_not.mp (h .unsupportedSolverSchema)
      successful := eq_true_of_ne_false fun hfailed => h .solverFailed (.inl hfailed)
      problems := not_not.mp fun hproblems => h .solverFailed (.inr hproblems)
      downgrades := fun change hmem hdowngrade =>
        h (.unauthorizedDowngrade change.name) ⟨change, hmem, rfl, hdowngrade⟩
      removals := fun change hmem hremove => not_not.mp fun hforbidden =>
        h (.unauthorizedRemoval change.name) ⟨change, hmem, rfl, hremove, hforbidden⟩
      vendors := by
        refine List.eq_nil_iff_forall_not_mem.mpr fun issue hissue => ?_
        have hsubject := subject_of_mem_vendorPolicyBlockers hissue
        rw [hsubject] at hissue
        exact h (.unauthorizedVendorChange issue.subject) hissue
      lockstep := by
        intro group hgroup
        by_contra hpartial
        push Not at hpartial
        exact h .lockstepViolation ⟨group, hgroup, hpartial.1, hpartial.2⟩ }

theorem blockers_eq : (evaluateSolverPreflight facts preflightPolicy solver policy).blockers =
    dedup (sort ((evaluatePreflight (enrichFacts facts solver) preflightPolicy).blockers ++
      solverIssues solver policy)) := rfl

theorem mem_blockers :
    issue ∈ (evaluateSolverPreflight facts preflightPolicy solver policy).blockers ↔
      Violates facts preflightPolicy solver policy issue := by
  rw [← mem_issues, blockers_eq, mem_dedup, (sort_perm _).mem_iff, List.mem_append]
  refine or_congr_left ?_
  rw [evaluatePreflight, mem_dedup, (sort_perm _).mem_iff]

/-- **The gate is exact.**  A report passes exactly when every rule holds; its issues are
strictly ascending, and they are those of the broken rules.  Below `u64::MAX` free bytes,
saturation makes no difference to the rule for space. -/
theorem solver_preflight_exact (facts : HostFacts) (preflightPolicy : PreflightPolicy)
    (solver : SolverResult) (policy : SolverPolicy) :
    ((evaluateSolverPreflight facts preflightPolicy solver policy).passed ↔
      Admissible facts preflightPolicy solver policy) ∧
    Ascending (evaluateSolverPreflight facts preflightPolicy solver policy).blockers ∧
    (∀ issue, issue ∈ (evaluateSolverPreflight facts preflightPolicy solver policy).blockers ↔
      Violates facts preflightPolicy solver policy issue) ∧
    (facts.availableBytes < u64Max →
      (max (min (neededBytes preflightPolicy solver) u64Max)
          preflightPolicy.minimumFreeSpaceBytes ≤ facts.availableBytes ↔
        neededBytes preflightPolicy solver ≤ facts.availableBytes ∧
          preflightPolicy.minimumFreeSpaceBytes ≤ facts.availableBytes)) := by
  refine ⟨?_, ascending_dedup_sort _, fun issue => mem_blockers, fun hbelow => by omega⟩
  rw [PreflightReport.passed, List.isEmpty_iff, List.eq_nil_iff_forall_not_mem, admissible_iff]
  exact forall_congr' fun issue => not_congr mem_blockers

end

end LyraUpgrade
