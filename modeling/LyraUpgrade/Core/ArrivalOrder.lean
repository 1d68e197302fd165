import LyraUpgrade.Core.Gate
import LyraUpgrade.Core.Plan

/-!
# Plans and the order of arrival

Facts and solver results come from commands whose output has no promised order,
and the plan that the user confirmed is compared by digest with the one computed
again later.  The preflight report and the plan do not depend on the order in
which the lists arrive.

## Main definitions

* `SameFacts`, `SameSolver` : equal up to the order of arrival

## Main results

* `sortByKey_congr`, `sort_congr`, `dedup_sort_congr` : sorted lists are normal forms
* `plan_of_same` : one report, one plan and one digest
-/

namespace LyraUpgrade

/-! ## Normal forms of lists -/

section Sorting

variable {α κ : Type}

theorem sortByKey_pairwise [Ord κ] [Std.TransOrd κ] (key : α → κ) (xs : List α) :
    (sortByKey key xs).Pairwise fun a b => (compare (key a) (key b)).isLE := by
  have htotal : Std.Total fun a b : α => (compare (key a) (key b)).isLE = true := by
    constructor
    intro a b
    rw [Std.OrientedOrd.eq_swap (a := key b)]
    cases compare (key a) (key b) <;> simp
  have htrans : IsTrans α fun a b => (compare (key a) (key b)).isLE = true :=
    ⟨fun _ _ _ hab hbc => Std.TransOrd.isLE_trans hab hbc⟩
  exact List.pairwise_insertionSort _ xs

/-- Sorting by a key that tells the elements apart forgets the order of arrival. -/
theorem sortByKey_congr [Ord κ] [Std.TransOrd κ] [Std.LawfulEqOrd κ] {key : α → κ}
    {xs ys : List α} (hperm : xs.Perm ys) (hkey : (xs.map key).Nodup) :
    sortByKey key xs = sortByKey key ys := by
  refine List.Perm.eq_of_pairwise ?_ (sortByKey_pairwise key xs) (sortByKey_pairwise key ys) ?_
  · intro a b ha hb hab hba
    have ha : a ∈ xs := (sortByKey_perm key xs).mem_iff.mp ha
    have hb : b ∈ xs := hperm.mem_iff.mpr ((sortByKey_perm key ys).mem_iff.mp hb)
    have hsame : key a = key b :=
      Std.LawfulEqOrd.eq_of_compare (Std.OrientedCmp.isLE_antisymm hab hba)
    exact List.inj_on_of_nodup_map hkey ha hb hsame
  · exact (sortByKey_perm key xs).trans (hperm.trans (sortByKey_perm key ys).symm)

variable [Ord α] [Std.TransOrd α] [Std.LawfulEqOrd α]

/-- Equal elements are interchangeable, so a full sort needs no distinct elements. -/
theorem sort_congr {xs ys : List α} (hperm : xs.Perm ys) : sort xs = sort ys := by
  refine List.Perm.eq_of_pairwise ?_ (sort_pairwise xs) (sort_pairwise ys) ?_
  · intro a b _ _ hab hba
    exact Std.LawfulEqOrd.eq_of_compare (Std.OrientedCmp.isLE_antisymm hab hba)
  · exact (sort_perm xs).trans (hperm.trans (sort_perm ys).symm)

/-- Sorting and dropping repetitions keeps the set of elements and nothing else. -/
theorem dedup_sort_congr [DecidableEq α] {xs ys : List α} (hmem : ∀ a, a ∈ xs ↔ a ∈ ys) :
    dedup (sort xs) = dedup (sort ys) := by
  have hirrefl : ∀ a : α, compare a a ≠ .lt := by
    intro a h
    rw [Std.ReflOrd.compare_self] at h
    cases h
  have hnodup : ∀ zs : List α, (dedup (sort zs)).Nodup := by
    intro zs
    refine (ascending_dedup_sort zs).imp fun hab heq => ?_
    exact hirrefl _ (heq ▸ hab)
  have hmem' : ∀ a, a ∈ dedup (sort xs) ↔ a ∈ dedup (sort ys) := by
    intro a
    rw [mem_dedup, mem_dedup, (sort_perm xs).mem_iff, (sort_perm ys).mem_iff, hmem]
  refine List.Perm.eq_of_pairwise ?_ (ascending_dedup_sort xs) (ascending_dedup_sort ys)
    ((List.perm_ext_iff_of_nodup (hnodup xs) (hnodup ys)).mpr hmem')
  intro a b _ _ hab hba
  exact absurd (Std.TransCmp.lt_trans hab hba) (hirrefl a)

end Sorting

/-! ## Derived orders -/

/-- The derived order of a package is the lexicographic one of its fields. -/
private theorem installedPackage_compare : (compare : InstalledPackage → _ → _) =
    compareLex (compareOn (·.name)) (compareLex (compareOn (·.version))
      (compareLex (compareOn (·.architecture)) (compareOn (·.vendor)))) := by
  funext ⟨_, _, _, _⟩ ⟨_, _, _, _⟩
  simp only [compare, instOrdInstalledPackage.ord, compareLex, compareOn, Ordering.then_eq]

instance : Std.TransOrd InstalledPackage := by
  rw [Std.TransOrd, installedPackage_compare]
  infer_instance

instance : Std.LawfulEqOrd InstalledPackage where
  compare_self := by
    intro a
    rw [installedPackage_compare]
    exact Std.ReflCmp.compare_self
  eq_of_compare := by
    rintro ⟨_, _, _, _⟩ ⟨_, _, _, _⟩ h
    rw [installedPackage_compare] at h
    simpa [compareLex, compareOn] using h

private theorem packageAction_compare :
    (compare : PackageAction → _ → _) = compareOn PackageAction.ctorIdx := rfl

instance : Std.TransOrd PackageAction := by
  rw [Std.TransOrd, packageAction_compare]
  infer_instance

instance : Std.LawfulEqOrd PackageAction where
  compare_self := by rintro ⟨⟩ <;> rfl
  eq_of_compare := by rintro ⟨⟩ ⟨⟩ h <;> first | rfl | cases h

private theorem packageChange_compare : (compare : PackageChange → _ → _) =
    compareLex (compareOn (·.name)) (compareLex (compareOn (·.architecture))
      (compareLex (compareOn (·.action)) (compareLex (compareOn (·.currentVersion))
        (compareLex (compareOn (·.proposedVersion)) (compareLex (compareOn (·.currentVendor))
          (compareLex (compareOn (·.proposedVendor)) (compareLex (compareOn (·.repositoryAlias))
            (compareLex (compareOn (·.downloadBytes))
              (compareLex (compareOn (·.installedSizeBefore))
                (compareOn (·.installedSizeAfter))))))))))) := by
  funext ⟨_, _, _, _, _, _, _, _, _, _, _⟩ ⟨_, _, _, _, _, _, _, _, _, _, _⟩
  simp only [compare, instOrdPackageChange.ord, compareLex, compareOn, Ordering.then_eq]

instance : Std.TransOrd PackageChange := by
  rw [Std.TransOrd, packageChange_compare]
  infer_instance

instance : Std.LawfulEqOrd PackageChange where
  compare_self := by
    intro a
    rw [packageChange_compare]
    exact Std.ReflCmp.compare_self
  eq_of_compare := by
    rintro ⟨_, _, _, _, _, _, _, _, _, _, _⟩ ⟨_, _, _, _, _, _, _, _, _, _, _⟩ h
    rw [packageChange_compare] at h
    simpa [compareLex, compareOn] using h

/-! ## Facts and results that differ in order -/

/-- The same facts, with the lists in any order; of the lists that the report and the
plan hold without repetitions, any repetitions. -/
structure SameFacts (facts facts' : HostFacts) : Prop where
  scalars : facts' = { facts with
    repositories := facts'.repositories
    heldPackages := facts'.heldPackages
    installedPackages := facts'.installedPackages
    orphanedPackages := facts'.orphanedPackages }
  repositories : facts.repositories.Perm facts'.repositories
  heldPackages : ∀ package, package ∈ facts.heldPackages ↔ package ∈ facts'.heldPackages
  installedPackages : facts.installedPackages.Perm facts'.installedPackages
  orphanedPackages : ∀ package,
    package ∈ facts.orphanedPackages ↔ package ∈ facts'.orphanedPackages

/-- The same solver result, in the same sense. -/
structure SameSolver (solver solver' : SolverResult) : Prop where
  scalars : solver' = { solver with
    problems := solver'.problems
    metadataValidRepositories := solver'.metadataValidRepositories
    changes := solver'.changes }
  problems : solver.problems.Perm solver'.problems
  metadataValidRepositories : ∀ name,
    name ∈ solver.metadataValidRepositories ↔ name ∈ solver'.metadataValidRepositories
  changes : solver.changes.Perm solver'.changes

variable {facts facts' : HostFacts} {solver solver' : SolverResult}

theorem SameFacts.enrich (hfacts : SameFacts facts facts') (hsolver : SameSolver solver solver') :
    SameFacts (enrichFacts facts solver) (enrichFacts facts' solver') := by
  have hvalid : ∀ name, solver.metadataValidRepositories.contains name =
      solver'.metadataValidRepositories.contains name := by
    intro name
    rw [Bool.eq_iff_iff, List.contains_iff_mem, List.contains_iff_mem]
    exact hsolver.metadataValidRepositories name
  obtain ⟨hscalars, hrepositories, hheld, hinstalled, horphaned⟩ := hfacts
  refine ⟨?_, ?_, hheld, hinstalled, horphaned⟩
  · rw [enrichFacts, hscalars, hsolver.scalars]
    rfl
  · show (List.map _ _).Perm (List.map _ _)
    simp only [hvalid]
    exact hrepositories.map _

theorem SameFacts.mem_hostIssues (h : SameFacts facts facts') (policy : PreflightPolicy)
    (issue : PreflightIssue) :
    issue ∈ hostIssues facts policy ↔ issue ∈ hostIssues facts' policy := by
  have hrepositories : ∀ issue,
      issue ∈ (facts.repositories.filter (·.enabled)).flatMap repositoryIssues ↔
        issue ∈ (facts'.repositories.filter (·.enabled)).flatMap repositoryIssues := fun _ =>
    ((h.repositories.filter _).flatMap_right _).mem_iff
  rw [h.scalars]
  simp only [hostIssues, List.mem_append, hrepositories]
  rfl

theorem SameFacts.evaluatePreflight (h : SameFacts facts facts') (policy : PreflightPolicy) :
    evaluatePreflight facts policy = evaluatePreflight facts' policy := by
  have hblockers := dedup_sort_congr (h.mem_hostIssues policy)
  have hthird : dedup (sort
      (((facts.repositories.filter (·.enabled)).filter (!·.official)).map (·.alias))) =
      dedup (sort
        (((facts'.repositories.filter (·.enabled)).filter (!·.official)).map (·.alias))) :=
    dedup_sort_congr fun _ => (((h.repositories.filter _).filter _).map _).mem_iff
  have hheld := dedup_sort_congr h.heldPackages
  have horphaned := dedup_sort_congr h.orphanedPackages
  simp only [LyraUpgrade.evaluatePreflight, hblockers, hthird, hheld, horphaned]
  rw [h.scalars]
  rfl

theorem SameSolver.mem_solverIssues (h : SameSolver solver solver') (policy : SolverPolicy)
    (issue : PreflightIssue) :
    issue ∈ solverIssues solver policy ↔ issue ∈ solverIssues solver' policy := by
  have hproblems : solver.problems.isEmpty = solver'.problems.isEmpty := h.problems.isEmpty_eq
  have hchanges : ∀ issue, issue ∈ solver.changes.flatMap (changeIssues policy) ↔
      issue ∈ solver'.changes.flatMap (changeIssues policy) := fun _ =>
    (h.changes.flatMap_right _).mem_iff
  have hvendor : ∀ issue, issue ∈ vendorPolicyBlockers solver.changes policy ↔
      issue ∈ vendorPolicyBlockers solver'.changes policy := fun _ =>
    (h.changes.filterMap _).mem_iff
  have hlockstep : lockstepIssues solver.changes = lockstepIssues solver'.changes := by
    funext group
    have hany : ∀ package, (solver.changes.any (·.name = package)) =
        solver'.changes.any (·.name = package) := fun _ => h.changes.any_eq
    have hmembers : changedMembers solver.changes group = changedMembers solver'.changes group := by
      simp only [changedMembers, hany]
    simp only [lockstepIssues, hmembers]
  rw [solverIssues, solverIssues]
  simp only [List.mem_append, hproblems, hchanges, hvendor, hlockstep]
  rw [h.scalars]

/-- `evaluate_solver_preflight` does not see the order of arrival. -/
theorem evaluateSolverPreflight_of_same (hfacts : SameFacts facts facts')
    (hsolver : SameSolver solver solver') (preflightPolicy : PreflightPolicy)
    (policy : SolverPolicy) :
    evaluateSolverPreflight facts preflightPolicy solver policy =
      evaluateSolverPreflight facts' preflightPolicy solver' policy := by
  have hhost := (hfacts.enrich hsolver).evaluatePreflight preflightPolicy
  simp only [evaluateSolverPreflight, hhost]
  congr 1
  refine dedup_sort_congr fun issue => ?_
  rw [List.mem_append, List.mem_append, hsolver.mem_solverIssues]

/-- `build_plan` does not see it either, once no two repositories share an alias: the
repositories are sorted by alias alone. -/
theorem buildPlan_of_same (hfacts : SameFacts facts facts') (hsolver : SameSolver solver solver')
    (hdistinct : (facts.repositories.map (·.alias)).Nodup) (operation : OperationKind)
    (report : PreflightReport) (target : Option ReleaseIdentity)
    (manifestSha256 : Option String) :
    buildPlan operation facts report target manifestSha256 solver =
      buildPlan operation facts' report target manifestSha256 solver' := by
  have hrepositories := sortByKey_congr hfacts.repositories hdistinct
  have hinstalled := sort_congr hfacts.installedPackages
  have hchanges := sort_congr hsolver.changes
  have hvalid := dedup_sort_congr hsolver.metadataValidRepositories
  simp only [buildPlan, hrepositories, hinstalled, hchanges, hvalid]
  rw [hfacts.scalars, hsolver.scalars]
  rfl

/-- Facts and solver results that differ only in the order of arrival give one report,
and with it one plan and one digest. -/
theorem plan_of_same (digest : List Char → String) (hfacts : SameFacts facts facts')
    (hsolver : SameSolver solver solver')
    (hdistinct : (facts.repositories.map (·.alias)).Nodup)
    (preflightPolicy : PreflightPolicy) (policy : SolverPolicy) :
    let report := evaluateSolverPreflight facts preflightPolicy solver policy
    let report' := evaluateSolverPreflight facts' preflightPolicy solver' policy
    report = report' ∧
      ∀ operation target manifestSha256,
        let plan := buildPlan operation facts report target manifestSha256 solver
        let plan' := buildPlan operation facts' report' target manifestSha256 solver'
        plan = plan' ∧ plan.map (·.sha256 digest) = plan'.map (·.sha256 digest) := by
  intro report report'
  have hreport : report = report' :=
    evaluateSolverPreflight_of_same hfacts hsolver preflightPolicy policy
  refine ⟨hreport, fun operation target manifestSha256 => ?_⟩
  intro plan plan'
  have hplan : plan = plan' := by
    show buildPlan operation facts report target manifestSha256 solver = _
    rw [hreport]
    exact buildPlan_of_same hfacts hsolver hdistinct operation report' target manifestSha256
  exact ⟨hplan, congrArg _ hplan⟩

/-! ## Two repositories in either order -/

namespace Sample

def arrivals (repositories : List RepositoryFact) (heldPackages : List String) : HostFacts where
  release := ⟨"1.0", "desktop", "x86_64", "b1"⟩
  rootFilesystem := "btrfs"
  snapperRootConfigured := true
  rpmDatabaseHealthy := true
  packageLockFree := true
  availableBytes := 2000000000
  requiredDownloadBytes := 0
  requiredTransactionBytes := 0
  requiredSnapshotBytes := 0
  onBattery := false
  batteryPercent := none
  secureBootEnabled := some true
  repositories := repositories
  heldPackages := heldPackages
  installedPackages := []
  storage := some ⟨true, true, 300000000, none⟩
  orphanedPackages := []

/-- Nothing to do, with the repositories whose metadata the solver proved. -/
def proposals (metadataValidRepositories : List String) : SolverResult where
  schemaVersion := 1
  successful := true
  problems := []
  metadataValidRepositories := metadataValidRepositories
  changes := []
  downloadBytes := 100
  transactionSizeIncrease := 2
  estimatedSnapshotBytes := 50
  rebootRequired := false

def lyraRepository : RepositoryFact := ⟨"lyra", true, true, true, true⟩
def vendorRepository : RepositoryFact := ⟨"vendor", true, false, true, true⟩

/-- The host as its commands listed it. -/
def listed : HostFacts := arrivals [lyraRepository, vendorRepository] ["nano", "vim"]

/-- The same host listed the other way round. -/
def relisted : HostFacts := arrivals [vendorRepository, lyraRepository] ["vim", "nano", "vim"]

theorem sameFacts_relisted : SameFacts listed relisted where
  scalars := rfl
  repositories := List.Perm.swap _ _ _
  heldPackages := by
    intro package
    simp only [listed, relisted, arrivals, List.mem_cons, List.not_mem_nil, or_false]
    tauto
  installedPackages := List.Perm.refl _
  orphanedPackages := fun _ => Iff.rfl

theorem sameSolver_proposals :
    SameSolver (proposals ["lyra", "vendor"]) (proposals ["vendor", "lyra", "lyra"]) where
  scalars := rfl
  problems := List.Perm.refl _
  metadataValidRepositories := by
    intro name
    simp only [proposals, List.mem_cons, List.not_mem_nil, or_false]
    tauto
  changes := List.Perm.refl _

end Sample

theorem plan_of_same_sample :
    let report := evaluateSolverPreflight Sample.listed {} (Sample.proposals ["lyra", "vendor"]) {}
    let report' := evaluateSolverPreflight Sample.relisted {}
      (Sample.proposals ["vendor", "lyra", "lyra"]) {}
    let plan := buildPlan .updateWithinRelease Sample.listed report none none
      (Sample.proposals ["lyra", "vendor"])
    plan.isOk ∧ plan = buildPlan .updateWithinRelease Sample.relisted report' none none
      (Sample.proposals ["vendor", "lyra", "lyra"]) := by
  obtain ⟨-, hplan⟩ := plan_of_same String.ofList Sample.sameFacts_relisted
    Sample.sameSolver_proposals (by decide) {} {}
  obtain ⟨hplan, -⟩ := hplan .updateWithinRelease none none
  exact ⟨by decide +kernel, hplan⟩

end LyraUpgrade
