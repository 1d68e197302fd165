import LyraUpgrade.Core.Pending
import LyraUpgrade.Core.Progress
import LyraUpgrade.Service.Executor

/-!
# A migration converges

After a package migration the installed packages are compared with the confirmed plan, and
for a migration the comparison is exact: every package is either one that was there and is
not replaced, or the replacement of one that was pending (`mem_report`).  From there no
package of the manifest is pending any more, so that a second migration finds nothing to
do, and the packages the manifest does not name are untouched.
-/

namespace LyraUpgrade

/-! ## The expected packages -/

namespace PackageChange

/-- The package a change replaces. -/
def previous (self : PackageChange) : Option InstalledPackage := do
  return ⟨self.name, ← self.currentVersion, self.architecture, ← self.currentVendor⟩

/-- The package a change installs. -/
def proposed (self : PackageChange) : Option InstalledPackage := do
  return ⟨self.name, ← self.proposedVersion, self.architecture, ← self.proposedVendor⟩

end PackageChange

section

variable {change : PackageChange} {changes : List PackageChange}
variable {required allowed required' allowed' : List InstalledPackage}
variable {x before after : InstalledPackage} {p : PackageMigration}

theorem previous_eq_some : change.previous = some x ↔ ∃ version vendor,
    change.currentVersion = some version ∧ change.currentVendor = some vendor ∧
      x = ⟨change.name, version, change.architecture, vendor⟩ := by
  cases hversion : change.currentVersion <;> cases hvendor : change.currentVendor <;>
    simp [PackageChange.previous, hversion, hvendor, eq_comm]

theorem proposed_eq_some : change.proposed = some x ↔ ∃ version vendor,
    change.proposedVersion = some version ∧ change.proposedVendor = some vendor ∧
      x = ⟨change.name, version, change.architecture, vendor⟩ := by
  cases hversion : change.proposedVersion <;> cases hvendor : change.proposedVendor <;>
    simp [PackageChange.proposed, hversion, hvendor, eq_comm]

theorem name_of_previous (h : change.previous = some x) : x.name = change.name := by
  obtain ⟨_, _, -, -, rfl⟩ := previous_eq_some.mp h
  rfl

theorem name_of_proposed (h : change.proposed = some x) : x.name = change.name := by
  obtain ⟨_, _, -, -, rfl⟩ := proposed_eq_some.mp h
  rfl

/-- A replacement takes one package out of the required ones and puts one in. -/
theorem expectedInventory_cons (hprevious : change.previous = some before)
    (hproposed : change.proposed = some after)
    (h : expectedInventory (change :: changes) (required, allowed) = some (required', allowed')) :
    ∃ allowed₁, expectedInventory changes (after :: required.filter (· ≠ before), allowed₁) =
      some (required', allowed') := by
  obtain ⟨_, _, hversion, hvendor, rfl⟩ := previous_eq_some.mp hprevious
  obtain ⟨_, _, hversion', hvendor', rfl⟩ := proposed_eq_some.mp hproposed
  simp only [expectedInventory, hversion, hvendor, hversion', hvendor', Option.bind_some,
    Option.map_some] at h
  split_ifs at h with hmem hremove
  · exact ⟨_, h⟩
  · exact ⟨_, h⟩
  · cases h

/-- **The required packages** after replacements of different packages: the old ones that
are not replaced, and the new ones. -/
theorem mem_expectedInventory (hnames : (changes.map (·.name)).Nodup)
    (hboth : ∀ change ∈ changes, change.previous.isSome ∧ change.proposed.isSome)
    (h : expectedInventory changes (required, allowed) = some (required', allowed')) :
    x ∈ required' ↔ (x ∈ required ∧ ∀ change ∈ changes, change.previous ≠ some x) ∨
      ∃ change ∈ changes, change.proposed = some x := by
  induction changes generalizing required allowed with
  | nil =>
      cases h
      simp
  | cons change changes ih =>
      obtain ⟨hprevious, hproposed⟩ := hboth change (List.mem_cons_self ..)
      obtain ⟨before, hbefore⟩ := Option.isSome_iff_exists.mp hprevious
      obtain ⟨after, hafter⟩ := Option.isSome_iff_exists.mp hproposed
      obtain ⟨allowed₁, hrest⟩ := expectedInventory_cons hbefore hafter h
      rw [List.map_cons, List.nodup_cons] at hnames
      rw [ih hnames.2 (fun c hc => hboth c (List.mem_cons_of_mem _ hc)) hrest]
      -- the new package has another name than what the other changes replace
      have hnew : ∀ c ∈ changes, c.previous ≠ some after := by
        intro c hc hsame
        refine hnames.1 (List.mem_map.mpr ⟨c, hc, ?_⟩)
        rw [← name_of_previous hsame, name_of_proposed hafter]
      simp only [List.mem_cons, List.mem_filter, decide_eq_true_eq, forall_eq_or_imp,
        exists_eq_or_imp, hbefore, hafter, Option.some.injEq, ne_eq]
      constructor
      · rintro (⟨rfl | ⟨hmem, hne⟩, hothers⟩ | hexists)
        · exact .inr (.inl rfl)
        · exact .inl ⟨hmem, fun hsame => hne hsame.symm, hothers⟩
        · exact .inr (.inr hexists)
      · rintro (⟨hmem, hne, hothers⟩ | rfl | hexists)
        · exact .inl ⟨.inr ⟨hmem, fun hsame => hne hsame.symm⟩, hothers⟩
        · exact .inl ⟨.inl rfl, hnew⟩
        · exact .inr hexists

theorem previous_of_matchesPending (h : matchesPending change p) :
    change.previous = some p.before := by
  obtain ⟨hname, harchitecture, -, hversion, hvendor, -⟩ := matchesPending_iff.mp h
  simp [PackageChange.previous, hversion, hvendor, hname, harchitecture, PackageMigration.before]

theorem proposed_of_matchesPending (h : matchesPending change p) :
    change.proposed = some p.after := by
  obtain ⟨hname, harchitecture, -, -, -, hversion, hvendor, -⟩ := matchesPending_iff.mp h
  simp [PackageChange.proposed, hversion, hvendor, hname, harchitecture, PackageMigration.after]

end

/-! ## The packages after the migration -/

section

variable {plan : UpgradePlan} {report : InventoryReport} {pending : List PackageMigration}
variable {x : InstalledPackage}

/-- **What is installed after a migration**: what was there and was not pending, and what
the pending packages became. -/
theorem mem_report (hoperation : plan.operation = .packageMigration)
    (hnames : (pending.map (·.name)).Nodup) (hdemanded : Demanded pending plan.packageChanges)
    (hverify : verifyResult plan report) : x ∈ report.installedPackages ↔
      (x ∈ plan.installedPackages ∧ ∀ p ∈ pending, x ≠ p.before) ∨ ∃ p ∈ pending, x = p.after := by
  have hboth : ∀ change ∈ plan.packageChanges,
      change.previous.isSome ∧ change.proposed.isSome := by
    intro change hchange
    obtain ⟨p, -, hmatch⟩ := hdemanded.matching change hchange
    rw [previous_of_matchesPending hmatch, proposed_of_matchesPending hmatch]
    exact ⟨rfl, rfl⟩
  unfold verifyResult at hverify
  cases hexpected : expectedInventory plan.packageChanges
      (plan.installedPackages, plan.installedPackages) with
  | none => simp [hexpected] at hverify
  | some sets =>
      obtain ⟨required, allowed⟩ := sets
      simp only [hexpected, hoperation, Bool.and_eq_true, Bool.not_eq_true', List.all_eq_true,
        decide_eq_true_eq, decide_true, Bool.true_and, Bool.not_eq_false'] at hverify
      -- for a migration the comparison goes both ways
      obtain ⟨-, ⟨hsub, hsuper⟩, -⟩ := hverify
      have hrequired : x ∈ report.installedPackages ↔ x ∈ required :=
        ⟨fun h => hsub x h, fun h => hsuper x h⟩
      rw [hrequired, mem_expectedInventory hdemanded.names hboth hexpected]
      refine or_congr (and_congr_right fun _ => ?_) ?_
      · constructor
        · intro hall p hp hsame
          obtain ⟨change, hchange, hmatch⟩ := hdemanded.exists_change hnames hp
          exact hall change hchange (by rw [previous_of_matchesPending hmatch, hsame])
        · intro hall change hchange hsame
          obtain ⟨p, hp, hmatch⟩ := hdemanded.matching change hchange
          rw [previous_of_matchesPending hmatch, Option.some.injEq] at hsame
          exact hall p hp hsame.symm
      · constructor
        · rintro ⟨change, hchange, hsame⟩
          obtain ⟨p, hp, hmatch⟩ := hdemanded.matching change hchange
          rw [proposed_of_matchesPending hmatch, Option.some.injEq] at hsame
          exact ⟨p, hp, hsame.symm⟩
        · rintro ⟨p, hp, rfl⟩
          obtain ⟨change, hchange, hmatch⟩ := hdemanded.exists_change hnames hp
          exact ⟨change, hchange, proposed_of_matchesPending hmatch⟩

/-- A list without repetitions whose only element is `x`. -/
theorem eq_singleton_of_nodup {xs : List InstalledPackage} (hnodup : xs.Nodup)
    (h : ∀ y, y ∈ xs ↔ y = x) : xs = [x] :=
  List.perm_singleton.mp
    ((List.perm_ext_iff_of_nodup hnodup (List.nodup_singleton x)).mpr (by simpa using h))

end

section

variable {manifest : ReleaseManifest} {packages : List PackageMigration}
variable {plan : UpgradePlan} {report : InventoryReport} {p : PackageMigration}

/-- The report of a migration that was carried out as it was confirmed. -/
structure CarriedOut (manifest : ReleaseManifest) (packages : List PackageMigration)
    (plan : UpgradePlan) (report : InventoryReport) : Prop where
  valid : ValidMigration manifest packages
  accepted : validateMigration manifest = .ok ()
  fitting : ∀ p ∈ packages, fits plan.installedPackages p
  nodup : report.installedPackages.Nodup
  members : ∀ x, x ∈ report.installedPackages ↔
    (x ∈ plan.installedPackages ∧ ∀ p ∈ packages.filter (due plan.installedPackages),
      x ≠ p.before) ∨ ∃ p ∈ packages.filter (due plan.installedPackages), x = p.after

theorem carriedOut_of_verify (hpackages : manifest.packageMigration = some packages)
    (hoperation : plan.operation = .packageMigration) (hreport : report.installedPackages.Nodup)
    (hplan : validateMigrationPlan manifest plan.installedPackages plan.packageChanges = .ok ())
    (hverify : verifyResult plan report) : CarriedOut manifest packages plan report := by
  obtain ⟨pending, hpending, hdemanded⟩ :=
    (validateMigrationPlan_eq_ok (by rw [hpackages]; rfl)).mp hplan
  obtain ⟨haccepted, hfits, rfl⟩ := (pendingMigration_eq_ok hpackages).mp hpending
  have hvalid := validMigration_of_ok hpackages haccepted
  have hnames : ((packages.filter (due plan.installedPackages)).map (·.name)).Nodup :=
    hvalid.names.sublist (List.filter_sublist.map _)
  exact ⟨hvalid, haccepted, hfits, hreport, fun x => mem_report hoperation hnames hdemanded hverify⟩

namespace CarriedOut

/-- The packages of one name, before and after. -/
theorem mem_named_report (h : CarriedOut manifest packages plan report) (hp : p ∈ packages)
    {x : InstalledPackage} : x ∈ named report.installedPackages p.name ↔
      (x ∈ named plan.installedPackages p.name ∧
        (due plan.installedPackages p → x ≠ p.before)) ∨
      (due plan.installedPackages p ∧ x = p.after) := by
  have hsame : ∀ q ∈ packages, q.name = p.name → q = p := fun q hq hname =>
    List.inj_on_of_nodup_map h.valid.names hq hp hname
  simp only [mem_named, h.members, List.mem_filter]
  constructor
  · rintro ⟨⟨hmem, hkept⟩ | ⟨q, ⟨hq, hdue⟩, rfl⟩, hname⟩
    · exact .inl ⟨⟨hmem, hname⟩, fun hdue => hkept p ⟨hp, hdue⟩⟩
    · obtain rfl := hsame q hq hname
      exact .inr ⟨hdue, rfl⟩
  · rintro (⟨⟨hmem, hname⟩, hkept⟩ | ⟨hdue, rfl⟩)
    · refine ⟨.inl ⟨hmem, fun q hq hbefore => ?_⟩, hname⟩
      obtain rfl := hsame q hq.1 (by rw [← hname, hbefore]; rfl)
      exact hkept hq.2 hbefore
    · exact ⟨.inr ⟨p, ⟨hp, hdue⟩, rfl⟩, rfl⟩

/-- A package that was absent stays absent, and any other is migrated. -/
theorem named_eq (h : CarriedOut manifest packages plan report) (hp : p ∈ packages) :
    (named plan.installedPackages p.name = [] ∧ p.ifInstalled ∧
      named report.installedPackages p.name = []) ∨
    named report.installedPackages p.name = [p.after] := by
  have hnodup : (named report.installedPackages p.name).Nodup := h.nodup.sublist List.filter_sublist
  have hmem := fun x => h.mem_named_report hp (x := x)
  have hfits := h.fitting p hp
  simp only [fits, Bool.or_eq_true, Bool.and_eq_true, decide_eq_true_eq] at hfits
  rcases hfits with (⟨habsent, hoptional⟩ | hafter) | hbefore
  · refine .inl ⟨habsent, hoptional, List.eq_nil_iff_forall_not_mem.mpr fun x hx => ?_⟩
    simp [hmem, habsent, due] at hx
  · have hdue : due plan.installedPackages p = false := by
      simp only [due, hafter, List.cons.injEq, and_true, ne_eq, Bool.and_eq_false_iff,
        decide_eq_false_iff_not, not_not]
      exact (ne_or_eq p.after p.before).imp_right Eq.symm
    refine .inr (eq_singleton_of_nodup hnodup fun x => ?_)
    rw [hmem, hdue, hafter]
    simp
  · by_cases hsame : p.before = p.after
    · have hdue : due plan.installedPackages p = false := by simp [due, hsame]
      refine .inr (eq_singleton_of_nodup hnodup fun x => ?_)
      rw [hmem, hdue, hbefore, hsame]
      simp
    · have hdue : due plan.installedPackages p = true := by simp [due, hbefore, hsame]
      refine .inr (eq_singleton_of_nodup hnodup fun x => ?_)
      rw [hmem, hdue, hbefore]
      simp

/-- Nothing is due any more. -/
theorem not_due (h : CarriedOut manifest packages plan report) (hp : p ∈ packages) :
    due report.installedPackages p = false := by
  rcases h.named_eq hp with ⟨-, -, habsent⟩ | hafter
  · simp [due, habsent]
  · simp only [due, hafter, List.cons.injEq, and_true, ne_eq, Bool.and_eq_false_iff,
      decide_eq_false_iff_not, not_not]
    exact (ne_or_eq p.after p.before).imp_right Eq.symm

/-- **Nothing is pending any more.** -/
theorem pendingMigration_eq_nil (h : CarriedOut manifest packages plan report) :
    pendingMigration manifest report.installedPackages = .ok [] := by
  refine (pendingMigration_eq_ok h.valid.migration).mpr ⟨h.accepted, fun p hp => ?_, ?_⟩
  · rcases h.named_eq hp with ⟨-, hoptional, habsent⟩ | hafter
    · simp [fits, habsent, hoptional]
    · simp [fits, hafter]
  · refine (List.filter_eq_nil_iff.mpr fun p hp => ?_).symm
    rw [h.not_due hp]
    exact Bool.false_ne_true

/-- A package the manifest does not name is as it was. -/
theorem mem_unnamed (h : CarriedOut manifest packages plan report) {x : InstalledPackage}
    (hx : x.name ∉ packages.map (·.name)) :
    x ∈ report.installedPackages ↔ x ∈ plan.installedPackages := by
  have hother : ∀ p ∈ packages.filter (due plan.installedPackages), x.name ≠ p.name :=
    fun p hp hname => hx (hname ▸ List.mem_map_of_mem (List.mem_of_mem_filter hp))
  rw [h.members]
  constructor
  · rintro (⟨hmem, -⟩ | ⟨p, hp, rfl⟩)
    · exact hmem
    · exact absurd rfl (hother p hp)
  · exact fun hmem => .inl ⟨hmem, fun p hp hbefore => hother p hp (by rw [hbefore]; rfl)⟩

end CarriedOut

end

/-! ## The fixed point -/

/-- The installed packages that a manifest does not name. -/
def unnamed (manifest : ReleaseManifest) (installed : List InstalledPackage) :
    List InstalledPackage :=
  installed.filter fun x => x.name ∉ (manifest.packageMigration.getD []).map (·.name)

/-- **The migration has converged**: nothing is left to do, nobody would do anything, and
nothing else was touched. -/
structure Converged (manifest : ReleaseManifest)
    (installed report : List InstalledPackage) : Prop where
  pending : pendingMigration manifest report = .ok []
  arguments : ∀ mode, transactionArguments manifest report mode = .error .alreadyApplied
  unnamed : (unnamed manifest report).Perm (unnamed manifest installed)
  absent : ∀ p ∈ manifest.packageMigration.getD [], p.ifInstalled →
    named installed p.name = [] → named report p.name = []

/-- **A migration that succeeds converges**: the accepted changes of a migration plan,
carried out as the comparison with the confirmed plan demands, leave nothing pending. -/
theorem migration_converges (manifest : ReleaseManifest) (plan : UpgradePlan)
    (report : InventoryReport) (hmigration : manifest.packageMigration.isSome)
    (hoperation : plan.operation = .packageMigration) (hnodup : plan.installedPackages.Nodup)
    (hreport : report.installedPackages.Nodup)
    (hplan : validateMigrationPlan manifest plan.installedPackages plan.packageChanges = .ok ())
    (hverify : verifyResult plan report) :
    Converged manifest plan.installedPackages report.installedPackages := by
  obtain ⟨packages, hpackages⟩ := Option.isSome_iff_exists.mp hmigration
  have hcarried := carriedOut_of_verify hpackages hoperation hreport hplan hverify
  refine ⟨hcarried.pendingMigration_eq_nil, fun mode => ?_, ?_, fun p hp _ habsent => ?_⟩
  · simp [transactionArguments, hpackages, hcarried.pendingMigration_eq_nil]
  · refine (List.perm_ext_iff_of_nodup (hreport.filter _) (hnodup.filter _)).mpr fun x => ?_
    simp only [List.mem_filter, decide_eq_true_eq, hpackages,
      Option.getD_some]
    exact and_congr_left hcarried.mem_unnamed
  · rw [hpackages, Option.getD_some] at hp
    -- a package that was absent was not pending either
    refine List.eq_nil_iff_forall_not_mem.mpr fun x hx => ?_
    rw [hcarried.mem_named_report hp, habsent] at hx
    simp [due, habsent] at hx

namespace Sample

/-- What is installed before the maintenance: the optional package is absent. -/
def beforeMaintenance : List InstalledPackage :=
  [⟨"nano", "1-1", "x86_64", "openSUSE"⟩, ⟨"vim", "9-1", "x86_64", "openSUSE"⟩]

def afterMaintenance : List InstalledPackage :=
  [⟨"nano", "2-1", "x86_64", "Lyra"⟩, ⟨"vim", "9-1", "x86_64", "openSUSE"⟩]

/-- The plan of the maintenance. -/
def maintenancePlan : UpgradePlan where
  schemaVersion := 3
  operation := .packageMigration
  source := firstRelease
  target := some firstRelease
  manifestSha256 := none
  requiredBytes := 0
  facts := FactMap.empty
  repositories := []
  metadataValidRepositories := []
  thirdPartyRepositories := []
  heldPackages := []
  installedPackages := beforeMaintenance
  orphanedPackages := []
  packageChanges := [⟨"nano", "x86_64", .upgrade, some "1-1", some "2-1", some "openSUSE",
    some "Lyra", some "lyra", 0, 0, 0⟩]
  rebootRequired := true

end Sample

theorem migration_converges_sample : Converged Sample.maintenance Sample.beforeMaintenance
    Sample.afterMaintenance :=
  migration_converges Sample.maintenance Sample.maintenancePlan
    ⟨1, Sample.afterMaintenance, []⟩ rfl rfl (by decide) (by decide) (by decide +kernel)
    (by decide +kernel)

end LyraUpgrade
