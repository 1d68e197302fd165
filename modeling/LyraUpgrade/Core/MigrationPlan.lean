import LyraUpgrade.Core.Pending
import LyraUpgrade.Core.Progress

/-!
# A migration is exactly its pending packages

`validate_migration_plan` compares two lengths, asks for distinct names, and looks up each
change among the pending packages.  The names of a migration are distinct
(`ValidMigration.names`), so this makes the changes and the pending packages correspond one
to one: put in the right order, each change carries out its package (`demanded_iff`).
-/

namespace LyraUpgrade

/-- The change that carries out a pending package.  What it downloads and the sizes before
and after are not compared. -/
structure CarriesOut (p : PackageMigration) (change : PackageChange) : Prop where
  name : change.name = p.name
  architecture : change.architecture = p.architecture
  action : change.action = .upgrade ∨ change.action = .reinstall
  currentVersion : change.currentVersion = some p.fromVersion
  currentVendor : change.currentVendor = some p.fromVendor
  proposedVersion : change.proposedVersion = some p.toVersion
  proposedVendor : change.proposedVendor = some p.toVendor
  repositoryAlias : change.repositoryAlias = some p.repositoryAlias

section

variable {manifest : ReleaseManifest} {packages pending : List PackageMigration}
variable {installed : List InstalledPackage} {changes ordered : List PackageChange}

theorem carriesOut_iff {p : PackageMigration} {change : PackageChange} :
    CarriesOut p change ↔ matchesPending change p := by
  rw [matchesPending_iff]
  constructor
  · intro h
    exact ⟨h.name, h.architecture, h.action, h.currentVersion, h.currentVendor,
      h.proposedVersion, h.proposedVendor, h.repositoryAlias⟩
  · rintro ⟨hname, harchitecture, haction, hversion, hvendor, hversion', hvendor', halias⟩
    exact ⟨hname, harchitecture, haction, hversion, hvendor, hversion', hvendor', halias⟩

/-- Changes in the order of the pending packages have their names. -/
theorem names_of_forall₂ (h : List.Forall₂ CarriesOut pending ordered) :
    ordered.map (·.name) = pending.map (·.name) := by
  induction h with
  | nil => rfl
  | cons hhead _ ih => rw [List.map_cons, List.map_cons, hhead.name, ih]

/-- Each change of such a list belongs to a pending package. -/
theorem exists_pending_of_forall₂ (h : List.Forall₂ CarriesOut pending ordered)
    {change : PackageChange} (hchange : change ∈ ordered) :
    ∃ p ∈ pending, CarriesOut p change := by
  induction h with
  | nil => cases hchange
  | cons hhead _ ih =>
      rcases List.mem_cons.mp hchange with rfl | hchange
      · exact ⟨_, List.mem_cons_self, hhead⟩
      · obtain ⟨p, hp, hcarries⟩ := ih hchange
        exact ⟨p, List.mem_cons_of_mem _ hp, hcarries⟩

/-- The changes of the packages, in the order of the packages. -/
theorem exists_ordered (h : ∀ p ∈ pending, ∃ change ∈ changes, matchesPending change p) :
    ∃ ordered, ordered ⊆ changes ∧ List.Forall₂ CarriesOut pending ordered := by
  induction pending with
  | nil => exact ⟨[], List.nil_subset _, .nil⟩
  | cons p pending ih =>
      obtain ⟨change, hchange, hmatch⟩ := h p List.mem_cons_self
      obtain ⟨ordered, hsubset, hcarries⟩ := ih fun q hq => h q (List.mem_cons_of_mem p hq)
      exact ⟨change :: ordered, List.cons_subset.mpr ⟨hchange, hsubset⟩,
        .cons (carriesOut_iff.mpr hmatch) hcarries⟩

/-- **One change for each pending package.**  Where the names are distinct, what
`validate_migration_plan` checks is a correspondence. -/
theorem demanded_iff (hnames : (pending.map (·.name)).Nodup) : Demanded pending changes ↔
    ∃ ordered, ordered.Perm changes ∧ List.Forall₂ CarriesOut pending ordered := by
  constructor
  · intro h
    obtain ⟨ordered, hsubset, hcarries⟩ := exists_ordered fun p hp => h.exists_change hnames hp
    refine ⟨ordered, ?_, hcarries⟩
    have hnodup : ordered.Nodup := by
      refine List.Nodup.of_map (·.name) ?_
      rw [names_of_forall₂ hcarries]
      exact hnames
    have hlength : changes.length ≤ ordered.length := by
      rw [h.length, hcarries.length_eq]
    exact (List.subperm_of_subset hnodup hsubset).perm_of_length_le hlength
  · rintro ⟨ordered, hperm, hcarries⟩
    refine ⟨hperm.length_eq.symm.trans hcarries.length_eq.symm, ?_, fun change hchange => ?_⟩
    · rw [← (hperm.map (·.name)).nodup_iff, names_of_forall₂ hcarries]
      exact hnames
    · obtain ⟨p, hp, hp'⟩ := exists_pending_of_forall₂ hcarries (hperm.mem_iff.mpr hchange)
      exact ⟨p, hp, carriesOut_iff.mp hp'⟩

/-- What is pending is a part of the manifest's packages, and their names are distinct. -/
theorem pending_of_ok (hpackages : manifest.packageMigration = some packages)
    (h : pendingMigration manifest installed = .ok pending) :
    pending.Sublist packages ∧ (packages.map (·.name)).Nodup := by
  obtain ⟨hvalid, -, rfl⟩ := (pendingMigration_eq_ok hpackages).mp h
  exact ⟨List.filter_sublist, (validMigration_of_ok hpackages hvalid).names⟩

/-- **A migration is exactly the pending set.**  Changes are accepted exactly when the
pending packages can be determined and the changes are, in some order, one upgrade or
reinstall for each.  So what is accepted has as many changes as there are pending packages,
changes no package twice, installs, removes and downgrades nothing, and stays within the
packages of the manifest. -/
theorem migration_plan_exact (hpackages : manifest.packageMigration = some packages)
    (installed : List InstalledPackage) (changes : List PackageChange) :
    (validateMigrationPlan manifest installed changes = .ok () ↔
      ∃ pending, pendingMigration manifest installed = .ok pending ∧
        ∃ ordered, ordered.Perm changes ∧ List.Forall₂ CarriesOut pending ordered) ∧
    (validateMigrationPlan manifest installed changes = .ok () →
      (∀ pending, pendingMigration manifest installed = .ok pending →
        changes.length = pending.length) ∧
      (changes.map (·.name)).Nodup ∧
      ∀ change ∈ changes, (change.action = .upgrade ∨ change.action = .reinstall) ∧
        ∃ p ∈ packages, CarriesOut p change) := by
  have hsome : manifest.packageMigration.isSome := by rw [hpackages]; rfl
  have hexact : validateMigrationPlan manifest installed changes = .ok () ↔
      ∃ pending, pendingMigration manifest installed = .ok pending ∧
        ∃ ordered, ordered.Perm changes ∧ List.Forall₂ CarriesOut pending ordered := by
    rw [validateMigrationPlan_eq_ok hsome]
    refine exists_congr fun pending => and_congr_right fun hpending => ?_
    obtain ⟨hsub, hnames⟩ := pending_of_ok hpackages hpending
    exact demanded_iff (hnames.sublist (hsub.map _))
  refine ⟨hexact, fun hok => ?_⟩
  obtain ⟨pending, hpending, ordered, hperm, hcarries⟩ := hexact.mp hok
  obtain ⟨hsub, hnames⟩ := pending_of_ok hpackages hpending
  have hdemanded : Demanded pending changes :=
    (demanded_iff (hnames.sublist (hsub.map _))).mpr ⟨ordered, hperm, hcarries⟩
  refine ⟨fun pending' hpending' => ?_, hdemanded.names, fun change hchange => ?_⟩
  · rw [hpending] at hpending'
    cases hpending'
    exact hdemanded.length
  · obtain ⟨p, hp, hmatch⟩ := hdemanded.matching change hchange
    have hcarried := carriesOut_iff.mpr hmatch
    exact ⟨hcarried.action, p, hsub.subset hp, hcarried⟩

end

namespace Sample

/-- The first package is as the maintenance expects it, the translation is not installed. -/
def untranslated : List InstalledPackage := [⟨"nano", "1-1", "x86_64", "openSUSE"⟩]

/-- The upgrade of the first package. -/
def nanoUpgrade : PackageChange where
  name := "nano"
  architecture := "x86_64"
  action := .upgrade
  currentVersion := some "1-1"
  proposedVersion := some "2-1"
  currentVendor := some "openSUSE"
  proposedVendor := some "Lyra"
  repositoryAlias := some "lyra"
  downloadBytes := 7
  installedSizeBefore := 1
  installedSizeAfter := 2

end Sample

theorem migration_plan_exact_sample :
    ∃ pending, pendingMigration Sample.maintenance Sample.untranslated = .ok pending ∧
      ∃ ordered, ordered.Perm [Sample.nanoUpgrade] ∧ List.Forall₂ CarriesOut pending ordered :=
  (migration_plan_exact
    (show Sample.maintenance.packageMigration = some Sample.migratedPackages from rfl)
    Sample.untranslated [Sample.nanoUpgrade]).1.mp (by decide +kernel)

end LyraUpgrade
