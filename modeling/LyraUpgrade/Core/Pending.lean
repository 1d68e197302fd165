import LyraUpgrade.Core.Migration
import Mathlib.Data.List.Perm.Subperm

/-!
# What is still to be migrated

`pending_migration` walks over the packages of a manifest.  A package may be absent where
it is optional, migrated already, or in the state the manifest starts from; anything else
stops the walk.  What is pending are the packages in the last case (`pendingFrom_eq_ok`),
and a transaction is accepted when it is exactly one change for each of them
(`Demanded`).
-/

namespace LyraUpgrade

namespace PackageMigration

/-- The package as it is installed before the migration. -/
def before (self : PackageMigration) : InstalledPackage :=
  ⟨self.name, self.fromVersion, self.architecture, self.fromVendor⟩

/-- The package as it is installed afterwards. -/
def after (self : PackageMigration) : InstalledPackage :=
  ⟨self.name, self.toVersion, self.architecture, self.toVendor⟩

end PackageMigration

/-- The installed packages of a name. -/
def named (installed : List InstalledPackage) (name : String) : List InstalledPackage :=
  installed.filter (·.name = name)

section

variable {installed : List InstalledPackage} {packages pending : List PackageMigration}
variable {p : PackageMigration} {x : InstalledPackage}

theorem mem_named {name : String} : x ∈ named installed name ↔ x ∈ installed ∧ x.name = name := by
  simp [named]

/-- The package is absent and optional, migrated, or as the migration expects it. -/
def fits (installed : List InstalledPackage) (p : PackageMigration) : Bool :=
  (named installed p.name = [] && p.ifInstalled) || named installed p.name = [p.after] ||
  named installed p.name = [p.before]

/-- The package is still to be migrated. -/
def due (installed : List InstalledPackage) (p : PackageMigration) : Bool :=
  named installed p.name = [p.before] && p.before ≠ p.after

/-- The walk looks at one package after the other. -/
theorem pendingFrom_cons : pendingFrom installed (p :: packages) =
    if fits installed p then
      if due installed p then (p :: ·) <$> pendingFrom installed packages
      else pendingFrom installed packages
    else .error (.installedIdentity p.name) := by
  have hfilter : (installed.filter fun x => x.name = p.name) = named installed p.name := rfl
  rw [pendingFrom, hfilter]
  cases hnamed : named installed p.name with
  | nil =>
      cases hoptional : p.ifInstalled <;> simp [fits, due, hnamed, hoptional]
  | cons current others =>
      cases others with
      | cons second rest => simp [fits, hnamed]
      | nil =>
          have hname : current.name = p.name := (mem_named.mp (by rw [hnamed]; simp)).2
          obtain ⟨name, version, architecture, vendor⟩ := current
          subst hname
          -- what is compared are version, architecture and vendor
          by_cases harchitecture : architecture = p.architecture
          · by_cases hafter : version = p.toVersion ∧ vendor = p.toVendor
            · obtain ⟨rfl, rfl⟩ := hafter
              simp [fits, due, hnamed, PackageMigration.before, PackageMigration.after,
                harchitecture]
              grind
            · by_cases hbefore : version = p.fromVersion ∧ vendor = p.fromVendor
              · simp [fits, due, hnamed, PackageMigration.before, PackageMigration.after,
                  harchitecture]
                grind
              · simp [fits, due, hnamed, PackageMigration.before, PackageMigration.after,
                  harchitecture]
                grind
          · simp [fits, hnamed, PackageMigration.before, PackageMigration.after, harchitecture]

/-- **What is pending**: every package fits, and those that are due are left. -/
theorem pendingFrom_eq_ok : pendingFrom installed packages = .ok pending ↔
    (∀ p ∈ packages, fits installed p) ∧ pending = packages.filter (due installed) := by
  induction packages generalizing pending with
  | nil =>
      constructor
      · intro h
        cases h
        exact ⟨fun _ h => (by cases h), rfl⟩
      · rintro ⟨-, rfl⟩
        rfl
  | cons p packages ih =>
      rw [pendingFrom_cons, List.forall_mem_cons, List.filter_cons]
      by_cases hfits : fits installed p
      · rw [if_pos hfits]
        by_cases hdue : due installed p
        · rw [if_pos hdue, if_pos hdue]
          cases hrest : pendingFrom installed packages with
          | error e =>
              have hnot : ¬ ∀ q ∈ packages, fits installed q := fun hall => by
                rw [ih.mpr ⟨hall, rfl⟩] at hrest
                cases hrest
              exact ⟨fun h => (by cases h), fun h => absurd h.1.2 hnot⟩
          | ok rest =>
              obtain ⟨hall, rfl⟩ := ih.mp hrest
              constructor
              · intro h
                cases h
                exact ⟨⟨hfits, hall⟩, rfl⟩
              · rintro ⟨-, rfl⟩
                rfl
        · rw [if_neg hdue, if_neg hdue, ih]
          simp [hfits]
      · rw [if_neg hfits]
        exact ⟨fun h => (by cases h), fun h => absurd h.1.1 hfits⟩

end

/-! ## The manifest -/

/-- What `validate_migration` accepts. -/
structure ValidMigration (manifest : ReleaseManifest) (packages : List PackageMigration) :
    Prop where
  migration : manifest.packageMigration = some packages
  source : manifest.source = manifest.target
  valid : ∀ p ∈ packages, invalidPackageMigration manifest
    (packages.head?.elim "" (·.repositoryAlias)) p = false
  names : (packages.map (·.name)).Nodup
  rules : ∀ rule ∈ manifest.allowedVendorTransitions, ruleOutsideMigration packages rule = false

section

variable {manifest : ReleaseManifest} {packages pending : List PackageMigration}
variable {installed : List InstalledPackage} {changes : List PackageChange}

theorem validMigration_of_ok (hpackages : manifest.packageMigration = some packages)
    (h : validateMigration manifest = .ok ()) : ValidMigration manifest packages := by
  simp only [validateMigration, hpackages] at h
  split_ifs at h with hinvalid
  simp only [Bool.or_eq_true, not_or, List.any_eq_true, not_exists, not_and,
    Bool.not_eq_true] at hinvalid
  obtain ⟨⟨⟨⟨⟨⟨⟨⟨hsource, -⟩, -⟩, -⟩, -⟩, -⟩, hinvalid⟩, hnames⟩, hrules⟩ := hinvalid
  exact ⟨hpackages, by simpa using hsource, hinvalid, by simpa using hnames, hrules⟩

/-- Pending packages are packages of a valid migration. -/
theorem pendingMigration_eq_ok (hpackages : manifest.packageMigration = some packages) :
    pendingMigration manifest installed = .ok pending ↔ validateMigration manifest = .ok () ∧
      (∀ p ∈ packages, fits installed p) ∧ pending = packages.filter (due installed) := by
  rw [pendingMigration, hpackages]
  cases hvalid : validateMigration manifest with
  | error e => exact ⟨fun h => (by cases h), fun h => (by cases h.1)⟩
  | ok u => exact pendingFrom_eq_ok.trans (by simp)

/-- The changes a migration demands: each is the one of a pending package, there is one
for each, and no package is changed twice. -/
structure Demanded (pending : List PackageMigration) (changes : List PackageChange) : Prop where
  length : changes.length = pending.length
  names : (changes.map (·.name)).Nodup
  matching : ∀ change ∈ changes, ∃ p ∈ pending, matchesPending change p

/-- The two identities of a change are those of the pending package. -/
theorem matchesPending_iff {change : PackageChange} {p : PackageMigration} :
    matchesPending change p ↔ change.name = p.name ∧ change.architecture = p.architecture ∧
      (change.action = .upgrade ∨ change.action = .reinstall) ∧
      change.currentVersion = some p.fromVersion ∧ change.currentVendor = some p.fromVendor ∧
      change.proposedVersion = some p.toVersion ∧ change.proposedVendor = some p.toVendor ∧
      change.repositoryAlias = some p.repositoryAlias := by
  simp [matchesPending, and_assoc]

theorem not_demanded_iff : ¬ Demanded pending changes ↔
    (changes.length ≠ pending.length || !decide (changes.map (·.name)).Nodup ||
      changes.any fun change => !pending.any (matchesPending change)) := by
  have hdemanded : Demanded pending changes ↔ changes.length = pending.length ∧
      (changes.map (·.name)).Nodup ∧ ∀ change ∈ changes, ∃ p ∈ pending, matchesPending change p :=
    ⟨fun h => ⟨h.length, h.names, h.matching⟩, fun ⟨hlength, hnames, hmatching⟩ =>
      ⟨hlength, hnames, hmatching⟩⟩
  rw [hdemanded]
  simp
  grind

theorem validateMigrationPlan_eq_ok (hsome : manifest.packageMigration.isSome) :
    validateMigrationPlan manifest installed changes = .ok () ↔
      ∃ pending, pendingMigration manifest installed = .ok pending ∧ Demanded pending changes := by
  have hnot : ¬ manifest.packageMigration.isNone := by
    rw [Option.isNone_iff_eq_none]
    exact Option.isSome_iff_ne_none.mp hsome
  rw [validateMigrationPlan, if_neg hnot]
  cases hpending : pendingMigration manifest installed with
  | error e => exact ⟨fun h => (by cases h), fun ⟨_, h, _⟩ => (by cases h)⟩
  | ok pending =>
      dsimp only
      split_ifs with hunexpected
      · refine ⟨fun h => (by cases h), ?_⟩
        rintro ⟨_, hsame, hdemanded⟩
        cases hsame
        exact absurd hdemanded (not_demanded_iff.mpr hunexpected)
      · exact ⟨fun _ => ⟨pending, rfl, not_not.mp (mt not_demanded_iff.mp hunexpected)⟩,
          fun _ => rfl⟩

/-- **Changes and pending packages correspond**: each pending package has its change. -/
theorem Demanded.exists_change (h : Demanded pending changes)
    (hnames : (pending.map (·.name)).Nodup) {p : PackageMigration} (hp : p ∈ pending) :
    ∃ change ∈ changes, matchesPending change p := by
  -- as many names, all of them names of pending packages
  have hsubset : changes.map (·.name) ⊆ pending.map (·.name) := by
    intro name hname
    obtain ⟨change, hchange, rfl⟩ := List.mem_map.mp hname
    obtain ⟨q, hq, hmatch⟩ := h.matching change hchange
    exact List.mem_map.mpr ⟨q, hq, (matchesPending_iff.mp hmatch).1.symm⟩
  have hperm : (changes.map (·.name)).Perm (pending.map (·.name)) :=
    (List.subperm_of_subset h.names hsubset).perm_of_length_le (by simp [h.length])
  obtain ⟨change, hchange, hname⟩ :=
    List.mem_map.mp (hperm.mem_iff.mpr (List.mem_map_of_mem hp))
  obtain ⟨q, hq, hmatch⟩ := h.matching change hchange
  have hsame : q.name = p.name := (matchesPending_iff.mp hmatch).1.symm.trans hname
  rw [List.inj_on_of_nodup_map hnames hq hp hsame] at hmatch
  exact ⟨change, hchange, hmatch⟩

end

end LyraUpgrade
