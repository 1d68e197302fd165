import LyraUpgrade.Core.Pending
import LyraUpgrade.Core.Progress
import LyraUpgrade.Service.VendorMetadata

/-!
# Admission and execution of a migration

A migration is admitted by one piece of code and carried out by others, and each has rules
of its own.  Admission requires of the vendor rules that they grant nothing beyond the
migration, of the repository aliases that they consist of certain characters, and of the
packages that their names differ.  Execution requires a grant for every vendor that
changes, an alias the metadata cache can be entered with, and different digests.

`carriedOut_iff` says for which installed packages an admitted migration gets through.
-/

namespace LyraUpgrade

/-- A rule names the package for the change of its vendor. -/
def grantedBy (p : PackageMigration) (rule : VendorTransitionWire) : Prop :=
  rule.from = p.fromVendor ∧ rule.to = p.toVendor ∧ ∃ scope, rule.packages = some scope ∧
    p.name ∈ scope

/-- **What admission leaves open** of the packages that are still to be migrated: a grant
where the vendor changes, an alias that is not a special directory and not too long, and
digests that tell the packages apart. -/
structure Executable (manifest : ReleaseManifest) (packages : List PackageMigration)
    (installed : List InstalledPackage) : Prop where
  granted : ∀ p ∈ packages, due installed p → p.fromVendor = p.toVendor ∨
    ∃ rule ∈ manifest.allowedVendorTransitions, grantedBy p rule
  location : ∀ p ∈ packages, due installed p → p.repositoryAlias ≠ "." ∧
    p.repositoryAlias ≠ ".." ∧ p.repositoryAlias.utf8ByteSize ≤ 128
  digests : ∀ p ∈ packages, ∀ q ∈ packages, due installed p → due installed q →
    p.sha256 = q.sha256 → p.name = q.name

/-- **No later stage refuses** the changes for a reason the manifest shows: not the vendor
policy, not the lookup of the vendors, not the check of the payloads. -/
structure NotRefused (manifest : ReleaseManifest) (pending : List PackageMigration)
    (changes : List PackageChange) : Prop where
  vendors : vendorPolicyBlockers changes manifest.solverPolicy = []
  «alias» : ∀ change ∈ changes, change.repositoryAlias.any validCacheAlias
  payloads : (pending.map (·.sha256)).Nodup

section

variable {manifest : ReleaseManifest} {packages pending : List PackageMigration}
variable {installed : List InstalledPackage} {changes : List PackageChange}
variable {change : PackageChange} {p : PackageMigration}
variable {acceptsUrl : String → Bool} {repositories : List RepositoryTransition}

/-! ## What admission establishes -/

theorem validAlias_of_checkRepositories {seen : List String}
    (h : checkRepositories acceptsUrl seen repositories = .ok ()) :
    ∀ repository ∈ repositories, validAlias repository.alias := by
  induction repositories generalizing seen with
  | nil => exact fun _ hmem => (by cases hmem)
  | cons repository repositories ih =>
      rw [checkRepositories] at h
      split_ifs at h with hinvalid
      rw [List.forall_mem_cons]
      refine ⟨?_, ih h⟩
      simp only [Bool.or_eq_true, not_or, Bool.not_eq_true', Bool.not_eq_false] at hinvalid
      exact hinvalid.1.1.1

/-- The two alias rules allow the same characters. -/
theorem validCacheAlias_iff {name : String} (hvalid : validAlias name) :
    validCacheAlias name ↔ name ≠ "." ∧ name ≠ ".." ∧ name.utf8ByteSize ≤ 128 := by
  simp only [validAlias, Bool.and_eq_true, List.all_eq_true] at hvalid
  have hchars : name.toList.all fun c =>
      c.isAlphanum || c = '.' || c = '_' || c = ':' || c = '-' := by
    rw [List.all_eq_true]
    intro c hc
    have := hvalid.2 c hc
    simp only [Bool.or_eq_true] at this ⊢
    tauto
  simp only [validCacheAlias, hvalid.1, hchars, Bool.true_and, Bool.and_true, Bool.and_eq_true,
    decide_eq_true_eq, ne_eq, and_assoc]

/-- A package of an admitted migration comes from a repository of the manifest, and both
its vendors are valid. -/
theorem ValidMigration.package (h : ValidMigration manifest packages) (hp : p ∈ packages) :
    validVendor p.fromVendor ∧ validVendor p.toVendor ∧
      ∃ repository ∈ manifest.repositories, repository.alias = p.repositoryAlias := by
  have hvalid := h.valid p hp
  simp only [invalidPackageMigration, Bool.or_eq_false_iff, Bool.not_eq_false', List.any_eq_true,
    decide_eq_true_eq] at hvalid
  obtain ⟨⟨⟨⟨⟨⟨-, hfrom⟩, hto⟩, -⟩, -⟩, hrepository⟩, -⟩ := hvalid
  exact ⟨hfrom, hto, hrepository⟩

/-- Rules beside a migration have a scope. -/
theorem ValidMigration.scoped (h : ValidMigration manifest packages) {rule : VendorTransitionWire}
    (hrule : rule ∈ manifest.allowedVendorTransitions) : rule.packages.isSome := by
  have := h.rules rule hrule
  cases hscope : rule.packages with
  | none => simp [ruleOutsideMigration, hscope] at this
  | some scope => rfl

theorem validVendorTransitions_of_checkPolicy (h : checkPolicy manifest = .ok ()) :
    validVendorTransitions manifest.solverPolicy.allowedVendorTransitions = true := by
  unfold checkPolicy at h
  split_ifs at h with hinvalid
  simp only [Bool.or_eq_true, not_or, Bool.not_eq_true', Bool.not_eq_false] at hinvalid
  exact hinvalid.1.1.1

/-! ## What the later stages ask for -/

/-- The vendor policy permits a demanded change when the vendor stays or a rule names the
package. -/
theorem vendorPermitted_iff (h : ValidMigration manifest packages) (hp : p ∈ packages)
    (hmatch : matchesPending change p) :
    vendorPermitted manifest.solverPolicy true change ↔ p.fromVendor = p.toVendor ∨
      ∃ rule ∈ manifest.allowedVendorTransitions, grantedBy p rule := by
  obtain ⟨hname, -, haction, -, hcurrent, -, hproposed, -⟩ := matchesPending_iff.mp hmatch
  obtain ⟨hfrom, hto, -⟩ := h.package hp
  have hrules : (manifest.solverPolicy.allowedVendorTransitions.any fun allowed =>
      allowed.from = p.fromVendor && allowed.«to» = p.toVendor &&
        allowed.packages.all (·.contains change.name)) = true ↔
      ∃ rule ∈ manifest.allowedVendorTransitions, grantedBy p rule := by
    simp only [ReleaseManifest.solverPolicy, List.any_map, List.any_eq_true, Function.comp_apply,
      Bool.and_eq_true, decide_eq_true_eq, hname, grantedBy]
    refine exists_congr fun rule => and_congr_right fun hrule => ?_
    obtain ⟨scope, hscope⟩ := Option.isSome_iff_exists.mp (h.scoped hrule)
    simp [hscope, and_assoc]
  have horigin : change.currentVendor.filter validVendor = some p.fromVendor := by
    simp [hcurrent, hfrom]
  have hcandidate : change.proposedVendor.filter validVendor = some p.toVendor := by
    simp [hproposed, hto]
  rw [← hrules]
  rcases haction with haction | haction <;>
    simp only [vendorPermitted, haction, horigin, hcandidate, Bool.or_eq_true, Bool.true_and,
      decide_eq_true_eq]

/-- **An admitted migration gets through exactly when** every package that is still to be
migrated has its grant, a usable alias and a digest of its own. -/
theorem carriedOut_iff (identity : ReleaseIdentity) (lastSequence : Option ℕ)
    (updaterVersion : String) (channel : ManifestChannelPolicy)
    (hpackages : manifest.packageMigration = some packages)
    (hroute : validateManifestRoute acceptsUrl manifest identity lastSequence updaterVersion
      channel = .ok ())
    (hpending : pendingMigration manifest installed = .ok pending)
    (hchanges : validateMigrationPlan manifest installed changes = .ok ()) :
    NotRefused manifest pending changes ↔ Executable manifest packages installed := by
  obtain ⟨-, -, -, -, hrepositories, hpolicy⟩ := validateManifestRoute_eq_ok.mp hroute
  obtain ⟨haccepted, -, rfl⟩ := (pendingMigration_eq_ok hpackages).mp hpending
  obtain ⟨_, hsame, hdemanded⟩ :=
    (validateMigrationPlan_eq_ok (by rw [hpackages]; rfl)).mp hchanges
  obtain rfl := Except.ok.inj (hsame.symm.trans hpending)
  have hvalid := validMigration_of_ok hpackages haccepted
  have hrules := validVendorTransitions_of_checkPolicy hpolicy
  have hnames : ((packages.filter (due installed)).map (·.name)).Nodup :=
    hvalid.names.sublist (List.filter_sublist.map _)
  have hdistinct : (packages.filter (due installed)).Nodup := hnames.of_map _
  have halias : ∀ p ∈ packages, validCacheAlias p.repositoryAlias ↔ p.repositoryAlias ≠ "." ∧
      p.repositoryAlias ≠ ".." ∧ p.repositoryAlias.utf8ByteSize ≤ 128 := by
    intro p hp
    obtain ⟨-, -, repository, hrepository, hname⟩ := hvalid.package hp
    exact validCacheAlias_iff (hname ▸ validAlias_of_checkRepositories hrepositories _ hrepository)
  constructor
  · rintro ⟨hvendors, haliases, hpayloads⟩
    rw [vendorPolicyBlockers_eq_nil, hrules] at hvendors
    refine ⟨fun p hp hdue => ?_, fun p hp hdue => ?_, fun p hp q hq hdue hdue' hdigest => ?_⟩
    · obtain ⟨change, hchange, hmatch⟩ :=
        hdemanded.exists_change hnames (List.mem_filter.mpr ⟨hp, hdue⟩)
      exact (vendorPermitted_iff hvalid hp hmatch).mp (hvendors change hchange)
    · obtain ⟨change, hchange, hmatch⟩ :=
        hdemanded.exists_change hnames (List.mem_filter.mpr ⟨hp, hdue⟩)
      have := haliases change hchange
      rw [(matchesPending_iff.mp hmatch).2.2.2.2.2.2.2] at this
      exact (halias p hp).mp this
    · rw [List.nodup_map_iff_inj_on hdistinct] at hpayloads
      rw [hpayloads p (List.mem_filter.mpr ⟨hp, hdue⟩) q (List.mem_filter.mpr ⟨hq, hdue'⟩) hdigest]
  · rintro ⟨hgranted, hlocation, hdigests⟩
    -- each change is the one of a package that is still to be migrated
    have hsource : ∀ change ∈ changes, ∃ p ∈ packages, due installed p ∧ matchesPending change p := by
      intro change hchange
      obtain ⟨p, hp, hmatch⟩ := hdemanded.matching change hchange
      obtain ⟨hp, hdue⟩ := List.mem_filter.mp hp
      exact ⟨p, hp, hdue, hmatch⟩
    refine ⟨?_, fun change hchange => ?_, ?_⟩
    · rw [vendorPolicyBlockers_eq_nil, hrules]
      intro change hchange
      obtain ⟨p, hp, hdue, hmatch⟩ := hsource change hchange
      exact (vendorPermitted_iff hvalid hp hmatch).mpr (hgranted p hp hdue)
    · obtain ⟨p, hp, hdue, hmatch⟩ := hsource change hchange
      rw [(matchesPending_iff.mp hmatch).2.2.2.2.2.2.2]
      exact (halias p hp).mpr (hlocation p hp hdue)
    · rw [List.nodup_map_iff_inj_on hdistinct]
      intro p hp q hq hdigest
      obtain ⟨hp, hdue⟩ := List.mem_filter.mp hp
      obtain ⟨hq, hdue'⟩ := List.mem_filter.mp hq
      exact List.inj_on_of_nodup_map hvalid.names hp hq
        (hdigests p hp q hq hdue hdue' hdigest)

end

/-! ## Samples -/

namespace Sample

/-- Both packages are installed as the maintenance expects them. -/
def untouched : List InstalledPackage :=
  [⟨"nano", "1-1", "x86_64", "openSUSE"⟩, ⟨"nano-lang", "1-1", "noarch", "openSUSE"⟩]

/-- One upgrade for each package. -/
def upgrades (packages : List PackageMigration) : List PackageChange :=
  packages.map fun p => ⟨p.name, p.architecture, .upgrade, some p.fromVersion, some p.toVersion,
    some p.fromVendor, some p.toVendor, some p.repositoryAlias, 0, 0, 0⟩

/-- The maintenance without the grant its vendors need. -/
def ungranted : ReleaseManifest := { maintenance with allowedVendorTransitions := [] }

def aliasedPackages : List PackageMigration :=
  migratedPackages.map fun p => { p with repositoryAlias := ".." }

/-- The maintenance from a repository with the name of a special directory. -/
def aliased : ReleaseManifest :=
  { maintenance with
    repositories := [{ repository with «alias» := ".." }]
    packageMigration := some aliasedPackages }

def repeatedPackages : List PackageMigration :=
  migratedPackages.map fun p => { p with
    sha256 := "0000000000000000000000000000000000000000000000000000000000000001" }

/-- The maintenance with one digest for both packages. -/
def repeated : ReleaseManifest := { maintenance with packageMigration := some repeatedPackages }

/-- The manifest is admitted, and the changes are those it demands. -/
def Admitted (manifest : ReleaseManifest) (packages : List PackageMigration) : Prop :=
  validateManifestRoute (fun _ => true) manifest manifest.source none "0.2.7" .stable = .ok () ∧
  validateMigrationPlan manifest untouched (upgrades packages) = .ok ()

end Sample

theorem carriedOut_iff_sample :
    NotRefused Sample.maintenance Sample.migratedPackages (Sample.upgrades Sample.migratedPackages) ↔
      Executable Sample.maintenance Sample.migratedPackages Sample.untouched := by
  have hroute : validateManifestRoute (fun _ => true) Sample.maintenance Sample.firstRelease none
      "0.2.7" .stable = .ok () := by decide +kernel
  exact carriedOut_iff Sample.firstRelease none "0.2.7" .stable rfl hroute (by decide +kernel)
    (by decide +kernel)

/-- **Admitted and never carried out**: without a grant, from a repository the vendor lookup
does not enter, and with payloads that cannot be told apart. -/
theorem admitted_not_carriedOut :
    (Sample.Admitted Sample.ungranted Sample.migratedPackages ∧
      vendorPolicyBlockers (Sample.upgrades Sample.migratedPackages)
        Sample.ungranted.solverPolicy ≠ []) ∧
    (Sample.Admitted Sample.aliased Sample.aliasedPackages ∧ validCacheAlias ".." = false) ∧
    (Sample.Admitted Sample.repeated Sample.repeatedPackages ∧
      ¬ (Sample.repeatedPackages.map (·.sha256)).Nodup) := by
  refine ⟨⟨⟨?_, ?_⟩, ?_⟩, ⟨⟨?_, ?_⟩, ?_⟩, ⟨?_, ?_⟩, ?_⟩ <;> decide +kernel

end LyraUpgrade
