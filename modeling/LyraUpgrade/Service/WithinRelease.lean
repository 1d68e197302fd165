import LyraUpgrade.Service.Planner
import LyraUpgrade.Service.VendorMetadata

/-!
# Planning an update of the installed release

`plan_update_with_cached_metadata` from the documents it reads: the inventory, the output
of the solver and the metadata of the repositories.  Each stage gives a part of what the
plan promises.

* The parser loses no package of a section it knows (`parseSolverXml_reports`).
* The vendors come from metadata that was verified, and are valid (`enrichFromRpmXml_ok`).
* The gate, which grants nothing by default, refuses removals, downgrades and every other
  vendor (`authorized_of_solverIssues`).

`planUpdateWithCachedMetadata_conservative` puts them together.
-/

namespace LyraUpgrade

open Encoding

/-- What planning an update observes of the machine: the host, the RPM headers, the output
of the solver, and the headers again with the repositories' metadata. -/
structure UpdateObservations where
  facts : HostFacts
  inventory : XmlDocument
  solverXml : List Xml.Event
  rpmXml : XmlDocument
  cache : String → Option RepositoryCache

/-- The repositories whose metadata the solver may rely on. -/
def trustedAliases (facts : HostFacts) : List String :=
  (facts.repositories.filter fun repository =>
    repository.enabled && repository.signingKeyTrusted).map (·.alias)

/-- `plan_update_with_cached_metadata`. -/
def planUpdateWithCachedMetadata (digest : List Char → String) (observed : UpdateObservations) :
    Except PlannerError PlannedUpdate :=
  match installedPackages observed.inventory with
  | .error _ => .error .vendorMetadata
  | .ok installed =>
      let facts := { observed.facts with installedPackages := installed }
      match parseSolverXml observed.solverXml (trustedAliases facts) 0 with
      | .error _ => .error .solverXml
      | .ok solver =>
          match enrichFromRpmXml solver observed.cache observed.rpmXml with
          | .error _ => .error .vendorMetadata
          | .ok solver => planWithinRelease digest facts solver

section

variable {digest : List Char → String} {facts : HostFacts} {solver : SolverResult}
variable {planned : PlannedUpdate} {observed : UpdateObservations} {change : PackageChange}

theorem planWithinRelease_authorized (h : planWithinRelease digest facts solver = .ok planned) :
    Authorized solver.changes {} ∧ planned.plan.packageChanges = sort solver.changes := by
  unfold planWithinRelease at h
  dsimp only at h
  split_ifs at h with hblocked
  have hpassed : (evaluateSolverPreflight facts {} solver {}).passed := by simpa using hblocked
  cases hbuild : buildPlan .updateWithinRelease facts
      (evaluateSolverPreflight facts {} solver {}) none none solver with
  | error e =>
      rw [hbuild] at h
      cases h
  | ok plan =>
      rw [hbuild] at h
      cases h
      refine ⟨authorized_of_solverIssues (evaluateSolverPreflight_passed.mp hpassed).2, ?_⟩
      rw [buildPlan_eq_ok hbuild]

/-- The stages of a plan. -/
theorem planUpdateWithCachedMetadata_stages
    (h : planUpdateWithCachedMetadata digest observed = .ok planned) :
    ∃ reported solver, parseSolverXml observed.solverXml (trustedAliases observed.facts) 0 =
        .ok reported ∧
      enrichFromRpmXml reported observed.cache observed.rpmXml = .ok solver ∧
      Authorized solver.changes {} ∧ planned.plan.packageChanges = sort solver.changes := by
  unfold planUpdateWithCachedMetadata at h
  cases hinstalled : installedPackages observed.inventory with
  | error e =>
      rw [hinstalled] at h
      cases h
  | ok installed =>
      rw [hinstalled] at h
      dsimp only at h
      cases hparse : parseSolverXml observed.solverXml
          (trustedAliases { observed.facts with installedPackages := installed }) 0 with
      | error e =>
          rw [hparse] at h
          cases h
      | ok reported =>
          rw [hparse] at h
          dsimp only at h
          cases henrich : enrichFromRpmXml reported observed.cache observed.rpmXml with
          | error e =>
              rw [henrich] at h
              cases h
          | ok solver =>
              rw [henrich] at h
              exact ⟨reported, solver, hparse, henrich, planWithinRelease_authorized h⟩

/-- Without rules, a replaced package keeps its vendor. -/
theorem currentVendor_of_permitted {validRules : Bool} {vendor : String}
    (hpermitted : vendorPermitted {} validRules change)
    (hvendor : change.proposedVendor = some vendor) (hvalid : validVendor vendor)
    (haction : change.action = .upgrade ∨ change.action = .reinstall) :
    change.currentVendor = some vendor := by
  have hproposed : change.proposedVendor.filter validVendor = some vendor := by
    simp [hvendor, hvalid]
  have hsame : change.currentVendor.filter validVendor = some vendor := by
    unfold vendorPermitted at hpermitted
    cases horigin : change.currentVendor.filter validVendor with
    | none => rcases haction with haction | haction <;> simp [haction, horigin] at hpermitted
    | some origin =>
        rcases haction with haction | haction <;>
          simpa [haction, horigin, hproposed] using hpermitted
  exact (Option.filter_eq_some_iff.mp hsame).1

end

/-- **A conservative change**: something is installed, upgraded or installed again, from a
repository that is enabled and checked, by a valid vendor, which stays the same. -/
structure ConservativeChange (facts : HostFacts) (change : PackageChange) : Prop where
  action : change.action = .install ∨ change.action = .upgrade ∨ change.action = .reinstall
  repository : ∃ repository ∈ facts.repositories, repository.enabled ∧
    repository.signingKeyTrusted ∧ change.repositoryAlias = some repository.alias
  vendor : ∃ vendor, change.proposedVendor = some vendor ∧ validVendor vendor ∧
    (change.action = .upgrade ∨ change.action = .reinstall → change.currentVendor = some vendor)

/-- The change of a plan that stands for a package of the solver's summary. -/
structure StandsFor (element : Xml.Element) (change : PackageChange) : Prop where
  name : elementAttribute element "name" = .ok (some change.name)
  architecture : elementAttribute element "arch" = .ok (some change.architecture)
  edition : elementAttribute element "edition" = .ok change.proposedVersion
  repository : elementAttribute element "repository" = .ok change.repositoryAlias

section

variable {digest : List Char → String} {facts : HostFacts} {solver : SolverResult}
variable {planned : PlannedUpdate} {observed : UpdateObservations} {change change' : PackageChange}
variable {element : Xml.Element} {action : PackageAction}

theorem requiredAttribute_ok {name field value : String}
    (h : requiredAttribute element name field = .ok value) :
    elementAttribute element name = .ok (some value) := by
  obtain ⟨found, hfound, h⟩ := bind_eq_ok.mp h
  cases hvalue : found.filter (!·.isEmpty) with
  | none =>
      rw [hvalue] at h
      cases h
  | some kept =>
      rw [hvalue] at h
      cases h
      rw [hfound, (Option.filter_eq_some_iff.mp hvalue).1]

/-- What is not removed has the edition of the element afterwards. -/
theorem solvableVersions_ok {version : String} {old : Option String}
    {versions : Option String × Option String}
    (h : solvableVersions action version old = .ok versions) (hremove : action ≠ .remove) :
    versions.2 = some version := by
  cases action with
  | remove => exact absurd rfl hremove
  | install =>
      cases h
      rfl
  | upgrade | downgrade | reinstall =>
      cases old with
      | none => cases h
      | some old =>
          cases h
          rfl

/-- What is read of a package that is not removed. -/
theorem standsFor_of_parsePackage (h : parsePackage element action = .ok change)
    (hproposed : change.proposedVersion.isSome) (hkey : change'.key = change.key) :
    StandsFor element change' := by
  obtain ⟨name, hname, h⟩ := bind_eq_ok.mp h
  obtain ⟨architecture, harchitecture, h⟩ := bind_eq_ok.mp h
  obtain ⟨former, -, h⟩ := bind_eq_ok.mp h
  split_ifs at h with hdiffers
  · cases h
  obtain ⟨version, hversion, h⟩ := bind_eq_ok.mp h
  obtain ⟨old, -, h⟩ := bind_eq_ok.mp h
  obtain ⟨versions, hversions, h⟩ := bind_eq_ok.mp h
  obtain ⟨repository, hrepository, h⟩ := bind_eq_ok.mp h
  cases h
  simp only [PackageChange.key, Prod.mk.injEq] at hkey
  obtain ⟨hkeyName, hkeyArchitecture, -, hkeyProposed, hkeyRepository⟩ := hkey
  have hremove : action ≠ .remove := by
    rintro rfl
    cases hversions
    cases hproposed
  have hnew := solvableVersions_ok hversions hremove
  rw [solvableRepository, if_neg hremove] at hrepository
  refine ⟨?_, ?_, ?_, ?_⟩
  · rw [hkeyName, requiredAttribute_ok hname]
  · rw [hkeyArchitecture, requiredAttribute_ok harchitecture]
  · rw [hkeyProposed, hnew, requiredAttribute_ok hversion]
  · rw [hkeyRepository, hrepository]

theorem mem_trustedAliases {name : String} : name ∈ trustedAliases facts ↔
    ∃ repository ∈ facts.repositories, repository.enabled ∧ repository.signingKeyTrusted ∧
      repository.alias = name := by
  simp [trustedAliases, and_assoc]

end

/-- **What a plan within the release promises**: its changes are conservative, and none of
the packages the solver reported is missing. -/
structure ConservativePlan (observed : UpdateObservations) (plan : UpgradePlan) : Prop where
  changes : ∀ change ∈ plan.packageChanges, ConservativeChange observed.facts change
  complete : ∀ action element, ReportedPackage observed.solverXml action element →
    ∃ change ∈ plan.packageChanges, StandsFor element change

/-- **A plan within the release is conservative**, whatever is observed of the machine. -/
theorem planUpdateWithCachedMetadata_conservative (digest : List Char → String)
    (observed : UpdateObservations) (planned : PlannedUpdate)
    (h : planUpdateWithCachedMetadata digest observed = .ok planned) :
    ConservativePlan observed planned.plan := by
  obtain ⟨reported, solver, hparse, henrich, hauthorized, hchanges⟩ :=
    planUpdateWithCachedMetadata_stages h
  have hmem : ∀ change, change ∈ planned.plan.packageChanges ↔ change ∈ solver.changes := by
    intro change
    rw [hchanges]
    exact (sort_perm _).mem_iff
  obtain ⟨hkept, hsource⟩ := enrichFromRpmXml_ok henrich
  rw [parseSolverXml_metadata hparse] at hkept hsource
  -- the gate refuses removals, so that every change has a candidate
  have hnotRemoved : ∀ change ∈ solver.changes, change.action ≠ .remove := fun change hchange hremove =>
    (by cases hauthorized.removal_allowed change hchange hremove)
  refine ⟨fun change hchange => ?_, fun action element hreported => ?_⟩
  · rw [hmem] at hchange
    obtain ⟨parsed, -, henriched⟩ := hsource change hchange
    have hremove : parsed.action ≠ .remove := by
      rw [← henriched.action]
      exact hnotRemoved change hchange
    obtain ⟨name, version, vendor, hname, htrusted, -, -, hvendor, hvalid⟩ :=
      henriched.candidate hremove
    obtain ⟨repository, hrepository, henabled, hchecked, rfl⟩ := mem_trustedAliases.mp htrusted
    refine ⟨?_, ⟨repository, hrepository, henabled, hchecked, hname⟩, vendor, hvendor, hvalid, ?_⟩
    · have hdowngrade := hauthorized.no_downgrade change hchange
      have hremoval := hnotRemoved change hchange
      cases haction : change.action <;> simp_all
    · exact currentVendor_of_permitted (hauthorized.vendor_permitted change hchange) hvendor hvalid
  · obtain ⟨parsed, hparsed, collected, hcollected, hkey⟩ := parseSolverXml_reports hparse hreported
    obtain ⟨change, hchange, henriched⟩ := hkept collected hcollected
    refine ⟨change, (hmem change).mpr hchange, ?_⟩
    have hremove : collected.action ≠ .remove := by
      rw [← henriched.action]
      exact hnotRemoved change hchange
    obtain ⟨_, version, _, -, -, -, hversion, -, -⟩ := henriched.candidate hremove
    have hsame : change.key = parsed.key := henriched.key.trans hkey
    refine standsFor_of_parsePackage hparsed ?_ hsame
    simp only [PackageChange.key, Prod.mk.injEq] at hsame
    rw [← hsame.2.2.2.1, hversion]
    rfl

namespace Sample

open Xml

def plain (name : String) (attributes : List (String × String)) : Element where
  name := name
  localName := name
  uri := .unbound
  attributes := attributes.map fun pair => .entry pair.1 (some pair.2)

def namespaced (uri name : String) (attributes : List (String × String)) : Element :=
  { plain name attributes with uri := .bound uri }

/-- An element around some events. -/
def around (element : Element) (events : List Event) : List Event :=
  .start element :: events ++ [.close element.name]

/-- The header of one package. -/
def rpmHeaders : XmlDocument where
  events := around (plain "rpmdb" []) (around (plain "package" [])
    (["nano", "0", "1", "1", "x86_64", "Lyra"].flatMap fun field =>
      around (plain "string" []) [.text (some field)]))
  bytes := 200

/-- The package is upgraded. -/
def dryRun : List Event :=
  around (plain "stream" []) (around (plain "install-summary"
    [("packages-to-change", "1"), ("download-size", "100"), ("space-usage-diff", "2"),
      ("space-usage-installed", "30"), ("space-usage-removed", "20")])
    (around (plain "to-upgrade" []) [.empty (plain "solvable"
      [("type", "package"), ("name", "nano"), ("edition", "2-1"), ("edition-old", "1-1"),
        ("arch", "x86_64"), ("repository", "lyra")])]))

def repomd : XmlDocument where
  events := around (namespaced repo "repomd" []) (around (namespaced repo "data" [("type", "primary")])
    (.empty (namespaced repo "location" [("href", "repodata/primary.xml")]) ::
      around (namespaced repo "checksum" [("type", "sha256")]) [.text (some "c0ffee")]))
  bytes := 300

def primaryXml : XmlDocument where
  events := around (namespaced common "metadata" []) (around
    (namespaced common "package" [("type", "rpm")])
    (around (namespaced common "name" []) [.text (some "nano")] ++
      around (namespaced common "arch" []) [.text (some "x86_64")] ++
      .empty (namespaced common "version" [("epoch", "0"), ("ver", "2"), ("rel", "1")]) ::
      around (namespaced common "format" [])
        (around (namespaced rpm "vendor" []) [.text (some "Lyra")])))
  bytes := 400

/-- The cache of the repository. -/
def cache (name : String) : Option RepositoryCache :=
  if name = "lyra" then some
    { insideRoot := true
      repomd := some (true, repomd)
      file := fun href => if href = "repodata/primary.xml" then
        some ⟨true, "c0ffee", "", some "xml", some primaryXml⟩ else none
      unchanged := true }
  else none

def observed : UpdateObservations := ⟨facts, rpmHeaders, dryRun, rpmHeaders, cache⟩

end Sample

theorem planUpdateWithCachedMetadata_conservative_sample : ∃ planned,
    planUpdateWithCachedMetadata (fun _ => "") Sample.observed = .ok planned ∧
      ConservativePlan Sample.observed planned.plan := by
  have hsome : (planUpdateWithCachedMetadata (fun _ => "") Sample.observed).toOption.isSome := by
    decide +kernel
  obtain ⟨planned, hplanned⟩ := Option.isSome_iff_exists.mp hsome
  cases h : planUpdateWithCachedMetadata (fun _ => "") Sample.observed with
  | error e =>
      rw [h] at hplanned
      cases hplanned
  | ok planned =>
      exact ⟨planned, rfl, planUpdateWithCachedMetadata_conservative _ _ planned h⟩

end LyraUpgrade
