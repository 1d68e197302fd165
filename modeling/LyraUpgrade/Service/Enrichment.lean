import LyraUpgrade.Service.VendorRecords
import Mathlib.Data.List.ReduceOption

/-!
# Enrichment is exact and atomic

`enrich_from_rpm_xml` fills in both vendors of every change of a solver result, or leaves
the result as it is.  The vendor that is replaced is the one of the single header of that
name, edition and architecture in the RPM database; the vendor of the candidate is the one
of its single record in the metadata of the repository the change names.
-/

namespace LyraUpgrade

open Encoding

/-! ## In place -/

/-- `enrich_from_rpm_xml` as the source writes it: it works on a copy of the changes, and
assigns the copy at the end. -/
def enrichInPlace (cache : String → Option RepositoryCache) (rpmXml : XmlDocument) :
    ExceptT VendorMetadataError (StateM SolverResult) Unit := do
  let installed ← MonadExcept.ofExcept (installedVendors rpmXml)
  let solver ← get
  let found ← MonadExcept.ofExcept
    (solver.changes.mapM (candidate solver.metadataValidRepositories))
  let candidates := found.reduceOption
  let catalogs ← MonadExcept.ofExcept
    ((dedup (sort (candidates.map (·.1)))).mapM (repositoryCatalog cache candidates))
  let changes ← MonadExcept.ofExcept (solver.changes.mapM (enrichChange installed catalogs))
  modify fun solver => { solver with changes := changes }

/-! ## What is found -/

/-- The primary metadata of a repository: what its index refers to, with the checksum that
the index states. -/
def PrimaryDocument (repository : RepositoryCache) (document : XmlDocument) : Prop :=
  ∃ repomd primary file, repository.repomd = some (true, repomd) ∧
    primaryRecord repomd = .ok primary ∧ repository.file primary.href = some file ∧
    file.insideRepository ∧ verifyChecksum file primary = .ok () ∧ file.document = .ok document

/-- The repository of an alias, its primary metadata, and the records in it. -/
def RepositoryRecords (cache : String → Option RepositoryCache) (name : String)
    (records : List (Identity × String)) : Prop :=
  ∃ repository document root, cache name = some repository ∧ repository.insideRoot ∧
    PrimaryDocument repository document ∧ readTree document common "metadata" = .ok root ∧
    records = candidateRecords root

/-- A change with the vendors that were found for it, and otherwise as it was. -/
structure VendorsFound (cache : String → Option RepositoryCache) (root : ElementTree)
    (change change' : PackageChange) : Prop where
  rest : change' = { change with
    currentVendor := change'.currentVendor, proposedVendor := change'.proposedVendor }
  install : change.action = .install → change'.currentVendor = none
  current : change.action ≠ .install → ∃ version vendor,
    change.currentVersion = some version ∧ change'.currentVendor = some vendor ∧
    validVendor vendor ∧
    OneRecord (installedHeaders root) ⟨change.name, version, change.architecture⟩ vendor
  remove : change.action = .remove → change'.proposedVendor = none
  proposed : change.action ≠ .remove → ∃ name records version vendor,
    change.repositoryAlias = some name ∧ RepositoryRecords cache name records ∧
    change.proposedVersion = some version ∧ change'.proposedVendor = some vendor ∧
    validVendor vendor ∧ OneRecord records ⟨change.name, version, change.architecture⟩ vendor

section

variable {cache : String → Option RepositoryCache} {rpmXml : XmlDocument}
variable {solver solver' : SolverResult} {repository : RepositoryCache} {wanted : List Identity}
variable {catalog installed : Catalog} {catalogs : List (String × Catalog)}
variable {change change' : PackageChange} {name : String} {metadata : List String}
variable {candidates : List (String × Identity)}

/-- A step that only computes: it goes on with the value, or fails in the state it is in. -/
theorem run_ofExcept_bind {α β : Type} (x : VendorResult α)
    (f : α → ExceptT VendorMetadataError (StateM SolverResult) β) (s : SolverResult) :
    (MonadExcept.ofExcept x >>= f).run.run s =
      match x with
      | .ok a => (f a).run.run s
      | .error e => (.error e, s) := by
  cases x <;> rfl

theorem run_get_bind {β : Type} (f : SolverResult → ExceptT VendorMetadataError (StateM SolverResult) β)
    (s : SolverResult) : (get >>= f).run.run s = (f s).run.run s := rfl

/-- The run in place is the one on values: only success changes the state. -/
theorem enrichInPlace_run (solver : SolverResult) :
    (enrichInPlace cache rpmXml).run.run solver =
      match enrichFromRpmXml solver cache rpmXml with
      | .ok solver' => (.ok (), solver')
      | .error e => (.error e, solver) := by
  rw [enrichInPlace, enrichFromRpmXml, run_ofExcept_bind]
  cases installedVendors rpmXml with
  | error e => rfl
  | ok installed =>
      dsimp only
      rw [run_get_bind, run_ofExcept_bind]
      cases solver.changes.mapM (candidate solver.metadataValidRepositories) with
      | error e => rfl
      | ok found =>
          dsimp only
          rw [run_ofExcept_bind]
          cases hcatalogs : (dedup (sort (found.reduceOption.map (·.1)))).mapM
              (repositoryCatalog cache found.reduceOption) with
          | error e => simp only [bind, Except.bind, hcatalogs]
          | ok catalogs =>
              dsimp only
              rw [run_ofExcept_bind]
              cases hchanges : solver.changes.mapM (enrichChange installed catalogs) with
              | error e => simp only [bind, Except.bind, hcatalogs, hchanges]
              | ok changes => simp only [bind, Except.bind, hcatalogs, hchanges]; rfl

/-! ## What success means -/

theorem repositoryVendors_eq_ok (h : repositoryVendors repository wanted = .ok catalog) :
    ∃ document, PrimaryDocument repository document ∧
      primaryVendors document wanted = .ok catalog := by
  unfold repositoryVendors at h
  cases hrepomd : repository.repomd with
  | none =>
      rw [hrepomd] at h
      cases h
  | some index =>
      obtain ⟨inside, repomd⟩ := index
      rw [hrepomd] at h
      dsimp only at h
      by_cases hinside : (!inside) = true
      · rw [if_pos hinside] at h
        cases h
      rw [if_neg hinside] at h
      obtain ⟨primary, hprimary, h⟩ := bind_eq_ok.mp h
      by_cases hunsafe : (primary.href.isEmpty || !normalPath primary.href) = true
      · rw [if_pos hunsafe] at h
        cases h
      rw [if_neg hunsafe] at h
      cases hfile : repository.file primary.href with
      | none =>
          rw [hfile] at h
          cases h
      | some file =>
          rw [hfile] at h
          dsimp only at h
          by_cases hescapes : (!file.insideRepository) = true
          · rw [if_pos hescapes] at h
            cases h
          rw [if_neg hescapes] at h
          obtain ⟨_, hchecksum, h⟩ := bind_eq_ok.mp h
          obtain ⟨document, hdocument, h⟩ := bind_eq_ok.mp h
          obtain ⟨catalog', hcatalog, h⟩ := bind_eq_ok.mp h
          have hsame : catalog' = catalog := by
            split_ifs at h
            · cases h
            · cases h
              rfl
          obtain rfl : inside = true := by simpa using hinside
          exact ⟨document, ⟨repomd, primary, file, hrepomd, hprimary, hfile, by simpa using hescapes,
            hchecksum, hdocument⟩, hsame ▸ hcatalog⟩

/-- The catalog of a repository answers for the single records of what is wanted. -/
theorem repositoryCatalog_eq_ok {name' : String}
    (h : repositoryCatalog cache candidates name = .ok (name', catalog)) :
    name' = name ∧ ∃ records, RepositoryRecords cache name records ∧
      ∀ identity vendor, (name, identity) ∈ candidates →
        lookupVendor catalog identity = .ok vendor →
        validVendor vendor ∧ OneRecord records identity vendor := by
  unfold repositoryCatalog at h
  cases hcache : cache name with
  | none =>
      rw [hcache] at h
      cases h
  | some repository =>
      rw [hcache] at h
      dsimp only at h
      by_cases hinside : (!repository.insideRoot) = true
      · rw [if_pos hinside] at h
        cases h
      rw [if_neg hinside] at h
      obtain ⟨catalog', hcatalog, h⟩ := bind_eq_ok.mp h
      cases h
      obtain ⟨document, hdocument, hprimary⟩ := repositoryVendors_eq_ok hcatalog
      obtain ⟨root, hroot, rfl, -⟩ := primaryVendors_eq_ok hprimary
      refine ⟨rfl, _, ⟨repository, document, root, hcache, by simpa using hinside, hdocument, hroot,
        rfl⟩, fun identity vendor hmem hlookup => ?_⟩
      have hwanted : identity ∈ (candidates.filter (·.1 = name)).map (·.2) :=
        List.mem_map.mpr ⟨(name, identity), List.mem_filter.mpr ⟨hmem, by simp⟩, rfl⟩
      obtain ⟨hone, hvalid⟩ := lookupVendor_catalogOf.mp hlookup
      exact ⟨hvalid, (oneRecord_filter hwanted).mp hone⟩

/-- The candidate of a change is named by the change. -/
theorem candidate_eq_ok (hremove : change.action ≠ .remove) {found : Option (String × Identity)}
    (h : candidate metadata change = .ok found) : ∃ name version,
      change.repositoryAlias = some name ∧ change.proposedVersion = some version ∧
      found = some (name, ⟨change.name, version, change.architecture⟩) := by
  obtain ⟨name, version, halias, hmem, hvalid, hversion⟩ := candidate_ok h hremove
  have hfilter : change.repositoryAlias.filter
      (fun name => validCacheAlias name && metadata.contains name) = some name :=
    Option.filter_eq_some_iff.mpr ⟨halias, by simp [hvalid, hmem]⟩
  rw [candidate, if_neg hremove, hfilter] at h
  dsimp only at h
  rw [hversion] at h
  cases h
  exact ⟨name, version, halias, hversion, rfl⟩

theorem vendorOf_eq_ok {version : Option String} {vendor : String} :
    vendorOf catalog change version = .ok vendor ↔ ∃ v, version = some v ∧
      lookupVendor catalog ⟨change.name, v, change.architecture⟩ = .ok vendor := by
  cases version <;> simp [vendorOf]

/-- **One change**: both vendors are found where they belong. -/
theorem vendorsFound_of_enrichChange {root : ElementTree}
    (hcatalogs : ∀ name catalog, (name, catalog) ∈ catalogs →
      repositoryCatalog cache candidates name = .ok (name, catalog))
    (hcandidate : change.action ≠ .remove → ∃ name version, change.repositoryAlias = some name ∧
      change.proposedVersion = some version ∧
      (name, ⟨change.name, version, change.architecture⟩) ∈ candidates)
    (h : enrichChange (catalogOf (installedHeaders root)) catalogs change = .ok change') :
    VendorsFound cache root change change' := by
  obtain ⟨current, hcurrent, h⟩ := bind_eq_ok.mp h
  obtain ⟨proposed, hproposed, h⟩ := bind_eq_ok.mp h
  cases h
  constructor
  · rfl
  · intro hinstall
    rw [currentVendorOf, if_pos hinstall] at hcurrent
    cases hcurrent
    rfl
  · intro hinstall
    rw [currentVendorOf, if_neg hinstall] at hcurrent
    obtain ⟨vendor, hvendor, rfl⟩ := map_eq_ok.mp hcurrent
    obtain ⟨version, hversion, hlookup⟩ := vendorOf_eq_ok.mp hvendor
    obtain ⟨hone, hvalid⟩ := lookupVendor_catalogOf.mp hlookup
    exact ⟨version, vendor, hversion, rfl, hvalid, hone⟩
  · intro hremove
    rw [proposedVendorOf, if_pos hremove] at hproposed
    cases hproposed
    rfl
  · intro hremove
    obtain ⟨name, version, halias, hversion, hmem⟩ := hcandidate hremove
    rw [proposedVendorOf, if_neg hremove, halias, Option.bind_some] at hproposed
    cases hcatalog : catalogs.lookup name with
    | none =>
        rw [hcatalog] at hproposed
        cases hproposed
    | some catalog =>
        rw [hcatalog] at hproposed
        obtain ⟨vendor, hvendor, rfl⟩ := map_eq_ok.mp hproposed
        obtain ⟨version', hversion', hlookup⟩ := vendorOf_eq_ok.mp hvendor
        rw [hversion, Option.some.injEq] at hversion'
        subst hversion'
        have hin : (name, catalog) ∈ catalogs := by
          obtain ⟨before, after, rfl, -⟩ := List.lookup_eq_some_iff.mp hcatalog
          exact List.mem_append_right _ List.mem_cons_self
        obtain ⟨-, records, hrecords, hfound⟩ := repositoryCatalog_eq_ok (hcatalogs _ _ hin)
        obtain ⟨hvalid, hone⟩ := hfound _ _ hmem hlookup
        exact ⟨name, records, version, vendor, halias, hrecords, hversion, rfl, hvalid, hone⟩

/-- **What success means**: the changes are the solver's, each with the vendors found for it. -/
theorem enrichFromRpmXml_exact (h : enrichFromRpmXml solver cache rpmXml = .ok solver') :
    ∃ root, readTree rpmXml "" "rpmdb" = .ok root ∧
      solver' = { solver with changes := solver'.changes } ∧
      List.Forall₂ (VendorsFound cache root) solver.changes solver'.changes := by
  obtain ⟨installed, hinstalled, h⟩ := bind_eq_ok.mp h
  obtain ⟨found, hfound, h⟩ := bind_eq_ok.mp h
  obtain ⟨catalogs, hcatalogs, h⟩ := bind_eq_ok.mp h
  obtain ⟨changes, hchanges, h⟩ := bind_eq_ok.mp h
  cases h
  obtain ⟨root, hroot, rfl, -⟩ := installedVendors_eq_ok hinstalled
  refine ⟨root, hroot, rfl, ?_⟩
  have hcatalogs' : ∀ name catalog, (name, catalog) ∈ catalogs →
      repositoryCatalog cache found.reduceOption name = .ok (name, catalog) := by
    intro name catalog hmem
    obtain ⟨name', -, hcatalog⟩ := (mapM_ok_mem hcatalogs).2 _ hmem
    have hsame := (repositoryCatalog_eq_ok hcatalog).1
    subst hsame
    exact hcatalog
  have hcandidates : ∀ change ∈ solver.changes, change.action ≠ .remove →
      ∃ name version, change.repositoryAlias = some name ∧ change.proposedVersion = some version ∧
        (name, ⟨change.name, version, change.architecture⟩) ∈ found.reduceOption := by
    intro change hchange hremove
    obtain ⟨c, hc, hcandidate⟩ := (mapM_ok_mem hfound).1 change hchange
    obtain ⟨name, version, halias, hversion, rfl⟩ := candidate_eq_ok hremove hcandidate
    exact ⟨name, version, halias, hversion, List.reduceOption_mem_iff.mpr hc⟩
  refine (forall₂_of_mapM_ok hchanges).imp fun change change' ⟨hchange, henrich⟩ => ?_
  exact vendorsFound_of_enrichChange hcatalogs' (hcandidates change hchange) henrich

/-! ## What makes it fail -/

/-- The identity has no record, or more than one, or a vendor that is not valid. -/
def Unresolved (records : List (Identity × String)) (identity : Identity) : Prop :=
  (records.filter (·.1 = identity)).length ≠ 1 ∨
    ∃ record ∈ records, record.1 = identity ∧ ¬ validVendor record.2

theorem Unresolved.not_oneRecord {records : List (Identity × String)} {identity : Identity}
    {vendor : String} (h : Unresolved records identity) (hvalid : validVendor vendor) :
    ¬ OneRecord records identity vendor := by
  intro hone
  rcases h with hlength | ⟨record, hmem, hidentity, hinvalid⟩
  · rw [hone] at hlength
    exact hlength rfl
  · have hin : record ∈ records.filter (·.1 = identity) :=
      List.mem_filter.mpr ⟨hmem, by simpa using hidentity⟩
    rw [hone, List.mem_singleton] at hin
    rw [hin] at hinvalid
    exact hinvalid hvalid

/-- A repository has one list of records. -/
theorem RepositoryRecords.unique {records records' : List (Identity × String)}
    (h : RepositoryRecords cache name records) (h' : RepositoryRecords cache name records') :
    records = records' := by
  obtain ⟨repository, document, root, hcache, -, hdocument, hroot, rfl⟩ := h
  obtain ⟨repository', document', root', hcache', -, hdocument', hroot', rfl⟩ := h'
  rw [hcache, Option.some.injEq] at hcache'
  subst hcache'
  obtain ⟨repomd, primary, file, hrepomd, hprimary, hfile, -, -, hcontent⟩ := hdocument
  obtain ⟨repomd', primary', file', hrepomd', hprimary', hfile', -, -, hcontent'⟩ := hdocument'
  rw [hrepomd, Option.some.injEq, Prod.mk.injEq] at hrepomd'
  obtain ⟨-, rfl⟩ := hrepomd'
  rw [hprimary, Except.ok.injEq] at hprimary'
  subst hprimary'
  rw [hfile, Option.some.injEq] at hfile'
  subst hfile'
  rw [hcontent, Except.ok.injEq] at hcontent'
  subst hcontent'
  rw [hroot, Except.ok.injEq] at hroot'
  rw [hroot']

/-- An error leaves the result as it was. -/
theorem enrichInPlace_error {e : VendorMetadataError}
    (h : (enrichInPlace cache rpmXml).run.run solver = (.error e, solver')) : solver' = solver := by
  rw [enrichInPlace_run] at h
  cases hvalue : enrichFromRpmXml solver cache rpmXml with
  | error e' =>
      rw [hvalue] at h
      cases h
      rfl
  | ok found =>
      rw [hvalue] at h
      cases h

theorem enrichInPlace_ok (h : (enrichInPlace cache rpmXml).run.run solver = (.ok (), solver')) :
    enrichFromRpmXml solver cache rpmXml = .ok solver' := by
  rw [enrichInPlace_run] at h
  cases hvalue : enrichFromRpmXml solver cache rpmXml with
  | error e' =>
      rw [hvalue] at h
      cases h
  | ok found =>
      rw [hvalue] at h
      cases h
      rfl

/-- What cannot succeed fails, and changes nothing. -/
theorem enrichInPlace_fails
    (h : ∀ solver', enrichFromRpmXml solver cache rpmXml ≠ .ok solver') :
    ∃ e, (enrichInPlace cache rpmXml).run.run solver = (.error e, solver) := by
  rw [enrichInPlace_run]
  cases hvalue : enrichFromRpmXml solver cache rpmXml with
  | error e => exact ⟨e, rfl⟩
  | ok solver' => exact absurd hvalue (h solver')

/-- Every change has its enriched counterpart. -/
theorem exists_vendorsFound {root : ElementTree} {changes changes' : List PackageChange}
    (h : List.Forall₂ (VendorsFound cache root) changes changes') (hchange : change ∈ changes) :
    ∃ change', VendorsFound cache root change change' := by
  induction h with
  | nil => cases hchange
  | cons hhead _ ih =>
      rcases List.mem_cons.mp hchange with rfl | hchange
      · exact ⟨_, hhead⟩
      · exact ih hchange

end

/-- **Vendor enrichment is exact and atomic.**  On success every change has the vendors found
for it, and nothing else has changed; on an error nothing has changed at all.  It is an error
when the identity a change replaces, or the one it proposes, has no record where it is looked
up, several, or one without a valid vendor. -/
theorem enrichment_exact (cache : String → Option RepositoryCache) (rpmXml : XmlDocument)
    (solver : SolverResult) :
    (∀ solver', (enrichInPlace cache rpmXml).run.run solver = (.ok (), solver') →
      ∃ root, readTree rpmXml "" "rpmdb" = .ok root ∧
        solver' = { solver with changes := solver'.changes } ∧
        List.Forall₂ (VendorsFound cache root) solver.changes solver'.changes) ∧
    (∀ e solver', (enrichInPlace cache rpmXml).run.run solver = (.error e, solver') →
      solver' = solver) ∧
    (∀ root, ∀ change ∈ solver.changes, ∀ version, readTree rpmXml "" "rpmdb" = .ok root →
      change.action ≠ .install → change.currentVersion = some version →
      Unresolved (installedHeaders root) ⟨change.name, version, change.architecture⟩ →
      ∃ e, (enrichInPlace cache rpmXml).run.run solver = (.error e, solver)) ∧
    (∀ records, ∀ change ∈ solver.changes, ∀ name version, RepositoryRecords cache name records →
      change.action ≠ .remove → change.repositoryAlias = some name →
      change.proposedVersion = some version →
      Unresolved records ⟨change.name, version, change.architecture⟩ →
      ∃ e, (enrichInPlace cache rpmXml).run.run solver = (.error e, solver)) := by
  refine ⟨fun solver' h => enrichFromRpmXml_exact (enrichInPlace_ok h),
    fun e solver' => enrichInPlace_error, ?_, ?_⟩
  · intro root change hchange version hroot hinstall hversion hunresolved
    refine enrichInPlace_fails fun solver' hok => ?_
    obtain ⟨root', hroot', -, hfound⟩ := enrichFromRpmXml_exact hok
    rw [hroot, Except.ok.injEq] at hroot'
    subst hroot'
    obtain ⟨change', hvendors⟩ := exists_vendorsFound hfound hchange
    obtain ⟨version', vendor, hversion', -, hvalid, hone⟩ := hvendors.current hinstall
    rw [hversion, Option.some.injEq] at hversion'
    subst hversion'
    exact hunresolved.not_oneRecord hvalid hone
  · intro records change hchange name version hrecords hremove halias hversion hunresolved
    refine enrichInPlace_fails fun solver' hok => ?_
    obtain ⟨root, -, -, hfound⟩ := enrichFromRpmXml_exact hok
    obtain ⟨change', hvendors⟩ := exists_vendorsFound hfound hchange
    obtain ⟨name', records', version', vendor, halias', hrecords', hversion', -, hvalid, hone⟩ :=
      hvendors.proposed hremove
    rw [halias, Option.some.injEq] at halias'
    subst halias'
    rw [hversion, Option.some.injEq] at hversion'
    subst hversion'
    rw [hrecords'.unique hrecords] at hone
    exact hunresolved.not_oneRecord hvalid hone

end LyraUpgrade
