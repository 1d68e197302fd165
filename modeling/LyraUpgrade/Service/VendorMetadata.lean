import LyraUpgrade.Service.SolverXml

/-!
# Vendors of packages

`service/src/vendor_metadata.rs`: where the vendors of a proposed transaction come from.
The vendor of an installed package is the one of its RPM header, the vendor of a candidate
is the one its repository's metadata states for exactly that name, edition and
architecture.  The alias of a repository selects the metadata, it is never an identity.

The documents are read by one streaming reader, `walk`, which calls its visitor whenever
an element is closed.  What the file system and the decompressor contribute is a
parameter, `RepositoryCache`.

## Main definitions

* `walk` — the reader.
* `installedVendors`, `primaryRecord`, `primaryVendors` — its three visitors.
* `repositoryVendors` — the candidates of one repository.
* `enrichFromRpmXml` — a solver result with its vendors.
* `Enriched` — what it establishes of each change.
-/

namespace LyraUpgrade

open Encoding

/-- `VendorMetadataError`, with the texts of the source. -/
inductive VendorMetadataError
  | io
  | invalid (reason : String)
  | missingIdentity (package : String)
  deriving DecidableEq, Repr

abbrev VendorResult (α : Type) := Except VendorMetadataError α

/-! ## Reading a document -/

def common : String := "http://linux.duke.edu/metadata/common"
def rpm : String := "http://linux.duke.edu/metadata/rpm"
def repo : String := "http://linux.duke.edu/metadata/repo"
def maxXmlBytes : ℕ := 2 * 1024 * 1024 * 1024

/-- The events of a document, and how many bytes the parser consumed: it is given at most
`maxXmlBytes`. -/
structure XmlDocument where
  events : List Xml.Event
  bytes : ℕ

structure Node where
  ns : String
  name : String
  attrs : List (String × String)
  text : String

namespace Node

/-- `Node::is`. -/
def is (self : Node) (ns name : String) : Bool := self.ns = ns && self.name = name

/-- `Node::attr`. -/
def attr (self : Node) (name : String) : VendorResult String :=
  match self.attrs.lookup name with
  | some value => .ok value
  | none => .error (.invalid "missing XML attribute")

/-- `Node::append`: only the texts that are looked at are kept. -/
def append (self : Node) (text : String) : VendorResult Node :=
  if ["name", "arch", "vendor", "checksum", "string", "integer"].contains self.name then
    if 4096 < self.text.utf8ByteSize + text.utf8ByteSize then
      .error (.invalid "oversized identity field")
    else .ok { self with text := self.text ++ text }
  else .ok self

end Node

/-- The attributes of an element, each of them once. -/
def readAttributes (seen : List (String × String)) :
    List Xml.Attribute → VendorResult (List (String × String))
  | [] => .ok seen
  | .malformed :: _ => .error (.invalid "invalid XML attribute")
  | .entry _ none :: _ => .error (.invalid "invalid XML attribute value")
  | .entry key (some value) :: attributes =>
      if (seen.lookup key).isSome then .error (.invalid "duplicate XML attribute")
      else readAttributes ((key, value) :: seen) attributes

def openNode (element : Xml.Element) : VendorResult Node := do
  let ns ← match element.uri with
    | .bound uri => pure uri
    | .unbound => pure ""
    | .undeclared => throw (.invalid "unbound XML namespace")
  return { ns, name := element.localName, attrs := ← readAttributes [] element.attributes
           text := "" }

section

variable {σ : Type}

/-- The variables of the loop: the open nodes, the innermost first, how many roots there
were, and what the visitor collects. -/
structure Walk (σ : Type) where
  stack : List Node
  roots : ℕ
  collected : σ

/-- The visitor is called with the open nodes, the root first. -/
abbrev Visitor (σ : Type) := σ → List Node → Node → VendorResult σ

def Walk.append (self : Walk σ) (text : String) : VendorResult (Walk σ) :=
  match self.stack with
  | [] => .ok self
  | node :: nodes => do return { self with stack := (← node.append text) :: nodes }

/-- An element: only the first one may be a root, and it has to be the expected one. -/
def Walk.openElement (self : Walk σ) (rootNs rootName : String) (element : Xml.Element) :
    VendorResult (Walk σ × Node) := do
  let node ← openNode element
  let roots := if self.stack.isEmpty then self.roots + 1 else self.roots
  if self.stack.isEmpty && (roots ≠ 1 || !node.is rootNs rootName) then
    throw (.invalid "invalid XML root")
  if 32 ≤ self.stack.length then throw (.invalid "excessive XML depth")
  return ({ self with roots := roots }, node)

def Walk.step (rootNs rootName : String) (closed : Visitor σ) (self : Walk σ) :
    Xml.Event → VendorResult (Walk σ)
  | .start element => do
      let (self, node) ← self.openElement rootNs rootName element
      return { self with stack := node :: self.stack }
  | .empty element => do
      let (self, node) ← self.openElement rootNs rootName element
      return { self with collected := ← closed self.collected self.stack.reverse node }
  | .close _ =>
      match self.stack with
      | [] => .error (.invalid "unbalanced XML")
      | node :: nodes => do
          return { self with
            stack := nodes, collected := ← closed self.collected nodes.reverse node }
  | .text none => .error (.invalid "invalid XML text")
  | .text (some text) =>
      if self.stack.isEmpty && !(trim text.toList).isEmpty then
        .error (.invalid "text outside XML root")
      else self.append text
  | .cdata content =>
      match content with
      | none => if self.stack.isEmpty then .ok self else .error (.invalid "invalid CDATA")
      | some text => self.append text
  | .reference none => .error (.invalid "unknown XML entity")
  | .reference (some text) => self.append text
  | .docType => .error (.invalid "DTD not allowed")
  | .other => .ok self
  | .malformed => .error (.invalid "malformed XML")

/-- `walk`. -/
def walk (document : XmlDocument) (rootNs rootName : String) (closed : Visitor σ) (start : σ) :
    VendorResult σ := do
  let walked ← document.events.foldlM (Walk.step rootNs rootName closed) ⟨[], 0, start⟩
  if walked.roots ≠ 1 || !walked.stack.isEmpty || maxXmlBytes ≤ document.bytes then
    throw (.invalid "truncated XML")
  return walked.collected

end

/-! ## Catalogs -/

/-- What a package is looked up by; the edition includes the epoch. -/
structure Identity where
  name : String
  edition : String
  architecture : String
  deriving DecidableEq, Repr, Ord

/-- The vendors of RPM headers.  A vendor that is `none` records an identity that two
headers share: even equal vendors cannot tell them apart. -/
abbrev Catalog := List (Identity × Option String)

/-- `insert`. -/
def Catalog.insert (key : Identity) (vendor : String) : Catalog → Catalog
  | [] => [(key, some vendor)]
  | (existing, value) :: catalog =>
      if existing = key then (existing, none) :: catalog
      else (existing, value) :: Catalog.insert key vendor catalog

/-- `lookup`. -/
def lookupVendor (catalog : Catalog) (identity : Identity) : VendorResult String :=
  match ((catalog.lookup identity).bind id).filter validVendor with
  | some vendor => .ok vendor
  | none => .error (.missingIdentity identity.name)

/-- `edition`. -/
def edition (epoch version release : String) : VendorResult String :=
  match parseU64 epoch.toList with
  | none => .error (.invalid "invalid RPM epoch")
  | some epoch =>
      if version.isEmpty || release.isEmpty then .error (.invalid "missing RPM version/release")
      else if epoch = 0 then .ok (version ++ "-" ++ release)
      else .ok (String.ofList (decimal epoch) ++ ":" ++ version ++ "-" ++ release)

/-! ## RPM headers -/

/-- The catalog so far, and the fields of the package that is open. -/
def visitInstalled : Visitor (Catalog × List String)
  | (catalog, fields), [_, parent], node =>
      if parent.is "" "package" && node.ns.isEmpty then
        if node.name = "string" || node.name = "integer" then .ok (catalog, fields ++ [node.text])
        else .error (.invalid "invalid RPM field")
      else .ok (catalog, fields)
  | (catalog, fields), [_], node =>
      if node.is "" "package" then
        match fields with
        | [name, epoch, version, release, architecture, vendor] => do
            let edition ← edition epoch version release
            return (catalog.insert ⟨name, edition, architecture⟩ vendor, [])
        | _ => .error (.invalid "incomplete RPM header")
      else .ok (catalog, fields)
  | state, _, _ => .ok state

/-- `installed_vendors`. -/
def installedVendors (xml : XmlDocument) : VendorResult Catalog :=
  Prod.fst <$> walk xml "" "rpmdb" visitInstalled ([], [])

/-- One package of the inventory. -/
def installedPackage : Identity × Option String → VendorResult InstalledPackage
  | (⟨name, version, architecture⟩, some vendor) => .ok ⟨name, version, architecture, vendor⟩
  | (_, none) => .error (.invalid "ambiguous installed package")

/-- `installed_packages`, in the order of the catalog's keys. -/
def installedPackages (xml : XmlDocument) : VendorResult (List InstalledPackage) := do
  let catalog ← installedVendors xml
  let packages ← (sortByKey (·.1) catalog).mapM installedPackage
  if packages.isEmpty then throw (.invalid "empty installed inventory")
  return packages

/-! ## Repository metadata -/

structure Primary where
  href : String := ""
  algorithm : String := ""
  checksum : String := ""
  deriving DecidableEq, Repr

/-- The records so far, and the one that is open. -/
def visitRepomd : Visitor (List Primary × Primary)
  | (records, record), [_, parent], node => do
      if !parent.is repo "data" then return (records, record)
      if (← parent.attr "type") ≠ "primary" then return (records, record)
      if node.is repo "location" then
        if !record.href.isEmpty then throw (.invalid "duplicate primary location")
        return (records, { record with href := ← node.attr "href" })
      if node.is repo "checksum" then
        if !record.checksum.isEmpty then throw (.invalid "duplicate primary checksum")
        return (records, { record with algorithm := ← node.attr "type", checksum := node.text })
      return (records, record)
  | (records, record), [_], node => do
      if !node.is repo "data" then return (records, record)
      if (← node.attr "type") ≠ "primary" then return (records, record)
      return (records ++ [record], {})
  | state, _, _ => .ok state

/-- `primary_record`. -/
def primaryRecord (xml : XmlDocument) : VendorResult Primary := do
  match (← walk xml repo "repomd" visitRepomd ([], {})).1 with
  | [record] => return record
  | _ => throw (.invalid "missing/ambiguous primary metadata")

/-- The field of a package that an element is, with its key. -/
def primaryField (parents : List Node) (node : Node) : VendorResult (Option (String × String)) :=
  match parents with
  | [_, parent] =>
      if !parent.is common "package" then .ok none
      else if node.is common "name" then .ok (some ("name", node.text))
      else if node.is common "arch" then .ok (some ("arch", node.text))
      else if node.is common "version" then do
        let edition ← edition (← node.attr "epoch") (← node.attr "ver") (← node.attr "rel")
        return some ("edition", edition)
      else .ok none
  | [_, package, format] =>
      if package.is common "package" && format.is common "format" && node.is rpm "vendor" then
        .ok (some ("vendor", node.text))
      else .ok none
  | _ => .ok none

/-- A field of the package that has to be there. -/
def requiredField (fields : List (String × String)) (key : String) : VendorResult String :=
  match fields.lookup key with
  | some value => .ok value
  | none => .error (.invalid "incomplete primary package")

/-- A package that ends: it is recorded if it is one that is looked for. -/
def closePackage (wanted : List Identity) (catalog : Catalog) (fields : List (String × String))
    (node : Node) : VendorResult Catalog := do
  let name ← requiredField fields "name"
  let edition ← requiredField fields "edition"
  let architecture ← requiredField fields "arch"
  let identity : Identity := ⟨name, edition, architecture⟩
  if !wanted.contains identity then return catalog
  if (← node.attr "type") ≠ "rpm" then throw (.invalid "non-RPM candidate")
  return catalog.insert identity ((fields.lookup "vendor").getD "")

/-- The catalog so far, and the fields of the package that is open. -/
def visitPrimary (wanted : List Identity) : Visitor (Catalog × List (String × String))
  | (catalog, fields), parents, node => do
      let fields ← match ← primaryField parents node with
        | none => pure fields
        | some (key, value) =>
            if (fields.lookup key).isSome then
              throw (.invalid "duplicate primary package field")
            else pure ((key, value) :: fields)
      if parents.length = 1 && node.is common "package" then
        return (← closePackage wanted catalog fields node, [])
      return (catalog, fields)

/-- `primary_vendors`. -/
def primaryVendors (xml : XmlDocument) (wanted : List Identity) : VendorResult Catalog :=
  Prod.fst <$> walk xml common "metadata" (visitPrimary wanted) ([], [])

/-! ## The cache of a repository -/

/-- A file below the cache: where its canonical path is, what it hashes to, and what it
holds once it is decompressed. -/
structure CachedFile where
  insideRepository : Bool
  sha256 : String
  sha512 : String
  ending : Option String
  content : Option XmlDocument

/-- What there is of a repository: its directory, `repodata/repomd.xml`, the other files,
and whether the metadata is the same when it is read again. -/
structure RepositoryCache where
  insideRoot : Bool
  repomd : Option (Bool × XmlDocument)
  file : String → Option CachedFile
  unchanged : Bool

/-- The components of a path are all names: it is neither absolute nor does it lead up. -/
def normalPath (path : String) : Bool :=
  match path.toList.splitOn '/' with
  | [] => false
  | first :: parts => first ≠ [] && first ≠ ['.'] && !(first :: parts).contains ['.', '.']

/-- `verify_checksum`. -/
def verifyChecksum (file : CachedFile) (primary : Primary) : VendorResult Unit :=
  match primary.algorithm with
  | "sha256" => check file.sha256
  | "sha512" => check file.sha512
  | _ => .error (.invalid "unsupported primary checksum")
where
  check (actual : String) : VendorResult Unit :=
    if actual ≠ primary.checksum then .error (.invalid "primary checksum mismatch") else .ok ()

/-- The document of a file: as it is, or from the program for its compression. -/
def CachedFile.document (file : CachedFile) : VendorResult XmlDocument :=
  match file.ending, file.content with
  | some "xml", some content | some "gz", some content | some "xz", some content
  | some "zst", some content => .ok content
  | some "gz", none | some "xz", none | some "zst", none =>
      .error (.invalid "primary decompression failed")
  | some "xml", none => .error .io
  | _, _ => .error (.invalid "unsupported primary compression")

/-- `repository_vendors`. -/
def repositoryVendors (cache : RepositoryCache) (wanted : List Identity) :
    VendorResult Catalog := do
  match cache.repomd with
  | none => throw .io
  | some (inside, repomd) =>
      if !inside then throw (.invalid "repomd escapes repository")
      let primary ← primaryRecord repomd
      if primary.href.isEmpty || !normalPath primary.href then
        throw (.invalid "unsafe primary location")
      match cache.file primary.href with
      | none => throw .io
      | some file =>
          if !file.insideRepository then throw (.invalid "primary location escapes repository")
          verifyChecksum file primary
          let catalog ← primaryVendors (← file.document) wanted
          if !cache.unchanged then throw (.invalid "metadata changed during lookup")
          return catalog

/-! ## Enrichment -/

/-- `valid_alias` of this file: a name the cache may be entered with. -/
def validCacheAlias (value : String) : Bool :=
  !value.isEmpty && value ≠ "." && value ≠ ".." && value.utf8ByteSize ≤ 128 &&
  value.toList.all fun c => c.isAlphanum || c = '.' || c = '_' || c = ':' || c = '-'

/-- The repository and the identity of the candidate a change proposes. -/
def candidate (metadata : List String) (change : PackageChange) :
    VendorResult (Option (String × Identity)) :=
  if change.action = .remove then .ok none
  else match change.repositoryAlias.filter fun name =>
      validCacheAlias name && metadata.contains name with
    | none => .error (.invalid "unverified repository alias")
    | some name =>
        match change.proposedVersion with
        | none => .error (.invalid "missing candidate version")
        | some version => .ok (some (name, ⟨change.name, version, change.architecture⟩))

/-- The catalog of one repository, for what is wanted of it. -/
def repositoryCatalog (cache : String → Option RepositoryCache)
    (candidates : List (String × Identity)) (name : String) :
    VendorResult (String × Catalog) :=
  match cache name with
  | none => .error .io
  | some repository =>
      if !repository.insideRoot then .error (.invalid "repository cache escapes root")
      else do
        let wanted := (candidates.filter (·.1 = name)).map (·.2)
        return (name, ← repositoryVendors repository wanted)

/-- The vendor of one side of a change. -/
def vendorOf (catalog : Catalog) (change : PackageChange) (version : Option String) :
    VendorResult String :=
  match version with
  | none => .error (.invalid "missing package version")
  | some version => lookupVendor catalog ⟨change.name, version, change.architecture⟩

/-- The vendor that is replaced. -/
def currentVendorOf (installed : Catalog) (change : PackageChange) :
    VendorResult (Option String) :=
  if change.action = .install then .ok none
  else some <$> vendorOf installed change change.currentVersion

/-- The vendor of the candidate. -/
def proposedVendorOf (catalogs : List (String × Catalog)) (change : PackageChange) :
    VendorResult (Option String) :=
  if change.action = .remove then .ok none
  else match change.repositoryAlias.bind fun name => catalogs.lookup name with
    | none => .error (.invalid "missing repository catalog")
    | some catalog => some <$> vendorOf catalog change change.proposedVersion

/-- A change with its vendors: no guessed, stale or partial ones. -/
def enrichChange (installed : Catalog) (catalogs : List (String × Catalog))
    (change : PackageChange) : VendorResult PackageChange := do
  let current ← currentVendorOf installed change
  let proposed ← proposedVendorOf catalogs change
  return { change with currentVendor := current, proposedVendor := proposed }

/-- `enrich_from_rpm_xml`. -/
def enrichFromRpmXml (solver : SolverResult) (cache : String → Option RepositoryCache)
    (rpmXml : XmlDocument) : VendorResult SolverResult := do
  let installed ← installedVendors rpmXml
  let found ← solver.changes.mapM (candidate solver.metadataValidRepositories)
  let candidates := found.reduceOption
  let catalogs ← (dedup (sort (candidates.map (·.1)))).mapM (repositoryCatalog cache candidates)
  let changes ← solver.changes.mapM (enrichChange installed catalogs)
  return { solver with changes := changes }

/-! ## What is established of each change -/

/-- A change as it is enriched: it is the same change, its candidate comes from verified
metadata, and each side that there is has a vendor. -/
structure Enriched (metadata : List String) (change change' : PackageChange) : Prop where
  key : change'.key = change.key
  action : change'.action = change.action
  candidate : change.action ≠ .remove → ∃ name version vendor,
    change'.repositoryAlias = some name ∧ name ∈ metadata ∧ validCacheAlias name ∧
    change'.proposedVersion = some version ∧
    change'.proposedVendor = some vendor ∧ validVendor vendor

section

variable {metadata : List String} {change change' : PackageChange} {catalog installed : Catalog}
variable {catalogs : List (String × Catalog)} {solver solver' : SolverResult}
variable {cache : String → Option RepositoryCache} {rpmXml : XmlDocument}
variable {found : Option (String × Identity)} {identity : Identity} {vendor name : String}

/-- A vendor that is found is valid. -/
theorem lookupVendor_valid (h : lookupVendor catalog identity = .ok vendor) :
    validVendor vendor := by
  unfold lookupVendor at h
  cases hfound : ((catalog.lookup identity).bind id).filter validVendor with
  | none =>
      rw [hfound] at h
      cases h
  | some found =>
      rw [hfound] at h
      cases h
      exact (Option.filter_eq_some_iff.mp hfound).2

theorem vendorOf_valid {version : Option String} (h : vendorOf catalog change version = .ok vendor) :
    validVendor vendor ∧ version.isSome := by
  cases version with
  | none => cases h
  | some version => exact ⟨lookupVendor_valid h, rfl⟩

/-- A candidate stands in verified metadata. -/
theorem candidate_ok (h : candidate metadata change = .ok found) (hremove : change.action ≠ .remove) :
    ∃ name version, change.repositoryAlias = some name ∧ name ∈ metadata ∧ validCacheAlias name ∧
      change.proposedVersion = some version := by
  rw [candidate, if_neg hremove] at h
  cases hname : change.repositoryAlias.filter fun name =>
      validCacheAlias name && metadata.contains name with
  | none =>
      rw [hname] at h
      cases h
  | some name =>
      rw [hname] at h
      cases hversion : change.proposedVersion with
      | none =>
          rw [hversion] at h
          cases h
      | some version =>
          obtain ⟨halias, hvalid⟩ := Option.filter_eq_some_iff.mp hname
          rw [Bool.and_eq_true, List.contains_iff_mem] at hvalid
          exact ⟨name, version, halias, hvalid.2, hvalid.1, rfl⟩

/-- The vendors are all that an enrichment changes. -/
theorem enrichChange_ok (h : enrichChange installed catalogs change = .ok change') :
    change'.key = change.key ∧ change'.action = change.action ∧
      (change.action ≠ .remove → ∃ vendor, change'.proposedVendor = some vendor ∧
        validVendor vendor) := by
  obtain ⟨current, -, h⟩ := bind_eq_ok.mp h
  obtain ⟨proposed, hproposed, h⟩ := bind_eq_ok.mp h
  cases h
  refine ⟨rfl, rfl, fun hremove => ?_⟩
  rw [proposedVendorOf, if_neg hremove] at hproposed
  cases hcatalog : change.repositoryAlias.bind fun name => catalogs.lookup name with
  | none =>
      rw [hcatalog] at hproposed
      cases hproposed
  | some catalog =>
      rw [hcatalog] at hproposed
      dsimp only at hproposed
      cases hvendor : vendorOf catalog change change.proposedVersion with
      | error e =>
          rw [hvendor] at hproposed
          cases hproposed
      | ok vendor =>
          rw [hvendor] at hproposed
          cases hproposed
          exact ⟨vendor, rfl, (vendorOf_valid hvendor).1⟩

/-- **Enrichment**: no change is dropped, and every change of the result is one of the
solver's with its vendors. -/
theorem enrichFromRpmXml_ok (h : enrichFromRpmXml solver cache rpmXml = .ok solver') :
    (∀ change ∈ solver.changes, ∃ change' ∈ solver'.changes,
      Enriched solver.metadataValidRepositories change change') ∧
    ∀ change' ∈ solver'.changes, ∃ change ∈ solver.changes,
      Enriched solver.metadataValidRepositories change change' := by
  obtain ⟨installed, -, h⟩ := bind_eq_ok.mp h
  obtain ⟨found, hfound, h⟩ := bind_eq_ok.mp h
  obtain ⟨catalogs, -, h⟩ := bind_eq_ok.mp h
  obtain ⟨changes, hchanges, h⟩ := bind_eq_ok.mp h
  cases h
  have henriched : ∀ change ∈ solver.changes, ∀ change',
      enrichChange installed catalogs change = .ok change' →
      Enriched solver.metadataValidRepositories change change' := by
    intro change hchange change' henrich
    obtain ⟨found, -, hcandidate⟩ := (mapM_ok_mem hfound).1 change hchange
    obtain ⟨hkey, haction, hvendor⟩ := enrichChange_ok henrich
    refine ⟨hkey, haction, fun hremove => ?_⟩
    obtain ⟨name, version, halias, hmem, hvalid, hversion⟩ := candidate_ok hcandidate hremove
    obtain ⟨vendor, hproposed, hvendor⟩ := hvendor hremove
    simp only [PackageChange.key, Prod.mk.injEq] at hkey
    exact ⟨name, version, vendor, hkey.2.2.2.2.trans halias, hmem, hvalid,
      hkey.2.2.2.1.trans hversion, hproposed, hvendor⟩
  obtain ⟨hleft, hright⟩ := mapM_ok_mem hchanges
  refine ⟨fun change hchange => ?_, fun change' hchange' => ?_⟩
  · obtain ⟨change', hchange', henrich⟩ := hleft change hchange
    exact ⟨change', hchange', henriched change hchange change' henrich⟩
  · obtain ⟨change, hchange, henrich⟩ := hright change' hchange'
    exact ⟨change, hchange, henriched change hchange change' henrich⟩

end

end LyraUpgrade
