import LyraUpgrade.Core.ManifestDocument
import LyraUpgrade.Core.Plan

/-!
# The document of a plan

The `Deserialize` implementations that the types of a plan derive, and that what is written for
a plan is read back (`UpgradePlan.ofDocument_toJson`).

A map is read by inserting one entry after the other, so what was written in order comes back
in order (`FactMap.ofDocument_toJson`).
-/

namespace Encoding

/-- A field with `#[serde(default)]`: what is missing is read as a default. -/
def defaultField {α : Type} (entries : Entries) (key : String) (default : α)
    (read : Document → Option α) : Option α :=
  match entries.lookup key with
  | none => some default
  | some value => read value

end Encoding

namespace LyraUpgrade

open Encoding

/-! ## Reading -/

def RepositoryFact.ofDocument (value : Document) : Option RepositoryFact := do
  let entries ← value.record
    ["alias", "enabled", "official", "metadata_valid", "signing_key_trusted"]
  let name ← required entries "alias" Document.string
  let enabled ← required entries "enabled" Document.boolean
  let official ← required entries "official" Document.boolean
  let metadataValid ← required entries "metadata_valid" Document.boolean
  let signingKeyTrusted ← required entries "signing_key_trusted" Document.boolean
  return { «alias» := name, enabled, official, metadataValid, signingKeyTrusted }

def InstalledPackage.ofDocument (value : Document) : Option InstalledPackage := do
  let entries ← value.record ["name", "version", "architecture", "vendor"]
  let name ← required entries "name" Document.string
  let version ← required entries "version" Document.string
  let architecture ← required entries "architecture" Document.string
  let vendor ← required entries "vendor" Document.string
  return { name, version, architecture, vendor }

def PackageAction.ofDocument : Document → Option PackageAction
  | .str "Install" => some .install
  | .str "Upgrade" => some .upgrade
  | .str "Downgrade" => some .downgrade
  | .str "Remove" => some .remove
  | .str "Reinstall" => some .reinstall
  | _ => none

def PackageChange.ofDocument (value : Document) : Option PackageChange := do
  let entries ← value.record ["name", "architecture", "action", "current_version",
    "proposed_version", "current_vendor", "proposed_vendor", "repository_alias", "download_bytes",
    "installed_size_before", "installed_size_after"]
  let name ← required entries "name" Document.string
  let architecture ← required entries "architecture" Document.string
  let action ← required entries "action" PackageAction.ofDocument
  let currentVersion ← nullableField entries "current_version" Document.string
  let proposedVersion ← nullableField entries "proposed_version" Document.string
  let currentVendor ← nullableField entries "current_vendor" Document.string
  let proposedVendor ← nullableField entries "proposed_vendor" Document.string
  let repositoryAlias ← nullableField entries "repository_alias" Document.string
  let downloadBytes ← required entries "download_bytes" (Document.unsigned u64Max)
  let installedSizeBefore ← required entries "installed_size_before" (Document.unsigned u64Max)
  let installedSizeAfter ← required entries "installed_size_after" (Document.unsigned u64Max)
  return { name, architecture, action, currentVersion, proposedVersion, currentVendor
           proposedVendor, repositoryAlias, downloadBytes, installedSizeBefore
           installedSizeAfter }

/-- `BTreeMap::insert`, on the entries. -/
def insertFact (key value : String) : List (String × String) → List (String × String)
  | [] => [(key, value)]
  | (k, v) :: entries =>
      if key < k then (key, value) :: (k, v) :: entries
      else if k < key then (k, v) :: insertFact key value entries
      else (key, value) :: entries

theorem mem_insertFact {key value : String} {entries : List (String × String)}
    {entry : String × String} (h : entry ∈ insertFact key value entries) :
    entry = (key, value) ∨ entry ∈ entries := by
  induction entries with
  | nil => exact .inl (List.mem_singleton.mp h)
  | cons first entries ih =>
      rw [insertFact] at h
      split_ifs at h
      · exact (List.mem_cons.mp h)
      · rcases List.mem_cons.mp h with rfl | h
        · exact .inr List.mem_cons_self
        · exact (ih h).imp_right (List.mem_cons_of_mem _)
      · exact (List.mem_cons.mp h).imp_right (List.mem_cons_of_mem _)

theorem pairwise_insertFact (key value : String) {entries : List (String × String)}
    (h : entries.Pairwise (·.1 < ·.1)) : (insertFact key value entries).Pairwise (·.1 < ·.1) := by
  induction entries with
  | nil => exact List.pairwise_singleton ..
  | cons first entries ih =>
      have hfirst := h
      rw [List.pairwise_cons] at h
      obtain ⟨hbefore, hentries⟩ := h
      rw [insertFact]
      split_ifs with hless hgreater
      · refine List.pairwise_cons.mpr ⟨?_, hfirst⟩
        rintro entry hmem
        rcases List.mem_cons.mp hmem with rfl | hmem
        · exact hless
        · exact String.lt_trans hless (hbefore entry hmem)
      · refine List.pairwise_cons.mpr ⟨fun entry hmem => ?_, ih hentries⟩
        rcases mem_insertFact hmem with rfl | hmem
        · exact hgreater
        · exact hbefore entry hmem
      · have hsame : key = first.1 := String.le_antisymm hgreater hless
        refine List.pairwise_cons.mpr ⟨fun entry hmem => ?_, hentries⟩
        rw [hsame]
        exact hbefore entry hmem

/-- `BTreeMap::insert`. -/
def FactMap.insert (self : FactMap) (key value : String) : FactMap :=
  ⟨insertFact key value self.entries, pairwise_insertFact key value self.ordered⟩

/-- The `Deserialize` implementation of a map. -/
def FactMap.ofDocument : Document → Option FactMap
  | .dict entries => entries.foldlM (fun map entry =>
      (entry.2.string).map fun value => map.insert entry.1 value) FactMap.empty
  | _ => none

/-- The fields of a plan. -/
def UpgradePlan.fields : List String :=
  ["schema_version", "operation", "source", "target", "manifest_sha256", "required_bytes", "facts",
    "repositories", "metadata_valid_repositories", "third_party_repositories", "held_packages",
    "installed_packages", "orphaned_packages", "package_changes", "reboot_required"]

def UpgradePlan.ofDocument (value : Document) : Option UpgradePlan := do
  let entries ← value.record UpgradePlan.fields
  let schemaVersion ← required entries "schema_version" (Document.unsigned u32Max)
  let operation ← required entries "operation" OperationKind.ofDocument
  let source ← required entries "source" ReleaseIdentity.ofDocument
  let target ← nullableField entries "target" ReleaseIdentity.ofDocument
  let manifestSha256 ← nullableField entries "manifest_sha256" Document.string
  let requiredBytes ← required entries "required_bytes" (Document.unsigned u64Max)
  let facts ← required entries "facts" FactMap.ofDocument
  let repositories ← required entries "repositories" (Document.elements RepositoryFact.ofDocument)
  let metadataValidRepositories ←
    required entries "metadata_valid_repositories" (Document.elements Document.string)
  let thirdPartyRepositories ←
    required entries "third_party_repositories" (Document.elements Document.string)
  let heldPackages ← required entries "held_packages" (Document.elements Document.string)
  let installedPackages ←
    defaultField entries "installed_packages" [] (Document.elements InstalledPackage.ofDocument)
  let orphanedPackages ← required entries "orphaned_packages" (Document.elements Document.string)
  let packageChanges ←
    required entries "package_changes" (Document.elements PackageChange.ofDocument)
  let rebootRequired ← required entries "reboot_required" Document.boolean
  return { schemaVersion, operation, source, target, manifestSha256, requiredBytes, facts
           repositories, metadataValidRepositories, thirdPartyRepositories, heldPackages
           installedPackages, orphanedPackages, packageChanges, rebootRequired }

/-! ## Round trips -/

theorem RepositoryFact.ofDocument_toJson (self : RepositoryFact) :
    ofDocument self.toJson.toDocument = some self := by
  rfl

theorem InstalledPackage.ofDocument_toJson (self : InstalledPackage) :
    ofDocument self.toJson.toDocument = some self := by
  rfl

theorem PackageAction.ofDocument_toJson (action : PackageAction) :
    ofDocument action.toJson.toDocument = some action := by
  cases action <;> rfl

theorem nullable_optionStr (value : Option String) :
    (optionToJson .str value).toDocument.nullable Document.string = some value :=
  nullable_optionToJson (fun _ _ => rfl) fun _ => nofun

/-- The numbers of the change fit `u64`. -/
structure PackageChange.Fits (change : PackageChange) : Prop where
  downloadBytes : change.downloadBytes ≤ u64Max
  installedSizeBefore : change.installedSizeBefore ≤ u64Max
  installedSizeAfter : change.installedSizeAfter ≤ u64Max

theorem PackageChange.ofDocument_toJson {self : PackageChange} (h : self.Fits) :
    ofDocument self.toJson.toDocument = some self := by
  show (PackageAction.ofDocument self.action.toJson.toDocument).bind (fun action =>
    ((optionToJson .str self.currentVersion).toDocument.nullable Document.string).bind
      fun currentVersion =>
    ((optionToJson .str self.proposedVersion).toDocument.nullable Document.string).bind
      fun proposedVersion =>
    ((optionToJson .str self.currentVendor).toDocument.nullable Document.string).bind
      fun currentVendor =>
    ((optionToJson .str self.proposedVendor).toDocument.nullable Document.string).bind
      fun proposedVendor =>
    ((optionToJson .str self.repositoryAlias).toDocument.nullable Document.string).bind
      fun repositoryAlias =>
    ((Document.int self.downloadBytes).unsigned u64Max).bind fun downloadBytes =>
    ((Document.int self.installedSizeBefore).unsigned u64Max).bind fun installedSizeBefore =>
    ((Document.int self.installedSizeAfter).unsigned u64Max).bind fun installedSizeAfter =>
    some { self with action, currentVersion, proposedVersion, currentVendor, proposedVendor
                     repositoryAlias, downloadBytes, installedSizeBefore, installedSizeAfter }) =
    some self
  simp only [PackageAction.ofDocument_toJson, nullable_optionStr,
    Document.unsigned_int h.downloadBytes, Document.unsigned_int h.installedSizeBefore,
    Document.unsigned_int h.installedSizeAfter, Option.bind_some]

/-! ### Maps -/

/-- What is inserted behind all entries comes last. -/
theorem insertFact_last {key value : String} {entries : List (String × String)}
    (h : ∀ entry ∈ entries, entry.1 < key) :
    insertFact key value entries = entries ++ [(key, value)] := by
  induction entries with
  | nil => rfl
  | cons entry entries ih =>
      rw [List.forall_mem_cons] at h
      rw [insertFact, if_neg (String.lt_asymm h.1), if_pos h.1, ih h.2]
      rfl

/-- **What was written in order comes back in order**: every entry is inserted behind those that
were read. -/
theorem FactMap.ofDocument_toJson (self : FactMap) :
    ofDocument self.toJson.toDocument = some self := by
  have hentries : ∀ entries : List (String × String),
      Json.toEntries (entries.map fun entry => (entry.1, Json.str entry.2)) =
        entries.map fun entry => (entry.1, Document.str entry.2) := by
    intro entries
    induction entries with
    | nil => rfl
    | cons entry entries ih =>
        rw [List.map_cons, Json.toEntries, ih]
        rfl
  have hread : ∀ (entries : List (String × String)) (map : FactMap),
      (map.entries ++ entries).Pairwise (·.1 < ·.1) →
      ((entries.map fun entry => (entry.1, Document.str entry.2)).foldlM
        (fun (map : FactMap) (entry : String × Document) =>
          (entry.2.string).map fun value => map.insert entry.1 value) map).map FactMap.entries =
        some (map.entries ++ entries) := by
    intro entries
    induction entries with
    | nil =>
        intro map _
        show some map.entries = _
        rw [List.append_nil]
    | cons entry entries ih =>
        intro map hordered
        have hlast : (map.insert entry.1 entry.2).entries = map.entries ++ [entry] :=
          insertFact_last fun earlier hmem =>
            (List.pairwise_append.mp hordered).2.2 earlier hmem entry List.mem_cons_self
        have hrest := ih (map.insert entry.1 entry.2) (by rwa [hlast, List.append_assoc])
        rw [hlast, List.append_assoc] at hrest
        exact hrest
  obtain ⟨map, hmap, hsame⟩ := Option.map_eq_some_iff.mp (hread self.entries .empty self.ordered)
  have hself : map = self := by
    obtain ⟨entries, hordered⟩ := map
    obtain ⟨entries', hordered'⟩ := self
    cases hsame
    rfl
  show (Json.toEntries (self.entries.map fun entry => (entry.1, Json.str entry.2))).foldlM _ _ = _
  rw [hentries, hmap, hself]

/-! ### Plans -/

namespace UpgradePlan

/-- The numbers of the plan fit the types of their fields. -/
structure Fits (p : UpgradePlan) : Prop where
  schemaVersion : p.schemaVersion ≤ u32Max
  requiredBytes : p.requiredBytes ≤ u64Max
  packageChanges : ∀ change ∈ p.packageChanges, change.Fits

/-- **What is written for a plan is read back.** -/
theorem ofDocument_toJson {p : UpgradePlan} (h : p.Fits) :
    ofDocument p.toJson.toDocument = some p := by
  have htarget : (optionToJson ReleaseIdentity.toJson p.target).toDocument.nullable
      ReleaseIdentity.ofDocument = some p.target :=
    nullable_optionToJson (fun target _ => target.ofDocument_toJson) fun _ => nofun
  have hrepositories : (listToJson RepositoryFact.toJson p.repositories).toDocument.elements
      RepositoryFact.ofDocument = some p.repositories :=
    elements_listToJson fun r _ => r.ofDocument_toJson
  have hinstalled : (listToJson InstalledPackage.toJson p.installedPackages).toDocument.elements
      InstalledPackage.ofDocument = some p.installedPackages :=
    elements_listToJson fun package _ => package.ofDocument_toJson
  have hchanges : (listToJson PackageChange.toJson p.packageChanges).toDocument.elements
      PackageChange.ofDocument = some p.packageChanges :=
    elements_listToJson fun change hmem =>
      PackageChange.ofDocument_toJson (h.packageChanges change hmem)
  show ((Document.int p.schemaVersion).unsigned u32Max).bind (fun schemaVersion =>
    (OperationKind.ofDocument p.operation.toJson.toDocument).bind fun operation =>
    (ReleaseIdentity.ofDocument p.source.toJson.toDocument).bind fun source =>
    ((optionToJson ReleaseIdentity.toJson p.target).toDocument.nullable
      ReleaseIdentity.ofDocument).bind fun target =>
    ((optionToJson .str p.manifestSha256).toDocument.nullable Document.string).bind
      fun manifestSha256 =>
    ((Document.int p.requiredBytes).unsigned u64Max).bind fun requiredBytes =>
    (FactMap.ofDocument p.facts.toJson.toDocument).bind fun facts =>
    ((listToJson RepositoryFact.toJson p.repositories).toDocument.elements
      RepositoryFact.ofDocument).bind fun repositories =>
    ((listToJson .str p.metadataValidRepositories).toDocument.elements Document.string).bind
      fun metadataValidRepositories =>
    ((listToJson .str p.thirdPartyRepositories).toDocument.elements Document.string).bind
      fun thirdPartyRepositories =>
    ((listToJson .str p.heldPackages).toDocument.elements Document.string).bind
      fun heldPackages =>
    ((listToJson InstalledPackage.toJson p.installedPackages).toDocument.elements
      InstalledPackage.ofDocument).bind fun installedPackages =>
    ((listToJson .str p.orphanedPackages).toDocument.elements Document.string).bind
      fun orphanedPackages =>
    ((listToJson PackageChange.toJson p.packageChanges).toDocument.elements
      PackageChange.ofDocument).bind fun packageChanges =>
    some { p with schemaVersion, operation, source, target, manifestSha256, requiredBytes, facts
                  repositories, metadataValidRepositories, thirdPartyRepositories, heldPackages
                  installedPackages, orphanedPackages, packageChanges }) = some p
  simp only [Document.unsigned_int h.schemaVersion, Document.unsigned_int h.requiredBytes,
    OperationKind.ofDocument_toJson, ReleaseIdentity.ofDocument_toJson, htarget, nullable_optionStr,
    FactMap.ofDocument_toJson, hrepositories, elements_listStr, hinstalled, hchanges,
    Option.bind_some]

end UpgradePlan

end LyraUpgrade
