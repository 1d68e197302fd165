import LyraUpgrade.Core.StateJson

/-!
# The document of a manifest

What is written for a manifest is read back (`ReleaseManifest.ofDocument_toJson`), for the
manifests whose numbers fit the types of their fields, and different manifests are written
differently (`ReleaseManifest.toJson_injective`).

Two fields may be left out, the package scope of a vendor rule and the package migration.  A
manifest that was read lacks one of them only if the document lacks the key: `null` is refused
(`ReleaseManifest.absentExactly_of_ofDocument`).
-/

namespace Encoding

/-- What is read as a list is one, and is read element by element. -/
theorem Document.forall₂_of_elements {α : Type} {read : Document → Option α} {xs : List α}
    {value : Document} (h : value.elements read = some xs) : ∃ values, value = .list values ∧
      List.Forall₂ (fun value x => read value = some x) values xs := by
  cases value with
  | list values =>
      refine ⟨values, rfl, ?_⟩
      change values.mapM read = some xs at h
      induction values generalizing xs with
      | nil =>
          cases h
          exact .nil
      | cons value values ih =>
          rw [List.mapM_cons] at h
          obtain ⟨x, hx, hrest⟩ := Option.bind_eq_some_iff.mp h
          obtain ⟨rest, hvalues, hsame⟩ := Option.bind_eq_some_iff.mp hrest
          cases hsame
          exact .cons hx (ih hvalues)
  | null | bool | int | float | str | dict => cases h

theorem Json.toDocuments_map {α : Type} (f : α → Json) (xs : List α) :
    Json.toDocuments (xs.map f) = xs.map fun x => (f x).toDocument := by
  induction xs with
  | nil => rfl
  | cons x xs ih => rw [List.map_cons, Json.toDocuments, ih, List.map_cons]

/-- What is read as a record is a dictionary with every key once. -/
theorem Document.dict_of_record {known : List String} {value : Document} {entries : Entries}
    (h : value.record known = some entries) :
    value = .dict entries ∧ (entries.map (·.1)).Nodup := by
  cases value with
  | dict found =>
      rw [Document.record] at h
      split_ifs at h with hkeys
      cases h
      exact ⟨rfl, hkeys.1⟩
  | null | bool | int | float | str | list => cases h

/-- A field that may be missing is refused where its reader refuses it. -/
theorem not_mem_of_optionalField {α : Type} {entries : Entries} {key : String}
    {read : Document → Option α} {value : Option α} {found : Document}
    (hnodup : (entries.map (·.1)).Nodup) (h : optionalField entries key read = some value)
    (hread : read found = none) : (key, found) ∉ entries := by
  intro hmem
  have hlookup : entries.lookup key = some found := by
    induction entries with
    | nil => cases hmem
    | cons entry entries ih =>
        rw [List.map_cons, List.nodup_cons] at hnodup
        rcases List.mem_cons.mp hmem with rfl | hmem
        · exact List.lookup_cons_self
        · have hne : key ≠ entry.1 := by
            rintro rfl
            exact hnodup.1 (List.mem_map.mpr ⟨_, hmem, rfl⟩)
          have hskip : (entry :: entries).lookup key = entries.lookup key := by
            rw [List.lookup_cons, beq_false_of_ne hne]
          rw [optionalField, hskip] at h
          rw [hskip]
          exact ih hnodup.2 h hmem
  rw [optionalField, hlookup] at h
  obtain ⟨a, ha, -⟩ := Option.map_eq_some_iff.mp h
  rw [hread] at ha
  cases ha

/-- A field that was left out. -/
theorem optionalField_eq_none {α : Type} {entries : Entries} {key : String}
    {read : Document → Option α} {value : Option α}
    (h : optionalField entries key read = some value) :
    value = none ↔ key ∉ entries.map (·.1) := by
  have hkeys : entries.lookup key = none ↔ key ∉ entries.map (·.1) := by
    rw [List.lookup_eq_none_iff]
    simp only [bne_iff_ne, ne_eq, List.mem_map, not_exists, not_and, eq_comm (a := key)]
  rw [optionalField] at h
  cases hlookup : entries.lookup key with
  | none =>
      rw [hlookup] at h hkeys
      cases h
      simpa using hkeys
  | some found =>
      rw [hlookup] at h hkeys
      obtain ⟨a, -, rfl⟩ := Option.map_eq_some_iff.mp h
      simpa using hkeys

end Encoding

namespace LyraUpgrade

open Encoding

theorem elements_listToJson {α : Type} {f : α → Json} {read : Document → Option α} {xs : List α}
    (h : ∀ x ∈ xs, read (f x).toDocument = some x) :
    (listToJson f xs).toDocument.elements read = some xs := by
  show (Json.toDocuments (xs.map f)).mapM read = some xs
  rw [Json.toDocuments_map]
  induction xs with
  | nil => rfl
  | cons x xs ih =>
      rw [List.forall_mem_cons] at h
      rw [List.map_cons, List.mapM_cons, h.1, ih h.2]
      rfl

theorem elements_listStr (xs : List String) :
    (listToJson .str xs).toDocument.elements Document.string = some xs :=
  elements_listToJson fun _ _ => rfl

/-! ## Round trips -/

theorem RepositoryTransition.ofDocument_toJson {self : RepositoryTransition}
    (h : self.priority ≤ u16Max) : ofDocument self.toJson.toDocument = some self := by
  show ((Document.int self.priority).unsigned u16Max).bind (fun priority =>
    some { self with priority }) = some self
  rw [Document.unsigned_int h]
  rfl

theorem VendorTransitionWire.ofDocument_toJson (self : VendorTransitionWire) :
    ofDocument self.toJson.toDocument = some self := by
  obtain ⟨origin, proposed, packages⟩ := self
  cases packages with
  | none => rfl
  | some packages =>
      show (((listToJson .str packages).toDocument.elements Document.string).map some).bind
        (fun packages => some (⟨origin, proposed, packages⟩ : VendorTransitionWire)) = _
      rw [elements_listStr]
      rfl

theorem PackageMigration.ofDocument_toJson (self : PackageMigration) :
    ofDocument self.toJson.toDocument = some self := by
  rfl

theorem ManifestStatus.ofDocument_toJson (status : ManifestStatus) :
    ofDocument status.toJson.toDocument = some status := by
  cases status <;> rfl

namespace ReleaseManifest

/-- The numbers of the manifest fit the types of their fields. -/
structure Fits (m : ReleaseManifest) : Prop where
  schemaVersion : m.schemaVersion ≤ u32Max
  sequence : m.sequence ≤ u64Max
  minimumFreeSpaceBytes : m.minimumFreeSpaceBytes ≤ u64Max
  repositories : ∀ r ∈ m.repositories, r.priority ≤ u16Max

/-- The fields in their order, with what the field for the migration reads as. -/
private def readFields (m : ReleaseManifest) (migration : Option (Option (List PackageMigration))) :
    Option ReleaseManifest := do
  let schemaVersion ← (Document.int m.schemaVersion).unsigned u32Max
  let sequence ← (Document.int m.sequence).unsigned u64Max
  let status ← ManifestStatus.ofDocument m.status.toJson.toDocument
  let source ← ReleaseIdentity.ofDocument m.source.toJson.toDocument
  let target ← ReleaseIdentity.ofDocument m.target.toJson.toDocument
  let minimumFreeSpaceBytes ← (Document.int m.minimumFreeSpaceBytes).unsigned u64Max
  let repositories ← (listToJson RepositoryTransition.toJson m.repositories).toDocument.elements
    RepositoryTransition.ofDocument
  let allowedRemovals ← (listToJson .str m.allowedRemovals).toDocument.elements Document.string
  let allowedVendorTransitions ← (listToJson VendorTransitionWire.toJson
    m.allowedVendorTransitions).toDocument.elements VendorTransitionWire.ofDocument
  let lockstepPackages ← (listToJson (listToJson .str) m.lockstepPackages).toDocument.elements
    (Document.elements Document.string)
  let packageMigration ← migration
  return { m with schemaVersion, sequence, status, source, target, minimumFreeSpaceBytes
                  repositories, allowedRemovals, allowedVendorTransitions, lockstepPackages
                  packageMigration }

private theorem readFields_eq {m : ReleaseManifest} (h : m.Fits)
    (migration : Option (List PackageMigration)) :
    readFields m (some migration) = some { m with packageMigration := migration } := by
  have hrepositories : (listToJson RepositoryTransition.toJson m.repositories).toDocument.elements
      RepositoryTransition.ofDocument = some m.repositories :=
    elements_listToJson fun r hr => RepositoryTransition.ofDocument_toJson (h.repositories r hr)
  have htransitions : (listToJson VendorTransitionWire.toJson
      m.allowedVendorTransitions).toDocument.elements VendorTransitionWire.ofDocument =
      some m.allowedVendorTransitions :=
    elements_listToJson fun t _ => t.ofDocument_toJson
  have hlockstep : (listToJson (listToJson .str) m.lockstepPackages).toDocument.elements
      (Document.elements Document.string) = some m.lockstepPackages :=
    elements_listToJson fun group _ => elements_listStr group
  simp only [readFields, Document.unsigned_int h.schemaVersion, Document.unsigned_int h.sequence,
    Document.unsigned_int h.minimumFreeSpaceBytes, ManifestStatus.ofDocument_toJson,
    ReleaseIdentity.ofDocument_toJson, elements_listStr, hrepositories, htransitions, hlockstep,
    Option.bind_eq_bind, Option.bind_some]
  rfl

/-- **What is written for a manifest is read back.** -/
theorem ofDocument_toJson {m : ReleaseManifest} (h : m.Fits) :
    ofDocument m.toJson.toDocument = some m := by
  have hfields := readFields_eq h m.packageMigration
  cases hmigration : m.packageMigration with
  | none =>
      -- the field is left out
      rw [hmigration] at hfields
      rw [toJson, hmigration]
      show readFields m (some none) = _
      rw [hfields, ← hmigration]
  | some migration =>
      have hpackages : (listToJson PackageMigration.toJson migration).toDocument.elements
          PackageMigration.ofDocument = some migration :=
        elements_listToJson fun package _ => package.ofDocument_toJson
      rw [hmigration] at hfields
      rw [toJson, hmigration]
      show readFields m (((listToJson PackageMigration.toJson migration).toDocument.elements
        PackageMigration.ofDocument).map some) = _
      rw [hpackages, Option.map_some, hfields, ← hmigration]

end ReleaseManifest

/-! ## What may be left out -/

/-- A rule has no package scope exactly where the key is missing, and the key is never `null`. -/
def VendorTransitionWire.AbsentExactly (value : Document) (transition : VendorTransitionWire) :
    Prop :=
  ∃ entries, value = .dict entries ∧
    (transition.packages = none ↔ "packages" ∉ entries.map (·.1)) ∧ ("packages", .null) ∉ entries

/-- The same for the migration of a manifest, and for the rules in it. -/
def ReleaseManifest.AbsentExactly (value : Document) (m : ReleaseManifest) : Prop :=
  ∃ entries, value = .dict entries ∧
    (m.packageMigration = none ↔ "package_migration" ∉ entries.map (·.1)) ∧
    ("package_migration", .null) ∉ entries ∧
    ∃ rules, entries.lookup "allowed_vendor_transitions" = some (.list rules) ∧
      List.Forall₂ VendorTransitionWire.AbsentExactly rules m.allowedVendorTransitions

theorem VendorTransitionWire.absentExactly_of_ofDocument {value : Document}
    {transition : VendorTransitionWire} (h : ofDocument value = some transition) :
    AbsentExactly value transition := by
  obtain ⟨entries, hrecord, h⟩ := Option.bind_eq_some_iff.mp h
  obtain ⟨origin, -, h⟩ := Option.bind_eq_some_iff.mp h
  obtain ⟨proposed, -, h⟩ := Option.bind_eq_some_iff.mp h
  obtain ⟨packages, hpackages, h⟩ := Option.bind_eq_some_iff.mp h
  cases h
  obtain ⟨hdict, hnodup⟩ := Document.dict_of_record hrecord
  exact ⟨entries, hdict, optionalField_eq_none hpackages,
    not_mem_of_optionalField hnodup hpackages rfl⟩

theorem ReleaseManifest.absentExactly_of_ofDocument {value : Document} {m : ReleaseManifest}
    (h : ofDocument value = some m) : AbsentExactly value m := by
  obtain ⟨entries, hrecord, h⟩ := Option.bind_eq_some_iff.mp h
  obtain ⟨schemaVersion, -, h⟩ := Option.bind_eq_some_iff.mp h
  obtain ⟨sequence, -, h⟩ := Option.bind_eq_some_iff.mp h
  obtain ⟨status, -, h⟩ := Option.bind_eq_some_iff.mp h
  obtain ⟨validFrom, -, h⟩ := Option.bind_eq_some_iff.mp h
  obtain ⟨validUntil, -, h⟩ := Option.bind_eq_some_iff.mp h
  obtain ⟨source, -, h⟩ := Option.bind_eq_some_iff.mp h
  obtain ⟨target, -, h⟩ := Option.bind_eq_some_iff.mp h
  obtain ⟨minimumUpdaterVersion, -, h⟩ := Option.bind_eq_some_iff.mp h
  obtain ⟨minimumFreeSpaceBytes, -, h⟩ := Option.bind_eq_some_iff.mp h
  obtain ⟨repositories, -, h⟩ := Option.bind_eq_some_iff.mp h
  obtain ⟨allowedRemovals, -, h⟩ := Option.bind_eq_some_iff.mp h
  obtain ⟨transitions, htransitions, h⟩ := Option.bind_eq_some_iff.mp h
  obtain ⟨lockstepPackages, -, h⟩ := Option.bind_eq_some_iff.mp h
  obtain ⟨migration, hmigration, h⟩ := Option.bind_eq_some_iff.mp h
  cases h
  obtain ⟨hdict, hnodup⟩ := Document.dict_of_record hrecord
  obtain ⟨found, hfound, hrules⟩ := Option.bind_eq_some_iff.mp htransitions
  obtain ⟨rules, rfl, hread⟩ := Document.forall₂_of_elements hrules
  exact ⟨entries, hdict, optionalField_eq_none hmigration,
    not_mem_of_optionalField hnodup hmigration rfl, rules, hfound,
    hread.imp fun _ _ hrule => VendorTransitionWire.absentExactly_of_ofDocument hrule⟩

/-! ## Different manifests -/

theorem skipIfNone_injective {α : Type} {key : String} {f : α → Json}
    (hf : Function.Injective f) : Function.Injective (skipIfNone key f) := by
  intro a b h
  cases a with
  | none =>
      cases b with
      | none => rfl
      | some b => cases h
  | some a =>
      cases b with
      | none => cases h
      | some b => exact congrArg some (hf (by simpa [skipIfNone] using h))

theorem RepositoryTransition.toJson_injective : Function.Injective RepositoryTransition.toJson := by
  rintro ⟨⟩ ⟨⟩ h
  simpa [RepositoryTransition.toJson, and_assoc] using h

theorem VendorTransitionWire.toJson_injective : Function.Injective VendorTransitionWire.toJson := by
  rintro ⟨⟩ ⟨⟩ h
  simpa [VendorTransitionWire.toJson, and_assoc,
    (skipIfNone_injective listStr_injective).eq_iff] using h

theorem PackageMigration.toJson_injective : Function.Injective PackageMigration.toJson := by
  rintro ⟨⟩ ⟨⟩ h
  simpa [PackageMigration.toJson, and_assoc] using h

theorem ManifestStatus.toJson_injective : Function.Injective ManifestStatus.toJson := by
  intro a b h
  cases a <;> cases b <;> first | rfl | simp [ManifestStatus.toJson] at h

namespace ReleaseManifest

/-- The members of the object determine the manifest, field by field. -/
theorem toJson_injective : Function.Injective ReleaseManifest.toJson := by
  rintro ⟨⟩ ⟨⟩ h
  simpa [ReleaseManifest.toJson, and_assoc, ManifestStatus.toJson_injective.eq_iff,
    ReleaseIdentity.toJson_injective.eq_iff, listStr_injective.eq_iff,
    (listToJson_injective listStr_injective).eq_iff,
    (listToJson_injective RepositoryTransition.toJson_injective).eq_iff,
    (listToJson_injective VendorTransitionWire.toJson_injective).eq_iff,
    (skipIfNone_injective (listToJson_injective PackageMigration.toJson_injective)).eq_iff] using h

theorem canonicalJson_injective : Function.Injective canonicalJson :=
  Json.render_injective.comp toJson_injective

end ReleaseManifest

end LyraUpgrade
