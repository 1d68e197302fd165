import LyraUpgrade.Core.PlanDocument
import LyraUpgrade.Core.Sanitize
import LyraUpgrade.Encoding.Reader
import LyraUpgrade.Service.Planner

/-!
# Hashes of staged files

Staging writes the confirmed manifest and plan in their indented texts, and the offline executor
and the verifier read the texts and hash what they have read.

What is read is what was written (`decodeManifest_pretty`, `decodePlan_pretty`), so the hashes are
the confirmed ones; and since the text that is hashed determines the value, they are the hashes of
no other value, unless the digest has a collision.  `hashes_survive_storage` is the result.

The reader of JSON texts is a parameter.  What is relied on of it is `ReadsJson`.
-/

namespace Encoding

/-- Numbers of at most `bound`, and arrays and objects nested to a depth. -/
inductive Json.Within (bound : ℕ) : ℕ → Json → Prop
  | null {depth : ℕ} : Within bound depth .null
  | bool {depth : ℕ} {b : Bool} : Within bound depth (.bool b)
  | num {depth n : ℕ} (h : n ≤ bound) : Within bound depth (.num n)
  | str {depth : ℕ} {s : String} : Within bound depth (.str s)
  | arr {depth : ℕ} {vs : List Json} (h : ∀ v ∈ vs, Within bound depth v) :
      Within bound (depth + 1) (.arr vs)
  | obj {depth : ℕ} {ms : List (String × Json)} (h : ∀ m ∈ ms, Within bound depth m.2) :
      Within bound (depth + 1) (.obj ms)

end Encoding

namespace LyraUpgrade

open Encoding

/-- What is relied on of `serde_json::from_slice`: it reads back what `to_vec` and `to_vec_pretty`
write, for unsigned integers of 64 bits and within its limit for nested values. -/
def ReadsJson (parse : List Char → Option Document) : Prop :=
  ∀ v : Json, v.Within u64Max 127 →
    parse v.render = some v.toDocument ∧ parse (v.pretty 0) = some v.toDocument

theorem readsJson_parseJson : ReadsJson parseJson :=
  fun v _ => ⟨Json.parseJson_render v, Json.parseJson_pretty v⟩

/-! ## Reading and checking -/

section

variable (parse : List Char → Option Document)

def decodeManifest (text : List Char) : Option ReleaseManifest :=
  (parse text).bind ReleaseManifest.ofDocument

def decodePlan (text : List Char) : Option UpgradePlan := (parse text).bind UpgradePlan.ofDocument

/-- What `read_json` of the offline executor accepts. -/
def maxStateFileBytes : ℕ := 4 * 1024 * 1024

/-- `read_json`, of a file with a text. -/
def readJson {α : Type} (decode : List Char → Option α) (text : List Char) : Option α :=
  if byteLength text > maxStateFileBytes then none else decode text

/-- The texts of `manifest.json` and `plan.json`. -/
structure StagedTexts where
  manifest : List Char
  plan : List Char

/-- What `stage_release_upgrade` writes. -/
def stagedTexts (manifest : ReleaseManifest) (plan : UpgradePlan) : StagedTexts :=
  ⟨manifest.toJson.pretty 0, plan.toJson.pretty 0⟩

variable (digest : List Char → String) (state : OperationStateRecord) (staged : StagedTexts)

/-- The beginning of `run` in the offline executor: the files are read and held to the record. -/
def readStaged : Option (ReleaseManifest × UpgradePlan) := do
  let manifest ← readJson (decodeManifest parse) staged.manifest
  let confirmedPlan ← readJson (decodePlan parse) staged.plan
  if state.operation ≠ manifest.operation ∨ state.target ≠ some manifest.target ∨
      confirmedPlan.sha256 digest ≠ state.planSha256 then none
  else if state.manifestSha256 ≠ some (manifest.sha256 digest) then none
  else some (manifest, confirmedPlan)

/-- The plan the verifier compares the machine with. -/
def readConfirmedPlan : Option UpgradePlan := do
  let plan ← decodePlan parse staged.plan
  if plan.sha256 digest ≠ state.planSha256 then none else some plan

end

/-- The record is one of the operation that was confirmed with a manifest and a plan. -/
structure Confirms (digest : List Char → String) (state : OperationStateRecord)
    (manifest : ReleaseManifest) (plan : UpgradePlan) : Prop where
  operation : state.operation = manifest.operation
  target : state.target = some manifest.target
  planHash : state.planSha256 = plan.sha256 digest
  manifestHash : state.manifestSha256 = some (manifest.sha256 digest)

/-- No two values of one kind have texts that collide. -/
structure NoCollision (digest : List Char → String) : Prop where
  manifests : Set.InjOn digest (Set.range ReleaseManifest.canonicalJson)
  plans : CollisionFree digest

section

variable {parse : List Char → Option Document} {digest : List Char → String}
  {state : OperationStateRecord} {staged : StagedTexts} {m m' : ReleaseManifest}
  {p p' : UpgradePlan} {depth : ℕ}

/-! ## What is written is within the limits -/

theorem within_listToJson {α : Type} {f : α → Json} {xs : List α}
    (h : ∀ x ∈ xs, (f x).Within u64Max depth) : (listToJson f xs).Within u64Max (depth + 1) := by
  refine .arr fun v hv => ?_
  obtain ⟨x, hx, rfl⟩ := List.mem_map.mp hv
  exact h x hx

theorem within_listStr (xs : List String) : (listToJson .str xs).Within u64Max (depth + 1) :=
  within_listToJson fun _ _ => .str

theorem within_optionToJson {α : Type} {f : α → Json} (value : Option α)
    (h : ∀ a, (f a).Within u64Max depth) : (optionToJson f value).Within u64Max depth := by
  cases value with
  | none => exact .null
  | some a => exact h a

theorem within_skipIfNone {α : Type} {key : String} {f : α → Json} (value : Option α)
    (h : ∀ a, (f a).Within u64Max depth) :
    ∀ member ∈ skipIfNone key f value, member.2.Within u64Max depth := by
  cases value with
  | none => exact List.forall_mem_nil _
  | some a =>
      intro member hmem
      rw [List.mem_singleton.mp hmem]
      exact h a

theorem u32Max_le : u32Max ≤ u64Max := by decide

theorem u16Max_le : u16Max ≤ u64Max := by decide

theorem ReleaseIdentity.within (self : ReleaseIdentity) : self.toJson.Within u64Max (depth + 1) := by
  refine .obj ?_
  simp only [List.forall_mem_cons]
  exact ⟨.str, .str, .str, .str, List.forall_mem_nil _⟩

theorem ReleaseManifest.within (h : m.Fits) : m.toJson.Within u64Max (depth + 4) := by
  have hstatus : m.status.toJson.Within u64Max (depth + 3) := by
    cases m.status <;> exact .str
  have hrepositories : (listToJson RepositoryTransition.toJson m.repositories).Within u64Max
      (depth + 3) := by
    refine within_listToJson fun r hr => .obj ?_
    simp only [List.forall_mem_cons]
    exact ⟨.str, .str, .str, .str, .num ((h.repositories r hr).trans u16Max_le), List.forall_mem_nil _⟩
  have htransitions : (listToJson VendorTransitionWire.toJson m.allowedVendorTransitions).Within
      u64Max (depth + 3) := by
    refine within_listToJson fun t _ => .obj (List.forall_mem_append.mpr ⟨?_, ?_⟩)
    · simp only [List.forall_mem_cons]
      exact ⟨.str, .str, List.forall_mem_nil _⟩
    · exact within_skipIfNone _ within_listStr
  have hmigration : ∀ packages : List PackageMigration,
      (listToJson PackageMigration.toJson packages).Within u64Max (depth + 3) := by
    refine fun packages => within_listToJson fun package _ => .obj ?_
    simp only [List.forall_mem_cons]
    exact ⟨.str, .str, .str, .str, .str, .str, .str, .str, .bool, List.forall_mem_nil _⟩
  refine .obj (List.forall_mem_append.mpr ⟨?_, within_skipIfNone _ hmigration⟩)
  simp only [List.forall_mem_cons]
  exact ⟨.num (h.schemaVersion.trans u32Max_le), .num h.sequence, hstatus, .str, .str,
    m.source.within, m.target.within, .str, .num h.minimumFreeSpaceBytes, hrepositories,
    within_listStr _, htransitions, within_listToJson fun _ _ => within_listStr _, List.forall_mem_nil _⟩

theorem PackageChange.within {change : PackageChange} (h : change.Fits) :
    change.toJson.Within u64Max (depth + 1) := by
  have haction : change.action.toJson.Within u64Max depth := by
    cases change.action <;> exact .str
  refine .obj ?_
  simp only [List.forall_mem_cons]
  exact ⟨.str, .str, haction, within_optionToJson _ fun _ => .str,
    within_optionToJson _ fun _ => .str, within_optionToJson _ fun _ => .str,
    within_optionToJson _ fun _ => .str, within_optionToJson _ fun _ => .str,
    .num h.downloadBytes, .num h.installedSizeBefore, .num h.installedSizeAfter, List.forall_mem_nil _⟩

theorem UpgradePlan.within (h : p.Fits) : p.toJson.Within u64Max (depth + 3) := by
  have hoperation : p.operation.toJson.Within u64Max (depth + 2) := by
    cases p.operation <;> exact .str
  have hfacts : p.facts.toJson.Within u64Max (depth + 2) := by
    refine .obj fun member hmem => ?_
    obtain ⟨entry, -, rfl⟩ := List.mem_map.mp hmem
    exact .str
  have hrepositories : (listToJson RepositoryFact.toJson p.repositories).Within u64Max
      (depth + 2) := by
    refine within_listToJson fun r _ => .obj ?_
    simp only [List.forall_mem_cons]
    exact ⟨.str, .bool, .bool, .bool, .bool, List.forall_mem_nil _⟩
  have hinstalled : (listToJson InstalledPackage.toJson p.installedPackages).Within u64Max
      (depth + 2) := by
    refine within_listToJson fun package _ => .obj ?_
    simp only [List.forall_mem_cons]
    exact ⟨.str, .str, .str, .str, List.forall_mem_nil _⟩
  refine .obj ?_
  simp only [List.forall_mem_cons]
  exact ⟨.num (h.schemaVersion.trans u32Max_le), hoperation, p.source.within,
    within_optionToJson _ ReleaseIdentity.within, within_optionToJson _ fun _ => .str,
    .num h.requiredBytes, hfacts, hrepositories, within_listStr _, within_listStr _,
    within_listStr _, hinstalled, within_listStr _,
    within_listToJson fun change hmem => PackageChange.within (h.packageChanges change hmem), .bool,
    List.forall_mem_nil _⟩

/-! ## What is read is what was written -/

theorem decodeManifest_render (hparse : ReadsJson parse) (h : m.Fits) :
    decodeManifest parse m.canonicalJson = some m := by
  rw [decodeManifest, ReleaseManifest.canonicalJson, (hparse _ (ReleaseManifest.within h)).1,
    Option.bind_some, ReleaseManifest.ofDocument_toJson h]

theorem decodeManifest_pretty (hparse : ReadsJson parse) (h : m.Fits) :
    decodeManifest parse (m.toJson.pretty 0) = some m := by
  rw [decodeManifest, (hparse _ (ReleaseManifest.within h)).2, Option.bind_some,
    ReleaseManifest.ofDocument_toJson h]

theorem decodePlan_render (hparse : ReadsJson parse) (h : p.Fits) :
    decodePlan parse p.canonicalJson = some p := by
  rw [decodePlan, UpgradePlan.canonicalJson, (hparse _ (UpgradePlan.within h)).1,
    Option.bind_some, UpgradePlan.ofDocument_toJson h]

theorem decodePlan_pretty (hparse : ReadsJson parse) (h : p.Fits) :
    decodePlan parse (p.toJson.pretty 0) = some p := by
  rw [decodePlan, (hparse _ (UpgradePlan.within h)).2, Option.bind_some,
    UpgradePlan.ofDocument_toJson h]

/-! ## The hashes -/

theorem readStaged_eq_some : readStaged parse digest state staged = some (m, p) ↔
    readJson (decodeManifest parse) staged.manifest = some m ∧
      readJson (decodePlan parse) staged.plan = some p ∧ Confirms digest state m p := by
  rw [readStaged]
  constructor
  · intro h
    obtain ⟨manifest, hmanifest, h⟩ := Option.bind_eq_some_iff.mp h
    obtain ⟨plan, hplan, h⟩ := Option.bind_eq_some_iff.mp h
    split_ifs at h with hfields hhash
    cases h
    simp only [not_or, not_not] at hfields hhash
    exact ⟨hmanifest, hplan, hfields.1, hfields.2.1, hfields.2.2.symm, hhash⟩
  · rintro ⟨hmanifest, hplan, h⟩
    have hfields : ¬ (state.operation ≠ m.operation ∨ state.target ≠ some m.target ∨
        p.sha256 digest ≠ state.planSha256) := by
      rintro (hne | hne | hne)
      · exact hne h.operation
      · exact hne h.target
      · exact hne h.planHash.symm
    simp only [hmanifest, hplan, Option.bind_eq_bind, Option.bind_some]
    rw [if_neg hfields, if_neg (not_not.mpr h.manifestHash)]

theorem readConfirmedPlan_eq_some : readConfirmedPlan parse digest state staged = some p ↔
    decodePlan parse staged.plan = some p ∧ state.planSha256 = p.sha256 digest := by
  rw [readConfirmedPlan]
  constructor
  · intro h
    obtain ⟨plan, hplan, h⟩ := Option.bind_eq_some_iff.mp h
    split_ifs at h with hhash
    cases h
    exact ⟨hplan, (not_not.mp hhash).symm⟩
  · rintro ⟨hplan, hhash⟩
    simp only [hplan, Option.bind_eq_bind, Option.bind_some]
    exact if_neg (not_not.mpr hhash.symm)

/-- A hash is the one of a single manifest. -/
theorem NoCollision.manifest_eq (h : NoCollision digest) (hhash : m.sha256 digest = m'.sha256 digest) :
    m = m' :=
  ReleaseManifest.canonicalJson_injective (h.manifests ⟨m, rfl⟩ ⟨m', rfl⟩ hhash)

/-- A record confirms a single manifest and a single plan. -/
theorem Confirms.unique (hdigest : NoCollision digest) (h : Confirms digest state m p)
    (h' : Confirms digest state m' p') : m' = m ∧ p' = p := by
  constructor
  · exact hdigest.manifest_eq (Option.some.inj (h'.manifestHash.symm.trans h.manifestHash))
  · exact hdigest.plans.eq_of_sha256 (h'.planHash.symm.trans h.planHash)

/-- What staging accepts is what the record confirms. -/
theorem Confirms.of_staging (hdigest : NoCollision digest) (h : Confirms digest state m p)
    (hhash : p'.manifestSha256 = state.manifestSha256)
    (hcheck : checkConfirmedReleasePlan digest m' p' state.planSha256 = .ok ()) :
    m' = m ∧ p' = p := by
  obtain ⟨-, -, -, hmanifest, hplan⟩ := checkConfirmedReleasePlan_eq_ok hcheck
  constructor
  · refine hdigest.manifest_eq (Option.some.inj ?_)
    rw [← hmanifest, hhash, h.manifestHash]
  · exact hdigest.plans.eq_of_sha256 (hplan.trans h.planHash)

/-! ## The result -/

/-- What is written for a value, compact or indented, is read as the value. -/
structure RoundTrips {α : Type} (decode : List Char → Option α) (toJson : α → Json) (value : α) :
    Prop where
  compact : decode (toJson value).render = some value
  indented : decode ((toJson value).pretty 0) = some value

/-- The files staged for what a record confirms are read back by all who hash them: the offline
executor, if it does not refuse a file for its size, and the verifier. -/
structure StagedSurvive (parse : List Char → Option Document) (digest : List Char → String)
    (state : OperationStateRecord) (manifest : ReleaseManifest) (plan : UpgradePlan) : Prop where
  offline : byteLength (stagedTexts manifest plan).manifest ≤ maxStateFileBytes →
    byteLength (stagedTexts manifest plan).plan ≤ maxStateFileBytes →
    readStaged parse digest state (stagedTexts manifest plan) = some (manifest, plan)
  verifier : readConfirmedPlan parse digest state (stagedTexts manifest plan) = some plan

/-- No other manifest and no other plan pass a check of the hashes, whatever the files hold. -/
structure OnlyConfirmed (parse : List Char → Option Document) (digest : List Char → String)
    (state : OperationStateRecord) (manifest : ReleaseManifest) (plan : UpgradePlan) : Prop where
  staging : ∀ m p, p.manifestSha256 = state.manifestSha256 →
    checkConfirmedReleasePlan digest m p state.planSha256 = .ok () → m = manifest ∧ p = plan
  offline : ∀ staged m p, readStaged parse digest state staged = some (m, p) →
    m = manifest ∧ p = plan
  verifier : ∀ staged p, readConfirmedPlan parse digest state staged = some p → p = plan

theorem Confirms.stagedSurvive (hparse : ReadsJson parse) (hm : m.Fits) (hp : p.Fits)
    (h : Confirms digest state m p) : StagedSurvive parse digest state m p where
  offline hmanifest hplan := by
    refine readStaged_eq_some.mpr ⟨?_, ?_, h⟩
    · rw [readJson, if_neg (Nat.not_lt.mpr hmanifest)]
      exact decodeManifest_pretty hparse hm
    · rw [readJson, if_neg (Nat.not_lt.mpr hplan)]
      exact decodePlan_pretty hparse hp
  verifier := readConfirmedPlan_eq_some.mpr ⟨decodePlan_pretty hparse hp, h.planHash⟩

theorem Confirms.onlyConfirmed (hdigest : NoCollision digest) (h : Confirms digest state m p) :
    OnlyConfirmed parse digest state m p where
  staging _ _ hhash hcheck := h.of_staging hdigest hhash hcheck
  offline _ _ _ hread := h.unique hdigest (readStaged_eq_some.mp hread).2.2
  verifier _ _ hread := hdigest.plans.eq_of_sha256
    ((readConfirmedPlan_eq_some.mp hread).2.symm.trans h.planHash)

end

/-- **Hashes survive storage.**  Manifests and plans are read back from both texts, and different
ones have different texts; so the hashes of the staged files are the confirmed ones, and those of
no other values.  A manifest that was read lacks an optional field only where the key is missing. -/
theorem hashes_survive_storage {parse : List Char → Option Document} (hparse : ReadsJson parse)
    (digest : List Char → String) :
    (∀ m : ReleaseManifest, m.Fits → RoundTrips (decodeManifest parse) ReleaseManifest.toJson m) ∧
    (∀ p : UpgradePlan, p.Fits → RoundTrips (decodePlan parse) UpgradePlan.toJson p) ∧
    Function.Injective ReleaseManifest.canonicalJson ∧
    Function.Injective UpgradePlan.canonicalJson ∧
    (∀ (state : OperationStateRecord) (m : ReleaseManifest) (p : UpgradePlan),
      Confirms digest state m p →
        (m.Fits → p.Fits → StagedSurvive parse digest state m p) ∧
        (NoCollision digest → OnlyConfirmed parse digest state m p)) ∧
    ∀ text m, decodeManifest parse text = some m →
      ∃ value, parse text = some value ∧ ReleaseManifest.AbsentExactly value m := by
  refine ⟨fun m h => ⟨decodeManifest_render hparse h, decodeManifest_pretty hparse h⟩,
    fun p h => ⟨decodePlan_render hparse h, decodePlan_pretty hparse h⟩,
    ReleaseManifest.canonicalJson_injective, UpgradePlan.canonicalJson_injective,
    fun state m p h => ⟨fun hm hp => h.stagedSurvive hparse hm hp,
      fun hdigest => h.onlyConfirmed hdigest⟩, fun text m h => ?_⟩
  obtain ⟨value, hvalue, hread⟩ := Option.bind_eq_some_iff.mp h
  exact ⟨value, hvalue, ReleaseManifest.absentExactly_of_ofDocument hread⟩

/-- The record of the sample upgrade. -/
def Sample.stagedRecord : OperationStateRecord where
  schemaVersion := 1
  operationId := "12345678-1234-1234-1234-123456789abc"
  sequence := 4
  operation := .releaseUpgrade
  state := .readyToReboot
  source := Sample.source
  target := some Sample.target
  planSha256 := Sample.planSha256
  manifestSha256 := some Sample.manifestSha256
  snapshotNumber := none
  recovery := none
  lastCompletedStep := none
  errorCode := none
  bootVerification := none
  createdAt := "2026-01-01T00:00:00Z"
  updatedAt := "2026-01-01T00:00:00Z"

theorem hashes_survive_storage_sample :
    RoundTrips (decodeManifest parseJson) ReleaseManifest.toJson Sample.manifest ∧
      StagedSurvive parseJson Sample.digest Sample.stagedRecord Sample.manifest Sample.plan ∧
      OnlyConfirmed parseJson Sample.digest Sample.stagedRecord Sample.manifest Sample.plan := by
  obtain ⟨hmanifests, -, -, -, hhashes, -⟩ :=
    hashes_survive_storage readsJson_parseJson Sample.digest
  have hmanifest : Sample.manifest.Fits := ⟨by decide, by decide, by decide, by decide⟩
  have hplan : Sample.plan.Fits := by
    refine ⟨by decide, by decide, fun change hmem => ?_⟩
    rw [List.mem_singleton.mp hmem]
    exact ⟨by decide, by decide, by decide⟩
  have hdigest : NoCollision Sample.digest :=
    ⟨Sample.digest_injective.injOn, Sample.digest_injective.injOn⟩
  have hconfirms : Confirms Sample.digest Sample.stagedRecord Sample.manifest Sample.plan :=
    ⟨rfl, rfl, Sample.digest_plan.symm, congrArg some Sample.digest_manifest.symm⟩
  obtain ⟨hstaged, honly⟩ := hhashes _ _ _ hconfirms
  exact ⟨hmanifests _ hmanifest, hstaged hmanifest hplan, honly hdigest⟩

end LyraUpgrade
