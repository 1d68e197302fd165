import LyraUpgrade.Core.Deserialize
import LyraUpgrade.Core.Persistence

/-!
# The document of a record

What the derived implementations write for an `OperationStateRecord`, and what they read
back.  A field that may be absent is written as `null`, except for the recovery goal, which
is left out; a reader takes a missing field and `null` for the same.

`OperationStateRecord.ofDocument_toJson` is the round trip, for the records whose numbers
fit the types of their fields (`OperationStateRecord.Fits`).
-/

namespace LyraUpgrade

open Encoding

/-- What is written for an absent value is read as one. -/
theorem nullable_optionToJson {α : Type} {f : α → Json} {read : Document → Option α}
    {value : Option α} (hread : ∀ a ∈ value, read (f a).toDocument = some a)
    (hnull : ∀ a, (f a).toDocument ≠ .null) :
    (optionToJson f value).toDocument.nullable read = some value := by
  cases value with
  | none => rfl
  | some a => exact Document.nullable_of_ne (hread a rfl) (hnull a)

/-! ## Enumerations -/

def OperationState.toJson : OperationState → Json
  | .idle => .str "Idle"
  | .checking => .str "Checking"
  | .available => .str "Available"
  | .preflight => .str "Preflight"
  | .planned => .str "Planned"
  | .awaitingConfirmation => .str "AwaitingConfirmation"
  | .downloading => .str "Downloading"
  | .snapshotting => .str "Snapshotting"
  | .applying => .str "Applying"
  | .readyToReboot => .str "ReadyToReboot"
  | .applyingOffline => .str "ApplyingOffline"
  | .awaitingReboot => .str "AwaitingReboot"
  | .verifyingBoot => .str "VerifyingBoot"
  | .blocked => .str "Blocked"
  | .failed => .str "Failed"
  | .needsRecovery => .str "NeedsRecovery"
  | .completed => .str "Completed"

theorem OperationState.toJson_injective : Function.Injective OperationState.toJson := by
  intro a b h
  cases a <;> cases b <;> first | rfl | simp [OperationState.toJson] at h

def OperationState.ofDocument : Document → Option OperationState
  | .str "Idle" => some .idle
  | .str "Checking" => some .checking
  | .str "Available" => some .available
  | .str "Preflight" => some .preflight
  | .str "Planned" => some .planned
  | .str "AwaitingConfirmation" => some .awaitingConfirmation
  | .str "Downloading" => some .downloading
  | .str "Snapshotting" => some .snapshotting
  | .str "Applying" => some .applying
  | .str "ReadyToReboot" => some .readyToReboot
  | .str "ApplyingOffline" => some .applyingOffline
  | .str "AwaitingReboot" => some .awaitingReboot
  | .str "VerifyingBoot" => some .verifyingBoot
  | .str "Blocked" => some .blocked
  | .str "Failed" => some .failed
  | .str "NeedsRecovery" => some .needsRecovery
  | .str "Completed" => some .completed
  | _ => none

theorem OperationState.ofDocument_toJson (state : OperationState) :
    OperationState.ofDocument state.toJson.toDocument = some state := by
  cases state <;> rfl

def OperationKind.ofDocument : Document → Option OperationKind
  | .str "UpdateWithinRelease" => some .updateWithinRelease
  | .str "ReleaseUpgrade" => some .releaseUpgrade
  | .str "PackageMigration" => some .packageMigration
  | _ => none

theorem OperationKind.ofDocument_toJson (operation : OperationKind) :
    OperationKind.ofDocument operation.toJson.toDocument = some operation := by
  cases operation <;> rfl

def BootVerification.toJson : BootVerification → Json
  | .pending => .str "Pending"
  | .passed => .str "Passed"
  | .failed => .str "Failed"

def BootVerification.ofDocument : Document → Option BootVerification
  | .str "Pending" => some .pending
  | .str "Passed" => some .passed
  | .str "Failed" => some .failed
  | _ => none

theorem BootVerification.ofDocument_toJson (verification : BootVerification) :
    BootVerification.ofDocument verification.toJson.toDocument = some verification := by
  cases verification <;> rfl

/-! ## The recovery goal -/

namespace SubvolumeIdentity

def toJson (self : SubvolumeIdentity) : Json := .obj
  [("id", .num self.id), ("uuid", .str self.uuid),
   ("parent_uuid", optionToJson .str self.parentUuid)]

def ofDocument (value : Document) : Option SubvolumeIdentity := do
  let entries ← value.record ["id", "uuid", "parent_uuid"]
  let id ← required entries "id" (Document.unsigned u64Max)
  let uuid ← required entries "uuid" Document.string
  let parentUuid ← nullableField entries "parent_uuid" Document.string
  return { id, uuid, parentUuid }

theorem ofDocument_toJson {self : SubvolumeIdentity} (h : self.id ≤ u64Max) :
    ofDocument self.toJson.toDocument = some self := by
  have hparent : (optionToJson .str self.parentUuid).toDocument.nullable Document.string =
      some self.parentUuid := nullable_optionToJson (fun _ _ => rfl) fun _ => nofun
  show ((Document.int self.id).unsigned u64Max).bind (fun id =>
    ((optionToJson .str self.parentUuid).toDocument.nullable Document.string).bind fun parentUuid =>
      some { id, uuid := self.uuid, parentUuid }) = some self
  rw [Document.unsigned_int h, Option.bind_some, hparent]
  rfl

end SubvolumeIdentity

namespace RollbackGoal

def toJson (self : RollbackGoal) : Json := .obj
  [("source_snapshot_number", .num self.sourceSnapshotNumber),
   ("source_snapshot", self.sourceSnapshot.toJson),
   ("boot_snapshot", optionToJson SubvolumeIdentity.toJson self.bootSnapshot)]

def ofDocument (value : Document) : Option RollbackGoal := do
  let entries ← value.record ["source_snapshot_number", "source_snapshot", "boot_snapshot"]
  let sourceSnapshotNumber ← required entries "source_snapshot_number" (Document.unsigned u64Max)
  let sourceSnapshot ← required entries "source_snapshot" SubvolumeIdentity.ofDocument
  let bootSnapshot ← nullableField entries "boot_snapshot" SubvolumeIdentity.ofDocument
  return { sourceSnapshotNumber, sourceSnapshot, bootSnapshot }

/-- The numbers of the goal fit `u64`. -/
structure Fits (goal : RollbackGoal) : Prop where
  number : goal.sourceSnapshotNumber ≤ u64Max
  source : goal.sourceSnapshot.id ≤ u64Max
  boot : ∀ boot ∈ goal.bootSnapshot, boot.id ≤ u64Max

theorem ofDocument_toJson {self : RollbackGoal} (h : self.Fits) :
    ofDocument self.toJson.toDocument = some self := by
  have hsource := SubvolumeIdentity.ofDocument_toJson h.source
  have hboot : (optionToJson SubvolumeIdentity.toJson self.bootSnapshot).toDocument.nullable
      SubvolumeIdentity.ofDocument = some self.bootSnapshot :=
    nullable_optionToJson (fun boot hmem => SubvolumeIdentity.ofDocument_toJson (h.boot boot hmem))
      fun _ => nofun
  show ((Document.int self.sourceSnapshotNumber).unsigned u64Max).bind (fun number =>
    (SubvolumeIdentity.ofDocument self.sourceSnapshot.toJson.toDocument).bind fun source =>
      ((optionToJson SubvolumeIdentity.toJson self.bootSnapshot).toDocument.nullable
        SubvolumeIdentity.ofDocument).bind fun boot =>
        some { sourceSnapshotNumber := number, sourceSnapshot := source, bootSnapshot := boot }) =
    some self
  rw [Document.unsigned_int h.number, Option.bind_some, hsource, Option.bind_some, hboot]
  rfl

end RollbackGoal

theorem ReleaseIdentity.ofDocument_toJson (self : ReleaseIdentity) :
    ReleaseIdentity.ofDocument self.toJson.toDocument = some self := by
  rfl

/-! ## The record -/

namespace OperationStateRecord

def toJson (self : OperationStateRecord) : Json := .obj
  ([("schema_version", .num self.schemaVersion), ("operation_id", .str self.operationId),
    ("sequence", .num self.sequence), ("operation", self.operation.toJson),
    ("state", self.state.toJson), ("source", self.source.toJson),
    ("target", optionToJson ReleaseIdentity.toJson self.target),
    ("plan_sha256", .str self.planSha256),
    ("manifest_sha256", optionToJson .str self.manifestSha256),
    ("snapshot_number", optionToJson .num self.snapshotNumber)] ++
   skipIfNone "recovery" RollbackGoal.toJson self.recovery ++
   [("last_completed_step", optionToJson .str self.lastCompletedStep),
    ("error_code", optionToJson .str self.errorCode),
    ("boot_verification", optionToJson BootVerification.toJson self.bootVerification),
    ("created_at", .str self.createdAt), ("updated_at", .str self.updatedAt)])

/-- The fields of a record. -/
def fields : List String :=
  ["schema_version", "operation_id", "sequence", "operation", "state", "source", "target",
    "plan_sha256", "manifest_sha256", "snapshot_number", "recovery", "last_completed_step",
    "error_code", "boot_verification", "created_at", "updated_at"]

def ofDocument (value : Document) : Option OperationStateRecord := do
  let entries ← value.record fields
  let schemaVersion ← required entries "schema_version" (Document.unsigned u32Max)
  let operationId ← required entries "operation_id" Document.string
  let sequence ← required entries "sequence" (Document.unsigned u64Max)
  let operation ← required entries "operation" OperationKind.ofDocument
  let state ← required entries "state" OperationState.ofDocument
  let source ← required entries "source" ReleaseIdentity.ofDocument
  let target ← nullableField entries "target" ReleaseIdentity.ofDocument
  let planSha256 ← required entries "plan_sha256" Document.string
  let manifestSha256 ← nullableField entries "manifest_sha256" Document.string
  let snapshotNumber ← nullableField entries "snapshot_number" (Document.unsigned u64Max)
  let recovery ← nullableField entries "recovery" RollbackGoal.ofDocument
  let lastCompletedStep ← nullableField entries "last_completed_step" Document.string
  let errorCode ← nullableField entries "error_code" Document.string
  let bootVerification ← nullableField entries "boot_verification" BootVerification.ofDocument
  let createdAt ← required entries "created_at" Document.string
  let updatedAt ← required entries "updated_at" Document.string
  return { schemaVersion, operationId, sequence, operation, state, source, target, planSha256
           manifestSha256, snapshotNumber, recovery, lastCompletedStep, errorCode
           bootVerification, createdAt, updatedAt }

/-- The numbers of the record fit the types of their fields. -/
structure Fits (r : OperationStateRecord) : Prop where
  schemaVersion : r.schemaVersion ≤ u32Max
  sequence : r.sequence ≤ u64Max
  snapshotNumber : ∀ number ∈ r.snapshotNumber, number ≤ u64Max
  recovery : ∀ goal ∈ r.recovery, goal.Fits

/-- The fields in their order, with what the recovery field reads as. -/
private def readFields (r : OperationStateRecord) (recovery : Option (Option RollbackGoal)) :
    Option OperationStateRecord := do
  let schemaVersion ← (Document.int r.schemaVersion).unsigned u32Max
  let sequence ← (Document.int r.sequence).unsigned u64Max
  let operation ← OperationKind.ofDocument r.operation.toJson.toDocument
  let state ← OperationState.ofDocument r.state.toJson.toDocument
  let target ← (optionToJson ReleaseIdentity.toJson r.target).toDocument.nullable
    ReleaseIdentity.ofDocument
  let manifestSha256 ← (optionToJson .str r.manifestSha256).toDocument.nullable Document.string
  let snapshotNumber ← (optionToJson .num r.snapshotNumber).toDocument.nullable
    (Document.unsigned u64Max)
  let recovery ← recovery
  let lastCompletedStep ←
    (optionToJson .str r.lastCompletedStep).toDocument.nullable Document.string
  let errorCode ← (optionToJson .str r.errorCode).toDocument.nullable Document.string
  let bootVerification ← (optionToJson BootVerification.toJson r.bootVerification).toDocument.nullable
    BootVerification.ofDocument
  return { r with schemaVersion, sequence, operation, state, target, manifestSha256, snapshotNumber
                  recovery, lastCompletedStep, errorCode, bootVerification }

private theorem readFields_eq {r : OperationStateRecord} (h : r.Fits)
    (recovery : Option RollbackGoal) : readFields r (some recovery) = some { r with recovery } := by
  have hstr : ∀ value : Option String,
      (optionToJson .str value).toDocument.nullable Document.string = some value := fun value =>
    nullable_optionToJson (fun _ _ => rfl) fun _ => nofun
  have htarget : (optionToJson ReleaseIdentity.toJson r.target).toDocument.nullable
      ReleaseIdentity.ofDocument = some r.target :=
    nullable_optionToJson (fun target _ => target.ofDocument_toJson) fun _ => nofun
  have hnumber : (optionToJson .num r.snapshotNumber).toDocument.nullable
      (Document.unsigned u64Max) = some r.snapshotNumber :=
    nullable_optionToJson (fun n hn => Document.unsigned_int (h.snapshotNumber n hn)) fun _ => nofun
  have hboot : (optionToJson BootVerification.toJson r.bootVerification).toDocument.nullable
      BootVerification.ofDocument = some r.bootVerification :=
    nullable_optionToJson (fun b _ => b.ofDocument_toJson) fun b => by cases b <;> nofun
  simp only [readFields, Document.unsigned_int h.schemaVersion, Document.unsigned_int h.sequence,
    OperationKind.ofDocument_toJson, OperationState.ofDocument_toJson, hstr, htarget, hnumber, hboot,
    Option.bind_eq_bind, Option.bind_some]
  rfl

/-- **What is written for a record is read back.** -/
theorem ofDocument_toJson {r : OperationStateRecord} (h : r.Fits) :
    ofDocument r.toJson.toDocument = some r := by
  have hfields := readFields_eq h r.recovery
  cases hrecovery : r.recovery with
  | none =>
      -- the field is left out
      rw [hrecovery] at hfields
      rw [toJson, hrecovery]
      show readFields r (some none) = _
      rw [hfields, ← hrecovery]
  | some goal =>
      have hgoal := Document.nullable_of_ne
        (RollbackGoal.ofDocument_toJson (h.recovery goal hrecovery)) (by nofun)
      rw [hrecovery] at hfields
      rw [toJson, hrecovery]
      show readFields r (goal.toJson.toDocument.nullable RollbackGoal.ofDocument) = _
      rw [hgoal, hfields, ← hrecovery]

end OperationStateRecord

end LyraUpgrade
