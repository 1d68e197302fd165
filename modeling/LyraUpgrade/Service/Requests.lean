import LyraUpgrade.Service.Executor

/-!
# Requests that change an operation

The handlers of `service/src/main.rs` that write records, with the worker thread that
Start spawns, and `service/src/recovery.rs`.  Each is one program; requests and
workers run concurrently, in one service process or in several.

Start answers before its worker runs.  Handler and worker are one program here, the
worker being the continuation of an accepted request: the order between the answer
and the worker's first steps is the only thing this fixes.

`Exit` is how a program ended, for the programs of the other executables as well.
-/

namespace LyraUpgrade

open Interaction

/-- How a program ended. -/
inductive Exit
  /-- A request was answered. -/
  | answered (response : Response)
  /-- A worker ended. -/
  | worker (execution : Except ExecutionError ExecutionOutcome)
  /-- The offline executor's own result. -/
  | offline (result : Except Unit Unit)
  /-- The exit code of the boot verifier. -/
  | verifier (code : ℕ)

/-- Answer a request. -/
def respond (response : Response) : Prog Sig Exit := do
  ask (.respond response)
  return .answered response

/-- `rejected`. -/
def rejected (code : String) : Prog Sig Exit := respond (.rejected code)

/-- `Service::status`, as far as it answers with the record. -/
def status (operationId : String) : Prog Sig Exit := do
  match ← ask (.load operationId) with
  | .error _ => rejected "OPERATION_NOT_FOUND"
  | .ok state => respond (.status state)

/-- `operation_owned_by`. -/
def operationOwnedBy (operationId : String) (uid : ℕ) : Prog Sig Bool := do
  if !validUuid operationId then return false
  let owner : Option ℕ ← ask (.readOwner operationId)
  return owner = some uid

/-! ## Start -/

structure StartRequest where
  uid : ℕ
  operationId : String
  planSha256 : String
  confirmed : Bool
  submitted : PlannedUpdate
  /-- The pending plan this service process has in memory for the operation. -/
  cached : Option PendingPlan

/-- `valid_operation_shape`. -/
def validOperationShape (operation : OperationKind)
    (hasManifest targetMatchesManifest hasTarget hasManifestSha256 : Bool) : Bool :=
  match operation with
  | .updateWithinRelease => !hasManifest && !hasTarget && !hasManifestSha256
  | .releaseUpgrade | .packageMigration =>
      hasManifest && targetMatchesManifest && hasTarget && hasManifestSha256

/-- The submitted plan is consistent with itself and with the digest confirmed. -/
def consistentPlan (digest : List Char → String) (planSha256 : String)
    (submitted : PlannedUpdate) : Bool :=
  let plan := submitted.plan
  submitted.planSha256 = planSha256 && plan.sha256 digest = planSha256 &&
  validOperationShape plan.operation submitted.manifest.isSome
    (submitted.manifest.any fun manifest =>
      plan.target = some manifest.target && plan.operation = manifest.operation)
    plan.target.isSome plan.manifestSha256.isSome &&
  submitted.facts.release = plan.source &&
  submitted.solver.changes = plan.packageChanges &&
  ((submitted.solver.rebootRequired || plan.operation.isSignedOffline) = plan.rebootRequired)

/-- The record an operation starts with. -/
def initialRecord (request : StartRequest) (authoritative : PlannedUpdate) (timestamp : String) :
    OperationStateRecord where
  schemaVersion := 1
  operationId := request.operationId
  sequence := 1
  operation := authoritative.plan.operation
  state := .awaitingConfirmation
  source := request.submitted.facts.release
  target := authoritative.plan.target
  planSha256 := request.planSha256
  manifestSha256 := authoritative.plan.manifestSha256
  snapshotNumber := none
  recovery := none
  lastCompletedStep := some "planned"
  errorCode := none
  bootVerification := some .pending
  createdAt := timestamp
  updatedAt := timestamp

/-- The code of a manifest that could not be fetched. -/
def manifestErrorCode : FetchError → String
  | .route .migrationAlreadyApplied => "MIGRATION_ALREADY_APPLIED"
  | .route .notAvailable | .route .sourceMismatch => "RELEASE_NOT_AVAILABLE"
  | _ => "MANIFEST_INVALID"

/-- `Service::release_manifest`: the signed offer for the installed release. -/
def releaseManifest (ext : Externals) : Prog Sig (Except String ReleaseManifest) := do
  match ← ask (.query .installedRelease) with
  | .error _ => return .error "DISCOVERY_FAILED"
  | .ok installed =>
      match ← ask (.query .releaseChannel) with
      | .error _ => return .error "RELEASE_CHANNEL_INVALID"
      | .ok channel =>
          match ← readLastManifestSequence with
          | .error _ => return .error "MANIFEST_SEQUENCE_INVALID"
          | .ok lastSequence =>
              match ← fetchVerifiedManifest ext installed lastSequence channel with
              | .error e => return .error (manifestErrorCode e)
              | .ok (manifest, _) => return .ok manifest

/-- The plan as the service makes it itself, if it is the one that was submitted. -/
def authoritativePlan (ext : Externals) (planSha256 : String) (submitted : PlannedUpdate) :
    Prog Sig (Except String PlannedUpdate) := do
  let accept (planned : Except PlannerError PlannedUpdate) : Except String PlannedUpdate :=
    match planned with
    | .ok planned =>
        if planned.planSha256 = planSha256 ∧ planned.plan = submitted.plan then .ok planned
        else .error "PLAN_CHANGED"
    | .error _ => .error "PLAN_CHANGED"
  match submitted.plan.operation with
  | .updateWithinRelease => return accept (← planUpdate ext.sha256)
  | .releaseUpgrade | .packageMigration =>
      match ← releaseManifest ext with
      | .error e => return .error e
      | .ok manifest =>
          if submitted.manifest ≠ some manifest then return .error "MANIFEST_CHANGED"
          match ← ask (.query (.simulateRelease manifest)) with
          | .error e => return accept (.error e)
          | .ok (facts, solver) => return accept (planRelease ext.sha256 manifest facts solver)

/-- The record, the pending plan and the owner of a new operation, in this order. -/
def createOperation (request : StartRequest) (initial : OperationStateRecord)
    (pending : PendingPlan) : Prog Sig Bool := do
  match ← ask (.save initial) with
  | .error _ => return false
  | .ok () =>
      match ← ask (.writePending request.operationId pending) with
      | .error _ => return false
      | .ok () =>
          match ← ask (.writeOwner request.operationId request.uid) with
          | .error _ => return false
          | .ok () => return true

/-- The record that the worker's failure branch writes. -/
def failureRecord (error : ExecutionError) (state : OperationStateRecord) (timestamp : String) :
    OperationStateRecord :=
  { state with
    state := failureState error state.snapshotNumber.isSome
    errorCode := some error.code
    sequence := saturatingAdd state.sequence 1
    updatedAt := timestamp }

/-- The worker of an accepted request. -/
def execution (ext : Externals) (operationId : String) (planned : PendingPlan) :
    Worker ExecutionOutcome := do
  match (← get).operation with
  | .updateWithinRelease => executeUpdate ext.sha256 operationId planned.planned
  | .releaseUpgrade | .packageMigration =>
      match planned.manifest with
      | some manifest => stageReleaseUpgrade ext operationId planned.planned manifest
      | none => throw .planChanged

/-- The closure of the worker thread: the worker, and what happens to the record
when it fails.  A cancelled operation keeps the record of the cancellation. -/
def workerThread (ext : Externals) (state : OperationStateRecord) (planned : PendingPlan) :
    Prog Sig Exit := do
  let (result, state) ← (execution ext state.operationId planned).run.run state
  match result with
  | .ok _ => return .worker result
  | .error error =>
      if isCancelled (← ask (.load state.operationId)) then return .worker result
      let timestamp ← ask (.query .now)
      let _ ← ask (.save (failureRecord error state timestamp))
      return .worker result

/-- The plan of the operation: the one in memory, or the one on disk. -/
def pendingPlan (request : StartRequest) : Prog Sig (Option PendingPlan) := do
  match request.cached with
  | some plan => return some plan
  | none =>
      match ← ask (.readPending request.operationId) with
      | .ok plan => return some plan
      | .error _ => return none

/-- The last checks of Start, from the record on disk, and the worker. -/
def startWorker (ext : Externals) (request : StartRequest) (planned : Option PendingPlan) :
    Prog Sig Exit := do
  match planned with
  | none => rejected "PLAN_NOT_AVAILABLE"
  | some planned =>
      if planned.planned.planSha256 ≠ request.planSha256 ∨ planned.planned ≠ request.submitted ∨
          planned.manifest ≠ request.submitted.manifest then
        rejected "PLAN_HASH_MISMATCH"
      else
        match ← ask (.load request.operationId) with
        | .error _ => rejected "STATE_READ_FAILED"
        | .ok state =>
            if state.state ≠ .awaitingConfirmation then return ← rejected "INVALID_STATE"
            let failed : Bool ← ask (.query (.writeFailure request.operationId))
            if failed then return ← rejected "EVENT_LOG_WRITE_FAILED"
            let complete : Bool ← ask (.query (.eventHistory request.operationId))
            if !complete then return ← rejected "EVENT_LOG_READ_FAILED"
            ask (.respond (.accepted request.operationId))
            workerThread ext state planned

/-- Start for an operation that the caller does not own yet.  The preview is not
trusted: the plan is made again before anything is written. -/
def startNew (ext : Externals) (request : StartRequest) : Prog Sig Exit := do
  let present : Bool ← ask (.directoryExists request.operationId)
  if present then return ← rejected "OPERATION_NOT_FOUND"
  match ← authoritativePlan ext request.planSha256 request.submitted with
  | .error code => rejected code
  | .ok authoritative =>
      let timestamp ← ask (.query .now)
      let pending : PendingPlan := ⟨request.submitted, authoritative.manifest⟩
      if ← createOperation request (initialRecord request authoritative timestamp) pending then
        startWorker ext request (some pending)
      else rejected "STATE_WRITE_FAILED"

/-- `Service::start`. -/
def start (ext : Externals) (request : StartRequest) : Prog Sig Exit := do
  if !request.confirmed then return ← rejected "CONFIRMATION_REQUIRED"
  if !consistentPlan ext.sha256 request.planSha256 request.submitted then
    return ← rejected "PLAN_HASH_MISMATCH"
  if ← operationOwnedBy request.operationId request.uid then
    startWorker ext request (← pendingPlan request)
  else startNew ext request

/-! ## Cancel and recovery -/

/-- A decision of the user that ends an operation: the states it is offered in, the
answer in the others, and the code it leaves. -/
structure Decision where
  applies : OperationState → Bool
  refusal : String
  code : String

namespace Decision

/-- The record after the decision. -/
def record (self : Decision) (state : OperationStateRecord) (timestamp : String) :
    OperationStateRecord :=
  { state with
    state := .failed
    errorCode := some self.code
    sequence := saturatingAdd state.sequence 1
    updatedAt := timestamp }

/-- Read the record, and write it back decided. -/
def carryOut (self : Decision) (uid : ℕ) (operationId : String) : Prog Sig Exit := do
  if !(← operationOwnedBy operationId uid) then rejected "OPERATION_NOT_FOUND"
  else
    match ← ask (.load operationId) with
    | .error _ => rejected "OPERATION_NOT_FOUND"
    | .ok state =>
        if !self.applies state.state then rejected self.refusal
        else
          match ← ask (.save (self.record state (← ask (.query .now)))) with
          | .error _ => rejected "STATE_WRITE_FAILED"
          | .ok () => status operationId

end Decision

def cancellation : Decision where
  applies := OperationState.isCancelable
  refusal := "NOT_CANCELABLE"
  code := cancelledCode

/-- `Service::cancel`. -/
def cancel (uid : ℕ) (operationId : String) : Prog Sig Exit := cancellation.carryOut uid operationId

def recoveryDeclined : Decision where
  applies := fun state => state = .needsRecovery
  refusal := "RECOVERY_NOT_REQUIRED"
  code := "RECOVERY_DECLINED"

/-- `acknowledge_recovery` with `KeepCurrent`. -/
def keepCurrent (uid : ℕ) (operationId : String) : Prog Sig Exit :=
  recoveryDeclined.carryOut uid operationId

/-- The authorized intent, before the boot selection is changed. -/
def rollbackIntent (state : OperationStateRecord) (number : ℕ) (source : SubvolumeIdentity)
    (timestamp : String) : OperationStateRecord :=
  { state with
    recovery := some ⟨number, source, none⟩
    sequence := saturatingAdd state.sequence 1
    updatedAt := timestamp
    lastCompletedStep := some "rollback-preparing"
    bootVerification := some .pending }

/-- The scheduled rollback. -/
def scheduledRecord (state : OperationStateRecord) (goal : RollbackGoal)
    (boot : SubvolumeIdentity) : OperationStateRecord :=
  { state with
    recovery := some { goal with bootSnapshot := some boot }
    state := .awaitingReboot
    sequence := saturatingAdd state.sequence 1
    errorCode := none
    lastCompletedStep := some "rollback-scheduled" }

/-- The record of a rollback that could not be scheduled. -/
def rollbackFailedRecord (state : OperationStateRecord) (error : String) : OperationStateRecord :=
  { state with
    state := .needsRecovery
    errorCode := some error
    sequence := saturatingAdd state.sequence 1 }

/-- Recovery code that carries the record and fails with a message. -/
abbrev Recovery := ExceptT String (StateT OperationStateRecord (Prog Sig))

/-- `parse::<u64>` of a trimmed output, if it is positive. -/
def parsePositive (stdout : List Char) : Option ℕ :=
  (parseU64 (trim stdout)).filter (0 < ·)

/-- A value that must be there. -/
def recoveryOption {α : Type} (value : Option α) (message : String) : Recovery α :=
  match value with
  | some a => pure a
  | none => throw message

/-- `finish_rollback`: the clone that will be booted is the default subvolume, is a
child of the snapshot, and is the release the operation came from. -/
def finishRollback (operationId : String) (number : ℕ) : Recovery Unit := do
  let output ← perform (ask (.run operationId (.rollback number)))
  failIf (!output.success) "ROLLBACK_FAILED"
  let bootNumber ← recoveryOption (parsePositive output.stdout) "ROLLBACK_RESULT_INVALID"
  let boot ← attempt (ask (.query (.inspectSubvolume (.snapshot bootNumber))))
    fun _ => "BTRFS_PROBE_FAILED"
  let goal ← recoveryOption (← get).recovery "ROLLBACK_INTENT_INCOMPLETE"
  failIf (boot.parentUuid ≠ some goal.sourceSnapshot.uuid) "ROLLBACK_RESULT_INVALID"
  let default ← attempt (ask (.query .defaultSubvolume)) fun _ => "BTRFS_PROBE_FAILED"
  failIf (default ≠ boot.id) "ROLLBACK_RESULT_INVALID"
  let release ← attempt (ask (.query (.releaseIdentityAt bootNumber)))
    fun _ => "SNAPSHOT_IDENTITY_INVALID"
  failIf (release ≠ (← get).source) "ROLLBACK_RESULT_INVALID"
  set (scheduledRecord (← get) goal boot)
  attempt (ask (.save (← get))) fun _ => "STATE_WRITE_FAILED"

/-- The checks of `schedule_rollback` before anything is written. -/
def checkRollback (state : OperationStateRecord) : Prog Sig (Except String (ℕ × SubvolumeIdentity)) := do
  if state.state ≠ .needsRecovery then return .error "RECOVERY_NOT_REQUIRED"
  else if state.recovery.any (·.bootSnapshot.isNone) then
    return .error "ROLLBACK_INTENT_INCOMPLETE"
  else
    match state.snapshotNumber with
    | none => return .error "SNAPSHOT_NOT_AVAILABLE"
    | some number =>
        match ← ask (.query (.releaseIdentityAt number)) with
        | .error _ => return .error "SNAPSHOT_IDENTITY_INVALID"
        | .ok release =>
            if release ≠ state.source then return .error "SNAPSHOT_IDENTITY_MISMATCH"
            else if !(← ask (.query (.recoveryFormat number))) then
              return .error "SNAPSHOT_RECOVERY_UNSUPPORTED"
            else
              match ← ask (.query .statePersistent) with
              | .error _ => return .error "BTRFS_PROBE_FAILED"
              | .ok false => return .error "RECOVERY_STATE_NOT_PERSISTENT"
              | .ok true =>
                  match ← ask (.query (.inspectSubvolume (.snapshot number))) with
                  | .error _ => return .error "BTRFS_PROBE_FAILED"
                  | .ok source => return .ok (number, source)

/-- `schedule_rollback`, under the transaction lock: the record is read again, the
intent is saved, and a failure afterwards is recorded. -/
def scheduleRollbackLocked (operationId : String) (timestamp : String) :
    Prog Sig (Except String Unit) := do
  match ← ask (.load operationId) with
  | .error _ => return .error "STATE_READ_FAILED"
  | .ok state =>
      match ← checkRollback state with
      | .error e => return .error e
      | .ok (number, source) =>
          let intent := rollbackIntent state number source timestamp
          match ← ask (.save intent) with
          | .error _ => return .error "STATE_WRITE_FAILED"
          | .ok () =>
              match ← (finishRollback operationId number).run.run intent with
              | (.ok (), _) => return .ok ()
              | (.error e, state) =>
                  match ← ask (.save (rollbackFailedRecord state e)) with
                  | .error _ => return .error "STATE_WRITE_FAILED"
                  | .ok () => return .error e

/-- `schedule_rollback`. -/
def scheduleRollback (operationId : String) (timestamp : String) :
    Prog Sig (Except String Unit) := do
  match ← ask .acquireLock with
  | .error _ => return .error "TRANSACTION_BUSY"
  | .ok () =>
      let result ← scheduleRollbackLocked operationId timestamp
      ask .releaseLock
      return result

/-- `acknowledge_recovery` with `Rollback`. -/
def rollback (uid : ℕ) (operationId : String) : Prog Sig Exit := do
  if !(← operationOwnedBy operationId uid) then rejected "OPERATION_NOT_FOUND"
  else
    match ← ask (.load operationId) with
    | .error _ => rejected "OPERATION_NOT_FOUND"
    | .ok state =>
        if state.state ≠ .needsRecovery then rejected "RECOVERY_NOT_REQUIRED"
        else
          match ← scheduleRollback operationId (← ask (.query .now)) with
          | .error e => rejected e
          | .ok () => status operationId

end LyraUpgrade
