import LyraUpgrade.Offline.Executor

/-!
# The boot verifier

`verifier/src/main.rs` and `verifier/src/pending.rs`: the program that runs once
after every boot, under the transaction lock.  It reads every operation, closes
those that a crash interrupted, and checks the one operation whose reboot this was.

The check itself runs in a process of its own, which reads the record again; the
verifier waits for its exit code, or for the supervisor to end it.
-/

namespace LyraUpgrade

open Interaction

/-! ## The scan -/

/-- `interrupted_state`: where a boot finds an operation that was not finished. -/
def interruptedState : OperationState → Option OperationState
  | .downloading => some .failed
  | .snapshotting | .applying | .applyingOffline | .readyToReboot => some .needsRecovery
  | _ => none

structure PendingScan where
  candidates : List OperationStateRecord := []
  interrupted : List OperationStateRecord := []
  invalidEntries : ℕ := 0

/-- The record waits for the check of this boot. -/
def isPending (state : OperationStateRecord) : Bool :=
  state.state = .awaitingReboot || state.state = .verifyingBoot

/-- One entry of the state root.  `marked` is the operation that `/system-update`
names. -/
def scanRecord (scan : PendingScan) (marked : Option String) (state : OperationStateRecord) :
    PendingScan :=
  if isPending state then { scan with candidates := scan.candidates ++ [state] }
  else if (state.state ≠ .readyToReboot && (interruptedState state.state).isSome) ||
      (state.state = .readyToReboot && marked ≠ some state.operationId) then
    { scan with interrupted := scan.interrupted ++ [state] }
  else scan

/-- `fs::read_link("/system-update").ok()`, as the operation it names. -/
def markedOperation : Prog Sig (Option String) := do
  match ← ask .readMarker with
  | .ok (.operation operationId) => return some operationId
  | _ => return none

/-- The entries in the order in which the directory lists them. -/
def scanEntries (scan : PendingScan) : List Entry → Prog Sig PendingScan
  | [] => return scan
  | .invalid :: entries =>
      scanEntries { scan with invalidEntries := scan.invalidEntries + 1 } entries
  | .directory operationId :: entries => do
      match ← ask (.load operationId) with
      | .error _ => scanEntries { scan with invalidEntries := scan.invalidEntries + 1 } entries
      | .ok state =>
          let marked ← if state.state = .readyToReboot then markedOperation else pure none
          scanEntries (scanRecord scan marked state) entries

/-- The order of the candidates: latest first, then by identifier. -/
def earlierCandidate (a b : OperationStateRecord) : Bool :=
  b.updatedAt < a.updatedAt || (b.updatedAt = a.updatedAt && a.operationId ≤ b.operationId)

/-- The operation that this boot is checked for. -/
def PendingScan.operation (scan : PendingScan) : Option OperationStateRecord :=
  (scan.candidates.insertionSort fun a b => earlierCandidate a b).head?

/-- `pending_operation`. -/
def pendingOperation : Prog Sig (Io PendingScan) := do
  match ← ask .listOperations with
  | .error e => return .error e
  | .ok entries => return .ok (← scanEntries {} entries)

/-! ## The check -/

/-- `verify_release`. -/
def verifyRelease (state : OperationStateRecord) (actual : ReleaseIdentity) :
    Except CheckFailure Unit :=
  if state.recovery.isSome then
    if actual ≠ state.source then .error .identity else .ok ()
  else if state.lastCompletedStep.any fun step => "rollback-".toList.isPrefixOf step.toList then
    .error .rollback
  else if state.target.any (actual ≠ ·) then .error .identity
  else .ok ()

/-- `verify_rollback_boot`: the snapshot is the one recorded, and the root that runs
and the default subvolume are the clone. -/
def verifyRollbackBoot (goal : RollbackGoal) : Prog Sig (Except CheckFailure Unit) := do
  match goal.bootSnapshot with
  | none => return .error .rollback
  | some expected =>
      match ← ask (.query (.inspectSubvolume (.snapshot goal.sourceSnapshotNumber))) with
      | .error _ => return .error .rollback
      | .ok source =>
          if source ≠ goal.sourceSnapshot then return .error .rollback
          match ← ask (.query (.inspectSubvolume .root)) with
          | .error _ => return .error .rollback
          | .ok root =>
              if root ≠ expected then return .error .rollback
              match ← ask (.query .defaultSubvolume) with
              | .error _ => return .error .rollback
              | .ok default => return if default = expected.id then .ok () else .error .rollback

/-- The probes of the running system, in their order. -/
def systemProbes : List (Probe × CheckFailure) :=
  [(.rpmDatabase, .rpmDatabase), (.dependencies, .dependencies), (.bootTarget, .bootTarget),
   (.failedUnits, .failedUnits), (.grub, .grub)]

def runProbes : List (Probe × CheckFailure) → Prog Sig (Except CheckFailure Unit)
  | [] => return .ok ()
  | (probe, failure) :: probes => do
      let passed : Bool ← ask (.query (.probe probe))
      if passed then runProbes probes else return .error failure

/-- The inventory after the boot is stored, and compared with the one before the
operation or with the confirmed plan. -/
def verifyInventory (ext : Externals) (state : OperationStateRecord) :
    Prog Sig (Except CheckFailure Unit) := do
  match ← ask (.query .captureInventory) with
  | .error _ => return .error .inventory
  | .ok report =>
      match ← ask (.writeInventory state.operationId .after report) with
      | .error _ => return .error .inventory
      | .ok () =>
          if state.recovery.isSome then
            match ← ask (.readInventory state.operationId .before) with
            | .error _ => return .error .inventory
            | .ok before =>
                return if before.installedPackages = report.installedPackages then .ok ()
                  else .error .inventory
          else
            match ← ask (.readPlan state.operationId) with
            | .error _ => return .error .inventory
            | .ok plan =>
                return if plan.sha256 ext.sha256 = state.planSha256 ∧ verifyResult plan report then
                  .ok () else .error .inventory

/-- The boot clone is checked when the record carries a goal. -/
def verifyRecovery (state : OperationStateRecord) : Prog Sig (Except CheckFailure Unit) :=
  match state.recovery with
  | some goal => verifyRollbackBoot goal
  | none => return .ok ()

/-- `verify`. -/
def verify (ext : Externals) (state : OperationStateRecord) :
    Prog Sig (Except CheckFailure Unit) := do
  match ← ask (.query .discoverHost) with
  | .error _ => return .error .discovery
  | .ok facts =>
      match verifyRelease state facts.release with
      | .error e => return .error e
      | .ok () =>
          match ← verifyRecovery state with
          | .error e => return .error e
          | .ok () =>
              if facts.rootFilesystem ≠ "btrfs" ∨ !facts.snapperRootConfigured then
                return .error .filesystem
              match ← runProbes systemProbes with
              | .error e => return .error e
              | .ok () => verifyInventory ext state

/-- The process `--check-boot`: it reads the record itself. -/
def checkBoot (ext : Externals) (operationId : String) :
    Prog Sig (Option CheckFailure) := do
  match ← ask (.load operationId) with
  | .error _ => return some .worker
  | .ok state =>
      match ← verify ext state with
      | .error e => return some e
      | .ok () => return none

/-- `bounded_status` of that process. -/
def supervisedCheck (ext : Externals) (operationId : String) : Prog Sig (Option CheckFailure) := do
  ask (.query (.supervise (← checkBoot ext operationId)))

/-- `CheckFailure::code`. -/
def CheckFailure.code : CheckFailure → String
  | discovery => "POST_BOOT_DISCOVERY_FAILED"
  | identity => "POST_BOOT_IDENTITY_FAILED"
  | filesystem => "POST_BOOT_FILESYSTEM_FAILED"
  | rpmDatabase => "POST_BOOT_RPM_DATABASE_FAILED"
  | dependencies => "POST_BOOT_DEPENDENCIES_FAILED"
  | bootTarget => "POST_BOOT_TARGET_NOT_ACTIVE"
  | failedUnits => "POST_BOOT_FAILED_UNITS"
  | grub => "POST_BOOT_GRUB_FAILED"
  | timeout => "POST_BOOT_VERIFICATION_TIMEOUT"
  | worker => "POST_BOOT_WORKER_FAILED"
  | rollback => "POST_BOOT_ROLLBACK_IDENTITY_FAILED"
  | inventory => "POST_BOOT_INVENTORY_FAILED"

/-! ## The result -/

/-- The content of a replay record. -/
def sequenceText (sequence : ℕ) : List Char := decimal sequence ++ ['\n']

/-- The steps that replace the replay record: create, write, sync, rename, sync. -/
def replaceSequence (sequence : ℕ) : Prog Sig (Io Unit) := do
  match ← ask .createTemporary with
  | .error e => return .error e
  | .ok () =>
      match ← ask (.writeTemporary (sequenceText sequence)) with
      | .error e => return .error e
      | .ok () =>
          match ← ask .syncTemporary with
          | .error e => return .error e
          | .ok () =>
              match ← ask .renameTemporary with
              | .error e => return .error e
              | .ok () => ask .syncDirectory

/-- `write_sequence`: the record never decreases. -/
def writeSequence (sequence : ℕ) : Prog Sig (Io Unit) := do
  match ← readLastManifestSequence with
  | .error _ => return .error ⟨⟩
  | .ok previous =>
      if previous.any (sequence < ·) then return .error ⟨⟩
      else replaceSequence sequence

/-- The record of a check that passed. -/
def completedRecord (state : OperationStateRecord) : OperationStateRecord :=
  { state with
    sequence := saturatingAdd state.sequence 1
    state := .completed
    bootVerification := some .passed
    lastCompletedStep :=
      some (if state.recovery.isSome then "rollback-verified" else "post-boot-verification")
    errorCode := none }

/-- The record of a check that failed, or that could not be recorded. -/
def recoveryRecord (state : OperationStateRecord) (code : String) : OperationStateRecord :=
  { state with
    sequence := saturatingAdd state.sequence 1
    state := .needsRecovery
    bootVerification := some .failed
    errorCode := some code }

/-- The manifest's sequence number is consumed; false if it could not be recorded. -/
def consumeSequence (operationId : String) : Prog Sig Bool := do
  match ← ask (.readManifestSequence operationId) with
  | none => return false
  | some sequence =>
      match ← writeSequence sequence with
      | .error _ => return false
      | .ok () => return true

/-- `finalize_verification`. -/
def finalizeVerification (state : OperationStateRecord) (passed : Bool) :
    Prog Sig OperationStateRecord := do
  if !passed then return recoveryRecord state "POST_BOOT_VERIFICATION_FAILED"
  if state.recovery.isNone && state.operation.isSignedOffline then
    if ← consumeSequence state.operationId then return completedRecord state
    return recoveryRecord state "MANIFEST_SEQUENCE_PERSIST_FAILED"
  return completedRecord state

/-- The record of an operation that a boot found unfinished. -/
def interruptedRecord (state : OperationStateRecord) : OperationStateRecord :=
  { state with
    state := (interruptedState state.state).getD state.state
    sequence := saturatingAdd state.sequence 1
    errorCode := some "OPERATION_INTERRUPTED" }

/-- Persist every interrupted record; false if one could not be. -/
def closeInterrupted : List OperationStateRecord → Prog Sig Bool
  | [] => return true
  | state :: states => do
      match ← ask (.save (interruptedRecord state)) with
      | .error _ => return false
      | .ok () => closeInterrupted states

/-- Check the selected operation and persist the result.  The exit code is that of a
failure if anything else was incomplete. -/
def verifySelected (ext : Externals) (incomplete : Bool) (state : OperationStateRecord) :
    Prog Sig ℕ := do
  match ← ask (.save state) with
  | .error _ => return 1
  | .ok () =>
      let failure ← supervisedCheck ext state.operationId
      let result ← finalizeVerification state failure.isNone
      let result := match failure with
        | some error => { result with errorCode := some error.code }
        | none => result
      match ← ask (.save result) with
      | .error _ => return 1
      | .ok () => return if result.state ≠ .completed ∨ incomplete then 1 else 0

/-- The record of the selected operation, on its way to be checked; `none` where the
source panics. -/
def enterVerification (state : OperationStateRecord) : Option OperationStateRecord :=
  if state.state = .awaitingReboot then (state.transitionTo .verifyingBoot).toOption
  else some state

/-- The verifier, with the transaction lock. -/
def verifyBoot (ext : Externals) : Prog Sig ℕ := do
  match ← pendingOperation with
  | .error _ => return 1
  | .ok scan =>
      if !(← closeInterrupted scan.interrupted) then return 1
      let incomplete := scan.invalidEntries ≠ 0 || !scan.interrupted.isEmpty
      match scan.operation with
      | none => return if incomplete then 1 else 0
      | some state =>
          match enterVerification state with
          | none => return 101
          | some state => verifySelected ext incomplete state

/-- `main` of the boot verifier. -/
def verifierMain (ext : Externals) : Prog Sig Exit := do
  match ← ask .acquireLock with
  | .error _ => return .verifier 1
  | .ok () =>
      let code ← verifyBoot ext
      ask .releaseLock
      return .verifier code

end LyraUpgrade
