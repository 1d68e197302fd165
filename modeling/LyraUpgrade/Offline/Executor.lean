import LyraUpgrade.Service.Requests

/-!
# The offline executor

`offline/src/main.rs` and `offline/src/request.rs`: the program that
`system-update.target` starts.  It decides whether `/system-update` is Lyra's,
takes the transaction lock, authenticates what staging left behind, applies the
transaction, and removes the marker; on any failure it records that the operation
needs recovery and removes the marker as well, so that the machine can boot.

The record in memory is the state of an `Offline` program.
-/

namespace LyraUpgrade

open Interaction

/-! ## The marker -/

/-- `request::resolve`: the operation the marker names, if it is Lyra's. -/
def resolve : Prog Sig (Except String (Option String)) := do
  match ← ask .readMarker with
  | .error _ => return .error "cannot read offline update marker"
  | .ok .absent => return .ok none
  | .ok .foreign => return .ok none
  | .ok .invalid => return .error "cannot resolve Lyra offline operation"
  | .ok (.operation operationId) =>
      let present : Bool ← ask (.directoryExists operationId)
      return if present then .ok (some operationId)
        else .error "cannot resolve Lyra offline operation"

/-- `request::require_current`. -/
def requireCurrent (operationId : String) : Prog Sig (Except String Unit) := do
  match ← resolve with
  | .error e => return .error e
  | .ok owner => return if owner = some operationId then .ok ()
      else .error "offline update marker no longer belongs to this Lyra operation"

/-- `request::remove_current`. -/
def removeCurrent (operationId : String) : Prog Sig (Except String Unit) := do
  match ← requireCurrent operationId with
  | .error e => return .error e
  | .ok () =>
      match ← ask .unlinkMarker with
      | .error _ => return .error "cannot remove Lyra offline marker"
      | .ok () => return .ok ()

/-! ## Applying -/

abbrev Offline := ExceptT String (StateT OperationStateRecord (Prog Sig))

/-- A failing read or write of an offline program. -/
def offlineIo {ε α : Type} (p : Prog Sig (Except ε α)) (message : String) : Offline α :=
  attempt p fun _ => message

/-- `prepare_offline_state`; the record is only changed on success. -/
def prepareOfflineState (state : OperationStateRecord) : Except String OperationStateRecord :=
  if state.state ≠ .readyToReboot ∨ state.snapshotNumber.isNone then
    .error "operation is not ready for offline application"
  else match state.transitionTo .applyingOffline with
    | .ok state => .ok state
    | .error _ => .error "invalid offline transition"

/-- A command that must succeed, for the operation. -/
def offlineRequired (operationId : String) (command : Command) (message : String) :
    Offline Output := do
  let output ← perform (ask (.run operationId command))
  if output.success then return output else throw message

section

variable (ext : Externals) (operationId : String)

/-- The staged files belong to the record, and the signed manifest is still good. -/
def authenticate : Offline (ReleaseManifest × UpgradePlan) := do
  let manifest ← offlineIo (ask (.readManifest operationId)) "cannot read manifest"
  let plan ← offlineIo (ask (.readPlan operationId)) "cannot read plan"
  let state ← get
  failIf (state.operation ≠ manifest.operation ∨ state.target ≠ some manifest.target ∨
    plan.sha256 ext.sha256 ≠ state.planSha256) "persisted plan hash mismatch"
  failIf (state.manifestSha256 ≠ some (manifest.sha256 ext.sha256))
    "persisted manifest hash mismatch"
  let lastSequence ← offlineIo readLastManifestSequence "invalid manifest replay record"
  let channel ← offlineIo (ask (.query .releaseChannel)) "invalid release channel"
  let document ← offlineIo (ask (.readSigned operationId)) "offline manifest authentication failed"
  let verified ← offlineIo (verifyManifestFiles ext document state.source lastSequence channel)
    "offline manifest authentication failed"
  failIf (verified ≠ manifest) "signed manifest differs from staged plan"
  return (manifest, plan)

/-- `revalidate_plan`: solve again on the staged repositories, and hold the result
to the confirmed plan. -/
def revalidatePlan (manifest : ReleaseManifest) (plan : UpgradePlan) : Offline Unit := do
  let expectedHash := (← get).planSha256
  orFail (checkConfirmedReleasePlan ext.sha256 manifest plan expectedHash)
    fun _ => "offline confirmed policy blocked"
  let arguments ← orFail (transactionArguments manifest plan.installedPackages .plan)
    fun _ => "offline migration policy failed"
  let dryRun ← offlineRequired operationId (.transaction .plan arguments) "offline dry-run failed"
  let (facts, solver) ← offlineIo (ask (.query (.stagedSolver operationId manifest
    dryRun.stdout))) "offline discovery failed"
  orFail (revalidateReleasePlan ext.sha256 facts solver manifest plan expectedHash)
    fun _ => "offline plan blocked"

/-- The transaction on the staged repositories. -/
def applyTransaction (manifest : ReleaseManifest) (plan : UpgradePlan) : Offline Unit := do
  offlineIo (checkPayloads operationId manifest plan.installedPackages)
    "offline payload authentication failed"
  let arguments ← orFail (transactionArguments manifest plan.installedPackages .apply)
    fun _ => "offline migration policy failed"
  let output ← perform (ask (.run operationId (.transaction .apply arguments)))
  failIf (output.code ≠ some 0 ∧ output.code ≠ some 102) "zypper transaction failed"

/-- The repositories of the new release replace the ones the system came with. -/
def publishTarget (manifest : ReleaseManifest) : Offline Unit :=
  if manifest.packageMigration.isNone then
    offlineIo (ask (.query (.publishRepositories operationId manifest)))
      "repository staging or backup failed"
  else pure ()

/-- A release always needs new boot files, a migration when it touches them. -/
def rebuildTargetBoot (needed : Bool) : Offline Unit :=
  if needed then do
    let _ ← offlineRequired operationId .dracut "dracut failed"
    let _ ← offlineRequired operationId .grubMkconfig "grub2-mkconfig failed"
  else pure ()

/-- A migration is compared with the confirmed plan at once. -/
def verifyMigration (manifest : ReleaseManifest) (plan : UpgradePlan) : Offline Unit :=
  if manifest.packageMigration.isSome then do
    let report ← offlineIo (ask (.query .captureInventory)) "inventory"
    failIf (!verifyResult plan report) "installed packages differ from confirmed plan"
    offlineIo (ask (.writeInventory operationId .after report)) "inventory"
  else pure ()

/-- What must follow the transaction. -/
def completeTransaction (manifest : ReleaseManifest) (plan : UpgradePlan) : Offline Unit := do
  publishTarget operationId manifest
  rebuildTargetBoot operationId (manifest.packageMigration.isNone || touchesBoot plan.packageChanges)
  verifyMigration operationId manifest plan

/-- `run` after the record has been loaded and prepared. -/
def runPrepared : Offline Unit := do
  let (manifest, plan) ← authenticate ext operationId
  offlineIo (ask (.save (← get))) "cannot persist offline state"
  revalidatePlan ext operationId manifest plan
  applyTransaction operationId manifest plan
  completeTransaction operationId manifest plan
  let state ← orFail ((← get).transitionTo .awaitingReboot) fun _ => "invalid post-apply transition"
  set { state with lastCompletedStep := some "offline-apply" }
  offlineIo (ask (.save (← get))) "cannot persist result"
  offlineIo (removeCurrent operationId) "cannot remove Lyra offline marker"

/-- `run`. -/
def runOffline : Prog Sig (Except String Unit) := do
  match ← requireCurrent operationId with
  | .error e => return .error e
  | .ok () =>
      match ← ask (.load operationId) with
      | .error _ => return .error "cannot load operation state"
      | .ok state =>
          match prepareOfflineState state with
          | .error e => return .error e
          | .ok state =>
              let (result, _) ← (runPrepared ext operationId).run.run state
              return result

/-! ## Failure and reboot -/

/-- The record of a failed offline run. -/
def offlineFailureRecord (state : OperationStateRecord) : OperationStateRecord :=
  { state with
    state := .needsRecovery
    errorCode := some "OFFLINE_APPLY_FAILED"
    sequence := saturatingAdd state.sequence 1 }

/-- `mark_recovery`. -/
def markRecovery : Prog Sig (Except String Unit) := do
  match ← requireCurrent operationId with
  | .error e => return .error e
  | .ok () =>
      match ← ask (.load operationId) with
      | .error _ => removeCurrent operationId
      | .ok state =>
          match ← ask (.save (offlineFailureRecord state)) with
          | .error _ => return .error "cannot persist recovery state"
          | .ok () => removeCurrent operationId

/-- `reboot_after_cleanup`: never reboot while a request is there. -/
def rebootAfterCleanup : Prog Sig (Except String Unit) := do
  match ← ask .readMarker with
  | .ok .absent =>
      let output ← ask (.run operationId .reboot)
      return if output.success then .ok () else .error "systemctl reboot failed"
  | .ok _ => return .error "offline update marker remains; refusing to reboot"
  | .error _ => return .error "cannot check offline marker before reboot"

/-- `finish_owned_operation`. -/
def finishOwnedOperation (reboot : Bool) (result : Except String Unit) :
    Prog Sig (Except String Unit) := do
  let cleanup ← match result with
    | .ok () => pure (.ok ())
    | .error _ => markRecovery operationId
  match cleanup with
  | .error e => return .error e
  | .ok () =>
      let rebooted ← if reboot then rebootAfterCleanup operationId else pure (.ok ())
      match rebooted with
      | .error e => return .error e
      | .ok () => return result

end

/-- `main` of the offline executor, with its `--reboot` option. -/
def offlineMain (ext : Externals) (reboot : Bool) : Prog Sig Exit := do
  match ← resolve with
  | .error _ => return .offline (.error ())
  | .ok none => return .offline (.ok ())
  | .ok (some operationId) =>
      match ← ask .acquireLock with
      | .error _ => return .offline (.error ())
      | .ok () =>
          let result ← runOffline ext operationId
          let finished ← finishOwnedOperation operationId reboot result
          ask .releaseLock
          return .offline (finished.mapError fun _ => ())

end LyraUpgrade
