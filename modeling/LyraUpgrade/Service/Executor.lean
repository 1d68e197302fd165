import LyraUpgrade.System.Effect

/-!
# The workers

`service/src/executor.rs`: the two workers that carry out a confirmed operation, an
update of the installed release and the staging of a signed operation.  Both run
with the record in memory (`&mut OperationStateRecord`) and write it back at every
state change; a failure leaves the record as it was when the failing step had
changed it.

A worker is a sequence of stages, each a definition of its own: preparing,
downloading, the snapshot (shared), and applying or staging.  What the stages do to
the record and the file system is stated in `LyraUpgrade.Service.Protocol`.
-/

namespace LyraUpgrade

open Interaction

/-- `ExecutionError`, without the captured output of the failing command. -/
inductive ExecutionError
  | planChanged
  | refresh
  | replan (error : PlannerError)
  | download
  | snapshot
  | invalidSnapshot
  | persist (error : PersistenceError)
  | apply
  | packageManagerRestart
  | initramfs
  | grub
  | transition (error : TransitionError)
  | stage
  | systemUpdateExists
  | busy
  | cancelled
  | repositoryKey
  | inventory
  deriving DecidableEq, Repr

namespace ExecutionError

def code : ExecutionError → String
  | planChanged => "PLAN_CHANGED"
  | refresh => "METADATA_REFRESH_FAILED"
  | replan _ => "PLAN_REVALIDATION_FAILED"
  | download => "DOWNLOAD_FAILED"
  | snapshot | invalidSnapshot => "SNAPSHOT_FAILED"
  | persist _ => "STATE_WRITE_FAILED"
  | apply => "ZYPPER_APPLY_FAILED"
  | packageManagerRestart => "ZYPPER_RESTART_REQUIRED"
  | initramfs => "INITRAMFS_FAILED"
  | grub => "BOOTLOADER_FAILED"
  | transition _ => "INVALID_STATE_TRANSITION"
  | stage => "OFFLINE_STAGE_FAILED"
  | systemUpdateExists => "SYSTEM_UPDATE_BUSY"
  | busy => "TRANSACTION_BUSY"
  | cancelled => "CANCELLED"
  | repositoryKey => "REPOSITORY_KEY_FAILED"
  | inventory => "PACKAGE_PRESERVATION_FAILED"

def isBlocking : ExecutionError → Bool
  | planChanged | refresh | replan _ | download | busy | repositoryKey => true
  | _ => false

end ExecutionError

/-- `failure_state`: the snapshot decides, before it the kind of error. -/
def failureState (error : ExecutionError) (hasSnapshot : Bool) : OperationState :=
  if error.isBlocking && !hasSnapshot then .blocked
  else if hasSnapshot then .needsRecovery
  else .failed

structure ExecutionOutcome where
  rebootRequired : Bool
  packageManagerRestart : Bool
  deriving DecidableEq, Repr

/-- `classify_apply_exit`; `ok` are the exits after which the packages are changed. -/
def classifyApplyExit (code : Option ℤ) : Except ExecutionError Unit :=
  if code = some 0 ∨ code = some 102 then .ok ()
  else if code = some 103 then .error .packageManagerRestart
  else .error .apply

/-- `parse_snapshot_number`: the last line that is a number, if it is positive. -/
def parseSnapshotNumber (stdout : List Char) : Except ExecutionError ℕ :=
  match (lines stdout).reverse.findSome? fun line => parseU64 (trim line) with
  | some number => if 0 < number then .ok number else .error .invalidSnapshot
  | none => .error .invalidSnapshot

/-- A change of this package makes a new initramfs and boot menu necessary. -/
def touchesBoot (changes : List PackageChange) : Bool :=
  changes.any fun change => "kernel-".toList.isPrefixOf change.name.toList ||
    change.name = "dracut" || change.name = "shim" || change.name = "grub2" ||
    change.name = "grub2-x86_64-efi"

/-- `verify_result` of `service/src/inventory.rs`: which identities are required
and which are allowed after the changes, from left to right. -/
def expectedInventory : List PackageChange → List InstalledPackage × List InstalledPackage →
    Option (List InstalledPackage × List InstalledPackage)
  | [], sets => some sets
  | change :: changes, (required, allowed) =>
      let removed : Option (List InstalledPackage × List InstalledPackage) :=
        match change.currentVersion with
        | none => some (required, allowed)
        | some version =>
            change.currentVendor.bind fun vendor =>
              let previous : InstalledPackage := ⟨change.name, version, change.architecture, vendor⟩
              if previous ∈ required then
                some (required.filter (· ≠ previous),
                  if change.action = .remove then allowed.filter (· ≠ previous) else allowed)
              else none
      let added : Option (List InstalledPackage × List InstalledPackage) :=
        removed.bind fun (required, allowed) =>
          match change.proposedVersion with
          | none => some (required, allowed)
          | some version =>
              change.proposedVendor.map fun vendor =>
                let proposed : InstalledPackage :=
                  ⟨change.name, version, change.architecture, vendor⟩
                (proposed :: required, proposed :: allowed)
      added.bind (expectedInventory changes)

/-- `verify_result`. -/
def verifyResult (plan : UpgradePlan) (report : InventoryReport) : Bool :=
  plan.schemaVersion = 3 && !plan.installedPackages.isEmpty &&
  match expectedInventory plan.packageChanges (plan.installedPackages, plan.installedPackages) with
  | none => false
  | some (required, allowed) =>
      let actual := report.installedPackages
      !(plan.operation = .packageMigration && !actual.all (· ∈ required)) &&
      required.all (· ∈ actual) && actual.all (· ∈ allowed)

/-! ## Programs of a worker -/

/-- A worker: it may fail, and it carries the record. -/
abbrev Worker := ExceptT ExecutionError (StateT OperationStateRecord (Prog Sig))

/-- `require_success` of a command run for an operation. -/
def runRequired (operationId : String) (command : Command) (error : ExecutionError) :
    Worker Output := do
  let output ← perform (ask (.run operationId command))
  if output.success then return output else throw error

/-- `state.transition_to(next)`. -/
def transition (next : OperationState) : Worker Unit := do
  set (← orFail ((← get).transitionTo next) .transition)

/-- `save_state`, with the record in memory. -/
def saveRecord : Worker Unit := do attempt (ask (.save (← get))) .persist

/-- `persist`: save, then report the state. -/
def persist : Worker Unit := do
  saveRecord
  let state ← get
  perform (ask (.stateChanged state.operationId state.state))

/-- The two steps of every state change. -/
def advanceTo (next : OperationState) : Worker Unit := do
  transition next
  persist

def cancelledCode : String := "CANCELLED"

/-- The record on disk says that the operation was cancelled. -/
def isCancelled : Except PersistenceError OperationStateRecord → Bool
  | .ok saved => saved.errorCode = some cancelledCode
  | .error _ => false

/-- `Observer::cancel_requested`, and the failure it leads to. -/
def pollCancel (operationId : String) : Worker Unit := do
  let answer ← perform (ask (.load operationId))
  failIf (isCancelled answer) .cancelled

/-- `TransactionLock::acquire` with the guard that releases the lock when the
worker leaves its body, on any path. -/
def withTransactionLock {α : Type} (body : Worker α) : Worker α :=
  ExceptT.mk fun state => do
    match ← ask .acquireLock with
    | .error .busy => pure (.error .busy, state)
    | .error .io => pure (.error .stage, state)
    | .ok () =>
        let result ← body.run.run state
        ask .releaseLock
        pure result

/-- Capture the inventory and store it. -/
def recordInventory (operationId : String) (kind : InventoryKind) (error : ExecutionError) :
    Worker InventoryReport := do
  let report ← attempt (ask (.query .captureInventory)) fun _ => error
  attempt (ask (.writeInventory operationId kind report)) fun _ => .stage
  return report

/-- The snapshot before the packages are changed: the state is written first, the
number when it is known. -/
def takeSnapshot (operationId : String) (description : String) : Worker Unit := do
  advanceTo .snapshotting
  let output ← runRequired operationId (.createSnapshot description) .snapshot
  let number ← orFail (parseSnapshotNumber output.stdout) id
  set { (← get) with snapshotNumber := some number }
  saveRecord

/-! ## Updating the installed release -/

/-- `plan_update_with_cached_metadata`. -/
def planUpdate (digest : List Char → String) : Prog Sig (Except PlannerError PlannedUpdate) := do
  match ← ask (.query .simulateUpdate) with
  | .error e => return .error e
  | .ok (facts, solver) => return planWithinRelease digest facts solver

section

variable (digest : List Char → String) (operationId : String) (confirmed : PlannedUpdate)

/-- Refresh, plan again, download, and plan once more: another package tool may
have changed the host in the meantime. -/
def downloadUpdate : Worker PlannedUpdate := do
  advanceTo .downloading
  let _ ← runRequired operationId .refresh .refresh
  pollCancel operationId
  let fresh ← attempt (planUpdate digest) .replan
  failIf (fresh.planSha256 ≠ confirmed.planSha256) .planChanged
  let _ ← runRequired operationId (.update .download) .download
  pollCancel operationId
  let current ← attempt (planUpdate digest) .replan
  failIf ({ current.plan with requiredBytes := confirmed.plan.requiredBytes }.sha256 digest ≠
    confirmed.planSha256) .planChanged
  return fresh

/-- The initramfs and the boot menu, if the changes make them necessary. -/
def rebuildBoot (needed : Bool) : Worker Unit :=
  if needed then do
    let _ ← runRequired operationId .dracut .initramfs
    let _ ← runRequired operationId .grubMkconfig .grub
  else pure ()

/-- The package transaction and the steps that must follow it. -/
def applyUpdate (fresh : PlannedUpdate) : Worker ExecutionOutcome := do
  advanceTo .applying
  let output ← perform (ask (.run operationId (.update .apply)))
  orFail (classifyApplyExit output.code) id
  rebuildBoot operationId (touchesBoot fresh.solver.changes)
  let rebootRequired :=
    fresh.solver.rebootRequired || output.code = some 102 || touchesBoot fresh.solver.changes
  let report ← recordInventory operationId .after .inventory
  failIf (!verifyResult confirmed.plan report) .inventory
  advanceTo (if rebootRequired then .awaitingReboot else .completed)
  return { rebootRequired := rebootRequired, packageManagerRestart := false }

/-- `execute_update`. -/
def executeUpdate : Worker ExecutionOutcome := withTransactionLock do
  attempt (ask (.writePlan operationId confirmed.plan)) fun _ => .stage
  let _ ← recordInventory operationId .before .stage
  let fresh ← downloadUpdate digest operationId confirmed
  takeSnapshot operationId "Lyra Upgrade"
  applyUpdate operationId confirmed fresh

end

/-! ## Staging a signed operation -/

/-- The programs and libraries outside the repository that decide something. -/
structure Externals where
  /-- SHA-256 of a text, in lower-case hexadecimal. -/
  sha256 : List Char → String
  /-- The URL parser's part of `valid_https_url`. -/
  acceptsUrl : String → Bool
  /-- The JSON parser on a signed document. -/
  parseManifest : List Char → Option ReleaseManifest
  /-- The RFC 3339 parser, in any unit of time. -/
  parseTime : String → Option ℤ

/-- `CARGO_PKG_VERSION`. -/
def updaterVersion : String := "0.2.9"

/-- `validate_time_at`. -/
def validateTimeAt (ext : Externals) (manifest : ReleaseManifest) (now : ℤ) :
    Except FetchError Unit :=
  match ext.parseTime manifest.validFrom, ext.parseTime manifest.validUntil with
  | some validFrom, some validUntil =>
      if validFrom ≥ validUntil then .error .invalidTime
      else if now < validFrom then .error .notYetValid
      else if now ≥ validUntil then .error .expired
      else .ok ()
  | _, _ => .error .invalidTime

/-- `validate_time`. -/
def validateTime (ext : Externals) (manifest : ReleaseManifest) :
    Prog Sig (Except FetchError Unit) := do
  return validateTimeAt ext manifest (← ask (.query .utcNow))

/-- `read_last_manifest_sequence`, on the content of the file: at most 32 bytes, one
number of decimal digits, positive. -/
def parseLastSequence : Option (List Char) → Except FetchError (Option ℕ)
  | none => .ok none
  | some text =>
      if 32 < (String.ofList text).utf8ByteSize then .error .tooLarge
      else
        let digits := if text.getLast? = some '\n' then text.dropLast else text
        match parseDigits digits with
        | some value => if 0 < value then .ok (some value) else .error .invalidSequence
        | none => .error .invalidSequence

/-- `read_last_manifest_sequence`. -/
def readLastManifestSequence : Prog Sig (Except FetchError (Option ℕ)) := do
  match ← ask .readSequence with
  | .error _ => return .error .io
  | .ok text => return parseLastSequence text

/-- `verify_manifest_files`, on the bytes read: signature, syntax, route, time. -/
def verifyManifestFiles (ext : Externals) (document : SignedDocument)
    (installed : ReleaseIdentity) (lastSequence : Option ℕ) (channel : ManifestChannelPolicy) :
    Prog Sig (Except FetchError ReleaseManifest) := do
  match ← ask (.query (.verifySignature document)) with
  | .error e => return .error e
  | .ok () =>
      match ext.parseManifest document.document with
      | none => return .error .json
      | some manifest =>
          match validateManifestRoute ext.acceptsUrl manifest installed lastSequence
              updaterVersion channel with
          | .error e => return .error (.route e)
          | .ok () =>
              match ← validateTime ext manifest with
              | .error e => return .error e
              | .ok () => return .ok manifest

/-- Fetch the key of each repository in turn. -/
def fetchRepositoryKeys : List RepositoryTransition → Prog Sig (Except FetchError Unit)
  | [] => return .ok ()
  | repository :: repositories => do
      match ← ask (.query (.repositoryKey repository)) with
      | .error e => return .error e
      | .ok () => fetchRepositoryKeys repositories

/-- `fetch_verified_manifest`. -/
def fetchVerifiedManifest (ext : Externals) (installed : ReleaseIdentity)
    (lastSequence : Option ℕ) (channel : ManifestChannelPolicy) :
    Prog Sig (Except FetchError (ReleaseManifest × SignedDocument)) := do
  match ← ask (.query (.downloadManifest channel)) with
  | .error e => return .error e
  | .ok document =>
      match ← verifyManifestFiles ext document installed lastSequence channel with
      | .error e => return .error e
      | .ok manifest =>
          match ← fetchRepositoryKeys manifest.repositories with
          | .error e => return .error e
          | .ok () => return .ok (manifest, document)

/-- `verify_payloads`, with the walk over the cache. -/
def checkPayloads (operationId : String) (manifest : ReleaseManifest)
    (installed : List InstalledPackage) : Prog Sig (Io Unit) := do
  if manifest.packageMigration.isNone then return .ok ()
  match ← ask (.query (.cachedPayloads operationId)) with
  | .error e => return .error e
  | .ok digests =>
      return if verifyPayloads manifest installed digests then .ok () else .error ⟨⟩

/-- `revalidation_error`. -/
def revalidationError : PlannerError → ExecutionError
  | .planChanged => .planChanged
  | e => .replan e

section

variable (ext : Externals) (operationId : String) (confirmed : PlannedUpdate)
variable (manifest : ReleaseManifest)

/-- `revalidate_staged_solver`. -/
def revalidateStagedSolver (xml : List Char) : Worker Unit := do
  let expectedHash := (← get).planSha256
  let (facts, solver) ← attempt (ask (.query (.stagedSolver operationId manifest xml)))
    revalidationError
  orFail (revalidateReleasePlan ext.sha256 facts solver manifest confirmed.plan expectedHash)
    revalidationError

/-- Record, confirmation and the manifest as it is signed now belong together. -/
def confirmRelease : Worker SignedDocument := do
  let state ← get
  failIf (state.operation ≠ manifest.operation ∨ confirmed.plan.target ≠ some manifest.target ∨
    confirmed.plan.manifestSha256 ≠ state.manifestSha256) .planChanged
  orFail (checkConfirmedReleasePlan ext.sha256 manifest confirmed.plan state.planSha256)
    revalidationError
  let lastSequence ← attempt readLastManifestSequence fun _ => .repositoryKey
  let channel ← attempt (ask (.query .releaseChannel)) fun _ => .repositoryKey
  let (verified, document) ←
    attempt (fetchVerifiedManifest ext state.source lastSequence channel) fun _ => .repositoryKey
  failIf (verified ≠ manifest) .planChanged
  return document

/-- Write everything the offline executor will read. -/
def prepareRelease (document : SignedDocument) : Worker Unit := do
  let _ ← recordInventory operationId .before .stage
  attempt (ask (.writeSigned operationId document)) fun _ => .stage
  attempt (ask (.query (.stageFiles operationId))) fun _ => .stage
  attempt (fetchRepositoryKeys manifest.repositories) fun _ => .repositoryKey
  attempt (ask (.query (.stageFiles operationId))) fun _ => .stage
  attempt (ask (.writeManifest operationId manifest)) fun _ => .stage
  attempt (ask (.writePlan operationId confirmed.plan)) fun _ => .stage

/-- `transaction_arguments` for the staged repositories. -/
def stagedTransaction (mode : TransactionMode) : Worker Command := do
  let arguments ← orFail (transactionArguments manifest confirmed.plan.installedPackages mode)
    fun e => .replan (.migration e)
  return .transaction mode arguments

/-- Solve on the staged repositories, download, and hold both results to the plan. -/
def downloadRelease : Worker Unit := do
  advanceTo .downloading
  let _ ← runRequired operationId .refresh .refresh
  pollCancel operationId
  let dryRun ← runRequired operationId (← stagedTransaction confirmed manifest .plan) .download
  revalidateStagedSolver ext operationId confirmed manifest dryRun.stdout
  pollCancel operationId
  let download ← runRequired operationId (← stagedTransaction confirmed manifest .download)
    .download
  revalidateStagedSolver ext operationId confirmed manifest download.stdout
  pollCancel operationId
  attempt (checkPayloads operationId manifest confirmed.plan.installedPackages) fun _ => .stage
  attempt (validateTime ext manifest) fun _ => .repositoryKey

/-- `stage_system_update`: only an absent marker is replaced. -/
def stageSystemUpdate : Worker Unit := do
  match ← attempt (ask .readMarker) fun _ => .stage with
  | .operation other => failIf (other ≠ operationId) .systemUpdateExists
  | .absent => attempt (ask (.linkMarker operationId)) fun _ => .stage
  | .foreign | .invalid => throw .systemUpdateExists

/-- `stage_release_upgrade`. -/
def stageReleaseUpgrade : Worker ExecutionOutcome := withTransactionLock do
  let document ← confirmRelease ext confirmed manifest
  prepareRelease operationId confirmed manifest document
  downloadRelease ext operationId confirmed manifest
  takeSnapshot operationId "Lyra release upgrade"
  stageSystemUpdate operationId
  advanceTo .readyToReboot
  return { rebootRequired := true, packageManagerRestart := false }

end

end LyraUpgrade
