import LyraUpgrade.Interaction.Schedule
import LyraUpgrade.System.World
import LyraUpgrade.Service.Executor

/-!
# The file system as a function

`World.reply` answers an operation when nothing fails, from an oracle for what is not
part of the world; `simulation` is the strategy it makes.  Runs on concrete inputs are
computed with it.
-/

namespace LyraUpgrade

open Interaction

/-- What the world does not determine. -/
structure Oracle where
  query : (q : Query) → q.Answer
  run : Command → Output
  /-- The entries of the state root. -/
  entries : List Entry

namespace World

variable (oracle : Oracle) (i : ℕ)

/-- A write that succeeds. -/
def written (w : World) : Io Unit × World := (.ok (), w)

/-- A write that fails. -/
def refused (w : World) : Io Unit × World := (.error ⟨⟩, w)

/-- The answer to an operation of process `i`, and the world after it. -/
def reply : (e : Op) → World → e.Answer × World
  | .query (.supervise answer), w => (answer, w)
  | .query q, w => (oracle.query q, w)
  | .run _ command, w => (oracle.run command, w)
  | .respond _, w | .stateChanged _ _, w => ((), w)
  | .acquireLock, w =>
      match w.lock with
      | none => (.ok (), { w with lock := some i })
      | some _ => (.error .busy, w)
  | .releaseLock, w => ((), if w.lock = some i then { w with lock := none } else w)
  | .load id, w => (loadState (w.state id) id, w)
  | .save s, w =>
      match checkSave s with
      | .error e => (.error e, w)
      | .ok () => (.ok (), w.putState s)
  | .listOperations, w => (.ok oracle.entries, w)
  | .directoryExists id, w => ((w.operations id).present, w)
  | .readOwner id, w => ((w.operations id).owner, w)
  | .writeOwner id uid, w =>
      if (w.operations id).owner.isSome then refused w
      else written (w.modify id fun d => { d with owner := some uid })
  | .readPending id, w => (optionToIo (w.operations id).pending, w)
  | .writePending id plan, w => written (w.modify id fun d => { d with pending := some plan })
  | .readPlan id, w => (optionToIo (w.operations id).plan, w)
  | .writePlan id plan, w => written (w.modify id fun d => { d with plan := some plan })
  | .readManifest id, w => ((w.operations id).manifest.read, w)
  | .readManifestSequence id, w => ((w.operations id).manifest.sequence?, w)
  | .writeManifest id manifest, w =>
      written (w.modify id fun d => { d with manifest := .manifest manifest })
  | .readSigned id, w => (optionToIo (w.operations id).signed, w)
  | .writeSigned id document, w => written (w.modify id fun d => { d with signed := some document })
  | .readInventory id kind, w => (optionToIo ((w.operations id).inventory kind), w)
  | .writeInventory id kind report, w => written (w.modify id fun d =>
      { d with inventory := Function.update d.inventory kind (some report) })
  | .readMarker, w => (.ok w.marker, w)
  | .linkMarker id, w =>
      if w.marker = .absent then written { w with marker := .operation id } else refused w
  | .unlinkMarker, w =>
      if w.marker = .absent then refused w else written { w with marker := .absent }
  | .readSequence, w => (.ok w.sequence, w)
  | .createTemporary, w =>
      if w.temporary.isSome then refused w else written { w with temporary := some [] }
  | .writeTemporary text, w => written { w with temporary := w.temporary.map fun _ => text }
  | .syncTemporary, w | .syncDirectory, w => written w
  | .renameTemporary, w =>
      match w.temporary with
      | none => refused w
      | some text => written { w with sequence := some text, temporary := none }

variable {oracle} {i}

theorem writes_written {faults : Bool} {w target : World} :
    Writes faults w target (written target).1 (written target).2 := .inl ⟨rfl, rfl⟩

/-- Every reply is an answer of the system, with or without failures.  The listing of the
state root is the oracle's, and may be wrong. -/
theorem exec_reply_of_ne (faults : Bool) (e : Op) (w : World) (hlist : e ≠ .listOperations) :
    exec faults i e w (reply oracle i e w).1 (reply oracle i e w).2 := by
  cases e with
  | query q => cases q <;> first | rfl | exact ⟨rfl, .inl rfl⟩
  | run | respond | stateChanged | releaseLock => rfl
  | acquireLock =>
      cases hlock : w.lock with
      | none => simp only [reply, hlock]; exact .inl ⟨hlock, rfl, rfl⟩
      | some j => simp only [reply, hlock]; exact .inr (.inl ⟨by simp [hlock], rfl, rfl⟩)
  | load => exact ⟨rfl, .inl rfl⟩
  | save s =>
      cases hcheck : checkSave s with
      | error e => simp only [reply, hcheck]; exact .inl ⟨e, hcheck, rfl, rfl⟩
      | ok u => simp only [reply, hcheck]; exact .inr ⟨hcheck, .inl ⟨rfl, rfl⟩⟩
  | listOperations => exact absurd rfl hlist
  | directoryExists => exact ⟨rfl, rfl⟩
  | readOwner | readManifestSequence | readPending | readPlan | readManifest | readSigned
  | readInventory | readMarker | readSequence => exact ⟨rfl, .inl rfl⟩
  | writePending | writePlan | writeManifest | writeSigned | writeInventory | syncTemporary
  | syncDirectory => exact writes_written
  | writeTemporary => exact .inl ⟨rfl, rfl⟩
  | writeOwner | linkMarker | unlinkMarker | createTemporary =>
      simp only [exec, reply]
      split_ifs
      · first | exact writes_written | exact ⟨rfl, rfl⟩
      · first | exact writes_written | exact ⟨rfl, rfl⟩
  | renameTemporary =>
      cases htemporary : w.temporary with
      | none => simp only [exec, reply, htemporary]; exact ⟨rfl, rfl⟩
      | some text => simp only [exec, reply, htemporary]; exact writes_written

theorem exec_reply (e : Op) (w : World) :
    exec true i e w (reply oracle i e w).1 (reply oracle i e w).2 := by
  by_cases hlist : e = .listOperations
  · subst hlist
    exact ⟨rfl, .inr ⟨rfl, .inr ⟨_, rfl⟩⟩⟩
  · exact exec_reply_of_ne true e w hlist

end World

/-- The system without failures, with the oracle's answers. -/
def simulation (oracle : Oracle) : Strategy (system true) where
  answer := fun i e w => World.reply oracle i e w
  sound := fun _ e w => World.exec_reply e w
  crash := fun w => { w with lock := none }
  crash_sound := fun w => ⟨w.temporary, rfl, rfl⟩

/-! ## A sample host

An update of one package on a host that has room for it. -/

namespace Sample

def operationId : String := "7a1c2f34-5b6d-4e8f-9a0b-1c2d3e4f5a6b"

def user : ℕ := 1000

def updateFacts : HostFacts :=
  { facts with installedPackages := [⟨"nano", "1-1", "x86_64", "Lyra"⟩] }

/-- The change touches no boot file. -/
def updateSolver : SolverResult :=
  { solver with
    changes := [⟨"nano", "x86_64", .upgrade, some "1-1", some "2-1", some "Lyra", some "Lyra",
      some "lyra", 100, 10, 12⟩]
    rebootRequired := false }

/-- The plan of this update. -/
def updatePlan : UpgradePlan where
  schemaVersion := 3
  operation := .updateWithinRelease
  source := source
  target := none
  manifestSha256 := none
  requiredBytes := 1073741976
  facts := planFacts updateFacts
  repositories := updateFacts.repositories
  metadataValidRepositories := ["lyra"]
  thirdPartyRepositories := []
  heldPackages := []
  installedPackages := updateFacts.installedPackages
  orphanedPackages := []
  packageChanges := updateSolver.changes
  rebootRequired := false

/-- SHA-256 of the text of the plan. -/
def updateSha256 : String := "0bee3a6033edd576ecc73f88ca10e54d8cc9574f56afe231dbccc44842475cb7"

def planned : PlannedUpdate where
  facts := updateFacts
  solver := updateSolver
  preflight := evaluateSolverPreflight updateFacts {} updateSolver {}
  plan := updatePlan
  planSha256 := updateSha256
  manifest := none

/-- The only text that is hashed is the plan's. -/
def externals : Externals where
  sha256 := fun _ => updateSha256
  acceptsUrl := fun _ => true
  parseManifest := fun _ => none
  parseTime := fun _ => none

def report : InventoryReport where
  schemaVersion := 1
  installedPackages := [⟨"nano", "2-1", "x86_64", "Lyra"⟩]
  configurationArtifacts := []

/-- The record that Start made for the update. -/
def record : OperationStateRecord where
  schemaVersion := 1
  operationId := operationId
  sequence := 1
  operation := .updateWithinRelease
  state := .awaitingConfirmation
  source := source
  target := none
  planSha256 := updateSha256
  manifestSha256 := none
  snapshotNumber := none
  recovery := none
  lastCompletedStep := some "planned"
  errorCode := none
  bootVerification := some .pending
  createdAt := "2026-06-01T12:00:00Z"
  updatedAt := "2026-06-01T12:00:00Z"

/-- Every command succeeds; the snapshot gets number 7. -/
def oracle : Oracle where
  query
    | .now => "2026-06-01T12:00:01Z"
    | .utcNow => 0
    | .simulateUpdate => .ok (updateFacts, updateSolver)
    | .simulateRelease _ => .error .discovery
    | .stagedSolver _ _ _ => .error .discovery
    | .releaseChannel => .ok .stable
    | .downloadManifest _ => .error .download
    | .verifySignature _ => .ok ()
    | .repositoryKey _ => .ok ()
    | .captureInventory => .ok report
    | .cachedPayloads _ => .ok []
    | .writeFailure _ => false
    | .eventHistory _ => true
    | .installedRelease => .ok source
    | .stageFiles _ => .ok ()
    | .publishRepositories _ _ => .ok ()
    | .discoverHost => .ok updateFacts
    | .probe _ => true
    | .supervise answer => answer
    | .releaseIdentityAt _ => .ok source
    | .recoveryFormat _ => true
    | .statePersistent => .ok true
    | .inspectSubvolume _ => .error ⟨⟩
    | .defaultSubvolume => .error ⟨⟩
  run := fun _ => ⟨some 0, "7".toList⟩
  entries := [.directory operationId]

/-- The directory of the operation, as Start left it. -/
def directory : OperationDirectory where
  present := true
  state := .record record
  owner := some user
  pending := some ⟨planned, none⟩

def world : World where
  operations := fun id => if id = operationId then directory else {}
  lock := none
  marker := .absent
  sequence := none
  temporary := none

/-! The same host after an update that was cut off by a failure: snapshot 7 is there to go
back to, and `snapper rollback` makes snapshot 8 of it. -/

def snapshotVolume : SubvolumeIdentity where
  id := 264
  uuid := "11111111-2222-4333-8444-555555555555"
  parentUuid := none

def cloneVolume : SubvolumeIdentity where
  id := 265
  uuid := "66666666-7777-4888-8999-aaaaaaaaaaaa"
  parentUuid := some snapshotVolume.uuid

def recoverable : OperationStateRecord :=
  { record with
    sequence := 6
    state := .needsRecovery
    snapshotNumber := some 7
    errorCode := some "ZYPPER_APPLY_FAILED" }

def rollbackOracle : Oracle :=
  { oracle with
    query := fun q =>
      match q with
      | .inspectSubvolume (.snapshot 7) => .ok snapshotVolume
      | .inspectSubvolume _ => .ok cloneVolume
      | .defaultSubvolume => .ok cloneVolume.id
      | q => oracle.query q
    run := fun _ => ⟨some 0, "8".toList⟩ }

def recoverableWorld : World :=
  { world with
    operations := fun id =>
      if id = operationId then { directory with state := .record recoverable } else {} }

end Sample

end LyraUpgrade
