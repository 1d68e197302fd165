import LyraUpgrade.Interaction.Program
import LyraUpgrade.Service.Planner

/-!
# What the programs ask of their surroundings

Service, offline executor and boot verifier talk to the same file system and run
the same commands.  `Op` lists what they ask, with the type of each answer; how the
file system answers is the subject of `LyraUpgrade.System.World`.

Reading or writing one file is one operation.  The only exception is the record of
the last manifest sequence, whose replacement is cut into its five steps because
the directory between two of them matters.

A `Query` observes the host: it leaves every file of this model alone, and any
answer is possible.  Its answers are the results of code that reads the package
database, runs the solver, downloads or checks a signature.
-/

namespace LyraUpgrade

open Interaction

/-! ## Files and devices -/

/-- An error of the operating system. -/
structure IoError
  deriving DecidableEq, Repr

abbrev Io (α : Type) := Except IoError α

/-- Why the transaction lock was not granted. -/
inductive LockError
  | busy
  | io
  deriving DecidableEq, Repr

structure InventoryReport where
  schemaVersion : ℕ
  installedPackages : List InstalledPackage
  configurationArtifacts : List String
  deriving DecidableEq, Repr

/-- `PendingPlan`: the confirmed plan as Start stores it. -/
structure PendingPlan where
  planned : PlannedUpdate
  manifest : Option ReleaseManifest
  deriving DecidableEq

/-- A signed document: its text and the signature beside it. -/
structure SignedDocument where
  document : List Char
  signature : List Char
  deriving DecidableEq

/-- What `/system-update` is. -/
inductive Marker
  | absent
  /-- A link to the directory of an operation. -/
  | operation (operationId : String)
  /-- A link of another updater. -/
  | foreign
  /-- Not a link, or a link that is broken below the state root. -/
  | invalid
  deriving DecidableEq, Repr

/-- One entry of the state root. -/
inductive Entry
  | directory (operationId : String)
  /-- Unreadable, not a directory, or not UTF-8. -/
  | invalid
  deriving DecidableEq, Repr

inductive InventoryKind
  | before
  | after
  deriving DecidableEq, Repr

/-- `FetchError`. -/
inductive FetchError
  | io
  | download
  | signature
  | repositoryKey
  | repositoryKeyMismatch
  | tooLarge
  | json
  | route (error : ManifestError)
  | invalidTime
  | notYetValid
  | expired
  | invalidChannel
  | invalidSequence
  deriving DecidableEq, Repr

/-! ## Commands -/

inductive Command
  | refresh
  /-- `zypper update` of the installed release. -/
  | update (mode : TransactionMode)
  /-- `zypper` with the arguments of `transaction_arguments`. -/
  | transaction (mode : TransactionMode) (arguments : List String)
  /-- `snapper create --read-only`. -/
  | createSnapshot (description : String)
  /-- `snapper rollback`. -/
  | rollback (number : ℕ)
  | dracut
  | grubMkconfig
  | reboot
  deriving DecidableEq, Repr

namespace Command

/-- The command changes the installed packages. -/
def isApply : Command → Bool
  | update .apply | transaction .apply _ => true
  | _ => false

def isSnapshot : Command → Bool
  | createSnapshot _ => true
  | _ => false

/-- Commands whose effect the protocol of an operation is about. -/
def isCritical : Command → Bool
  | update .apply | transaction .apply _ | createSnapshot _ | rollback _ => true
  | _ => false

end Command

/-- Exit code, if there is one, and standard output. -/
structure Output where
  code : Option ℤ
  stdout : List Char
  deriving DecidableEq, Repr

/-- `ExitStatus::success`. -/
def Output.success (self : Output) : Bool := self.code = some 0

/-- A subvolume the recovery code inspects. -/
inductive SubvolumePath
  | root
  | snapshot (number : ℕ)
  deriving DecidableEq, Repr

/-- The post-boot probes that only look at the running system. -/
inductive Probe
  | rpmDatabase
  | dependencies
  | bootTarget
  | failedUnits
  | grub
  deriving DecidableEq, Repr

inductive CheckFailure
  | discovery
  | identity
  | filesystem
  | rpmDatabase
  | dependencies
  | bootTarget
  | failedUnits
  | grub
  | timeout
  | worker
  | rollback
  | inventory
  deriving DecidableEq, Repr

/-! ## Operations -/

inductive Query
  /-- The service's own timestamp. -/
  | now
  /-- The clock that a manifest's validity is compared with. -/
  | utcNow
  | simulateUpdate
  | simulateRelease (manifest : ReleaseManifest)
  /-- Facts and solver result on the staged repositories, from a solver run. -/
  | stagedSolver (operationId : String) (manifest : ReleaseManifest) (xml : List Char)
  | releaseChannel
  | downloadManifest (channel : ManifestChannelPolicy)
  | verifySignature (document : SignedDocument)
  | repositoryKey (repository : RepositoryTransition)
  | captureInventory
  /-- Digests of the `.rpm` files in the cache of an operation. -/
  | cachedPayloads (operationId : String)
  /-- `has_write_failure` of the event log. -/
  | writeFailure (operationId : String)
  /-- The event log can be read and is complete. -/
  | eventHistory (operationId : String)
  | installedRelease
  /-- Create a directory or write a repository file, key or signature of an operation. -/
  | stageFiles (operationId : String)
  | publishRepositories (operationId : String) (manifest : ReleaseManifest)
  | discoverHost
  | probe (probe : Probe)
  /-- How the supervised verification ended, given what its process answered. -/
  | supervise (answer : Option CheckFailure)
  | releaseIdentityAt (number : ℕ)
  | recoveryFormat (number : ℕ)
  | statePersistent
  | inspectSubvolume (path : SubvolumePath)
  | defaultSubvolume

@[reducible] def Query.Answer : Query → Type
  | now => String
  | utcNow => ℤ
  | simulateUpdate => Except PlannerError (HostFacts × SolverResult)
  | simulateRelease _ => Except PlannerError (HostFacts × SolverResult)
  | stagedSolver _ _ _ => Except PlannerError (HostFacts × SolverResult)
  | releaseChannel => Except FetchError ManifestChannelPolicy
  | downloadManifest _ => Except FetchError SignedDocument
  | verifySignature _ => Except FetchError Unit
  | repositoryKey _ => Except FetchError Unit
  | captureInventory => Io InventoryReport
  | cachedPayloads _ => Io (List String)
  | writeFailure _ => Bool
  | eventHistory _ => Bool
  | installedRelease => Io ReleaseIdentity
  | stageFiles _ => Io Unit
  | publishRepositories _ _ => Io Unit
  | discoverHost => Io HostFacts
  | probe _ => Bool
  | supervise _ => Option CheckFailure
  | releaseIdentityAt _ => Io ReleaseIdentity
  | recoveryFormat _ => Bool
  | statePersistent => Io Bool
  | inspectSubvolume _ => Io SubvolumeIdentity
  | defaultSubvolume => Io ℕ

/-- The answers a client gets. -/
inductive Response
  | rejected (code : String)
  | accepted (operationId : String)
  /-- The record as Status reports it. -/
  | status (state : OperationStateRecord)
  deriving DecidableEq, Repr

inductive Op
  | query (q : Query)
  | run (operationId : String) (command : Command)
  | respond (response : Response)
  /-- The event of a state change. -/
  | stateChanged (operationId : String) (state : OperationState)
  | acquireLock
  | releaseLock
  | load (operationId : String)
  | save (state : OperationStateRecord)
  | listOperations
  | directoryExists (operationId : String)
  | readOwner (operationId : String)
  | writeOwner (operationId : String) (uid : ℕ)
  | readPending (operationId : String)
  | writePending (operationId : String) (plan : PendingPlan)
  | readPlan (operationId : String)
  | writePlan (operationId : String) (plan : UpgradePlan)
  | readManifest (operationId : String)
  | readManifestSequence (operationId : String)
  | writeManifest (operationId : String) (manifest : ReleaseManifest)
  | readSigned (operationId : String)
  | writeSigned (operationId : String) (document : SignedDocument)
  | readInventory (operationId : String) (kind : InventoryKind)
  | writeInventory (operationId : String) (kind : InventoryKind) (report : InventoryReport)
  | readMarker
  | linkMarker (operationId : String)
  | unlinkMarker
  | readSequence
  | createTemporary
  | writeTemporary (text : List Char)
  | syncTemporary
  | renameTemporary
  | syncDirectory

/-- The operation replaces a record. -/
def Op.isSave : Op → Bool
  | save _ => true
  | _ => false

/-- The operation carries an upgrade on: it takes a snapshot, changes packages, or
writes a record that is not of a failure. -/
def Op.pursues : Op → Bool
  | run _ command => command.isSnapshot || command.isApply
  | save state => state.state ≠ .failed
  | _ => false

@[reducible] def Op.Answer : Op → Type
  | query q => q.Answer
  | run _ _ => Output
  | respond _ => Unit
  | stateChanged _ _ => Unit
  | acquireLock => Except LockError Unit
  | releaseLock => Unit
  | load _ => Except PersistenceError OperationStateRecord
  | save _ => Except PersistenceError Unit
  | listOperations => Io (List Entry)
  | directoryExists _ => Bool
  | readOwner _ => Option ℕ
  | writeOwner _ _ => Io Unit
  | readPending _ => Io PendingPlan
  | writePending _ _ => Io Unit
  | readPlan _ => Io UpgradePlan
  | writePlan _ _ => Io Unit
  | readManifest _ => Io ReleaseManifest
  | readManifestSequence _ => Option ℕ
  | writeManifest _ _ => Io Unit
  | readSigned _ => Io SignedDocument
  | writeSigned _ _ => Io Unit
  | readInventory _ _ => Io InventoryReport
  | writeInventory _ _ _ => Io Unit
  | readMarker => Io Marker
  | linkMarker _ => Io Unit
  | unlinkMarker => Io Unit
  | readSequence => Io (Option (List Char))
  | createTemporary => Io Unit
  | writeTemporary _ => Io Unit
  | syncTemporary => Io Unit
  | renameTemporary => Io Unit
  | syncDirectory => Io Unit

/-- The operations of the modelled programs. -/
abbrev Sig : Signature where
  Op := Op
  Res := Op.Answer

/-- Issue one operation. -/
def ask (e : Op) : Prog Sig e.Answer := Prog.request (S := Sig) e

end LyraUpgrade
