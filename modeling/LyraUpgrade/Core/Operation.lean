import Mathlib.Logic.Basic
import Mathlib.Tactic.Common

/-!
# Operations, their states and their transitions

The domain types of `core/src/lib.rs`, with the recovery goal of
`core/src/recovery.rs` that a record may carry.  A record is what one
`state.json` holds; every program of the repository reads and writes operations
through it.

## Main definitions

* `OperationKind`, `OperationState`, `ReleaseIdentity` — the enumerations and the
  identity of an installed release.
* `SubvolumeIdentity`, `RollbackGoal` — the goal of an authorized rollback.
* `OperationStateRecord` — the persisted record.
* `validTransition`, `OperationStateRecord.transitionTo` — the transition
  function.

Counters are natural numbers; `saturatingAdd` is the `u64` operation the source
uses on them.
-/

namespace LyraUpgrade

/-- `u64::MAX`. -/
def u64Max : ℕ := 0xffffffffffffffff

/-- `u64::saturating_add`. -/
def saturatingAdd (a b : ℕ) : ℕ := min (a + b) u64Max

theorem saturatingAdd_le (a b : ℕ) : saturatingAdd a b ≤ u64Max := Nat.min_le_right _ _

theorem saturatingAdd_eq {a b : ℕ} (h : a + b ≤ u64Max) : saturatingAdd a b = a + b :=
  Nat.min_eq_left h

inductive OperationKind
  | updateWithinRelease
  | releaseUpgrade
  | packageMigration
  deriving DecidableEq, Repr

/-- Release upgrades and package migrations are carried out offline from a signed
manifest. -/
def OperationKind.isSignedOffline : OperationKind → Bool
  | .releaseUpgrade | .packageMigration => true
  | .updateWithinRelease => false

inductive OperationState
  | idle
  | checking
  | available
  | preflight
  | planned
  | awaitingConfirmation
  | downloading
  | snapshotting
  | applying
  | readyToReboot
  | applyingOffline
  | awaitingReboot
  | verifyingBoot
  | blocked
  | failed
  | needsRecovery
  | completed
  deriving DecidableEq, Repr

namespace OperationState

def isTerminal : OperationState → Bool
  | .failed | .needsRecovery | .completed => true
  | _ => false

def isCancelable : OperationState → Bool
  | .idle | .checking | .available | .preflight | .planned | .awaitingConfirmation
  | .downloading | .blocked => true
  | _ => false

def permitsSystemWrite : OperationState → Bool
  | .snapshotting | .applying | .readyToReboot | .applyingOffline => true
  | _ => false

end OperationState

structure ReleaseIdentity where
  version : String
  edition : String
  architecture : String
  buildId : String
  deriving DecidableEq, Repr

/-- The identity of one Btrfs subvolume. -/
structure SubvolumeIdentity where
  id : ℕ
  uuid : String
  parentUuid : Option String
  deriving DecidableEq, Repr

/-- An authorized rollback.  Without a `bootSnapshot` it is a persisted intent
whose boot selection has not been confirmed. -/
structure RollbackGoal where
  sourceSnapshotNumber : ℕ
  sourceSnapshot : SubvolumeIdentity
  bootSnapshot : Option SubvolumeIdentity
  deriving DecidableEq, Repr

inductive BootVerification
  | pending
  | passed
  | failed
  deriving DecidableEq, Repr

structure OperationStateRecord where
  schemaVersion : ℕ
  operationId : String
  sequence : ℕ
  operation : OperationKind
  state : OperationState
  source : ReleaseIdentity
  target : Option ReleaseIdentity
  planSha256 : String
  manifestSha256 : Option String
  snapshotNumber : Option ℕ
  recovery : Option RollbackGoal
  lastCompletedStep : Option String
  errorCode : Option String
  bootVerification : Option BootVerification
  createdAt : String
  updatedAt : String
  deriving DecidableEq, Repr

def stateSchemaVersion : ℕ := 1

inductive TransitionError
  | unsupportedSchema
  | invalidTransition
  | snapshotNotRecorded
  deriving DecidableEq, Repr

/-- `valid_transition`: the deviations to `Blocked`, `Failed` and `NeedsRecovery`
are decided by the current state alone, before the forward edges. -/
def validTransition (operation : OperationKind) (current next : OperationState) : Bool :=
  match next with
  | .blocked =>
      match current with
      | .checking | .preflight | .downloading => true
      | _ => false
  | .failed =>
      match current with
      | .completed | .needsRecovery => false
      | _ => true
  | .needsRecovery =>
      match current with
      | .snapshotting | .applying | .applyingOffline | .verifyingBoot => true
      | _ => false
  | _ =>
      match current, next with
      | .idle, .checking
      | .checking, .available
      | .available, .preflight
      | .preflight, .planned
      | .planned, .awaitingConfirmation
      | .awaitingConfirmation, .downloading
      | .downloading, .snapshotting
      | .applying, .awaitingReboot
      | .applying, .completed
      | .awaitingReboot, .verifyingBoot
      | .verifyingBoot, .completed
      | .blocked, .preflight
      | .blocked, .idle => true
      | .snapshotting, .applying => operation = .updateWithinRelease
      | .snapshotting, .readyToReboot
      | .readyToReboot, .applyingOffline
      | .applyingOffline, .awaitingReboot => operation.isSignedOffline
      | _, _ => false

namespace OperationStateRecord

/-- The states that may only be entered with a recorded snapshot. -/
def requiresSnapshot : OperationState → Bool
  | .applying | .readyToReboot | .applyingOffline => true
  | _ => false

/-- The record after a transition: the new state and the next sequence number. -/
def advance (self : OperationStateRecord) (next : OperationState) : OperationStateRecord :=
  { self with state := next, sequence := saturatingAdd self.sequence 1 }

/-- `OperationStateRecord::transition_to`; the record is only changed on success. -/
def transitionTo (self : OperationStateRecord) (next : OperationState) :
    Except TransitionError OperationStateRecord :=
  if self.schemaVersion ≠ stateSchemaVersion then .error .unsupportedSchema
  else if requiresSnapshot next ∧ self.snapshotNumber.isNone then .error .snapshotNotRecorded
  else if !validTransition self.operation self.state next then .error .invalidTransition
  else .ok (self.advance next)

variable {self : OperationStateRecord} {next : OperationState} {r : OperationStateRecord}

@[simp] theorem advance_state : (self.advance next).state = next := rfl

@[simp] theorem advance_snapshotNumber :
    (self.advance next).snapshotNumber = self.snapshotNumber := rfl

@[simp] theorem advance_recovery : (self.advance next).recovery = self.recovery := rfl

@[simp] theorem advance_errorCode : (self.advance next).errorCode = self.errorCode := rfl

@[simp] theorem advance_operationId :
    (self.advance next).operationId = self.operationId := rfl

@[simp] theorem advance_operation : (self.advance next).operation = self.operation := rfl

/-- Everything a successful transition says. -/
theorem transitionTo_eq_ok :
    self.transitionTo next = .ok r ↔
      self.schemaVersion = stateSchemaVersion ∧
      (requiresSnapshot next → self.snapshotNumber.isSome) ∧
      validTransition self.operation self.state next ∧ r = self.advance next := by
  unfold transitionTo
  split_ifs with hschema hsnap hvalid
  · simp [hschema]
  · simp only [false_iff, not_and]
    intro _ h
    have := h hsnap.1
    simp_all
  · simp_all
  · simp only [Except.ok.injEq]
    simp only [not_not] at hschema
    constructor
    · rintro rfl
      refine ⟨hschema, fun h => ?_, by simpa using hvalid, rfl⟩
      by_contra hnone
      exact hsnap ⟨h, by simpa using hnone⟩
    · rintro ⟨-, -, -, rfl⟩
      rfl

end OperationStateRecord

end LyraUpgrade
