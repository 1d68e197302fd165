import LyraUpgrade.Service.Requests
import LyraUpgrade.System.World

/-!
# The protocol of a worker

What a Start request and its worker may do to the files that others read, as an
automaton that follows the operations and their answers.  `start_wp` says that the
program keeps to it; proofs about runs look at the phases and not at the program.

An operation that leaves the record, the lock and the marker alone, and changes no
package, is *quiet*: it is allowed everywhere and moves nothing.  The other
operations are listed by phase in `WorkerState.allows`.

`WorkerState.record` is the record in memory.  It changes when Start reads it and when
the worker is about to save it, and is arbitrary before.  `WorkerState.events` are
the operations so far; the phases forget which answers led to them, and a result
that depends on them is found there.
-/

namespace LyraUpgrade

open Interaction

/-! ## Quiet operations -/

/-- The operation concerns neither record, lock, marker nor replay record, and runs no
critical command. -/
def Op.isQuiet : Op → Bool
  | .run _ command => !command.isCritical
  | .acquireLock | .releaseLock | .load _ | .save _ | .linkMarker _ | .unlinkMarker
  | .createTemporary | .writeTemporary _ | .syncTemporary | .renameTemporary | .syncDirectory =>
      false
  | _ => true

/-- Only quiet operations. -/
abbrev Quiet {α : Type} (p : Prog Sig α) : Prop := p.Only fun e => Op.isQuiet e

theorem quiet_ask {e : Op} (h : e.isQuiet) : Quiet (ask e) := ⟨h, fun _ => trivial⟩

/-- The operation belongs to the making of a plan: it observes the host or the replay
record, and concerns no operation. -/
def Op.isPlanning : Op → Bool
  | .query q =>
      match q with
      | .stagedSolver _ _ _ | .cachedPayloads _ | .writeFailure _ | .eventHistory _
      | .stageFiles _ | .publishRepositories _ _ => false
      | _ => true
  | .readSequence => true
  | _ => false

/-- Only such operations. -/
abbrev Planning {α : Type} (p : Prog Sig α) : Prop := p.Only fun e => Op.isPlanning e

theorem planning_ask {e : Op} (h : e.isPlanning) : Planning (ask e) := ⟨h, fun _ => trivial⟩

theorem isQuiet_of_isPlanning {e : Op} (h : e.isPlanning) : e.isQuiet := by
  cases e with
  | query _ | readSequence => rfl
  | _ => cases h

theorem Planning.quiet {α : Type} {p : Prog Sig α} (h : Planning p) : Quiet p :=
  Prog.only_mono (fun _ => isQuiet_of_isPlanning) h

/-- What a read record is: the record of that operation, and a valid one. -/
def validAnswer (e : Event Sig) : Prop :=
  match e with
  | ⟨.load id, answer⟩ =>
      ∀ r : OperationStateRecord, answer = .ok r → r.operationId = id ∧ Loadable r
  | _ => True

theorem validAnswer_of_exec {faults : Bool} {i : ℕ} {e : Op} {w w' : World} {answer : e.Answer}
    (h : exec faults i e w answer w') : validAnswer ⟨e, answer⟩ := by
  cases e with
  | load id =>
      rintro r rfl
      exact (exec_load_ok h).2
  | _ => trivial

/-- What is quiet is no save. -/
theorem isSave_of_quiet {e : Op} (h : e.isQuiet) : e.isSave = false := by
  cases e with
  | save r => cases h
  | _ => rfl

/-! ## The automaton -/

/-- How a Start request and its worker ended. -/
inductive Ending
  /-- The record was not awaiting confirmation, and there was no worker. -/
  | refused
  | succeeded
  /-- The worker failed, and the record of a cancellation was left alone. -/
  | cancelled
  /-- The worker failed, and the record of the failure was saved. -/
  | reported
  /-- The worker failed, and the record of the failure could not be saved. -/
  | unreported
  deriving DecidableEq

inductive Phase
  /-- Nothing has been read. -/
  | start
  /-- The record was found awaiting confirmation. -/
  | waiting
  /-- The worker holds the transaction lock. -/
  | locked
  | downloading
  /-- The last look at the record showed a cancellation. -/
  | told
  /-- Snapshotting is persisted, and no snapshot taken. -/
  | snapshotting
  /-- A snapshot was taken; the record does not name it yet. -/
  | taken
  /-- The record names the snapshot. -/
  | saved
  /-- Applying is persisted. -/
  | applying
  /-- A record could not be saved. -/
  | failed
  /-- The last record was saved. -/
  | finished
  /-- The worker has failed and does not hold the lock. -/
  | ended
  /-- The failure branch found no cancellation. -/
  | reporting
  /-- Nothing more will be written. -/
  | closed (ending : Ending)
  deriving DecidableEq

/-- The phases in which the transaction lock is held. -/
def Phase.holdsLock : Phase → Bool
  | .locked | .downloading | .told | .snapshotting | .taken | .saved | .applying | .failed
  | .finished => true
  | _ => false

structure WorkerState where
  phase : Phase
  record : OperationStateRecord
  events : List (Event Sig)

namespace WorkerState

/-- An initial record of the operation. -/
def IsInitial (operationId : String) (r : OperationStateRecord) : Prop :=
  r.operationId = operationId ∧ r.state = .awaitingConfirmation ∧ r.snapshotNumber = none ∧
    r.recovery = none ∧ r.errorCode = none

/-- What a worker knows before it changes packages: the plan it stored, and an
observation of the host that its decisions rest on. -/
structure Observed (operationId : String) (plan : UpgradePlan)
    (fresh : HostFacts × SolverResult) (events : List (Event Sig)) : Prop where
  stored : ⟨Op.writePlan operationId plan, Except.ok ()⟩ ∈ events
  simulated : ⟨Op.query .simulateUpdate, Except.ok fresh⟩ ∈ events

/-- What must follow the transaction of an update: new boot files where a change
makes them necessary, and the packages the plan promised. -/
structure Followed (operationId : String) (plan : UpgradePlan)
    (fresh : HostFacts × SolverResult) (events : List (Event Sig)) : Prop where
  boot : touchesBoot fresh.2.changes → ∃ dracut grub : Output, dracut.success ∧ grub.success ∧
    ⟨Op.run operationId .dracut, dracut⟩ ∈ events ∧
    ⟨Op.run operationId .grubMkconfig, grub⟩ ∈ events
  inventory : ∃ report, ⟨Op.query .captureInventory, Except.ok report⟩ ∈ events ∧
    verifyResult plan report

/-- The update was applied: the transaction exited with 0 or 102, and the steps that
must follow it succeeded after it. -/
def Applied (operationId : String) (events : List (Event Sig)) : Prop :=
  ∃ before output after plan fresh,
    events = before ++ ⟨Op.run operationId (.update .apply), output⟩ :: after ∧
    (output.code = some 0 ∨ output.code = some 102) ∧
    Observed operationId plan fresh before ∧ Followed operationId plan fresh after

/-- The records a worker may save. -/
inductive MaySave (operationId : String) (s : WorkerState) (r : OperationStateRecord) : Prop
  | initial (phase : s.phase = .start) (initial : IsInitial operationId r)
      (absent : ⟨Op.directoryExists operationId, false⟩ ∈ s.events)
  | downloading (phase : s.phase = .locked) (next : s.record.transitionTo .downloading = .ok r)
  | snapshotting (phase : s.phase = .downloading)
      (next : s.record.transitionTo .snapshotting = .ok r)
  | snapshot (number : ℕ) (phase : s.phase = .taken) (positive : 0 < number)
      (next : r = { s.record with snapshotNumber := some number })
  | applying (phase : s.phase = .saved) (next : s.record.transitionTo .applying = .ok r)
  | ready (phase : s.phase = .saved) (next : s.record.transitionTo .readyToReboot = .ok r)
  | result (phase : s.phase = .applying) (applied : Applied operationId s.events)
      (state : OperationState) (final : state = .awaitingReboot ∨ state = .completed)
      (next : s.record.transitionTo state = .ok r)
  | failure (phase : s.phase = .reporting) (error : ExecutionError) (timestamp : String)
      (next : r = failureRecord error s.record timestamp)

/-- The operations that are not quiet, by phase. -/
def permits (operationId : String) (s : WorkerState) : Op → Prop
  | .load id => id = operationId ∧
      (s.phase = .start ∨ s.phase = .waiting ∨ s.phase = .downloading ∨ s.phase = .ended)
  | .acquireLock => s.phase = .waiting
  | .releaseLock => s.phase.holdsLock
  | .run id (.createSnapshot _) => id = operationId ∧ s.phase = .snapshotting
  | .run id (.update .apply) => id = operationId ∧ s.phase = .applying
  | .linkMarker id => id = operationId ∧ s.phase = .saved
  | .save r => MaySave operationId s r
  | _ => False

def allows (operationId : String) (s : WorkerState) (e : Op) : Prop :=
  e.isQuiet ∨ s.permits operationId e

/-- The phase after a save that succeeded. -/
def phaseAfterSave (r : OperationStateRecord) : Phase → Phase
  | .locked => .downloading
  | .downloading => .snapshotting
  | .taken => .saved
  | .saved => if r.state = .applying then .applying else .finished
  | .applying => .finished
  | .reporting => .closed .reported
  | p => p

/-- The phase after a save that failed. -/
def phaseAfterFailure : Phase → Phase
  | .start => .start
  | .reporting => .closed .unreported
  | _ => .failed

/-- The phase after the record was read. -/
def phaseAfterLoad (answer : Except PersistenceError OperationStateRecord) : Phase → Phase
  | .start =>
      match answer with
      | .ok r => if r.state = .awaitingConfirmation then .waiting else .closed .refused
      | .error _ => .closed .refused
  | .downloading => if isCancelled answer then .told else .downloading
  | .waiting | .ended => if isCancelled answer then .closed .cancelled else .reporting
  | p => p

def nextPhase (p : Phase) : Event Sig → Phase
  | ⟨.load _, answer⟩ => phaseAfterLoad answer p
  | ⟨.save r, .ok ()⟩ => phaseAfterSave r p
  | ⟨.save _, .error _⟩ => phaseAfterFailure p
  | ⟨.acquireLock, .ok ()⟩ => .locked
  | ⟨.acquireLock, .error _⟩ => .ended
  | ⟨.releaseLock, _⟩ => if p = .finished then .closed .succeeded else .ended
  | ⟨.run _ (.createSnapshot _), _⟩ => .taken
  | _ => p

def nextRecord (p : Phase) (record : OperationStateRecord) : Event Sig → OperationStateRecord
  | ⟨.load _, .ok r⟩ => if p = .start then r else record
  | ⟨.save r, _⟩ => if p = .start then record else r
  | _ => record

def next (s : WorkerState) (e : Event Sig) : WorkerState where
  phase := nextPhase s.phase e
  record := nextRecord s.phase s.record e
  events := s.events ++ [e]

end WorkerState

/-- The protocol of a Start request for `operationId`. -/
def workerAutomaton (operationId : String) : Automaton Sig WorkerState where
  allows := WorkerState.allows operationId
  next := WorkerState.next

def workerContract (operationId : String) : Contract Sig WorkerState :=
  (workerAutomaton operationId).contract validAnswer

/-! ## Steps -/

namespace WorkerState

variable {operationId : String} {s : WorkerState}

/-- A quiet operation is noted, and changes nothing else. -/
theorem next_quiet {e : Event Sig} (h : Op.isQuiet e.op) :
    s.next e = { s with events := s.events ++ [e] } := by
  obtain ⟨e, a⟩ := e
  cases e with
  | run id command =>
      cases command with
      | createSnapshot _ => exact absurd h (by simp [Op.isQuiet, Command.isCritical])
      | _ => rfl
  | acquireLock | releaseLock | load _ | save _ => exact absurd h (by simp [Op.isQuiet])
  | _ => rfl

theorem next_saved {r : OperationStateRecord} (hstart : s.phase ≠ .start) :
    s.next ⟨.save r, .ok ()⟩ = ⟨phaseAfterSave r s.phase, r, s.events ++ [⟨.save r, .ok ()⟩]⟩ := by
  change (⟨_, if s.phase = .start then s.record else r, _⟩ : WorkerState) = _
  rw [if_neg hstart]
  rfl

theorem next_unsaved {r : OperationStateRecord} {error : PersistenceError}
    (hstart : s.phase ≠ .start) :
    s.next ⟨.save r, .error error⟩ =
      ⟨phaseAfterFailure s.phase, r, s.events ++ [⟨.save r, .error error⟩]⟩ := by
  change (⟨_, if s.phase = .start then s.record else r, _⟩ : WorkerState) = _
  rw [if_neg hstart]
  rfl

/-- **The steps of the protocol**, with the phase and the record after each. -/
inductive Moves (operationId : String) (s : WorkerState) :
    Event Sig → Phase → OperationStateRecord → Prop
  | quiet {e : Event Sig} (quiet : Op.isQuiet e.op) : Moves operationId s e s.phase s.record
  | found (r : OperationStateRecord) (phase : s.phase = .start)
      (awaiting : r.state = .awaitingConfirmation) (id : r.operationId = operationId)
      (loadable : Loadable r) : Moves operationId s ⟨.load operationId, .ok r⟩ .waiting r
  | refused (answer : Except PersistenceError OperationStateRecord) (phase : s.phase = .start)
      (r : OperationStateRecord) :
      Moves operationId s ⟨.load operationId, answer⟩ (.closed .refused) r
  | poll (answer : Except PersistenceError OperationStateRecord) (phase : s.phase = .downloading) :
      Moves operationId s ⟨.load operationId, answer⟩
        (if isCancelled answer then .told else .downloading) s.record
  | look (answer : Except PersistenceError OperationStateRecord)
      (phase : s.phase = .waiting ∨ s.phase = .ended) :
      Moves operationId s ⟨.load operationId, answer⟩
        (if isCancelled answer then .closed .cancelled else .reporting) s.record
  | lock (phase : s.phase = .waiting) : Moves operationId s ⟨.acquireLock, .ok ()⟩ .locked s.record
  | busy (error : LockError) (phase : s.phase = .waiting) :
      Moves operationId s ⟨.acquireLock, .error error⟩ .ended s.record
  | unlock (phase : s.phase.holdsLock) : Moves operationId s ⟨.releaseLock, ()⟩
      (if s.phase = .finished then .closed .succeeded else .ended) s.record
  | takeSnapshot (description : String) (output : Output) (phase : s.phase = .snapshotting) :
      Moves operationId s ⟨.run operationId (.createSnapshot description), output⟩ .taken s.record
  | apply (output : Output) (phase : s.phase = .applying) :
      Moves operationId s ⟨.run operationId (.update .apply), output⟩ .applying s.record
  | mark (answer : Io Unit) (phase : s.phase = .saved) :
      Moves operationId s ⟨.linkMarker operationId, answer⟩ .saved s.record
  | create {r : OperationStateRecord} (answer : Except PersistenceError Unit)
      (phase : s.phase = .start) (initial : IsInitial operationId r)
      (absent : ⟨Op.directoryExists operationId, false⟩ ∈ s.events) :
      Moves operationId s ⟨.save r, answer⟩ .start s.record
  | saved {r : OperationStateRecord} (phase : s.phase ≠ .start) (may : MaySave operationId s r) :
      Moves operationId s ⟨.save r, .ok ()⟩ (phaseAfterSave r s.phase) r
  | unsaved {r : OperationStateRecord} (error : PersistenceError) (phase : s.phase ≠ .start)
      (may : MaySave operationId s r) :
      Moves operationId s ⟨.save r, .error error⟩ (phaseAfterFailure s.phase) r

/-- Every allowed operation with a valid answer is one of the steps. -/
theorem moves {e : Op} {answer : e.Answer} (hallow : s.allows operationId e)
    (hvalid : validAnswer ⟨e, answer⟩) :
    Moves operationId s ⟨e, answer⟩ (s.next ⟨e, answer⟩).phase (s.next ⟨e, answer⟩).record := by
  rcases hallow with hquiet | hpermit
  · rw [next_quiet hquiet]
    exact .quiet hquiet
  change Moves operationId s _ (nextPhase s.phase _) (nextRecord s.phase s.record _)
  cases e with
  | load id =>
      obtain ⟨rfl, hphase⟩ := hpermit
      rcases hphase with hphase | hphase | hphase | hphase
      · rw [hphase]
        cases answer with
        | error e => exact .refused _ hphase _
        | ok r =>
            obtain ⟨hid, hloadable⟩ := hvalid r rfl
            change Moves id s _ (if r.state = .awaitingConfirmation then .waiting
              else .closed .refused) r
            split_ifs with hstate
            · exact .found r hphase hstate hid hloadable
            · exact .refused _ hphase r
      · rw [hphase]; cases answer <;> exact .look _ (.inl hphase)
      · rw [hphase]; cases answer <;> exact .poll _ hphase
      · rw [hphase]; cases answer <;> exact .look _ (.inr hphase)
  | acquireLock =>
      rcases answer with error | ⟨⟩
      · exact .busy error hpermit
      · exact .lock hpermit
  | releaseLock => exact .unlock hpermit
  | run id command =>
      match command, hpermit with
      | .createSnapshot description, ⟨hid, hphase⟩ => subst hid; exact .takeSnapshot _ _ hphase
      | .update .apply, ⟨hid, hphase⟩ =>
          subst hid
          change Moves id s _ s.phase s.record
          rw [hphase]
          exact .apply _ hphase
  | linkMarker id =>
      obtain ⟨rfl, hphase⟩ := hpermit
      change Moves id s _ s.phase s.record
      rw [hphase]
      exact .mark answer hphase
  | save r =>
      by_cases hstart : s.phase = .start
      · have hrecord : ∀ a : Except PersistenceError Unit,
            nextRecord s.phase s.record ⟨Op.save r, a⟩ = s.record := fun a => if_pos hstart
        rw [hrecord, hstart]
        cases hpermit with
        | initial _ hinitial habsent =>
            rcases answer with error | ⟨⟩ <;> exact .create _ hstart hinitial habsent
        | downloading hphase | snapshotting hphase | snapshot _ hphase | applying hphase
        | ready hphase | result hphase | failure hphase =>
            rw [hstart] at hphase
            cases hphase
      · have hrecord : ∀ a : Except PersistenceError Unit,
            nextRecord s.phase s.record ⟨Op.save r, a⟩ = r := fun a => if_neg hstart
        rw [hrecord]
        rcases answer with error | ⟨⟩
        · exact .unsaved error hstart hpermit
        · exact .saved hstart hpermit
  | _ => exact hpermit.elim

/-! ## What holds in every phase -/

end WorkerState

/-- A record was accepted for a worker. -/
def Phase.hasWorker : Phase → Bool
  | .start | .closed .refused => false
  | _ => true

/-- The state of the record in memory, where the phase determines it. -/
def Phase.recordState : Phase → Option OperationState
  | .waiting | .locked => some .awaitingConfirmation
  | .downloading | .told => some .downloading
  | .snapshotting | .taken | .saved => some .snapshotting
  | .applying => some .applying
  | _ => none

/-- A valid record without a goal stays valid along a transition. -/
theorem ValidState.transitionTo {r r' : OperationStateRecord} {next : OperationState}
    (h : ValidState r) (hrecovery : r.recovery = none) (hnext : r.transitionTo next = .ok r')
    (hsnapshot : next.recordsSnapshot → r.snapshotNumber.isSome) : ValidState r' := by
  obtain ⟨-, -, -, rfl⟩ := OperationStateRecord.transitionTo_eq_ok.mp hnext
  exact h.move rfl rfl rfl rfl rfl rfl rfl rfl hsnapshot fun goal hgoal => by
    rw [hrecovery] at hgoal; cases hgoal

namespace WorkerState

variable {operationId : String} {s : WorkerState}

/-- **A worker's record** is a valid record of its operation, found awaiting
confirmation, and carries no rollback goal. -/
structure Sound (operationId : String) (s : WorkerState) : Prop where
  loaded : ∃ r, ⟨Op.load operationId, Except.ok r⟩ ∈ s.events ∧ r.state = .awaitingConfirmation
  id : s.record.operationId = operationId
  loadable : Loadable s.record
  recovery : s.record.recovery = none
  state : ∀ state, s.phase.recordState = some state → s.record.state = state

/-- The failure branch writes a record that can be saved. -/
theorem valid_failureRecord {r : OperationStateRecord} (h : ValidState r)
    (hrecovery : r.recovery = none) (error : ExecutionError) (timestamp : String) :
    ValidState (failureRecord error r timestamp) := by
  refine h.move rfl rfl rfl rfl rfl rfl rfl rfl ?_ fun goal hgoal => by
    rw [hrecovery] at hgoal; cases hgoal
  cases hsnapshot : r.snapshotNumber with
  | none => cases hblocking : error.isBlocking <;>
      simp [failureRecord, failureState, hsnapshot, hblocking, OperationState.recordsSnapshot]
  | some number => simp

/-- A recorded snapshot number is positive, so the record stays valid. -/
theorem valid_snapshotNumber {r : OperationStateRecord} {number : ℕ} (h : ValidState r)
    (hrecovery : r.recovery = none) (hpos : 0 < number) :
    ValidState { r with snapshotNumber := some number } where
  recovery := by simp [recoveryShapeValid, hrecovery]
  schema := h.schema
  hashes := by
    have := h.hashes
    simp only [hashShapeValid, Bool.and_eq_true, decide_eq_true_eq] at this ⊢
    exact ⟨⟨this.1.1, by simpa using Nat.ne_of_gt hpos⟩, by simp⟩
  operation := h.operation

theorem MaySave.hasWorker {r : OperationStateRecord} (may : MaySave operationId s r)
    (hstart : s.phase ≠ .start) : s.phase.hasWorker := by
  cases may with
  | initial phase => exact absurd phase hstart
  | downloading phase | snapshotting phase | snapshot _ phase | applying phase | ready phase
  | result phase | failure phase => rw [phase]; rfl

/-- A worker stays one. -/
theorem Moves.hasWorker {e : Event Sig} {phase : Phase} {r : OperationStateRecord}
    (h : Moves operationId s e phase r) (hworker : s.phase.hasWorker) : phase.hasWorker := by
  cases h with
  | quiet => exact hworker
  | found | lock | busy | takeSnapshot | apply | mark => rfl
  | refused _ hphase | create _ hphase => rw [hphase] at hworker; cases hworker
  | poll | look | unlock => split_ifs <;> rfl
  | saved hstart =>
      unfold phaseAfterSave
      generalize s.phase = p at hstart hworker
      split <;> first | rfl | exact hworker | (split_ifs <;> rfl)
  | unsaved _ hstart =>
      unfold phaseAfterFailure
      generalize s.phase = p at hstart hworker
      split <;> first | rfl | exact absurd rfl hstart

/-- What a worker saves is again such a record. -/
theorem MaySave.keeps {r : OperationStateRecord} (may : MaySave operationId s r)
    (hstart : s.phase ≠ .start) (h : Sound operationId s) :
    r.operationId = operationId ∧ Loadable r ∧ r.recovery = none := by
  have hadvance : ∀ {next}, s.record.transitionTo next = .ok r →
      (next.recordsSnapshot → s.record.snapshotNumber.isSome) →
      r.operationId = operationId ∧ Loadable r ∧ r.recovery = none := by
    intro next hnext hsnapshot
    have hvalid := h.loadable.valid.transitionTo h.recovery hnext hsnapshot
    obtain ⟨-, -, -, rfl⟩ := OperationStateRecord.transitionTo_eq_ok.mp hnext
    exact ⟨h.id, ⟨h.loadable.id, hvalid⟩, h.recovery⟩
  have hrequired : ∀ {next}, s.record.transitionTo next = .ok r →
      OperationStateRecord.requiresSnapshot next → s.record.snapshotNumber.isSome :=
    fun hnext => (OperationStateRecord.transitionTo_eq_ok.mp hnext).2.1
  cases may with
  | initial phase => exact absurd phase hstart
  | downloading _ next | snapshotting _ next => exact hadvance next fun hneeds => by cases hneeds
  | snapshot number _ positive next =>
      subst next
      exact ⟨h.id, ⟨h.loadable.id, valid_snapshotNumber h.loadable.valid h.recovery positive⟩,
        h.recovery⟩
  | applying _ next | ready _ next => exact hadvance next fun _ => hrequired next rfl
  | result phase _ state final next =>
      refine hadvance next fun _ => h.loadable.valid.snapshot_isSome ?_
      rw [h.state .applying (by rw [phase]; rfl)]
      rfl
  | failure _ error timestamp next =>
      subst next
      exact ⟨h.id, ⟨h.loadable.id, valid_failureRecord h.loadable.valid h.recovery _ _⟩, h.recovery⟩

/-- The state that was saved is the one the new phase stands for. -/
theorem MaySave.recordState {r : OperationStateRecord} (may : MaySave operationId s r)
    (hstart : s.phase ≠ .start) (h : Sound operationId s) (state : OperationState)
    (hstate : (phaseAfterSave r s.phase).recordState = some state) : r.state = state := by
  have hadvance : ∀ {next}, s.record.transitionTo next = .ok r → r.state = next := by
    intro next hnext
    obtain ⟨-, -, -, rfl⟩ := OperationStateRecord.transitionTo_eq_ok.mp hnext
    rfl
  cases may with
  | initial phase => exact absurd phase hstart
  | downloading phase next | snapshotting phase next =>
      rw [phase] at hstate; cases hstate; exact hadvance next
  | snapshot number phase positive next =>
      rw [phase] at hstate; cases hstate; subst next
      exact h.state .snapshotting (by rw [phase]; rfl)
  | applying phase next | ready phase next =>
      rw [phase, phaseAfterSave, hadvance next] at hstate; cases hstate <;> exact hadvance next
  | result phase | failure phase => rw [phase] at hstate; cases hstate

/-- **Every step keeps the record sound.** -/
theorem Moves.sound {e : Event Sig} {phase : Phase} {r : OperationStateRecord}
    (hmove : Moves operationId s e phase r) (h : s.phase.hasWorker → Sound operationId s)
    (hworker : phase.hasWorker) : Sound operationId ⟨phase, r, s.events ++ [e]⟩ := by
  have hkeep : s.phase.hasWorker → (∀ state, phase.recordState = some state →
      s.phase.recordState = some state) → Sound operationId ⟨phase, s.record, s.events ++ [e]⟩ := by
    intro hs hstate
    obtain ⟨⟨r₀, hloaded, hawaiting⟩, hid, hloadable, hrecovery, hrecord⟩ := h hs
    exact ⟨⟨r₀, List.mem_append_left _ hloaded, hawaiting⟩, hid, hloadable, hrecovery,
      fun state hphase => hrecord state (hstate state hphase)⟩
  cases hmove with
  | quiet => exact hkeep hworker fun _ h => h
  | found r hphase awaiting id loadable =>
      refine ⟨⟨r, List.mem_append_right _ (List.mem_singleton_self _), awaiting⟩, id, loadable,
        loadable.valid.recovery_eq_none (by rw [awaiting]; rfl), ?_⟩
      rintro state ⟨⟩
      exact awaiting
  | refused | create => cases hworker
  | poll answer hphase =>
      refine hkeep (by rw [hphase]; rfl) fun state hstate => ?_
      rw [hphase]
      split_ifs at hstate <;> exact hstate
  | look answer hphase =>
      refine hkeep (by rcases hphase with hphase | hphase <;> rw [hphase] <;> rfl) ?_
      intro state hstate
      split_ifs at hstate <;> cases hstate
  | lock hphase => exact hkeep (by rw [hphase]; rfl) fun _ hstate => by rw [hphase]; exact hstate
  | busy error hphase => exact hkeep (by rw [hphase]; rfl) fun _ hstate => by cases hstate
  | unlock hphase =>
      refine hkeep ?_ fun state hstate => ?_
      · generalize s.phase = p at hphase
        cases p <;> first | rfl | cases hphase
      · split_ifs at hstate <;> cases hstate
  | takeSnapshot description output hphase | apply output hphase | mark answer hphase =>
      exact hkeep (by rw [hphase]; rfl) fun _ hstate => by rw [hphase]; exact hstate
  | saved hstart may =>
      obtain ⟨r₀, hloaded, hawaiting⟩ := (h (may.hasWorker hstart)).loaded
      obtain ⟨hid, hloadable, hrecovery⟩ := may.keeps hstart (h (may.hasWorker hstart))
      exact ⟨⟨r₀, List.mem_append_left _ hloaded, hawaiting⟩, hid, hloadable, hrecovery,
        may.recordState hstart (h (may.hasWorker hstart))⟩
  | unsaved error hstart may =>
      obtain ⟨r₀, hloaded, hawaiting⟩ := (h (may.hasWorker hstart)).loaded
      obtain ⟨hid, hloadable, hrecovery⟩ := may.keeps hstart (h (may.hasWorker hstart))
      refine ⟨⟨r₀, List.mem_append_left _ hloaded, hawaiting⟩, hid, hloadable, hrecovery, ?_⟩
      intro state hstate
      generalize s.phase = p at hstart hstate
      cases p <;> cases hstate

/-- The same for the states themselves. -/
theorem sound_next {e : Op} {answer : e.Answer} (hallow : s.allows operationId e)
    (hvalid : validAnswer ⟨e, answer⟩) (h : s.phase.hasWorker → Sound operationId s)
    (hworker : (s.next ⟨e, answer⟩).phase.hasWorker) : Sound operationId (s.next ⟨e, answer⟩) :=
  (moves hallow hvalid).sound h hworker

end WorkerState

end LyraUpgrade
