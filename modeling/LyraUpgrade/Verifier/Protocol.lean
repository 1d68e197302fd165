import LyraUpgrade.Service.Protocol
import LyraUpgrade.Verifier.Boot

/-!
# The protocol of the boot verifier

What one run of the verifier may do to the files that others read, as an automaton: it
reads the records under the transaction lock, closes those that were interrupted, saves
the one it selects, lets it be checked, and saves the result.  `wp_verifierMain` says that
the program keeps to it.

The check reads the record again, so the phases carry two: `entered` is the record the
verifier has in memory, and `checking` also the one that is being checked.
-/

namespace LyraUpgrade

open Interaction

/-! ## The automaton -/

/-- How far the replacement of the replay record has come. -/
inductive Replacement
  | created
  | written (text : List Char)
  | synced (text : List Char)
  | renamed (text : List Char)
  | consumed (text : List Char)
  deriving DecidableEq

inductive VerifierPhase
  | start
  /-- The records are being read. -/
  | scanning
  /-- An interrupted record was saved. -/
  | closing
  /-- The selected record is saved. -/
  | entered (record : OperationStateRecord)
  /-- The check has read the record `checked`. -/
  | checking (record checked : OperationStateRecord)
  /-- The check has passed, and the replay record is being replaced. -/
  | replacing (record : OperationStateRecord) (step : Replacement)
  /-- The replay record could not be replaced. -/
  | unconsumed (record : OperationStateRecord)
  /-- Nothing more will be written. -/
  | finished
  | released
  deriving DecidableEq

namespace VerifierPhase

def holdsLock : VerifierPhase → Bool
  | start | released => false
  | _ => true

/-- The selected record, as the verifier has it in memory. -/
def selected : VerifierPhase → Option OperationStateRecord
  | entered r | checking r _ | replacing r _ | unconsumed r => some r
  | _ => none

end VerifierPhase

/-- Quiet, and not a read of the replay record. -/
def Op.isDetached : Op → Bool
  | .readSequence => false
  | e => e.isQuiet

/-- What a read record is, and that a check which is reported as passed has passed. -/
def validReport (e : Event Sig) : Prop :=
  match e with
  | ⟨.load id, answer⟩ =>
      ∀ r : OperationStateRecord, answer = .ok r → r.operationId = id ∧ Loadable r
  | ⟨.query (.supervise result), answer⟩ => (answer : Option CheckFailure) = none → result = none
  | _ => True

theorem validReport_of_exec {faults : Bool} {i : ℕ} {e : Op} {w w' : World} {answer : e.Answer}
    (h : exec faults i e w answer w') : validReport ⟨e, answer⟩ := by
  cases e with
  | load id =>
      rintro r rfl
      exact (exec_load_ok h).2
  | query q =>
      cases q with
      | supervise result =>
          rintro rfl
          obtain ⟨-, h | h | h⟩ := h
          · exact h.symm
          · cases h
          · cases h
      | _ => trivial
  | _ => trivial

structure VerifierState where
  phase : VerifierPhase
  events : List (Event Sig)

/-- The check of this boot has passed. -/
def Passed (events : List (Event Sig)) : Prop :=
  ⟨Op.query (.supervise none), (none : Option CheckFailure)⟩ ∈ events

/-- The root that runs and the default subvolume are the clone of the goal. -/
def Booted (events : List (Event Sig)) (goal : RollbackGoal) : Prop :=
  ∃ boot, goal.bootSnapshot = some boot ∧
    ⟨Op.query (.inspectSubvolume .root), Except.ok boot⟩ ∈ events ∧
    ⟨Op.query .defaultSubvolume, Except.ok boot.id⟩ ∈ events

/-- The sequence number of a verified upgrade, which the replay record does not exceed. -/
structure Consumable (events : List (Event Sig)) (record : OperationStateRecord) (n : ℕ) :
    Prop where
  passed : Passed events
  recovery : record.recovery = none
  signed : record.operation.isSignedOffline
  manifest : ⟨Op.readManifestSequence record.operationId, some n⟩ ∈ events
  previous : ∃ text previous, ⟨Op.readSequence, Except.ok text⟩ ∈ events ∧
    parseLastSequence text = .ok previous ∧ ∀ p, previous = some p → p ≤ n

theorem Consumable.mono {events events' : List (Event Sig)} {record : OperationStateRecord} {n : ℕ}
    (h : Consumable events record n) (hsub : events ⊆ events') : Consumable events' record n := by
  obtain ⟨hpassed, hrecovery, hsigned, hmanifest, text, previous, hread, hparse, hle⟩ := h
  exact ⟨hsub hpassed, hrecovery, hsigned, hsub hmanifest, text, previous, hsub hread, hparse, hle⟩

namespace VerifierState

/-- The record was read under the lock. -/
def Scanned (s : VerifierState) (r : OperationStateRecord) : Prop :=
  ⟨Op.load r.operationId, Except.ok r⟩ ∈ s.events

/-- The records a verifier may save. -/
inductive MaySave (s : VerifierState) : OperationStateRecord → Prop
  | interrupted (m : OperationStateRecord) (phase : s.phase = .scanning ∨ s.phase = .closing)
      (scanned : Scanned s m) (unfinished : (interruptedState m.state).isSome) :
      MaySave s (interruptedRecord m)
  | enter (m r : OperationStateRecord) (phase : s.phase = .scanning ∨ s.phase = .closing)
      (scanned : Scanned s m) (pending : isPending m) (enters : enterVerification m = some r) :
      MaySave s r
  | verified (record checked : OperationStateRecord) (phase : s.phase = .checking record checked)
      (passed : Passed s.events)
      (booted : ∀ goal, checked.recovery = some goal → Booted s.events goal)
      (kind : record.recovery.isSome ∨ record.operation.isSignedOffline = false) :
      MaySave s (completedRecord record)
  | consumed (record : OperationStateRecord) (n : ℕ)
      (phase : s.phase = .replacing record (.consumed (sequenceText n)))
      (consumable : Consumable s.events record n) : MaySave s (completedRecord record)
  | failed (record : OperationStateRecord) (code : String) (selected : s.phase.selected = some record) :
      MaySave s (recoveryRecord record code)

/-- The operations that are not detached, by phase. -/
def permits (s : VerifierState) : Op → Prop
  | .acquireLock => s.phase = .start
  | .releaseLock => s.phase.holdsLock
  | .load id => s.phase = .scanning ∨ ∃ record, s.phase = .entered record ∧ id = record.operationId
  | .save r => MaySave s r
  | .readSequence => ∃ record checked, s.phase = .checking record checked
  | .createTemporary => ∃ record checked n, s.phase = .checking record checked ∧
      Consumable s.events record n
  | .writeTemporary text => ∃ record n, s.phase = .replacing record .created ∧
      Consumable s.events record n ∧ text = sequenceText n
  | .syncTemporary => ∃ record text, s.phase = .replacing record (.written text)
  | .renameTemporary => ∃ record text, s.phase = .replacing record (.synced text)
  | .syncDirectory => ∃ record text, s.phase = .replacing record (.renamed text)
  | _ => False

/-- The phase after a save. -/
def phaseAfterSave (r : OperationStateRecord) (answer : Except PersistenceError Unit) :
    VerifierPhase → VerifierPhase
  | .scanning | .closing =>
      match answer with
      | .ok () => if isPending r then .entered r else .closing
      | .error _ => .finished
  | _ => .finished

/-- The phase after a step of the replacement of the replay record. -/
def replaced (r : OperationStateRecord) (step : Replacement) : Io Unit → VerifierPhase
  | .ok () => .replacing r step
  | .error _ => .unconsumed r

/-- The phase after the temporary file was created or written. -/
def phaseAfterFile (step : Replacement) (answer : Io Unit) (p : VerifierPhase) : VerifierPhase :=
  match p.selected with
  | some r => replaced r step answer
  | none => p

/-- The phase after a step that keeps the text. -/
def phaseAfterSync (answer : Io Unit) : VerifierPhase → VerifierPhase
  | .replacing r (.written text) => replaced r (.synced text) answer
  | .replacing r (.synced text) => replaced r (.renamed text) answer
  | .replacing r (.renamed text) => replaced r (.consumed text) answer
  | p => p

def nextPhase (p : VerifierPhase) : Event Sig → VerifierPhase
  | ⟨.acquireLock, .ok ()⟩ => .scanning
  | ⟨.acquireLock, .error _⟩ => .released
  | ⟨.releaseLock, _⟩ => .released
  | ⟨.load _, .ok m⟩ =>
      match p with
      | .entered r => .checking r m
      | p => p
  | ⟨.save r, answer⟩ => phaseAfterSave r answer p
  | ⟨.createTemporary, answer⟩ => phaseAfterFile .created answer p
  | ⟨.writeTemporary text, answer⟩ => phaseAfterFile (.written text) answer p
  | ⟨.syncTemporary, answer⟩ => phaseAfterSync answer p
  | ⟨.renameTemporary, answer⟩ => phaseAfterSync answer p
  | ⟨.syncDirectory, answer⟩ => phaseAfterSync answer p
  | _ => p

def next (s : VerifierState) (e : Event Sig) : VerifierState where
  phase := nextPhase s.phase e
  events := s.events ++ [e]

end VerifierState

/-- The protocol of one run of the verifier. -/
def verifierAutomaton : Automaton Sig VerifierState where
  allows := fun s e => e.isDetached ∨ s.permits e
  next := VerifierState.next

def verifierContract : Contract Sig VerifierState := verifierAutomaton.contract validReport

/-! ## Steps -/

namespace VerifierState

variable {s : VerifierState}

theorem phase_next (s : VerifierState) (e : Event Sig) :
    (s.next e).phase = nextPhase s.phase e := rfl

theorem isQuiet_of_isDetached {e : Op} (h : e.isDetached) : e.isQuiet := by
  cases e <;> first | exact h | cases h

/-- A detached operation is noted, and changes nothing else. -/
theorem next_detached {e : Event Sig} (h : Op.isDetached e.op) :
    s.next e = { s with events := s.events ++ [e] } := by
  obtain ⟨e, a⟩ := e
  cases e with
  | acquireLock | releaseLock | load _ | save _ | linkMarker _ | unlinkMarker | createTemporary
  | writeTemporary _ | syncTemporary | renameTemporary | syncDirectory | readSequence =>
      exact absurd h (by simp [Op.isDetached, Op.isQuiet])
  | _ => rfl

/-- **The steps of the protocol**, with the phase after each. -/
inductive Moves (s : VerifierState) : Event Sig → VerifierPhase → Prop
  | detached {e : Event Sig} (detached : Op.isDetached e.op) : Moves s e s.phase
  | lock (phase : s.phase = .start) : Moves s ⟨.acquireLock, .ok ()⟩ .scanning
  | busy (error : LockError) (phase : s.phase = .start) :
      Moves s ⟨.acquireLock, .error error⟩ .released
  | unlock (phase : s.phase.holdsLock) : Moves s ⟨.releaseLock, ()⟩ .released
  | read (r : OperationStateRecord) (phase : s.phase = .scanning) (loadable : Loadable r) :
      Moves s ⟨.load r.operationId, .ok r⟩ .scanning
  | unread (id : String) (error : PersistenceError) : Moves s ⟨.load id, .error error⟩ s.phase
  | check (record r : OperationStateRecord) (phase : s.phase = .entered record)
      (id : r.operationId = record.operationId) (loadable : Loadable r) :
      Moves s ⟨.load record.operationId, .ok r⟩ (.checking record r)
  | save {r : OperationStateRecord} (answer : Except PersistenceError Unit) (may : MaySave s r) :
      Moves s ⟨.save r, answer⟩ (phaseAfterSave r answer s.phase)
  | readSequence (record checked : OperationStateRecord) (answer : Io (Option (List Char)))
      (phase : s.phase = .checking record checked) : Moves s ⟨.readSequence, answer⟩ s.phase
  | create (record checked : OperationStateRecord) (n : ℕ) (answer : Io Unit)
      (phase : s.phase = .checking record checked) (consumable : Consumable s.events record n) :
      Moves s ⟨.createTemporary, answer⟩ (replaced record .created answer)
  | write (record : OperationStateRecord) (n : ℕ) (answer : Io Unit)
      (phase : s.phase = .replacing record .created)
      (consumable : Consumable s.events record n) :
      Moves s ⟨.writeTemporary (sequenceText n), answer⟩
        (replaced record (.written (sequenceText n)) answer)
  | sync (record : OperationStateRecord) (text : List Char) (answer : Io Unit)
      (phase : s.phase = .replacing record (.written text)) :
      Moves s ⟨.syncTemporary, answer⟩ (replaced record (.synced text) answer)
  | rename (record : OperationStateRecord) (text : List Char) (answer : Io Unit)
      (phase : s.phase = .replacing record (.synced text)) :
      Moves s ⟨.renameTemporary, answer⟩ (replaced record (.renamed text) answer)
  | finish (record : OperationStateRecord) (text : List Char) (answer : Io Unit)
      (phase : s.phase = .replacing record (.renamed text)) :
      Moves s ⟨.syncDirectory, answer⟩ (replaced record (.consumed text) answer)

/-- Every allowed operation with a valid answer is one of the steps. -/
theorem moves {e : Op} {answer : e.Answer} (hallow : e.isDetached ∨ s.permits e)
    (hvalid : validReport ⟨e, answer⟩) : Moves s ⟨e, answer⟩ (s.next ⟨e, answer⟩).phase := by
  rcases hallow with hdetached | hpermit
  · rw [next_detached hdetached]
    exact .detached hdetached
  show Moves s _ (nextPhase s.phase _)
  cases e with
  | acquireLock =>
      rcases answer with error | ⟨⟩
      · exact .busy error hpermit
      · exact .lock hpermit
  | releaseLock => exact .unlock hpermit
  | load id =>
      cases answer with
      | error e => exact .unread id e
      | ok r =>
          obtain ⟨hid, hloadable⟩ := hvalid r rfl
          rcases hpermit with hphase | ⟨record, hphase, rfl⟩
          · subst hid
            rw [hphase]
            exact .read r hphase hloadable
          · rw [hphase]
            exact .check record r hphase hid hloadable
  | save r => exact .save answer hpermit
  | readSequence =>
      obtain ⟨record, checked, hphase⟩ := hpermit
      exact .readSequence record checked answer hphase
  | createTemporary =>
      obtain ⟨record, checked, n, hphase, hconsumable⟩ := hpermit
      rw [hphase]
      exact .create record checked n answer hphase hconsumable
  | writeTemporary text =>
      obtain ⟨record, n, hphase, hconsumable, rfl⟩ := hpermit
      rw [hphase]
      exact .write record n answer hphase hconsumable
  | syncTemporary =>
      obtain ⟨record, text, hphase⟩ := hpermit
      rw [hphase]
      exact .sync record text answer hphase
  | renameTemporary =>
      obtain ⟨record, text, hphase⟩ := hpermit
      rw [hphase]
      exact .rename record text answer hphase
  | syncDirectory =>
      obtain ⟨record, text, hphase⟩ := hpermit
      rw [hphase]
      exact .finish record text answer hphase
  | _ => exact hpermit.elim

end VerifierState

/-! ## Rules -/

section

variable {α : Type} {s : VerifierState}

/-- Only operations that are no part of the protocol. -/
abbrev Detached (p : Prog Sig α) : Prop := p.Only fun e => Op.isDetached e

namespace VerifierState

/-- Only the events have grown. -/
structure Follows (s s' : VerifierState) : Prop where
  phase : s'.phase = s.phase
  events : s.events ⊆ s'.events

theorem Follows.refl (s : VerifierState) : Follows s s := ⟨rfl, fun _ h => h⟩

theorem Follows.trans {s t u : VerifierState} (h : Follows s t) (h' : Follows t u) :
    Follows s u :=
  ⟨h'.phase.trans h.phase, fun _ he => h'.events (h.events he)⟩

theorem follows_detached {e : Event Sig} (h : Op.isDetached e.op) : Follows s (s.next e) := by
  rw [next_detached h]
  exact ⟨rfl, List.subset_append_left _ _⟩

theorem mem_next (s : VerifierState) (e : Event Sig) : e ∈ (s.next e).events :=
  List.mem_append_right _ (List.mem_singleton_self e)

theorem subset_next (s : VerifierState) (e : Event Sig) : s.events ⊆ (s.next e).events :=
  List.subset_append_left _ _

theorem wp_ask {e : Op} {Q : e.Answer → VerifierState → Prop} (hpermit : s.permits e)
    (h : ∀ a : e.Answer, validReport ⟨e, a⟩ → Q a (s.next ⟨e, a⟩)) :
    (ask e).wp verifierContract Q s :=
  Automaton.wp_request (Or.inr hpermit) h

theorem wp_observe {e : Op} {Q : e.Answer → VerifierState → Prop} (hdetached : e.isDetached)
    (h : ∀ a : e.Answer, Follows s (s.next ⟨e, a⟩) → ⟨e, a⟩ ∈ (s.next ⟨e, a⟩).events →
      Q a (s.next ⟨e, a⟩)) : (ask e).wp verifierContract Q s :=
  Automaton.wp_request (Or.inl hdetached) fun a _ => h a (follows_detached hdetached) (mem_next s _)

theorem wp_detached {p : Prog Sig α} (h : Detached p) (s : VerifierState) :
    p.wp verifierContract (fun _ s' => Follows s s') s := by
  refine Prog.wp_of_only Follows.refl (fun _ _ _ => Follows.trans)
    (fun e s he => Or.inl he) ?_ h s
  rintro e s a _ he ⟨-, rfl⟩
  exact follows_detached he

theorem detached_ask {e : Op} (h : e.isDetached) : Detached (ask e) := ⟨h, fun _ => trivial⟩

theorem Scanned.mono {s s' : VerifierState} {r : OperationStateRecord} (h : Scanned s r)
    (hsub : s.events ⊆ s'.events) : Scanned s' r :=
  hsub h

/-! ## The scan -/

/-- Every record the scan has sorted was read under the lock, and belongs where it is. -/
structure Collected (s : VerifierState) (scan : PendingScan) : Prop where
  candidates : ∀ r ∈ scan.candidates, isPending r ∧ Scanned s r
  interrupted : ∀ r ∈ scan.interrupted, (interruptedState r.state).isSome ∧ Scanned s r

theorem Collected.mono {s s' : VerifierState} {scan : PendingScan} (h : Collected s scan)
    (hsub : s.events ⊆ s'.events) : Collected s' scan where
  candidates := fun r hr => ⟨(h.candidates r hr).1, (h.candidates r hr).2.mono hsub⟩
  interrupted := fun r hr => ⟨(h.interrupted r hr).1, (h.interrupted r hr).2.mono hsub⟩

theorem Collected.scanRecord {scan : PendingScan} {r : OperationStateRecord} (h : Collected s scan)
    (marked : Option String) (hr : Scanned s r) : Collected s (scanRecord scan marked r) := by
  unfold LyraUpgrade.scanRecord
  split_ifs with hpending hinterrupted
  · refine ⟨fun r' hr' => ?_, h.interrupted⟩
    rcases List.mem_append.mp hr' with hr' | hr'
    · exact h.candidates r' hr'
    · obtain rfl := List.mem_singleton.mp hr'
      exact ⟨hpending, hr⟩
  · refine ⟨h.candidates, fun r' hr' => ?_⟩
    rcases List.mem_append.mp hr' with hr' | hr'
    · exact h.interrupted r' hr'
    · obtain rfl := List.mem_singleton.mp hr'
      refine ⟨?_, hr⟩
      simp only [Bool.or_eq_true, Bool.and_eq_true, decide_eq_true_eq] at hinterrupted
      rcases hinterrupted with ⟨-, h⟩ | ⟨h, -⟩
      · exact h
      · rw [h]; rfl
  · exact h

theorem detached_markedOperation : Detached markedOperation := by
  refine Prog.only_bind (detached_ask rfl) fun answer => ?_
  rcases answer with error | marker
  · exact Prog.only_pure _
  · cases marker <;> exact Prog.only_pure _

/-- The records are read one after the other. -/
theorem wp_scanEntries (entries : List Entry) (scan : PendingScan) (hs : s.phase = .scanning)
    (hscan : Collected s scan) : (scanEntries scan entries).wp verifierContract
      (fun scan' s' => s'.phase = .scanning ∧ Collected s' scan') s := by
  induction entries generalizing scan s with
  | nil => exact ⟨hs, hscan⟩
  | cons entry entries ih =>
      cases entry with
      | invalid => exact ih _ hs ⟨hscan.candidates, hscan.interrupted⟩
      | directory id =>
          unfold scanEntries
          rw [Prog.wp_bind]
          refine wp_ask (e := .load id) (.inl hs) fun answer hvalid => ?_
          have hphase : (s.next ⟨Op.load id, answer⟩).phase = .scanning := by
            show nextPhase s.phase _ = _
            rw [hs]
            cases answer <;> rfl
          have hscan' := hscan.mono (subset_next s ⟨Op.load id, answer⟩)
          cases answer with
          | error e => exact ih _ hphase ⟨hscan'.candidates, hscan'.interrupted⟩
          | ok r =>
              obtain ⟨rfl, -⟩ := hvalid r rfl
              have hcollect : ∀ marked s', Follows (s.next ⟨Op.load r.operationId, .ok r⟩) s' →
                  Prog.wp verifierContract (fun scan' s' => s'.phase = .scanning ∧ Collected s' scan')
                    (scanEntries (scanRecord scan marked r) entries) s' := fun marked s' hf =>
                ih _ (hf.phase.trans hphase)
                  ((hscan'.mono hf.events).scanRecord marked (hf.events (mem_next s _)))
              dsimp only
              split_ifs
              · rw [Prog.wp_bind]
                exact Prog.wp_mono hcollect (wp_detached detached_markedOperation _)
              · exact hcollect none _ (.refl _)

theorem wp_pendingOperation (hs : s.phase = .scanning) : pendingOperation.wp verifierContract
    (fun result s' => s'.phase = .scanning ∧ ∀ scan, result = .ok scan → Collected s' scan) s := by
  unfold pendingOperation
  rw [Prog.wp_bind]
  refine wp_observe rfl fun answer hf _ => ?_
  cases answer with
  | error e => exact ⟨hf.phase.trans hs, fun _ h => by cases h⟩
  | ok entries =>
      dsimp only
      rw [Prog.wp_bind]
      refine Prog.wp_mono ?_ (wp_scanEntries entries {} (hf.phase.trans hs)
        ⟨fun r hr => (by cases hr), fun r hr => (by cases hr)⟩)
      rintro scan s' ⟨hphase, hscan⟩
      exact ⟨hphase, fun scan' h => by cases h; exact hscan⟩

theorem mem_of_operation {scan : PendingScan} {r : OperationStateRecord}
    (h : scan.operation = some r) : r ∈ scan.candidates :=
  (List.perm_insertionSort _ scan.candidates).subset (List.mem_of_mem_head? h)

theorem isPending_interruptedRecord {m : OperationStateRecord}
    (h : (interruptedState m.state).isSome) : isPending (interruptedRecord m) = false := by
  obtain ⟨state, hstate⟩ := Option.isSome_iff_exists.mp h
  show (decide ((interruptedState m.state).getD m.state = .awaitingReboot) ||
    decide ((interruptedState m.state).getD m.state = .verifyingBoot)) = false
  rw [hstate]
  unfold interruptedState at hstate
  split at hstate <;> cases hstate <;> rfl

/-- Every interrupted record is closed, or the run ends. -/
theorem wp_closeInterrupted (states : List OperationStateRecord)
    (hs : s.phase = .scanning ∨ s.phase = .closing)
    (hstates : ∀ r ∈ states, (interruptedState r.state).isSome ∧ Scanned s r) :
    (closeInterrupted states).wp verifierContract (fun closed s' => s'.phase.holdsLock ∧
      (closed = true → (s'.phase = .scanning ∨ s'.phase = .closing) ∧ s.events ⊆ s'.events)) s := by
  induction states generalizing s with
  | nil =>
      refine ⟨?_, fun _ => ⟨hs, fun _ h => h⟩⟩
      rcases hs with hs | hs <;> rw [hs] <;> rfl
  | cons m states ih =>
      obtain ⟨hunfinished, hscanned⟩ := hstates m (List.mem_cons_self ..)
      unfold closeInterrupted
      rw [Prog.wp_bind]
      refine wp_ask (e := .save (interruptedRecord m)) (.interrupted m hs hscanned hunfinished)
        fun answer _ => ?_
      have hphase : (s.next ⟨Op.save (interruptedRecord m), answer⟩).phase =
          match answer with
          | .ok () => .closing
          | .error _ => .finished := by
        show phaseAfterSave _ answer s.phase = _
        rcases hs with hs | hs <;> rw [hs] <;> rcases answer with error | ⟨⟩ <;>
          simp [phaseAfterSave, isPending_interruptedRecord hunfinished]
      have hsub := subset_next s ⟨Op.save (interruptedRecord m), answer⟩
      cases answer with
      | error e => exact ⟨by rw [hphase]; rfl, fun h => by cases h⟩
      | ok u =>
          refine Prog.wp_mono ?_ (ih (.inr hphase) fun r hr => ?_)
          · rintro closed s' ⟨hlock, hclosed⟩
            exact ⟨hlock, fun h => ⟨(hclosed h).1, fun _ he => (hclosed h).2 (hsub he)⟩⟩
          · obtain ⟨hr₁, hr₂⟩ := hstates r (List.mem_cons_of_mem _ hr)
            exact ⟨hr₁, hr₂.mono hsub⟩

/-! ## The check -/

theorem detached_runProbes (probes : List (Probe × CheckFailure)) : Detached (runProbes probes) := by
  induction probes with
  | nil => exact Prog.only_pure _
  | cons probe probes ih =>
      refine Prog.only_bind (detached_ask rfl) fun passed => ?_
      split_ifs
      · exact ih
      · exact Prog.only_pure _

theorem detached_verifyInventory (ext : Externals) (state : OperationStateRecord) :
    Detached (verifyInventory ext state) := by
  refine Prog.only_bind (detached_ask rfl) fun report => ?_
  cases report with
  | error e => exact Prog.only_pure _
  | ok report =>
      refine Prog.only_bind (detached_ask rfl) fun written => ?_
      cases written with
      | error e => exact Prog.only_pure _
      | ok u =>
          dsimp only
          split_ifs
          · refine Prog.only_bind (detached_ask rfl) fun before => ?_
            cases before <;> exact Prog.only_pure _
          · refine Prog.only_bind (detached_ask rfl) fun plan => ?_
            cases plan <;> exact Prog.only_pure _

/-- What is known of the record where its check passed. -/
def Checks (state : OperationStateRecord) (s : VerifierState) :
    Except CheckFailure Unit → VerifierState → Prop
  | .ok (), s' => Follows s s' ∧ ∀ goal, state.recovery = some goal → Booted s'.events goal
  | .error _, s' => Follows s s'

theorem Checks.follows {state : OperationStateRecord} {result : Except CheckFailure Unit}
    {s s' : VerifierState} (h : Checks state s result s') : Follows s s' := by
  rcases result with error | ⟨⟩
  · exact h
  · exact h.1

theorem wp_verifyRollbackBoot (goal : RollbackGoal) (s : VerifierState) :
    (verifyRollbackBoot goal).wp verifierContract (fun result s' => Follows s s' ∧
      (result = .ok () → Booted s'.events goal)) s := by
  unfold verifyRollbackBoot
  cases hboot : goal.bootSnapshot with
  | none => exact ⟨.refl s, fun h => by cases h⟩
  | some expected =>
      dsimp only
      rw [Prog.wp_bind]
      refine wp_observe rfl fun source h₁ _ => ?_
      cases source with
      | error e => exact ⟨h₁, fun h => by cases h⟩
      | ok source =>
          dsimp only
          split_ifs
          · exact ⟨h₁, fun h => by cases h⟩
          rw [Prog.wp_bind]
          refine wp_observe rfl fun root h₂ hroot => ?_
          cases root with
          | error e => exact ⟨h₁.trans h₂, fun h => by cases h⟩
          | ok root =>
              dsimp only
              split_ifs with hsame
              · exact ⟨h₁.trans h₂, fun h => by cases h⟩
              rw [Prog.wp_bind]
              refine wp_observe rfl fun default h₃ hdefault => ?_
              have h₁₃ := h₁.trans (h₂.trans h₃)
              cases default with
              | error e => exact ⟨h₁₃, fun h => by cases h⟩
              | ok default =>
                  refine ⟨h₁₃, fun h => ?_⟩
                  split_ifs at h with hid
                  obtain rfl := not_not.mp hsame
                  subst hid
                  exact ⟨root, hboot, h₃.events hroot, hdefault⟩

theorem wp_verifyRecovery (state : OperationStateRecord) (s : VerifierState) :
    (verifyRecovery state).wp verifierContract (Checks state s) s := by
  unfold verifyRecovery
  cases hrecovery : state.recovery with
  | none => exact ⟨.refl s, fun goal h => by rw [hrecovery] at h; cases h⟩
  | some goal =>
      refine Prog.wp_mono ?_ (wp_verifyRollbackBoot goal s)
      rintro (error | ⟨⟩) s' ⟨hf, hbooted⟩
      · exact hf
      · refine ⟨hf, fun goal' h => ?_⟩
        rw [hrecovery] at h
        cases h
        exact hbooted rfl

theorem wp_verify (ext : Externals) (state : OperationStateRecord) (s : VerifierState) :
    (verify ext state).wp verifierContract (Checks state s) s := by
  unfold verify
  rw [Prog.wp_bind]
  refine wp_observe rfl fun facts h₁ _ => ?_
  cases facts with
  | error e => exact h₁
  | ok facts =>
      dsimp only
      cases verifyRelease state facts.release with
      | error e => exact h₁
      | ok u =>
          dsimp only
          rw [Prog.wp_bind]
          refine Prog.wp_mono ?_ (wp_verifyRecovery state _)
          rintro (error | ⟨⟩) s₂ h₂
          · exact h₁.trans h₂
          dsimp only
          split_ifs
          · exact h₁.trans h₂.1
          rw [Prog.wp_bind]
          refine Prog.wp_mono ?_ (wp_detached (detached_runProbes _) s₂)
          rintro (error | ⟨⟩) s₃ h₃
          · exact h₁.trans (h₂.1.trans h₃)
          refine Prog.wp_mono ?_ (wp_detached (detached_verifyInventory ext state) s₃)
          intro result s₄ h₄
          have hf := h₁.trans (h₂.1.trans (h₃.trans h₄))
          rcases result with error | ⟨⟩
          · exact hf
          · refine ⟨hf, fun goal hgoal => ?_⟩
            obtain ⟨boot, hboot, hroot, hdefault⟩ := h₂.2 goal hgoal
            exact ⟨boot, hboot, h₄.events (h₃.events hroot), h₄.events (h₃.events hdefault)⟩

/-- Where the check leaves the verifier. -/
def Reports (record : OperationStateRecord) (s : VerifierState) (failure : Option CheckFailure)
    (s' : VerifierState) : Prop :=
  s.events ⊆ s'.events ∧ s'.phase.selected = some record ∧ (failure = none →
    ∃ checked, s'.phase = .checking record checked ∧
      ∀ goal, checked.recovery = some goal → Booted s'.events goal)

theorem wp_checkBoot (ext : Externals) {record : OperationStateRecord}
    (hs : s.phase = .entered record) : (checkBoot ext record.operationId).wp verifierContract
      (Reports record s) s := by
  unfold checkBoot
  rw [Prog.wp_bind]
  refine wp_ask (e := .load record.operationId) (.inr ⟨record, hs, rfl⟩) fun answer _ => ?_
  have hsub := subset_next s ⟨Op.load record.operationId, answer⟩
  have hphase : (s.next ⟨Op.load record.operationId, answer⟩).phase =
      match answer with
      | .ok m => .checking record m
      | .error _ => .entered record := by
    show nextPhase s.phase _ = _
    rw [hs]
    cases answer <;> rfl
  cases answer with
  | error e => exact ⟨hsub, by rw [hphase]; rfl, fun h => by cases h⟩
  | ok m =>
      dsimp only at hphase ⊢
      rw [Prog.wp_bind]
      refine Prog.wp_mono ?_ (wp_verify ext m _)
      intro result s' hchecks
      have hphase' := (Checks.follows hchecks).phase.trans hphase
      have hselected : s'.phase.selected = some record := by rw [hphase']; rfl
      have hsub' : s.events ⊆ s'.events := fun _ he => (Checks.follows hchecks).events (hsub he)
      rcases result with error | ⟨⟩
      · exact ⟨hsub', hselected, fun h => by cases h⟩
      · exact ⟨hsub', hselected, fun _ => ⟨m, hphase', hchecks.2⟩⟩

/-- The supervisor reports a check as passed only if it passed. -/
theorem wp_supervisedCheck (ext : Externals) {record : OperationStateRecord}
    (hs : s.phase = .entered record) :
    (supervisedCheck ext record.operationId).wp verifierContract
      (fun failure s' => Reports record s failure s' ∧ (failure = none → Passed s'.events)) s := by
  unfold supervisedCheck
  rw [Prog.wp_bind]
  refine Prog.wp_mono ?_ (wp_checkBoot ext hs)
  rintro result s₁ ⟨hsub, hselected, hpassed⟩
  refine Automaton.wp_request (Or.inl rfl) fun failure hvalid => ?_
  have hf : Follows s₁ (verifierAutomaton.next s₁ ⟨Op.query (.supervise result), failure⟩) :=
    follows_detached rfl
  refine ⟨⟨fun _ he => hf.events (hsub he), by rw [hf.phase]; exact hselected, ?_⟩, ?_⟩
  · rintro rfl
    obtain ⟨checked, hphase, hbooted⟩ := hpassed (hvalid rfl)
    refine ⟨checked, hf.phase.trans hphase, fun goal hgoal => ?_⟩
    obtain ⟨boot, hboot, hroot, hdefault⟩ := hbooted goal hgoal
    exact ⟨boot, hboot, hf.events hroot, hf.events hdefault⟩
  · rintro rfl
    obtain rfl := hvalid rfl
    exact mem_next s₁ _

/-! ## The result -/

/-- Where the replacement of the replay record leaves the verifier. -/
structure Replaces (record : OperationStateRecord) (n : ℕ) (s : VerifierState) (result : Io Unit)
    (s' : VerifierState) : Prop where
  events : s.events ⊆ s'.events
  selected : s'.phase.selected = some record
  consumed : result = .ok () → s'.phase = .replacing record (.consumed (sequenceText n))

theorem replaces_error {record : OperationStateRecord} {n : ℕ} {s' : VerifierState} {e : IoError}
    (hsub : s.events ⊆ s'.events) (hphase : s'.phase = .unconsumed record) :
    Replaces record n s (.error e) s' :=
  ⟨hsub, by rw [hphase]; rfl, fun h => by cases h⟩

/-- The five steps of the replacement, in their order. -/
theorem wp_replaceSequence {record checked : OperationStateRecord} {n : ℕ}
    (hs : s.phase = .checking record checked) (hconsumable : Consumable s.events record n) :
    (replaceSequence n).wp verifierContract (Replaces record n s) s := by
  have hphase : ∀ {s' : VerifierState} {p : VerifierPhase} {e : Event Sig}, s'.phase = p →
      (s'.next e).phase = nextPhase p e := fun h => by rw [phase_next, h]
  unfold replaceSequence
  rw [Prog.wp_bind]
  refine wp_ask ⟨record, checked, n, hs, hconsumable⟩ fun created _ => ?_
  have hsub₁ := subset_next s ⟨Op.createTemporary, created⟩
  cases created with
  | error e => exact replaces_error hsub₁ (hphase hs)
  | ok u =>
      have hs₁ : (s.next ⟨Op.createTemporary, .ok u⟩).phase = .replacing record .created :=
        hphase hs
      generalize s.next ⟨Op.createTemporary, .ok u⟩ = s₁ at hs₁ hsub₁
      have hconsumable₁ := hconsumable.mono hsub₁
      dsimp only
      rw [Prog.wp_bind]
      refine wp_ask ⟨record, n, hs₁, hconsumable₁, rfl⟩ fun written _ => ?_
      have hsub₂ : s.events ⊆ (s₁.next ⟨Op.writeTemporary (sequenceText n), written⟩).events :=
        fun _ he => subset_next s₁ _ (hsub₁ he)
      cases written with
      | error e => exact replaces_error hsub₂ (hphase hs₁)
      | ok u =>
          have hs₂ : (s₁.next ⟨Op.writeTemporary (sequenceText n), .ok u⟩).phase =
              .replacing record (.written (sequenceText n)) := hphase hs₁
          generalize s₁.next ⟨Op.writeTemporary (sequenceText n), .ok u⟩ = s₂ at hs₂ hsub₂
          dsimp only
          rw [Prog.wp_bind]
          refine wp_ask ⟨record, _, hs₂⟩ fun synced _ => ?_
          have hsub₃ : s.events ⊆ (s₂.next ⟨Op.syncTemporary, synced⟩).events :=
            fun _ he => subset_next s₂ _ (hsub₂ he)
          cases synced with
          | error e => exact replaces_error hsub₃ (hphase hs₂)
          | ok u =>
              have hs₃ : (s₂.next ⟨Op.syncTemporary, .ok u⟩).phase =
                  .replacing record (.synced (sequenceText n)) := hphase hs₂
              generalize s₂.next ⟨Op.syncTemporary, .ok u⟩ = s₃ at hs₃ hsub₃
              dsimp only
              rw [Prog.wp_bind]
              refine wp_ask ⟨record, _, hs₃⟩ fun renamed _ => ?_
              have hsub₄ : s.events ⊆ (s₃.next ⟨Op.renameTemporary, renamed⟩).events :=
                fun _ he => subset_next s₃ _ (hsub₃ he)
              cases renamed with
              | error e => exact replaces_error hsub₄ (hphase hs₃)
              | ok u =>
                  have hs₄ : (s₃.next ⟨Op.renameTemporary, .ok u⟩).phase =
                      .replacing record (.renamed (sequenceText n)) := hphase hs₃
                  generalize s₃.next ⟨Op.renameTemporary, .ok u⟩ = s₄ at hs₄ hsub₄
                  refine wp_ask ⟨record, _, hs₄⟩ fun finished _ => ?_
                  have hsub₅ : s.events ⊆ (s₄.next ⟨Op.syncDirectory, finished⟩).events :=
                    fun _ he => subset_next s₄ _ (hsub₄ he)
                  rcases finished with error | ⟨⟩
                  · exact replaces_error hsub₅ (hphase hs₄)
                  · exact ⟨hsub₅, by rw [hphase hs₄]; rfl, fun _ => hphase hs₄⟩

/-- The sequence number of the manifest is consumed, where the replay record allows it. -/
theorem wp_consumeSequence {record checked : OperationStateRecord}
    (hs : s.phase = .checking record checked) (hpassed : Passed s.events)
    (hrecovery : record.recovery = none) (hsigned : record.operation.isSignedOffline) :
    (consumeSequence record.operationId).wp verifierContract
      (fun consumed s' => s'.phase.selected = some record ∧ (consumed = true →
        ∃ n, s'.phase = .replacing record (.consumed (sequenceText n)) ∧
          Consumable s'.events record n)) s := by
  unfold consumeSequence
  rw [Prog.wp_bind]
  refine wp_observe rfl fun sequence h₁ hmanifest => ?_
  have hselected₁ : (s.next ⟨Op.readManifestSequence record.operationId, sequence⟩).phase.selected =
      some record := by
    rw [h₁.phase, hs]
    rfl
  cases sequence with
  | none => exact ⟨hselected₁, fun h => by cases h⟩
  | some n =>
      dsimp only
      unfold writeSequence readLastManifestSequence
      simp only [bind_assoc]
      rw [Prog.wp_bind]
      refine wp_ask ⟨record, checked, h₁.phase.trans hs⟩ fun read _ => ?_
      have hs₂ : ((s.next ⟨Op.readManifestSequence record.operationId, some n⟩).next
          ⟨Op.readSequence, read⟩).phase = .checking record checked := by
        rw [phase_next, h₁.phase, hs]
        rfl
      have hsub₂ := subset_next (s.next ⟨Op.readManifestSequence record.operationId, some n⟩)
        ⟨Op.readSequence, read⟩
      have hread := mem_next (s.next ⟨Op.readManifestSequence record.operationId, some n⟩)
        ⟨Op.readSequence, read⟩
      generalize (s.next ⟨Op.readManifestSequence record.operationId, some n⟩).next
        ⟨Op.readSequence, read⟩ = s₂ at hs₂ hsub₂ hread
      have hselected₂ : s₂.phase.selected = some record := by rw [hs₂]; rfl
      cases read with
      | error e => exact ⟨hselected₂, fun h => by cases h⟩
      | ok text =>
          dsimp only
          rw [pure_bind]
          cases hparse : parseLastSequence text with
          | error e => exact ⟨hselected₂, fun h => by cases h⟩
          | ok previous =>
              dsimp only
              split_ifs with hbelow
              · exact ⟨hselected₂, fun h => by cases h⟩
              rw [Prog.wp_bind]
              have hconsumable : Consumable s₂.events record n := by
                refine ⟨hsub₂ (h₁.events hpassed), hrecovery, hsigned, hsub₂ hmanifest, text,
                  previous, hread, hparse, ?_⟩
                rintro p rfl
                exact Nat.not_lt.mp fun hlt => hbelow (by simpa using hlt)
              refine Prog.wp_mono ?_ (wp_replaceSequence hs₂ hconsumable)
              rintro (error | ⟨⟩) s' ⟨hsub, hselected, hconsumed⟩
              · exact ⟨hselected, fun h => by cases h⟩
              · exact ⟨hselected, fun _ => ⟨n, hconsumed rfl, hconsumable.mono hsub⟩⟩

theorem phaseAfterSave_holdsLock (r : OperationStateRecord)
    (answer : Except PersistenceError Unit) (p : VerifierPhase) :
    (phaseAfterSave r answer p).holdsLock := by
  unfold phaseAfterSave
  split
  · rcases answer with error | ⟨⟩
    · rfl
    · dsimp only
      split_ifs <;> rfl
  · rcases answer with error | ⟨⟩
    · rfl
    · dsimp only
      split_ifs <;> rfl
  · rfl

theorem holdsLock_saved (s : VerifierState) (r : OperationStateRecord)
    (answer : Except PersistenceError Unit) : (s.next ⟨.save r, answer⟩).phase.holdsLock :=
  phaseAfterSave_holdsLock r answer s.phase

/-- A record that was selected may always be closed with a failure. -/
theorem maySave_failed {record : OperationStateRecord} (h : s.phase.selected = some record)
    (code : String) : MaySave s (recoveryRecord record code) ∧ s.phase.holdsLock := by
  refine ⟨.failed record code h, ?_⟩
  generalize s.phase = p at h
  cases p <;> first | rfl | cases h

/-- A check that did not pass. -/
theorem wp_finalize_failed {record : OperationStateRecord} (h : s.phase.selected = some record)
    (error : CheckFailure) : (finalizeVerification record false).wp verifierContract
      (fun result s' => MaySave s' { result with errorCode := some error.code } ∧
        s'.phase.holdsLock) s :=
  maySave_failed h error.code

/-- A check that passed: the sequence number of a verified upgrade is consumed first. -/
theorem wp_finalize_passed {record checked : OperationStateRecord}
    (hs : s.phase = .checking record checked) (hpassed : Passed s.events)
    (hbooted : ∀ goal, checked.recovery = some goal → Booted s.events goal) :
    (finalizeVerification record true).wp verifierContract
      (fun result s' => MaySave s' result ∧ s'.phase.holdsLock) s := by
  have hlock : s.phase.holdsLock := by rw [hs]; rfl
  unfold finalizeVerification
  rw [if_neg (by simp)]
  split_ifs with hconsumes
  · simp only [Bool.and_eq_true, Option.isNone_iff_eq_none] at hconsumes
    rw [Prog.wp_bind]
    refine Prog.wp_mono ?_ (wp_consumeSequence hs hpassed hconsumes.1 hconsumes.2)
    rintro consumed s' ⟨hselected, hconsumed⟩
    split_ifs with hc
    · obtain ⟨n, hphase, hconsumable⟩ := hconsumed hc
      exact ⟨.consumed record n hphase hconsumable, (maySave_failed hselected "").2⟩
    · exact maySave_failed hselected _
  · refine ⟨.verified record checked hs hpassed hbooted ?_, hlock⟩
    cases hrecovery : record.recovery with
    | none => simpa [hrecovery] using hconsumes
    | some goal => exact .inl rfl

/-- The selected operation is saved, checked, and saved with the result. -/
theorem wp_verifySelected (ext : Externals) (incomplete : Bool) {r : OperationStateRecord}
    (hpending : isPending r) (hs : s.phase = .scanning ∨ s.phase = .closing) (may : MaySave s r) :
    (verifySelected ext incomplete r).wp verifierContract (fun _ s' => s'.phase.holdsLock) s := by
  unfold verifySelected
  rw [Prog.wp_bind]
  refine wp_ask may fun answer _ => ?_
  have hphase : (s.next ⟨Op.save r, answer⟩).phase =
      match answer with
      | .ok () => .entered r
      | .error _ => .finished := by
    rw [phase_next]
    show phaseAfterSave r answer s.phase = _
    rcases hs with hs | hs <;> rw [hs] <;> rcases answer with error | ⟨⟩ <;>
      simp [phaseAfterSave, hpending]
  cases answer with
  | error e =>
      show VerifierPhase.holdsLock _
      rw [hphase]
      rfl
  | ok u =>
      dsimp only at hphase ⊢
      rw [Prog.wp_bind]
      refine Prog.wp_mono ?_ (wp_supervisedCheck ext hphase)
      rintro failure s₁ ⟨⟨-, hselected, hchecked⟩, hpassed⟩
      rw [Prog.wp_bind]
      cases failure with
      | some error =>
          refine Prog.wp_mono (fun result s' h => ?_) (wp_finalize_failed hselected error)
          rw [Prog.wp_bind]
          refine wp_ask h.1 fun saved _ => ?_
          cases saved <;> exact holdsLock_saved _ _ _
      | none =>
          obtain ⟨checked, hchecking, hbooted⟩ := hchecked rfl
          refine Prog.wp_mono (fun result s' h => ?_)
            (wp_finalize_passed hchecking (hpassed rfl) hbooted)
          rw [Prog.wp_bind]
          refine wp_ask h.1 fun saved _ => ?_
          cases saved <;> exact holdsLock_saved _ _ _

theorem isPending_of_enterVerification {m r : OperationStateRecord} (h : isPending m)
    (henter : enterVerification m = some r) : isPending r := by
  unfold enterVerification at henter
  split_ifs at henter
  · cases htransition : m.transitionTo .verifyingBoot with
    | error e => rw [htransition] at henter; cases henter
    | ok r' =>
        rw [htransition] at henter
        cases henter
        obtain ⟨-, -, -, rfl⟩ := OperationStateRecord.transitionTo_eq_ok.mp htransition
        rfl
  · cases henter
    exact h

theorem wp_verifyBoot (ext : Externals) (hs : s.phase = .scanning) :
    (verifyBoot ext).wp verifierContract (fun _ s' => s'.phase.holdsLock) s := by
  unfold verifyBoot
  rw [Prog.wp_bind]
  refine Prog.wp_mono ?_ (wp_pendingOperation hs)
  rintro scanned s₁ ⟨hs₁, hcollected⟩
  have hlock₁ : s₁.phase.holdsLock := by rw [hs₁]; rfl
  cases scanned with
  | error e => exact hlock₁
  | ok scan =>
      replace hcollected := hcollected scan rfl
      dsimp only
      rw [Prog.wp_bind]
      refine Prog.wp_mono ?_ (wp_closeInterrupted scan.interrupted (.inl hs₁)
        hcollected.interrupted)
      rintro closed s₂ ⟨hlock₂, hclosed⟩
      cases closed with
      | false => exact hlock₂
      | true =>
          obtain ⟨hs₂, hsub⟩ := hclosed rfl
          simp only [Bool.not_true, Bool.false_eq_true, if_false]
          cases hoperation : scan.operation with
          | none => exact hlock₂
          | some m =>
              dsimp only
              cases henter : enterVerification m with
              | none => exact hlock₂
              | some r =>
                  obtain ⟨hpending, hscanned⟩ := hcollected.candidates m (mem_of_operation hoperation)
                  exact wp_verifySelected ext _ (isPending_of_enterVerification hpending henter) hs₂
                    (.enter m r hs₂ (hscanned.mono hsub) hpending henter)

end VerifierState

/-- **The boot verifier keeps to its protocol.** -/
theorem wp_verifierMain (ext : Externals) (hs : s.phase = .start) :
    (verifierMain ext).wp verifierContract (fun _ _ => True) s := by
  unfold verifierMain
  rw [Prog.wp_bind]
  refine VerifierState.wp_ask hs fun granted _ => ?_
  cases granted with
  | error e => trivial
  | ok u =>
      dsimp only
      rw [Prog.wp_bind]
      refine Prog.wp_mono ?_ (VerifierState.wp_verifyBoot ext rfl)
      intro code s' hlock
      rw [Prog.wp_bind]
      exact VerifierState.wp_ask hlock fun _ _ => trivial

end

end LyraUpgrade
