import LyraUpgrade.Service.RollbackProtocol
import LyraUpgrade.System.Simulation
import LyraUpgrade.Verifier.Protocol

/-!
# Rollbacks and the boots after them

Any number of requests to roll back, for any operations, and any number of runs of the
boot verifier, on a machine that may fail and crash at any point.  The command that
selects another root is not undone when the record of it is lost: what is known of it is
the intent that was saved before, and the clone that was confirmed after.

* `Intended` — what is on disk when the command is launched.
* `Labelled` — what a record that names a clone says about the observations behind it.
* `Attending` — the invariant of each process.
* `rollback_once` — the result.
-/

namespace LyraUpgrade

open Interaction

/-! ## The machine -/

inductive RecoveryRequest
  | rollback (uid : ℕ) (operationId : String)
  /-- The verifier of a boot. -/
  | boot

def RecoveryRequest.program (ext : Externals) : RecoveryRequest → Prog Sig Exit
  | rollback uid operationId => LyraUpgrade.rollback uid operationId
  | boot => verifierMain ext

abbrev Recoveries := Config Sig RecoveryRequest World Exit

inductive Healer
  | rollback (operationId : String)
  | verifier

namespace Healer

@[reducible] def State : Healer → Type
  | rollback _ => RollbackState
  | verifier => VerifierState

def contract : (h : Healer) → Contract Sig h.State
  | rollback operationId => rollbackContract operationId
  | verifier => verifierContract

def start : RecoveryRequest → Σ h, State h
  | .rollback _ operationId => ⟨rollback operationId, RollbackPhase.start, []⟩
  | .boot => ⟨verifier, VerifierPhase.start, []⟩

def holdsLock : (Σ h, State h) → Bool
  | ⟨rollback _, s⟩ => s.phase.holdsLock
  | ⟨verifier, s⟩ => s.phase.holdsLock

def events : (Σ h, State h) → List (Event Sig)
  | ⟨rollback _, s⟩ => s.events
  | ⟨verifier, s⟩ => s.events

end Healer

/-- **Every request keeps to its protocol.** -/
theorem wp_recovery (ext : Externals) (request : RecoveryRequest) :
    (request.program ext).wp (Contract.family Healer.contract) (fun _ _ => True)
      (Healer.start request) := by
  cases request with
  | rollback uid operationId =>
      exact Prog.wp_mono (fun _ _ _ => trivial) (Prog.wp_family (K := Healer.contract)
        (i := .rollback operationId) (wp_rollback uid rfl))
  | boot =>
      exact Prog.wp_mono (fun _ _ _ => trivial) (Prog.wp_family (K := Healer.contract)
        (i := .verifier) (wp_verifierMain ext rfl))

/-! ## What the records say -/

/-- The process has saved a record with the identity of the snapshot and without a clone, and
it is there. -/
def Intended (c : Recoveries) (i : ℕ) (operationId : String) (number : ℕ) : Prop :=
  ∃ r source, c.world.state operationId = .record r ∧
    r.recovery = some ⟨number, source, none⟩ ∧ ⟨Op.save r, Except.ok ()⟩ ∈ c.events i ∧
    ⟨Op.query (.inspectSubvolume (.snapshot number)), Except.ok source⟩ ∈ c.events i

/-- The record of the operation names a clone. -/
def World.Confirmed (w : World) (operationId : String) : Prop :=
  ∃ r goal, w.state operationId = .record r ∧ r.recovery = some goal ∧ goal.bootSnapshot.isSome

/-- The record of the operation is an intent that names none. -/
def World.Unconfirmed (w : World) (operationId : String) : Prop :=
  ∃ r goal, w.state operationId = .record r ∧ r.recovery = some goal ∧ goal.bootSnapshot = none

/-- The clone was looked at by a request, and carries the release. -/
def Backed (c : Recoveries) (source : ReleaseIdentity) (boot : SubvolumeIdentity) : Prop :=
  ∃ i, Verified (c.events i) source boot

/-- What is known of a record with a goal. -/
structure Labelled (c : Recoveries) (r : OperationStateRecord) : Prop where
  /-- The clone carries the release the operation came from. -/
  clone : ∀ goal boot, r.recovery = some goal → goal.bootSnapshot = some boot →
    Backed c r.source boot
  /-- Whoever completed the operation saw the clone as root and default subvolume. -/
  completed : ∀ goal, r.recovery = some goal → r.state = .completed →
    ∃ i answer, ⟨Op.save r, answer⟩ ∈ c.events i ∧ Booted (c.events i) goal

/-- Every record on disk is labelled, and one with a goal is valid. -/
structure Truthful (c : Recoveries) : Prop where
  labelled : ∀ id r, c.world.state id = .record r → Labelled c r
  loadable : ∀ id r, c.world.state id = .record r → r.recovery.isSome → Loadable r

section

variable {c c' : Recoveries} {r : OperationStateRecord}

theorem Backed.mono {source : ReleaseIdentity} {boot : SubvolumeIdentity} (h : Backed c source boot)
    (hsub : ∀ i, c.events i ⊆ c'.events i) : Backed c' source boot := by
  obtain ⟨i, hi⟩ := h
  exact ⟨i, hi.mono (hsub i)⟩

theorem Booted.mono {events events' : List (Event Sig)} {goal : RollbackGoal}
    (h : Booted events goal) (hsub : events ⊆ events') : Booted events' goal := by
  obtain ⟨boot, hboot, hroot, hdefault⟩ := h
  exact ⟨boot, hboot, hsub hroot, hsub hdefault⟩

theorem Labelled.mono (h : Labelled c r) (hsub : ∀ i, c.events i ⊆ c'.events i) :
    Labelled c' r where
  clone := fun goal boot hgoal hboot => (h.clone goal boot hgoal hboot).mono hsub
  completed := by
    intro goal hgoal hstate
    obtain ⟨i, answer, hsave, hbooted⟩ := h.completed goal hgoal hstate
    exact ⟨i, answer, hsub i hsave, hbooted.mono (hsub i)⟩

/-- A record that differs in other members only, and is not completed. -/
theorem Labelled.of_eq {r' : OperationStateRecord} (h : Labelled c r)
    (hrecovery : r'.recovery = r.recovery) (hsource : r'.source = r.source)
    (hstate : r'.state ≠ .completed) : Labelled c r' where
  clone := by
    intro goal boot hgoal hboot
    rw [hsource]
    exact h.clone goal boot (hrecovery.symm.trans hgoal) hboot
  completed := fun _ _ h => absurd h hstate

/-- A record without a clone says nothing. -/
theorem labelled_of_unconfirmed (h : ∀ goal, r.recovery = some goal → goal.bootSnapshot = none)
    (hstate : r.state ≠ .completed) : Labelled c r where
  clone := by
    intro goal boot hgoal hboot
    rw [h goal hgoal] at hboot
    cases hboot
  completed := fun _ _ h => absurd h hstate

/-- Where the boot of a record is checked, a goal names its clone. -/
theorem confirmed_of_pending {goal : RollbackGoal} (hloadable : Loadable r) (hpending : isPending r)
    (hgoal : r.recovery = some goal) : goal.bootSnapshot.isSome := by
  have hvalid := hloadable.valid.recovery
  simp only [recoveryShapeValid, hgoal, Option.all_some, Bool.and_eq_true, Bool.or_eq_true]
    at hvalid
  refine hvalid.2.resolve_left fun hincomplete => ?_
  simp only [isPending, Bool.or_eq_true, decide_eq_true_eq] at hpending
  rcases hpending with hstate | hstate <;> rw [hstate] at hincomplete <;> cases hincomplete

/-- An operation that a boot finds unfinished carries no goal. -/
theorem recovery_of_interrupted (hloadable : Loadable r)
    (hunfinished : (interruptedState r.state).isSome) : r.recovery = none := by
  refine hloadable.valid.recovery_eq_none ?_
  generalize r.state = state at hunfinished
  cases state <;> first | rfl | cases hunfinished

/-! ## What a request has in memory -/

/-- The phase of a request to roll back and the record on disk.  While the lock is held nobody
else writes. -/
def RollbackPhase.Agrees (c : Recoveries) (operationId : String) (events : List (Event Sig)) :
    RollbackPhase → Prop
  | .read r => c.world.state operationId = .record r ∧ r.operationId = operationId
  | .intended r => c.world.state operationId = .record r ∧ r.operationId = operationId ∧
      ⟨Op.save r, Except.ok ()⟩ ∈ events
  | .launched r => c.world.state operationId = .record r ∧ r.operationId = operationId ∧
      ∃ number source, Intent events r number source
  | .unconfirmed r => r.operationId = operationId ∧ ∃ goal boot, r.recovery = some goal ∧
      goal.bootSnapshot = some boot ∧ Backed c r.source boot
  | _ => True

/-- A record that was scanned is on disk, as it was read or closed as interrupted. -/
def Found (w : World) (m : OperationStateRecord) : Prop :=
  w.state m.operationId = .record m ∨
    ((interruptedState m.state).isSome ∧ w.state m.operationId = .record (interruptedRecord m))

/-- The selected record is on disk. -/
structure Selected (w : World) (r : OperationStateRecord) : Prop where
  stored : w.state r.operationId = .record r
  loadable : Loadable r
  pending : isPending r

/-- The phase of a verifier and the records on disk. -/
def VerifierPhase.Agrees (w : World) (events : List (Event Sig)) : VerifierPhase → Prop
  | .start => ∀ m : OperationStateRecord, ⟨Op.load m.operationId, Except.ok m⟩ ∉ events
  | .scanning | .closing => ∀ m : OperationStateRecord,
      ⟨Op.load m.operationId, Except.ok m⟩ ∈ events → Loadable m ∧ Found w m
  | .checking r m => Selected w r ∧ m = r
  | .entered r | .replacing r _ | .unconsumed r => Selected w r
  | _ => True

variable {operationId : String} {events events' : List (Event Sig)}

theorem RollbackPhase.Agrees.mono {p : RollbackPhase} (h : p.Agrees c operationId events)
    (hstate : p.holdsLock → ∀ id, c'.world.state id = c.world.state id) (hgrow : events ⊆ events')
    (hsub : ∀ i, c.events i ⊆ c'.events i) : p.Agrees c' operationId events' := by
  cases p with
  | read r => exact ⟨(hstate rfl _).trans h.1, h.2⟩
  | intended r => exact ⟨(hstate rfl _).trans h.1, h.2.1, hgrow h.2.2⟩
  | launched r =>
      obtain ⟨hdisk, hid, number, source, hintent⟩ := h
      exact ⟨(hstate rfl _).trans hdisk, hid, number, source, hintent.mono hgrow⟩
  | unconfirmed r =>
      obtain ⟨hid, goal, boot, hgoal, hboot, hbacked⟩ := h
      exact ⟨hid, goal, boot, hgoal, hboot, hbacked.mono hsub⟩
  | start | locked | finished | released => trivial

theorem Selected.mono {w w' : World} (h : Selected w r)
    (hstate : ∀ id, w'.state id = w.state id) : Selected w' r :=
  ⟨(hstate _).trans h.stored, h.loadable, h.pending⟩

theorem VerifierPhase.Agrees.mono {w w' : World} {p : VerifierPhase} (h : p.Agrees w events)
    (hstate : p.holdsLock → ∀ id, w'.state id = w.state id)
    (hscanned : ∀ m : OperationStateRecord, ⟨Op.load m.operationId, Except.ok m⟩ ∈ events' →
      (⟨Op.load m.operationId, Except.ok m⟩ : Event Sig) ∈ events) : p.Agrees w' events' := by
  have hfound : (∀ id, w'.state id = w.state id) → (∀ m : OperationStateRecord,
      ⟨Op.load m.operationId, Except.ok m⟩ ∈ events → Loadable m ∧ Found w m) →
      ∀ m : OperationStateRecord, ⟨Op.load m.operationId, Except.ok m⟩ ∈ events' →
        Loadable m ∧ Found w' m := by
    intro hsame h m hm
    obtain ⟨hloadable, hfound⟩ := h m (hscanned m hm)
    refine ⟨hloadable, hfound.imp (fun hd => (hsame _).trans hd) fun hd => ?_⟩
    exact ⟨hd.1, (hsame _).trans hd.2⟩
  cases p with
  | start => exact fun m hm => h m (hscanned m hm)
  | scanning | closing => exact hfound (hstate rfl) h
  | checking r m => exact ⟨h.1.mono (hstate rfl), h.2⟩
  | entered r | replacing r _ | unconsumed r => exact Selected.mono h (hstate rfl)
  | finished | released => trivial

/-! ## What a request saves -/

/-- What a request to roll back saves is labelled. -/
theorem RollbackState.MaySave.labelled {s : RollbackState} (may : s.MaySave r)
    (h : s.phase.Agrees c operationId s.events) (hsub : ∀ i, c.events i ⊆ c'.events i) {i : ℕ}
    (hself : s.events ⊆ c'.events i) : r.operationId = operationId ∧ Labelled c' r := by
  cases may with
  | intent record number source timestamp hphase hstate =>
      rw [hphase] at h
      refine ⟨h.2, labelled_of_unconfirmed ?_ ?_⟩
      · intro goal hgoal
        cases hgoal
        rfl
      · show record.state ≠ .completed
        rw [hstate]
        decide
  | scheduled record goal boot hphase hrecovery hverified =>
      rw [hphase] at h
      refine ⟨h.2.1, ?_, fun _ _ h => by cases h⟩
      intro goal' boot' hgoal hboot
      cases hgoal
      cases hboot
      exact ⟨i, hverified.mono hself⟩
  | failed record error hphase =>
      rcases hphase with hphase | hphase <;> rw [hphase] at h
      · obtain ⟨-, hid, number, source, hintent⟩ := h
        refine ⟨hid, labelled_of_unconfirmed (fun goal hgoal => ?_) fun h => by cases h⟩
        rw [show (rollbackFailedRecord record error).recovery = record.recovery from rfl,
          hintent.recovery] at hgoal
        cases hgoal
        rfl
      · obtain ⟨hid, goal, boot, hgoal, hboot, hbacked⟩ := h
        refine ⟨hid, ?_, fun _ _ h => by cases h⟩
        intro goal' boot' hgoal' hboot'
        rw [show (rollbackFailedRecord record error).recovery = record.recovery from rfl,
          hgoal] at hgoal'
        cases hgoal'
        rw [hboot] at hboot'
        cases hboot'
        exact hbacked.mono hsub

theorem enterVerification_eq {m : OperationStateRecord} (hpending : isPending m)
    (henter : enterVerification m = some r) : r.operationId = m.operationId ∧
      r.recovery = m.recovery ∧ r.source = m.source ∧ r.state = .verifyingBoot := by
  unfold enterVerification at henter
  split_ifs at henter with hstate
  · cases htransition : m.transitionTo .verifyingBoot with
    | error e => rw [htransition] at henter; cases henter
    | ok r' =>
        rw [htransition] at henter
        cases henter
        obtain ⟨-, -, -, rfl⟩ := OperationStateRecord.transitionTo_eq_ok.mp htransition
        exact ⟨rfl, rfl, rfl, rfl⟩
  · cases henter
    simp only [isPending, Bool.or_eq_true, decide_eq_true_eq] at hpending
    exact ⟨rfl, rfl, rfl, hpending.resolve_left hstate⟩

theorem interruptedState_of_pending {m : OperationStateRecord} (h : isPending m) :
    interruptedState m.state = none := by
  simp only [isPending, Bool.or_eq_true, decide_eq_true_eq] at h
  rcases h with h | h <;> rw [h] <;> rfl

/-- A record that waits for the check of this boot is on disk as it was read. -/
theorem Found.of_pending {w : World} {m : OperationStateRecord} (h : Found w m)
    (hpending : isPending m) : w.state m.operationId = .record m := by
  refine h.resolve_right fun hinterrupted => ?_
  rw [interruptedState_of_pending hpending] at hinterrupted
  cases hinterrupted.1

/-- Where an interrupted operation ends. -/
theorem interruptedRecord_state {m : OperationStateRecord}
    (h : (interruptedState m.state).isSome) :
    (interruptedRecord m).state = .failed ∨ (interruptedRecord m).state = .needsRecovery := by
  obtain ⟨state, hstate⟩ := Option.isSome_iff_exists.mp h
  show (interruptedState m.state).getD m.state = _ ∨ (interruptedState m.state).getD m.state = _
  rw [hstate]
  generalize m.state = current at hstate
  cases current <;> cases hstate <;> simp

/-- The record of the selected operation, if there is one, is on disk. -/
theorem VerifierPhase.Agrees.selected {w : World} {p : VerifierPhase} (h : p.Agrees w events)
    (hr : p.selected = some r) : Selected w r := by
  cases p with
  | checking r' m => cases hr; exact h.1
  | entered | replacing | unconsumed => cases hr; exact h
  | start | scanning | closing | finished | released => cases hr

/-- What a verifier saves is labelled. -/
theorem VerifierState.MaySave.labelled {s : VerifierState} (may : s.MaySave r)
    (h : s.phase.Agrees c.world s.events) (htruthful : Truthful c)
    (hsub : ∀ i, c.events i ⊆ c'.events i) {i : ℕ} (hself : s.events ⊆ c'.events i)
    {answer : Except PersistenceError Unit} (hsave : ⟨Op.save r, answer⟩ ∈ c'.events i) :
    Labelled c' r := by
  cases may with
  | interrupted m hphase hscanned hunfinished =>
      have hloadable : Loadable m := by
        rcases hphase with hphase | hphase <;> rw [hphase] at h <;> exact (h m hscanned).1
      refine labelled_of_unconfirmed (fun goal hgoal => ?_) ?_
      · rw [show (interruptedRecord m).recovery = m.recovery from rfl,
          recovery_of_interrupted hloadable hunfinished] at hgoal
        cases hgoal
      · rcases interruptedRecord_state hunfinished with hstate | hstate <;> rw [hstate] <;> decide
  | enter m _ hphase hscanned hpending henter =>
      have hfound : Found c.world m := by
        rcases hphase with hphase | hphase <;> rw [hphase] at h <;> exact (h m hscanned).2
      obtain ⟨-, hrecovery, hsource, hstate⟩ := enterVerification_eq hpending henter
      exact ((htruthful.labelled _ m (hfound.of_pending hpending)).of_eq hrecovery hsource
        (by rw [hstate]; decide)).mono hsub
  | verified record checked hphase _ hbooted =>
      rw [hphase] at h
      obtain ⟨hselected, rfl⟩ := h
      have hold := (htruthful.labelled _ _ hselected.stored).mono hsub
      exact ⟨hold.clone, fun goal hgoal _ => ⟨i, answer, hsave, (hbooted goal hgoal).mono hself⟩⟩
  | consumed record n _ hconsumable =>
      refine ⟨fun goal boot hgoal => ?_, fun goal hgoal => ?_⟩
      all_goals
        rw [show (completedRecord record).recovery = record.recovery from rfl,
          hconsumable.recovery] at hgoal
        cases hgoal
  | failed record code hselected =>
      have hold := htruthful.labelled _ _ (h.selected hselected).stored
      have hnew : Labelled c (recoveryRecord record code) := hold.of_eq rfl rfl fun h => by cases h
      exact hnew.mono hsub

/-! ## Steps -/

/-- A request to roll back goes on agreeing with the disk. -/
theorem RollbackState.agrees_next {s : RollbackState} {e : Op} {answer : e.Answer} {i : ℕ}
    (h : s.phase.Agrees c operationId s.events)
    (hallow : e.isQuiet ∨ s.permits operationId e)
    (hexec : exec true i e c.world answer c'.world) (hsub : ∀ i, c.events i ⊆ c'.events i)
    (hself : s.events ⊆ c'.events i) :
    (s.next ⟨e, answer⟩).phase.Agrees c' operationId (s.next ⟨e, answer⟩).events := by
  have hmove := RollbackState.moves hallow (validAnswer_of_exec hexec)
  have hgrow : s.events ⊆ (s.next ⟨e, answer⟩).events := List.subset_append_left _ _
  have hlast : ⟨e, answer⟩ ∈ (s.next ⟨e, answer⟩).events := RollbackState.mem_next s _
  have hkeep : e.isSave = false → s.phase.Agrees c' operationId (s.next ⟨e, answer⟩).events :=
    fun hsave => h.mono (fun _ id => (exec_change hexec).state_of_not_save hsave id) hgrow hsub
  generalize (s.next ⟨e, answer⟩).events = events' at hgrow hlast hkeep ⊢
  generalize (s.next ⟨e, answer⟩).phase = p at hmove ⊢
  cases hmove with
  | quiet hquiet => exact hkeep (isSave_of_quiet hquiet)
  | look => exact hkeep rfl
  | read r hphase hid =>
      refine ⟨?_, hid⟩
      rw [(exec_change hexec).state_of_not_save rfl]
      exact (exec_load_ok hexec).1
  | unread | lock | busy | unlock => trivial
  | launch record number source output hphase hintent =>
      rw [hphase] at h
      refine ⟨?_, h.2.1, number, source, hintent.mono hgrow⟩
      rw [(exec_change hexec).state_of_not_save rfl]
      exact h.1
  | save saved may =>
      have hlabel := may.labelled h hsub hself
      cases may with
      | intent record number source timestamp hphase =>
          rw [hphase]
          rcases saved with error | ⟨⟩
          · trivial
          · refine ⟨?_, hlabel.1, hlast⟩
            rw [(exec_save_ok hexec).2, ← hlabel.1]
            exact World.state_putState_self _
      | scheduled record goal boot hphase hrecovery hverified =>
          rw [hphase]
          rcases saved with error | ⟨⟩
          · exact ⟨hlabel.1, _, boot, rfl, rfl, i, hverified.mono hself⟩
          · trivial
      | failed record error hphase =>
          rcases hphase with hphase | hphase <;> rw [hphase] <;> rcases saved with error | ⟨⟩ <;>
            trivial

/-- Where the one record of an operation is `m`, `m'`, or either of them closed, closing `m`
leaves `m'` as it was found. -/
theorem found_closed {f : StateFile} {m m' : OperationStateRecord}
    (h : f = .record m' ∨ ((interruptedState m'.state).isSome ∧ f = .record (interruptedRecord m')))
    (hm : f = .record m ∨ ((interruptedState m.state).isSome ∧ f = .record (interruptedRecord m)))
    (hunfinished : (interruptedState m.state).isSome) :
    StateFile.record (interruptedRecord m) = .record m' ∨ ((interruptedState m'.state).isSome ∧
      StateFile.record (interruptedRecord m) = .record (interruptedRecord m')) := by
  have hclosed : ∀ {k : OperationStateRecord}, (interruptedState k.state).isSome →
      interruptedRecord k ≠ m := by
    rintro k hk rfl
    rcases interruptedRecord_state hk with hstate | hstate <;> rw [hstate] at hunfinished <;>
      cases hunfinished
  rcases h with h | ⟨h', h⟩ <;> rcases hm with hm | ⟨-, hm⟩ <;>
    have heq := StateFile.record.inj (h.symm.trans hm)
  · subst heq
    exact .inr ⟨hunfinished, rfl⟩
  · exact .inl (by rw [heq])
  · exact absurd heq (hclosed h')
  · exact .inr ⟨h', by rw [heq]⟩

/-- Closing one interrupted record leaves the others as they were found. -/
theorem Found.close {w : World} {m m' : OperationStateRecord} (h : Found w m') (hm : Found w m)
    (hunfinished : (interruptedState m.state).isSome) :
    Found (w.putState (interruptedRecord m)) m' := by
  by_cases hid : m'.operationId = m.operationId
  · have hput : (w.putState (interruptedRecord m)).state m'.operationId =
        .record (interruptedRecord m) := by
      rw [hid]
      exact World.state_putState_self (interruptedRecord m)
    unfold Found at h hm ⊢
    rw [hid] at h
    rw [hput]
    exact found_closed h hm hunfinished
  · have hsame : (w.putState (interruptedRecord m)).state m'.operationId = w.state m'.operationId :=
      World.state_putState_of_ne hid
    exact h.imp (fun hd => hsame.trans hd) fun hd => ⟨hd.1, hsame.trans hd.2⟩

theorem load_injective {id id' : String} {m m' : OperationStateRecord}
    (h : (⟨Op.load id, Except.ok m⟩ : Event Sig) = ⟨Op.load id', Except.ok m'⟩) : m = m' := by
  cases h
  rfl

/-- A verifier goes on agreeing with the disk. -/
theorem VerifierState.agrees_next {s : VerifierState} {e : Op} {answer : e.Answer} {i : ℕ}
    {w w' : World} (h : s.phase.Agrees w s.events) (hallow : e.isDetached ∨ s.permits e)
    (hexec : exec true i e w answer w') :
    (s.next ⟨e, answer⟩).phase.Agrees w' (s.next ⟨e, answer⟩).events := by
  have hmove := VerifierState.moves hallow (validReport_of_exec hexec)
  have hstate : e.isSave = false → ∀ id, w'.state id = w.state id :=
    fun hsave id => (exec_change hexec).state_of_not_save hsave id
  have hscanned : ∀ m : OperationStateRecord,
      ⟨Op.load m.operationId, Except.ok m⟩ ∈ (s.next ⟨e, answer⟩).events →
      (⟨Op.load m.operationId, Except.ok m⟩ : Event Sig) ∈ s.events ∨
        (⟨Op.load m.operationId, Except.ok m⟩ : Event Sig) = ⟨e, answer⟩ := fun m hm =>
    (List.mem_append.mp hm).imp_right List.mem_singleton.mp
  generalize (s.next ⟨e, answer⟩).events = events' at hscanned ⊢
  generalize (s.next ⟨e, answer⟩).phase = p at hmove ⊢
  cases hmove with
  | detached hdetached =>
      refine h.mono (fun _ => hstate (isSave_of_quiet (isQuiet_of_isDetached hdetached))) fun m hm => ?_
      refine (hscanned m hm).resolve_right fun heq => ?_
      cases heq
      cases hdetached
  | lock hphase =>
      rw [hphase] at h
      intro m hm
      exact absurd ((hscanned m hm).resolve_right fun heq => by cases heq) (h m)
  | busy | unlock => trivial
  | read r hphase hloadable =>
      rw [hphase] at h
      intro m hm
      rcases hscanned m hm with hold | heq
      · obtain ⟨hm', hfound⟩ := h m hold
        exact ⟨hm', hfound.imp (fun hd => (hstate rfl _).trans hd)
          fun hd => ⟨hd.1, (hstate rfl _).trans hd.2⟩⟩
      · obtain rfl := load_injective heq
        exact ⟨hloadable, .inl ((hstate rfl _).trans (exec_load_ok hexec).1)⟩
  | unread id error =>
      refine h.mono (fun _ => hstate rfl) fun m hm => ?_
      exact (hscanned m hm).resolve_right fun heq => by cases heq
  | check record r hphase hid hloadable =>
      rw [hphase] at h
      have hsame := StateFile.record.inj ((exec_load_ok hexec).1.symm.trans h.stored)
      exact ⟨Selected.mono h (hstate rfl), hsame⟩
  | @save r saved may =>
      cases may with
      | interrupted m hphase hm hunfinished =>
          have hnot := VerifierState.isPending_interruptedRecord hunfinished
          rcases saved with error | ⟨⟩
          · rcases hphase with hphase | hphase <;> rw [hphase] <;> trivial
          · have hfound : ∀ m' : OperationStateRecord,
                ⟨Op.load m'.operationId, Except.ok m'⟩ ∈ s.events → Loadable m' ∧ Found w m' := by
              rcases hphase with hphase | hphase <;> rw [hphase] at h <;> exact h
            have hclosing : VerifierState.phaseAfterSave (interruptedRecord m) (.ok ()) s.phase =
                .closing := by
              rcases hphase with hphase | hphase <;> rw [hphase] <;>
                simp [VerifierState.phaseAfterSave, hnot]
            rw [hclosing, (exec_save_ok hexec).2]
            intro m' hm'
            have hold := hfound m' ((hscanned m' hm').resolve_right fun heq => by cases heq)
            exact ⟨hold.1, hold.2.close (hfound m hm).2 hunfinished⟩
      | enter m _ hphase hm hpending henter =>
          have hr := VerifierState.isPending_of_enterVerification hpending henter
          rcases saved with error | ⟨⟩
          · rcases hphase with hphase | hphase <;> rw [hphase] <;> trivial
          · have hentered : VerifierState.phaseAfterSave r (.ok ()) s.phase = .entered r := by
              rcases hphase with hphase | hphase <;> rw [hphase] <;>
                exact if_pos hr
            rw [hentered]
            obtain ⟨hloadable, hworld⟩ := exec_save_ok hexec
            exact ⟨by rw [hworld]; exact World.state_putState_self r, hloadable, hr⟩
      | verified record checked hphase | consumed record n hphase => rw [hphase]; trivial
      | failed record code hselected =>
          generalize s.phase = p at hselected
          cases p <;> trivial
  | readSequence record checked answer hphase =>
      refine h.mono (fun _ => hstate rfl) fun m hm => ?_
      exact (hscanned m hm).resolve_right fun heq => by cases heq
  | create record _ _ answer hphase | write record _ answer hphase | sync record _ answer hphase
  | rename record _ answer hphase | finish record _ answer hphase =>
      rw [hphase] at h
      have hselected : Selected w' record := (VerifierPhase.Agrees.selected h rfl).mono (hstate rfl)
      rcases answer with error | ⟨⟩ <;> exact hselected

/-- A request that saves holds the lock. -/
theorem RollbackState.MaySave.holdsLock {s : RollbackState} (may : s.MaySave r) :
    s.phase.holdsLock := by
  cases may with
  | intent _ _ _ _ hphase | scheduled _ _ _ hphase => rw [hphase]; rfl
  | failed _ _ hphase => rcases hphase with hphase | hphase <;> rw [hphase] <;> rfl

theorem VerifierState.MaySave.holdsLock {s : VerifierState} (may : s.MaySave r) :
    s.phase.holdsLock := by
  cases may with
  | interrupted _ hphase | enter _ _ hphase =>
      rcases hphase with hphase | hphase <;> rw [hphase] <;> rfl
  | verified _ _ hphase | consumed _ _ hphase => rw [hphase]; rfl
  | failed _ _ hselected => exact (VerifierState.maySave_failed hselected "").2

theorem RollbackState.Moves.holdsLock {s : RollbackState} {e : Event Sig} {p : RollbackPhase}
    (h : s.Moves operationId e p) (hlock : p.holdsLock) :
    e = ⟨.acquireLock, .ok ()⟩ ∨ (s.phase.holdsLock ∧ e.op ≠ .releaseLock) := by
  cases h with
  | quiet hquiet =>
      refine .inr ⟨hlock, fun he => ?_⟩
      rw [he] at hquiet
      cases hquiet
  | look => exact .inr ⟨hlock, by simp⟩
  | read _ hphase | unread _ hphase | launch _ _ _ _ hphase =>
      exact .inr ⟨by rw [hphase]; rfl, by simp⟩
  | lock => exact .inl rfl
  | busy | unlock => cases hlock
  | save _ may => exact .inr ⟨may.holdsLock, by simp⟩

theorem VerifierState.Moves.holdsLock {s : VerifierState} {e : Event Sig} {p : VerifierPhase}
    (h : s.Moves e p) (hlock : p.holdsLock) :
    e = ⟨.acquireLock, .ok ()⟩ ∨ (s.phase.holdsLock ∧ e.op ≠ .releaseLock) := by
  cases h with
  | detached hdetached =>
      refine .inr ⟨hlock, fun he => ?_⟩
      rw [he] at hdetached
      cases hdetached
  | lock => exact .inl rfl
  | busy | unlock => cases hlock
  | unread | readSequence => exact .inr ⟨hlock, by simp⟩
  | read _ hphase | check _ _ hphase | create _ _ _ _ hphase | write _ _ _ hphase
  | sync _ _ _ hphase | rename _ _ _ hphase | finish _ _ _ hphase =>
      exact .inr ⟨by rw [hphase]; rfl, by simp⟩
  | save _ may => exact .inr ⟨may.holdsLock, by simp⟩

/-! ## The invariant of each process -/

namespace Healer

def Agrees (c : Recoveries) : (Σ h, State h) → Prop
  | ⟨rollback operationId, s⟩ => s.phase.Agrees c operationId s.events
  | ⟨verifier, s⟩ => s.phase.Agrees c.world s.events

def next (e : Event Sig) : (Σ h, State h) → Σ h, State h
  | ⟨rollback operationId, s⟩ => ⟨rollback operationId, s.next e⟩
  | ⟨verifier, s⟩ => ⟨verifier, s.next e⟩

variable {t : Σ h, State h} {e : Op} {answer : e.Answer} {i : ℕ}

theorem contract_next (hexec : exec true i e c.world answer c'.world) :
    (Contract.family contract).next e t answer (next ⟨e, answer⟩ t) := by
  obtain ⟨_ | _, s⟩ := t
  · exact ⟨_, ⟨validAnswer_of_exec hexec, rfl⟩, rfl⟩
  · exact ⟨_, ⟨validReport_of_exec hexec, rfl⟩, rfl⟩

theorem holdsLock_next (hpre : (Contract.family contract).pre e t)
    (hexec : exec true i e c.world answer c'.world) (hlock : holdsLock (next ⟨e, answer⟩ t)) :
    (⟨e, answer⟩ : Event Sig) = ⟨.acquireLock, .ok ()⟩ ∨ (holdsLock t ∧ e ≠ .releaseLock) := by
  obtain ⟨_ | _, s⟩ := t
  · exact (RollbackState.moves hpre (validAnswer_of_exec hexec)).holdsLock hlock
  · exact (VerifierState.moves hpre (validReport_of_exec hexec)).holdsLock hlock

theorem holdsLock_of_save (hpre : (Contract.family contract).pre (.save r) t) : holdsLock t := by
  obtain ⟨_ | _, s⟩ := t
  · exact RollbackState.MaySave.holdsLock (hpre.resolve_left (by simp [Op.isQuiet]))
  · exact VerifierState.MaySave.holdsLock
      (hpre.resolve_left (by simp [Op.isDetached, Op.isQuiet]))

theorem agrees_next (h : Agrees c t) (hpre : (Contract.family contract).pre e t)
    (hexec : exec true i e c.world answer c'.world) (hsub : ∀ i, c.events i ⊆ c'.events i)
    (hself : Healer.events t ⊆ c'.events i) : Agrees c' (next ⟨e, answer⟩ t) := by
  obtain ⟨_ | _, s⟩ := t
  · exact RollbackState.agrees_next h hpre hexec hsub hself
  · exact VerifierState.agrees_next h hpre hexec

/-- A process that does not hold the lock does not depend on the records. -/
theorem Agrees.mono (h : Agrees c t)
    (hstate : holdsLock t → ∀ id, c'.world.state id = c.world.state id)
    (hsub : ∀ i, c.events i ⊆ c'.events i) : Agrees c' t := by
  obtain ⟨_ | _, s⟩ := t
  · exact RollbackPhase.Agrees.mono h hstate (fun _ he => he) hsub
  · exact VerifierPhase.Agrees.mono h hstate fun _ hm => hm

theorem labelled_of_save {saved : Except PersistenceError Unit} (h : Agrees c t)
    (htruthful : Truthful c) (hpre : (Contract.family contract).pre (.save r) t)
    (hsub : ∀ i, c.events i ⊆ c'.events i) (hself : Healer.events t ⊆ c'.events i)
    (hsave : ⟨Op.save r, saved⟩ ∈ c'.events i) : Labelled c' r := by
  obtain ⟨_ | _, s⟩ := t
  · have may : RollbackState.MaySave s r := hpre.resolve_left (by simp [Op.isQuiet])
    exact (may.labelled h hsub hself).2
  · have may : VerifierState.MaySave s r :=
      hpre.resolve_left (by simp [Op.isDetached, Op.isQuiet])
    exact may.labelled h htruthful hsub hself hsave

end Healer

/-- The invariant of a process. -/
structure Attending (c : Recoveries) (i : ℕ) (t : Σ h, Healer.State h) : Prop where
  lock : Healer.holdsLock t → c.world.lock = some i
  events : Healer.events t = c.events i
  agrees : Healer.Agrees c t

/-- Records stay truthful where none is written. -/
theorem Truthful.mono (h : Truthful c) (hstate : ∀ id, c'.world.state id = c.world.state id)
    (hsub : ∀ i, c.events i ⊆ c'.events i) : Truthful c' where
  labelled := fun id r hr => (h.labelled id r ((hstate id).symm.trans hr)).mono hsub
  loadable := fun id r hr => h.loadable id r ((hstate id).symm.trans hr)

theorem preserved_truthful (ext : Externals)
    {ok : Recoveries → Label Sig RecoveryRequest → Prop} :
    Preserved (system true) (RecoveryRequest.program ext) (Contract.family Healer.contract) ok
      Healer.start fun c φ => Truthful c ∧ ∀ i t, φ i = some t → Attending c i t := by
  refine Preserved.of_local ?_ ?_ ?_
  · intro c c' request htruthful hsilent _ hs hw
    have hevents : ∀ j, c'.events j = c.events j := fun j => by
      rw [hs.events_eq]
      exact List.append_nil _
    have hsub : ∀ j, c.events j ⊆ c'.events j := fun j _ he => by rwa [hevents j]
    have hstate : ∀ id, c'.world.state id = c.world.state id := fun id => by rw [hw]
    refine ⟨htruthful.mono hstate hsub, ?_, fun j t _ h => ⟨fun hlock => ?_, ?_, ?_⟩⟩
    · have hnone : c'.events c.fresh = [] := (hevents _).trans hsilent
      cases request with
      | rollback => exact ⟨fun h => (by cases h), hnone.symm, trivial⟩
      | boot => exact ⟨fun h => (by cases h), hnone.symm, fun m hm => (by cases hm)⟩
    · rw [hw]
      exact h.lock hlock
    · exact h.events.trans (hevents j).symm
    · exact h.agrees.mono (fun _ => hstate) hsub
  · intro c c' φ i e answer t htruthful hattending hφ hpre _ hs hexec
    have hself := hattending i t hφ
    have hsub : ∀ j, c.events j ⊆ c'.events j := fun j _ he => by
      rw [hs.events_eq]
      exact List.mem_append_left _ he
    have hlast : c'.events i = c.events i ++ [⟨e, answer⟩] := by
      rw [hs.events_eq, Label.eventOf, if_pos rfl]
      rfl
    have hown : Healer.events t ⊆ c'.events i := by
      rw [hself.events]
      exact hsub i
    refine ⟨Healer.next ⟨e, answer⟩ t, Healer.contract_next hexec, ⟨?_, ?_⟩, ⟨?_, ?_, ?_⟩, ?_⟩
    · intro id r hr
      rcases (exec_change hexec).state id with hsame | ⟨r', rfl, -, -, hrecord⟩
      · exact (htruthful.labelled id r (hsame.symm.trans hr)).mono hsub
      · rw [hrecord] at hr
        cases hr
        have hsave : ⟨Op.save r, answer⟩ ∈ c'.events i := by
          rw [hlast]
          exact List.mem_append_right _ (List.mem_singleton_self _)
        exact Healer.labelled_of_save hself.agrees htruthful hpre hsub hown hsave
    · intro id r hr hgoal
      rcases (exec_change hexec).state id with hsame | ⟨r', rfl, -, haccepted, hrecord⟩
      · exact htruthful.loadable id r (hsame.symm.trans hr) hgoal
      · rw [hrecord] at hr
        cases hr
        exact haccepted
    · intro hlock
      rcases Healer.holdsLock_next hpre hexec hlock with heq | ⟨hheld, hkeep⟩
      · cases heq
        exact (exec_acquire_ok hexec).2
      · exact exec_lock_held hexec (hself.lock hheld) (.inr hkeep)
    · rw [hlast, ← hself.events]
      obtain ⟨_ | _, s⟩ := t <;> rfl
    · exact Healer.agrees_next hself.agrees hpre hexec hsub hown
    · intro j u hji hj
      have hother := hattending j u hj
      refine ⟨fun hlock => exec_lock_held hexec (hother.lock hlock) (.inl hji), ?_, ?_⟩
      · rw [hother.events, hs.events_eq, Label.eventOf, if_neg (Ne.symm hji)]
        exact (List.append_nil _).symm
      · refine hother.agrees.mono (fun hlock => ?_) hsub
        intro id
        refine (exec_change hexec).state_of_not_save ?_ id
        -- two processes cannot both hold the lock
        by_contra hsave
        cases e with
        | save r =>
            have hheld := hself.lock (Healer.holdsLock_of_save hpre)
            rw [hother.lock hlock] at hheld
            cases hheld
            exact hji rfl
        | _ => exact hsave rfl
  · rintro c c' htruthful - hs ⟨temporary, -, hw⟩
    refine htruthful.mono (fun id => by rw [hw]; rfl) fun j _ he => ?_
    rw [hs.events_eq]
    exact List.mem_append_left _ he

/-! ## After a launch -/

theorem not_confirmed_of_unconfirmed {w : World} (h : w.Unconfirmed operationId)
    {goal : RollbackGoal} (hr : w.state operationId = .record r) (hgoal : r.recovery = some goal) :
    goal.bootSnapshot = none := by
  obtain ⟨r', goal', hr', hgoal', hnone⟩ := h
  rw [hr] at hr'
  cases hr'
  rw [hgoal] at hgoal'
  cases hgoal'
  exact hnone

/-- While a record is an intent, no request to roll back saves another one. -/
theorem RollbackState.MaySave.intended {s : RollbackState} (may : s.MaySave r)
    (h : s.phase.Agrees c operationId s.events) (hintent : c.world.Unconfirmed operationId) :
    r.recovery.isSome ∧ ∀ m, s.phase ≠ .read m := by
  cases may with
  | intent record number source timestamp hphase _ hcomplete =>
      -- the record that was read is the intent, and names no clone
      rw [hphase] at h
      obtain ⟨r', goal, hr', hgoal, hnone⟩ := hintent
      obtain rfl : record = r' := StateFile.record.inj (h.1.symm.trans hr')
      have hsome := hcomplete goal hgoal
      rw [hnone] at hsome
      cases hsome
  | scheduled record goal boot hphase =>
      refine ⟨rfl, fun m hm => ?_⟩
      rw [hphase] at hm
      cases hm
  | failed record error hphase =>
      rcases hphase with hphase | hphase <;> rw [hphase] at h <;>
        refine ⟨?_, fun m hm => by rw [hphase] at hm; cases hm⟩
      · obtain ⟨-, -, number, source, hintended⟩ := h
        show record.recovery.isSome
        rw [hintended.recovery]
        rfl
      · obtain ⟨-, goal, boot, hgoal, -⟩ := h
        show record.recovery.isSome
        rw [hgoal]
        rfl

/-- A verifier does not write over an intent. -/
theorem VerifierState.MaySave.not_unconfirmed {s : VerifierState} (may : s.MaySave r)
    (h : s.phase.Agrees c.world s.events) : ¬ c.world.Unconfirmed r.operationId := by
  intro hintent
  have hselected : ∀ {m : OperationStateRecord}, Selected c.world m →
      ¬ c.world.Unconfirmed m.operationId := by
    rintro m hm ⟨r', goal, hr', hgoal, hnone⟩
    obtain rfl : m = r' := StateFile.record.inj (hm.stored.symm.trans hr')
    have hsome := confirmed_of_pending hm.loadable hm.pending hgoal
    rw [hnone] at hsome
    cases hsome
  have hfound : ∀ {m : OperationStateRecord}, s.phase = .scanning ∨ s.phase = .closing →
      Scanned s m → Loadable m ∧ Found c.world m := by
    intro m hphase hscanned
    rcases hphase with hphase | hphase <;> rw [hphase] at h <;> exact h m hscanned
  cases may with
  | interrupted m hphase hscanned hunfinished =>
      obtain ⟨hloadable, hm⟩ := hfound hphase hscanned
      have hnone := recovery_of_interrupted hloadable hunfinished
      obtain ⟨r', goal, hr', hgoal, -⟩ := hintent
      rcases hm with hm | ⟨-, hm⟩
      · obtain rfl : m = r' := StateFile.record.inj (hm.symm.trans hr')
        rw [hnone] at hgoal
        cases hgoal
      · obtain rfl : interruptedRecord m = r' := StateFile.record.inj (hm.symm.trans hr')
        rw [show (interruptedRecord m).recovery = m.recovery from rfl, hnone] at hgoal
        cases hgoal
  | enter m _ hphase hscanned hpending henter =>
      obtain ⟨hloadable, hm⟩ := hfound hphase hscanned
      rw [(enterVerification_eq hpending henter).1] at hintent
      exact hselected ⟨hm.of_pending hpending, hloadable, hpending⟩ hintent
  | verified record checked hphase =>
      rw [hphase] at h
      exact hselected h.1 hintent
  | consumed record n hphase =>
      rw [hphase] at h
      exact hselected h hintent
  | failed record code hs => exact hselected (h.selected hs) hintent

namespace Healer

/-- The process is about to launch a rollback of the operation. -/
def Launching (operationId : String) : (Σ h, State h) → Prop
  | ⟨rollback id, s⟩ => id = operationId ∧ ∃ r, RollbackState.phase s = .intended r
  | _ => False

variable {t : Σ h, State h} {e : Op} {answer : e.Answer} {i : ℕ}

/-- What is saved over an intent keeps a goal. -/
theorem recovery_of_save (hpre : (Contract.family contract).pre (.save r) t) (h : Attending c i t)
    (hintent : c.world.Unconfirmed r.operationId) : r.recovery.isSome := by
  obtain ⟨id | _, s⟩ := t
  · have may : RollbackState.MaySave s r := hpre.resolve_left (by simp [Op.isQuiet])
    have hself : s.events ⊆ c.events i := fun e he => by
      rw [← h.events]
      exact he
    have hid : r.operationId = id := (may.labelled h.agrees (fun _ _ he => he) hself).1
    rw [hid] at hintent
    exact (may.intended h.agrees hintent).1
  · have may : VerifierState.MaySave s r :=
      hpre.resolve_left (by simp [Op.isDetached, Op.isQuiet])
    exact absurd hintent (may.not_unconfirmed h.agrees)

/-- While a record is an intent, nobody gets ready for another launch. -/
theorem launching_next (hpre : (Contract.family contract).pre e t)
    (hexec : exec true i e c.world answer c'.world) (h : Attending c i t)
    (hintent : c.world.Unconfirmed operationId) (hnot : ¬ Launching operationId t) :
    ¬ Launching operationId (next ⟨e, answer⟩ t) := by
  obtain ⟨id | _, s⟩ := t
  · rintro ⟨rfl, r, hr⟩
    have hstay : ∀ r, RollbackState.phase s ≠ .intended r := fun r hr => hnot ⟨rfl, r, hr⟩
    have hmove := RollbackState.moves hpre (validAnswer_of_exec hexec)
    change (RollbackState.next s ⟨e, answer⟩).phase = .intended r at hr
    generalize (RollbackState.next s ⟨e, answer⟩).phase = p at hmove hr
    cases hmove with
    | quiet | look => exact hstay r hr
    | read | unread | lock | busy | unlock | launch => cases hr
    | save saved may =>
        cases may with
        | intent record number source timestamp hphase hstate hcomplete hinspected =>
            exact (RollbackState.MaySave.intended (.intent record number source timestamp hphase
              hstate hcomplete hinspected) h.agrees hintent).2 record hphase
        | scheduled _ _ _ hphase =>
            rw [hphase] at hr
            rcases saved with error | ⟨⟩ <;> cases hr
        | failed _ _ hphase =>
            rcases hphase with hphase | hphase <;> rw [hphase] at hr <;>
              rcases saved with error | ⟨⟩ <;> cases hr
  · exact fun h => h

end Healer

/-- After a launch: the record names a clone, or it is the intent, and nobody is about to launch
a rollback of the operation. -/
def Spent (operationId : String) (c : Recoveries) (φ : ℕ → Option (Σ h, Healer.State h)) : Prop :=
  c.world.Confirmed operationId ∨
    (c.world.Unconfirmed operationId ∧ ∀ i t, φ i = some t → ¬ Healer.Launching operationId t)

theorem preserved_spent (ext : Externals) (operationId : String) :
    Preserved (system true) (RecoveryRequest.program ext) (Contract.family Healer.contract)
      (fun c _ => ¬ c.world.Confirmed operationId) Healer.start
      fun c φ => (Truthful c ∧ ∀ i t, φ i = some t → Attending c i t) ∧ Spent operationId c φ := by
  refine (preserved_truthful ext).extend ?_ ?_ ?_
  · rintro c c' φ request - hspent - hs hw
    unfold Spent
    rw [hw]
    refine hspent.imp_right fun ⟨hintent, hnot⟩ => ⟨hintent, fun i t hi => ?_⟩
    by_cases hic : i = c.fresh
    · subst hic
      rw [Function.update_self] at hi
      cases hi
      cases request with
      | rollback =>
          rintro ⟨-, r, hr⟩
          cases hr
      | boot => exact fun h => h
    · rw [Function.update_of_ne hic] at hi
      exact hnot i t hi
  · rintro c c' φ i e answer t t' ⟨-, hattending⟩ hspent hφ hpre hok hs hexec ⟨u, hu, rfl⟩
    obtain ⟨hintent, hnot⟩ := hspent.resolve_left hok
    have hself := hattending i t hφ
    have hquiet : ∀ j v, Function.update φ i (some ⟨t.1, u⟩) j = some v →
        ¬ Healer.Launching operationId v := by
      intro j v hj
      by_cases hji : j = i
      · subst hji
        rw [Function.update_self] at hj
        cases hj
        have hnext := Healer.launching_next hpre hexec hself hintent (hnot j t hφ)
        obtain ⟨_ | _, s⟩ := t <;> obtain ⟨-, rfl⟩ := hu <;> exact hnext
      · rw [Function.update_of_ne hji] at hj
        exact hnot j v hj
    rcases (exec_change hexec).state operationId with hsame | ⟨r, rfl, rfl, -, hr⟩
    · refine .inr ⟨?_, hquiet⟩
      unfold World.Unconfirmed
      rw [hsame]
      exact hintent
    · obtain ⟨goal, hgoal⟩ := Option.isSome_iff_exists.mp
        (Healer.recovery_of_save hpre hself hintent)
      cases hboot : goal.bootSnapshot with
      | none => exact .inr ⟨⟨r, goal, hr, hgoal, hboot⟩, hquiet⟩
      | some boot => exact .inl ⟨r, goal, hr, hgoal, by rw [hboot]; rfl⟩
  · rintro c c' φ - hspent hs ⟨temporary, -, hw⟩
    rw [show (Spent operationId c' fun _ => none) ↔ _ from Iff.rfl]
    unfold Spent
    rw [hw]
    exact hspent.imp_right fun h => ⟨h.1, fun i t hi => by cases hi⟩

/-- What a launch rests on, and what it leaves behind. -/
theorem spent_of_launch {φ : ℕ → Option (Σ h, Healer.State h)} {i number : ℕ}
    (hattending : ∀ i t, φ i = some t → Attending c i t) {t : Σ h, Healer.State h}
    (hφ : φ i = some t) (hpre : (Contract.family Healer.contract).pre
      (.run operationId (.rollback number)) t) :
    Intended c i operationId number ∧
      c.world.Unconfirmed operationId ∧ ∀ j u, j ≠ i → φ j = some u →
        ¬ Healer.Launching operationId u := by
  have hself := hattending i t hφ
  obtain ⟨id | _, s⟩ := t
  · obtain ⟨rfl, record, source, hphase, hintent⟩ := hpre.resolve_left (by
      simp [Op.isQuiet, Command.isCritical])
    have hagrees : (RollbackState.phase s).Agrees c operationId s.events := hself.agrees
    rw [hphase] at hagrees
    refine ⟨⟨record, source, hagrees.1, hintent.recovery, ?_, ?_⟩,
      ⟨record, _, hagrees.1, hintent.recovery, rfl⟩, ?_⟩
    · rw [← hself.events]
      exact hagrees.2.2
    · rw [← hself.events]
      exact hintent.inspected
    · intro j u hji hj hlaunching
      -- both of them would hold the lock
      have hheld : c.world.lock = some i := hself.lock (by
        show (RollbackState.phase s).holdsLock
        rw [hphase]
        rfl)
      obtain ⟨id | _, s'⟩ := u
      · obtain ⟨-, r, hr⟩ := hlaunching
        have hother : c.world.lock = some j := (hattending j _ hj).lock (by
          show (RollbackState.phase s').holdsLock
          rw [hr]
          rfl)
        rw [hheld] at hother
        cases hother
        exact hji rfl
      · exact hlaunching
  · exact (hpre.resolve_left (by simp [Op.isDetached, Op.isQuiet, Command.isCritical])).elim

/-- Whoever launches was about to. -/
theorem launching_of_launch {t : Σ h, Healer.State h} {number : ℕ}
    (hpre : (Contract.family Healer.contract).pre (.run operationId (.rollback number)) t) :
    Healer.Launching operationId t ∧ ∀ output, ¬ Healer.Launching operationId
      (Healer.next ⟨.run operationId (.rollback number), output⟩ t) := by
  obtain ⟨id | _, s⟩ := t
  · obtain ⟨rfl, record, source, hphase, -⟩ := hpre.resolve_left (by
      simp [Op.isQuiet, Command.isCritical])
    refine ⟨⟨rfl, record, hphase⟩, ?_⟩
    rintro output ⟨-, r, hr⟩
    change RollbackState.nextPhase (RollbackState.phase s) _ = _ at hr
    rw [hphase] at hr
    cases hr
  · exact (hpre.resolve_left (by simp [Op.isDetached, Op.isQuiet, Command.isCritical])).elim

end

/-- The command of a rollback is launched. -/
def Launches (ext : Externals) (c : Recoveries) (i : ℕ) (operationId : String) (number : ℕ)
    (c' : Recoveries) : Prop :=
  ∃ output, Step (system true) (RecoveryRequest.program ext) c
    (.act i (.run operationId (.rollback number)) output) c'

/-- The clone is another subvolume than the snapshot, and was made of it. -/
structure CloneOf (source boot : SubvolumeIdentity) : Prop where
  id : boot.id ≠ source.id
  uuid : boot.uuid ≠ source.uuid
  parent : boot.parentUuid = some source.uuid

theorem cloneOf_of_valid {goal : RollbackGoal} {boot : SubvolumeIdentity} {number : Option ℕ}
    (h : goal.valid number) (hboot : goal.bootSnapshot = some boot) :
    CloneOf goal.sourceSnapshot boot := by
  simp only [RollbackGoal.valid, hboot, Option.all_some, Bool.and_eq_true, decide_eq_true_eq] at h
  obtain ⟨-, ⟨⟨-, hid⟩, huuid⟩, hparent⟩ := h
  exact ⟨hid, huuid, hparent⟩

/-- What the record of a scheduled rollback names. -/
structure Scheduled (c : Recoveries) (r : OperationStateRecord) (goal : RollbackGoal)
    (boot : SubvolumeIdentity) : Prop where
  names : goal.bootSnapshot = some boot
  clone : CloneOf goal.sourceSnapshot boot
  /-- A request has looked at it, and found the release the operation came from. -/
  backed : Backed c r.source boot

/-- **Rollback is never repeated blindly and never mislabelled.**  From a store without goals, in
every run of requests to roll back and boots, with failures and crashes: the command is launched
only on a saved intent, and not again before a record names the clone; a record that waits for
the boot names a clone of the snapshot with the release of the operation; and the operation is
completed only by a verifier that found the clone as root and default subvolume. -/
theorem rollback_once (ext : Externals) {w : World}
    (hw : ∀ id r, w.state id = .record r → r.recovery = none) {c : Recoveries}
    (h : Reach (system true) (RecoveryRequest.program ext) (fun _ _ => True) (Config.boot w) c)
    (id : String) :
    (∀ i number c', Launches ext c i id number c' → Intended c i id number ∧
      ∀ c₂, Reach (system true) (RecoveryRequest.program ext)
        (fun c _ => ¬ c.world.Confirmed id) c' c₂ → ¬ c₂.world.Confirmed id →
        ∀ j number₂ c₃, ¬ Launches ext c₂ j id number₂ c₃) ∧
    ∀ r goal, c.world.state id = .record r → r.recovery = some goal →
      (r.state = .awaitingReboot → ∃ boot, Scheduled c r goal boot) ∧
      (r.state = .completed → ∃ i answer, ⟨Op.save r, answer⟩ ∈ c.events i ∧
        Booted (c.events i) goal) := by
  have hstart : Truthful (Config.boot w : Recoveries) := by
    refine ⟨fun id r hr => ⟨fun goal boot hgoal => ?_, fun goal hgoal => ?_⟩, fun id r hr hgoal => ?_⟩
    all_goals
      rw [hw id r hr] at hgoal
      cases hgoal
  obtain ⟨φ, htracked, htruthful, hattending⟩ := h.tracked (wp_recovery ext)
    (preserved_truthful ext) (Tracked.boot w) ⟨hstart, fun i t hi => (by cases hi)⟩
  refine ⟨?_, fun r goal hr hgoal => ⟨fun hstate => ?_, fun hstate => ?_⟩⟩
  · rintro i number c' ⟨output, hs⟩
    obtain ⟨k, hrun, -⟩ := hs.procs_act
    obtain ⟨t, hφ, hwp⟩ := htracked.wp_of_some i _ hrun
    obtain ⟨hintended, hintent, hothers⟩ := spent_of_launch hattending hφ hwp.1
    refine ⟨hintended, fun c₂ hreach hconfirmed j number₂ c₃ hagain => ?_⟩
    have hpreserved : Preserved (system true) (RecoveryRequest.program ext)
        (Contract.family Healer.contract) (fun _ _ => True) Healer.start _ := preserved_truthful ext
    obtain ⟨φ', htracked', hJ, u, u', hu, -, ⟨v, hv, rfl⟩, rfl⟩ := htracked.step (wp_recovery ext)
      hpreserved ⟨htruthful, hattending⟩ trivial hs
    rw [hφ] at hu
    cases hu
    have hspent : Spent id c' (Function.update φ i (some ⟨t.1, v⟩)) := by
      refine .inr ⟨?_, fun j u hj => ?_⟩
      · have hsame : c'.world.state id = c.world.state id := by
          cases hs with
          | @act _ _ _ _ w' _ hexec =>
              have hexec : exec true i (.run id (.rollback number)) c.world output w' := hexec
              exact (exec_change hexec).state_of_not_save rfl id
        unfold World.Unconfirmed
        rw [hsame]
        exact hintent
      · by_cases hji : j = i
        · subst hji
          rw [Function.update_self] at hj
          cases hj
          have hnext := (launching_of_launch hwp.1).2 output
          obtain ⟨_ | _, s⟩ := t <;> obtain ⟨-, rfl⟩ := hv <;> exact hnext
        · rw [Function.update_of_ne hji] at hj
          exact hothers j u hji hj
    obtain ⟨φ₂, htracked₂, -, hspent₂⟩ := hreach.tracked (wp_recovery ext)
      (preserved_spent ext id) htracked' ⟨hJ, hspent⟩
    obtain ⟨output₂, hs₂⟩ := hagain
    obtain ⟨k₂, hrun₂, -⟩ := hs₂.procs_act
    obtain ⟨t₂, hφ₂, hwp₂⟩ := htracked₂.wp_of_some j _ hrun₂
    exact (hspent₂.resolve_left hconfirmed).2 j t₂ hφ₂ (launching_of_launch hwp₂.1).1
  · have hvalid := (htruthful.loadable id r hr (by rw [hgoal]; rfl)).valid.recovery
    simp only [recoveryShapeValid, hgoal, Option.all_some, Bool.and_eq_true, Bool.or_eq_true]
      at hvalid
    obtain ⟨⟨-, hgoalValid⟩, hcomplete⟩ := hvalid
    have hsome : goal.bootSnapshot.isSome := by
      refine hcomplete.resolve_left fun hincomplete => ?_
      rw [hstate] at hincomplete
      cases hincomplete
    obtain ⟨boot, hboot⟩ := Option.isSome_iff_exists.mp hsome
    exact ⟨boot, hboot, cloneOf_of_valid hgoalValid hboot,
      (htruthful.labelled id r hr).clone goal boot hgoal hboot⟩
  · exact (htruthful.labelled id r hr).completed goal hgoal hstate

namespace Sample

/-- A rollback of the sample operation, up to the record that is scheduled. -/
def rolledBack : Recoveries :=
  (simulation rollbackOracle).plays (RecoveryRequest.program externals)
    (Config.boot recoverableWorld) (.spawn (.rollback user operationId) :: List.replicate 15 (.act 0))

def scheduledGoal : RollbackGoal := ⟨7, snapshotVolume, some cloneVolume⟩

def scheduled : OperationStateRecord :=
  scheduledRecord (rollbackIntent recoverable 7 snapshotVolume "2026-06-01T12:00:01Z")
    ⟨7, snapshotVolume, none⟩ cloneVolume

theorem recovery_recoverableWorld (id : String) (r : OperationStateRecord)
    (hr : recoverableWorld.state id = .record r) : r.recovery = none := by
  unfold World.state recoverableWorld at hr
  dsimp only at hr
  split_ifs at hr
  cases hr
  rfl

end Sample

theorem rollback_once_sample :
    ∃ boot, Scheduled Sample.rolledBack Sample.scheduled Sample.scheduledGoal boot :=
  ((rollback_once Sample.externals Sample.recovery_recoverableWorld
    ((simulation Sample.rollbackOracle).reach _ _ _) Sample.operationId).2 Sample.scheduled
    Sample.scheduledGoal (by decide +kernel) rfl).1 rfl

end LyraUpgrade
