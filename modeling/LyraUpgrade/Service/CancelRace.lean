import LyraUpgrade.Service.Decision
import LyraUpgrade.System.Simulation

/-!
# A worker and the Cancel requests for its operation

One worker, whose record Start has read, and any number of Cancel requests.  Both
read the record, change their copy and write it back; the worker holds the transaction
lock, Cancel does not.
-/

namespace LyraUpgrade

open Interaction

/-! ## The race -/

/-- The kinds of process in the race. -/
inductive Party
  | worker
  | cancel

namespace Party

@[reducible] def State : Party → Type
  | worker => WorkerState
  | cancel => DecisionState

def contract (operationId : String) : (p : Party) → Contract Sig p.State
  | worker => workerContract operationId
  | cancel => decisionContract cancellation operationId

/-- What is known when a process has ended. -/
def Post (exit : Exit) : (Σ p, State p) → Prop
  | ⟨worker, s⟩ => Closes exit s
  | ⟨cancel, _⟩ => True

end Party

/-- A worker as process 0, with the record Start read; Cancel requests may be spawned. -/
abbrev Race := Config Sig ℕ World Exit

/-- The worker has the record in memory, and nothing has happened since. -/
def race (ext : Externals) (w : World) (r : OperationStateRecord) (planned : PendingPlan) : Race :=
  .solo w (workerThread ext r planned)

/-- The runs of the race that the condition allows. -/
abbrev RaceReach (operationId : String) (ok : Race → Label Sig ℕ → Prop) : Race → Race → Prop :=
  Reach (system true) (fun uid => cancel uid operationId) ok

/-- The state of a worker that has read `r`. -/
def WorkerState.read (r : OperationStateRecord) : WorkerState where
  phase := .waiting
  record := r
  events := [⟨.load r.operationId, .ok r⟩]

section

variable {r : OperationStateRecord}

theorem WorkerState.sound_read (h : Loadable r) (hawaiting : r.state = .awaitingConfirmation) :
    Sound r.operationId (.read r) where
  loaded := ⟨r, List.mem_singleton_self _, hawaiting⟩
  id := rfl
  loadable := h
  recovery := h.valid.recovery_eq_none (by rw [hawaiting]; rfl)
  state := by rintro state ⟨⟩; exact hawaiting

/-- The states that the processes of a race start in. -/
def raceStates (r : OperationStateRecord) (i : ℕ) : Option (Σ p, Party.State p) :=
  if i = 0 then some ⟨.worker, .read r⟩ else none

theorem tracked_race (ext : Externals) (w : World) (planned : PendingPlan) (h : Loadable r)
    (hawaiting : r.state = .awaitingConfirmation) :
    Tracked (Contract.family (Party.contract r.operationId)) Party.Post (race ext w r planned)
      (raceStates r) := by
  refine Tracked.solo ?_
  have hworker := wp_workerThread ext planned ⟨rfl, rfl⟩ (WorkerState.sound_read h hawaiting)
  refine Prog.wp_mono ?_ (Prog.wp_family (K := Party.contract r.operationId) (i := .worker) hworker)
  rintro exit _ ⟨t, rfl, ht⟩
  exact ht

theorem wp_cancel (uid : ℕ) (operationId : String) :
    (cancel uid operationId).wp (Contract.family (Party.contract operationId)) Party.Post
      ⟨.cancel, .idle⟩ := by
  refine Prog.wp_mono ?_ (Prog.wp_family (K := Party.contract operationId) (i := .cancel)
    (wp_carryOut uid))
  rintro exit _ ⟨t, rfl, ht⟩
  trivial

end

/-! ## Recovery information -/

/-- The record of an operation is there, and names this snapshot. -/
def World.Names (w : World) (operationId : String) (snapshot : Option ℕ) : Prop :=
  ∃ r, w.state operationId = .record r ∧ r.snapshotNumber = snapshot

instance (w : World) (operationId : String) (snapshot : Option ℕ) :
    Decidable (w.Names operationId snapshot) :=
  match h : w.state operationId with
  | .record r => decidable_of_iff (r.snapshotNumber = snapshot)
      ⟨fun hr => ⟨r, h, hr⟩, fun ⟨r', hr', hs⟩ => by rw [h] at hr'; cases hr'; exact hs⟩
  | .absent | .malformed => isFalse fun ⟨r', hr', _⟩ => by rw [h] at hr'; cases hr'

/-- Cancel writes only over a record without a snapshot, and the record of a failure is
refused only if it is not a valid record. -/
def CancelsBeforeSnapshot (operationId : String) (c : Race) : Label Sig ℕ → Prop
  | .act 0 (.save r) answer => r.errorCode.isSome → ∀ e, answer = .error e → checkSave r = .error e
  | .act _ (.save _) _ => c.world.Names operationId none
  | _ => True

/-- The phases before the record names a snapshot. -/
def Phase.beforeSnapshot : Phase → Bool
  | .waiting | .locked | .downloading | .told | .snapshotting | .taken => true
  | _ => false

/-- The phases in which the worker may still write. -/
def Phase.isOpen : Phase → Bool
  | .closed _ => false
  | _ => true

/-- What the worker's record and the one on disk, `saved`, have to do with each other. -/
structure KeepsSnapshot (operationId : String) (saved : OperationStateRecord) (s : WorkerState) :
    Prop where
  worker : s.phase.hasWorker
  sound : s.Sound operationId
  snapshot : saved.snapshotNumber = none ∨ saved.snapshotNumber = s.record.snapshotNumber
  before : s.phase.beforeSnapshot → s.record.snapshotNumber = none
  code : s.phase.isOpen → s.record.errorCode = none ∧
    (saved.snapshotNumber.isSome → saved.errorCode = none)
  cancelled : s.phase = .closed .cancelled → saved.snapshotNumber = none
  reported : s.phase = .closed .reported → saved.snapshotNumber.isSome →
    saved.state = .needsRecovery ∧ saved.errorCode.isSome
  unreported : s.phase ≠ .closed .unreported

section

variable {operationId : String} {saved : OperationStateRecord} {s : WorkerState}

/-- A step of the worker that writes no record. -/
theorem KeepsSnapshot.observe {e : Event Sig} {phase : Phase} (h : KeepsSnapshot operationId saved s)
    (hsound : (⟨phase, s.record, s.events ++ [e]⟩ : WorkerState).Sound operationId)
    (hworker : phase.hasWorker) (hbefore : phase.beforeSnapshot → s.phase.beforeSnapshot)
    (hopen : phase.isOpen → s.phase.isOpen)
    (hcancelled : phase = .closed .cancelled → saved.snapshotNumber = none)
    (hreported : phase = .closed .reported → s.phase = .closed .reported)
    (hunreported : phase ≠ .closed .unreported) :
    KeepsSnapshot operationId saved ⟨phase, s.record, s.events ++ [e]⟩ where
  worker := hworker
  sound := hsound
  snapshot := h.snapshot
  before := fun hp => h.before (hbefore hp)
  code := fun hp => h.code (hopen hp)
  cancelled := hcancelled
  reported := fun hp => h.reported (hreported hp)
  unreported := hunreported

/-- The record of a cancellation does not hurt where there is no snapshot. -/
theorem KeepsSnapshot.overwritten {saved' : OperationStateRecord}
    (h : KeepsSnapshot operationId saved s) (hnone : saved'.snapshotNumber = none) :
    KeepsSnapshot operationId saved' s where
  worker := h.worker
  sound := h.sound
  snapshot := .inl hnone
  before := h.before
  code := fun hp => ⟨(h.code hp).1, fun hsome => by rw [hnone] at hsome; cases hsome⟩
  cancelled := fun _ => hnone
  reported := fun _ hsome => by rw [hnone] at hsome; cases hsome
  unreported := h.unreported

/-- The worker's record is the one on disk. -/
theorem KeepsSnapshot.written {r : OperationStateRecord} {phase : Phase} {events : List (Event Sig)}
    (hworker : phase.hasWorker)
    (hsound : (⟨phase, r, events⟩ : WorkerState).Sound operationId)
    (hbefore : phase.beforeSnapshot → r.snapshotNumber = none)
    (hcode : phase.isOpen → r.errorCode = none)
    (hclosed : ∀ ending, phase = .closed ending → ending = .reported ∧
      (r.snapshotNumber.isSome → r.state = .needsRecovery ∧ r.errorCode.isSome)) :
    KeepsSnapshot operationId r ⟨phase, r, events⟩ where
  worker := hworker
  sound := hsound
  snapshot := .inr rfl
  before := hbefore
  code := fun hp => ⟨hcode hp, fun _ => hcode hp⟩
  cancelled := fun hp => by cases (hclosed _ hp).1
  reported := fun hp => (hclosed _ hp).2
  unreported := fun hp => by cases (hclosed _ hp).1

/-- The worker has saved its record and goes on. -/
theorem KeepsSnapshot.advanced {r : OperationStateRecord} {phase : Phase} {events : List (Event Sig)}
    (hworker : phase.hasWorker) (hopen : phase.isOpen)
    (hsound : (⟨phase, r, events⟩ : WorkerState).Sound operationId)
    (hbefore : phase.beforeSnapshot → r.snapshotNumber = none) (hcode : r.errorCode = none) :
    KeepsSnapshot operationId r ⟨phase, r, events⟩ := by
  refine .written hworker hsound hbefore (fun _ => hcode) ?_
  rintro ending rfl
  cases hopen

/-- The record could not be saved, and the body of the worker is left. -/
theorem KeepsSnapshot.unwritten {r saved' : OperationStateRecord} {events : List (Event Sig)}
    (h : KeepsSnapshot operationId saved s) (hopen : s.phase.isOpen)
    (hsound : (⟨.failed, r, events⟩ : WorkerState).Sound operationId)
    (hcode : r.errorCode = none)
    (hsnapshot : saved.snapshotNumber = none ∨ saved.snapshotNumber = r.snapshotNumber)
    (hwritten : saved' = saved ∨ saved' = r) :
    KeepsSnapshot operationId saved' ⟨.failed, r, events⟩ where
  worker := rfl
  sound := hsound
  snapshot := by
    rcases hwritten with rfl | rfl
    · exact hsnapshot
    · exact .inr rfl
  before := nofun
  code := fun _ => ⟨hcode, fun hsome => by
    rcases hwritten with rfl | rfl
    · exact (h.code hopen).2 hsome
    · exact hcode⟩
  cancelled := nofun
  reported := nofun
  unreported := nofun

/-- A save of the worker that succeeds. -/
theorem KeepsSnapshot.afterSave {r : OperationStateRecord} {events : List (Event Sig)}
    (h : KeepsSnapshot operationId saved s) (may : s.MaySave operationId r)
    (hsound : (WorkerState.phaseAfterSave r s.phase).hasWorker →
      (⟨WorkerState.phaseAfterSave r s.phase, r, events⟩ : WorkerState).Sound operationId) :
    KeepsSnapshot operationId r ⟨WorkerState.phaseAfterSave r s.phase, r, events⟩ := by
  have hadvance : ∀ {next}, s.record.transitionTo next = .ok r →
      r.snapshotNumber = s.record.snapshotNumber ∧ r.errorCode = s.record.errorCode ∧
        r.state = next := by
    intro next hnext
    obtain ⟨-, -, -, rfl⟩ := OperationStateRecord.transitionTo_eq_ok.mp hnext
    exact ⟨rfl, rfl, rfl⟩
  have hcode : s.phase.isOpen → s.record.errorCode = none := fun hopen => (h.code hopen).1
  have hbefore := h.before
  cases may with
  | initial phase => have := h.worker; rw [phase] at this; cases this
  | downloading phase next | snapshotting phase next =>
      obtain ⟨hsnapshot, herror, -⟩ := hadvance next
      rw [phase] at hsound hcode hbefore ⊢
      exact .advanced rfl rfl (hsound rfl) (fun _ => hsnapshot.trans (hbefore rfl))
        (herror.trans (hcode rfl))
  | snapshot number phase _ next =>
      subst next
      rw [phase] at hsound hcode ⊢
      exact .advanced rfl rfl (hsound rfl) (fun h => by cases h) (hcode rfl)
  | applying phase next | ready phase next =>
      obtain ⟨-, herror, hstate⟩ := hadvance next
      rw [phase, WorkerState.phaseAfterSave, hstate] at hsound ⊢
      rw [phase] at hcode
      exact .advanced rfl rfl (hsound rfl) (fun h => by cases h) (herror.trans (hcode rfl))
  | result phase _ _ _ next =>
      obtain ⟨-, herror, -⟩ := hadvance next
      rw [phase] at hsound hcode ⊢
      exact .advanced rfl rfl (hsound rfl) (fun h => by cases h) (herror.trans (hcode rfl))
  | failure phase error timestamp next =>
      subst next
      rw [phase] at hsound ⊢
      refine .written rfl (hsound rfl) (fun h => by cases h) (fun h => by cases h) ?_
      rintro ending ⟨⟩
      refine ⟨rfl, fun hsome => ⟨?_, rfl⟩⟩
      change failureState error s.record.snapshotNumber.isSome = .needsRecovery
      rw [show s.record.snapshotNumber.isSome = true from hsome]
      cases hblocking : error.isBlocking <;> simp [failureState, hblocking]

/-- A save of the worker that fails, whether or not it took effect. -/
theorem KeepsSnapshot.afterFailure {r saved' : OperationStateRecord} {events : List (Event Sig)}
    {error : PersistenceError} (h : KeepsSnapshot operationId saved s)
    (may : s.MaySave operationId r)
    (hsound : (WorkerState.phaseAfterFailure s.phase).hasWorker →
      (⟨WorkerState.phaseAfterFailure s.phase, r, events⟩ : WorkerState).Sound operationId)
    (hwritten : saved' = saved ∨ saved' = r)
    (hreport : r.errorCode.isSome → checkSave r = .error error) :
    KeepsSnapshot operationId saved' ⟨WorkerState.phaseAfterFailure s.phase, r, events⟩ := by
  have hadvance : ∀ {next}, s.record.transitionTo next = .ok r →
      r.snapshotNumber = s.record.snapshotNumber ∧ r.errorCode = s.record.errorCode := by
    intro next hnext
    obtain ⟨-, -, -, rfl⟩ := OperationStateRecord.transitionTo_eq_ok.mp hnext
    exact ⟨rfl, rfl⟩
  cases may with
  | initial phase => have := h.worker; rw [phase] at this; cases this
  | downloading phase next | snapshotting phase next | applying phase next | ready phase next
  | result phase _ _ _ next =>
      obtain ⟨hsnapshot, herror⟩ := hadvance next
      have hopen : s.phase.isOpen := by rw [phase]; rfl
      rw [phase] at hsound ⊢
      exact h.unwritten hopen (hsound rfl) (herror.trans (h.code hopen).1)
        (by rw [hsnapshot]; exact h.snapshot) hwritten
  | snapshot number phase _ next =>
      subst next
      have hopen : s.phase.isOpen := by rw [phase]; rfl
      have hnone : s.record.snapshotNumber = none := h.before (by rw [phase]; rfl)
      rw [phase] at hsound ⊢
      refine h.unwritten hopen (hsound rfl) (h.code hopen).1 (.inl ?_) hwritten
      exact h.snapshot.elim id fun hsame => hsame.trans hnone
  | failure phase error' timestamp next =>
      subst next
      have hvalid := WorkerState.valid_failureRecord h.sound.loadable.valid h.sound.recovery error'
        timestamp
      have hloadable : Loadable (failureRecord error' s.record timestamp) :=
        ⟨h.sound.loadable.id, hvalid⟩
      rw [checkSave_eq_ok.mpr hloadable] at hreport
      cases hreport rfl

/-- A step of the worker that writes no record; a read sees what is on disk. -/
theorem KeepsSnapshot.look {e : Op} {answer : e.Answer} {phase : Phase} {r : OperationStateRecord}
    (h : KeepsSnapshot operationId saved s) (hmove : s.Moves operationId ⟨e, answer⟩ phase r)
    (hsave : e.isSave = false)
    (hread : ∀ m, (⟨e, answer⟩ : Event Sig) = ⟨.load operationId, .ok m⟩ → m = saved) :
    KeepsSnapshot operationId saved ⟨phase, r, s.events ++ [⟨e, answer⟩]⟩ := by
  have hsound := hmove.sound fun _ => h.sound
  cases hmove with
  | quiet hquiet =>
      exact h.observe (hsound h.worker) h.worker id id h.cancelled id h.unreported
  | found r hphase | refused answer hphase =>
      have := h.worker
      rw [hphase] at this
      cases this
  | poll answer hphase =>
      have hopen : s.phase.isOpen := by rw [hphase]; rfl
      have hbefore : s.phase.beforeSnapshot := by rw [hphase]; rfl
      split_ifs at hsound ⊢
      · exact h.observe (hsound rfl) rfl (fun _ => hbefore) (fun _ => hopen) nofun nofun nofun
      · exact h.observe (hsound rfl) rfl (fun _ => hbefore) (fun _ => hopen) nofun nofun nofun
  | look answer hphase =>
      have hopen : s.phase.isOpen := by rcases hphase with hphase | hphase <;> rw [hphase] <;> rfl
      split_ifs at hsound ⊢ with hcancelled
      · refine h.observe (hsound rfl) rfl nofun (fun _ => hopen) (fun _ => ?_) nofun nofun
        -- the record that says it was cancelled is the one on disk, so it names no snapshot
        obtain ⟨m, rfl, hcode⟩ := isCancelled_iff.mp hcancelled
        obtain rfl := hread m rfl
        by_contra hsome
        rw [(h.code hopen).2 (Option.isSome_iff_ne_none.mpr hsome)] at hcode
        cases hcode
      · exact h.observe (hsound rfl) rfl nofun (fun _ => hopen) nofun nofun nofun
  | lock hphase =>
      exact h.observe (hsound rfl) rfl (fun _ => by rw [hphase]; rfl) (fun _ => by rw [hphase]; rfl)
        nofun nofun nofun
  | busy error hphase =>
      exact h.observe (hsound rfl) rfl nofun (fun _ => by rw [hphase]; rfl) nofun nofun nofun
  | unlock hphase =>
      have hopen : s.phase.isOpen := by
        generalize s.phase = p at hphase
        cases p <;> first | rfl | cases hphase
      split_ifs at hsound ⊢
      · exact h.observe (hsound rfl) rfl nofun (fun _ => hopen) nofun nofun nofun
      · exact h.observe (hsound rfl) rfl nofun (fun _ => hopen) nofun nofun nofun
  | takeSnapshot description output hphase =>
      exact h.observe (hsound rfl) rfl (fun _ => by rw [hphase]; rfl) (fun _ => by rw [hphase]; rfl)
        nofun nofun nofun
  | apply output hphase | mark answer hphase =>
      exact h.observe (hsound rfl) rfl nofun (fun _ => by rw [hphase]; rfl) nofun nofun nofun
  | create | saved | unsaved => cases hsave

/-- What a worker saves with a snapshot number is no longer offered for cancellation. -/
theorem KeepsSnapshot.not_cancelable {r : OperationStateRecord}
    (h : KeepsSnapshot operationId saved s) (may : s.MaySave operationId r)
    (hsome : r.snapshotNumber.isSome) : r.state.isCancelable = false := by
  have hadvance : ∀ {next}, s.record.transitionTo next = .ok r →
      r.snapshotNumber = s.record.snapshotNumber ∧ r.state = next := by
    intro next hnext
    obtain ⟨-, -, -, rfl⟩ := OperationStateRecord.transitionTo_eq_ok.mp hnext
    exact ⟨rfl, rfl⟩
  cases may with
  | initial phase => have := h.worker; rw [phase] at this; cases this
  | downloading phase next =>
      rw [(hadvance next).1, h.before (by rw [phase]; rfl)] at hsome
      cases hsome
  | snapshotting phase next | applying phase next | ready phase next =>
      rw [(hadvance next).2]
      rfl
  | snapshot number phase _ next =>
      subst next
      rw [show ({ s.record with snapshotNumber := some number } : OperationStateRecord).state =
        .snapshotting from h.sound.state _ (by rw [phase]; rfl)]
      rfl
  | result phase _ state final next =>
      rw [(hadvance next).2]
      rcases final with rfl | rfl <;> rfl
  | failure phase error timestamp next =>
      subst next
      change (failureState error s.record.snapshotNumber.isSome).isCancelable = false
      rw [show s.record.snapshotNumber.isSome = true from hsome]
      cases hblocking : error.isBlocking <;> simp [failureState, hblocking, OperationState.isCancelable]

/-- A step of the worker in the world. -/
theorem KeepsSnapshot.exec {i : ℕ} {e : Op} {answer : e.Answer} {w w' : World}
    (h : KeepsSnapshot operationId saved s) (hsaved : w.state operationId = .record saved)
    (hcancelable : saved.snapshotNumber.isSome → saved.state.isCancelable = false)
    (hallow : s.allows operationId e) (hexec : exec true i e w answer w')
    (hreport : ∀ r error, (⟨e, answer⟩ : Event Sig) = ⟨.save r, .error error⟩ →
      r.errorCode.isSome → checkSave r = .error error) :
    ∃ saved', w'.state operationId = .record saved' ∧
      (saved'.snapshotNumber.isSome → saved'.state.isCancelable = false) ∧
      KeepsSnapshot operationId saved' (s.next ⟨e, answer⟩) := by
  have hmove := WorkerState.moves hallow (validAnswer_of_exec hexec)
  cases hsave : e.isSave with
  | false =>
      have hsame := (exec_change hexec).state_of_not_save hsave operationId
      refine ⟨saved, hsame.trans hsaved, hcancelable, h.look hmove hsave ?_⟩
      rintro m ⟨⟩
      have hm := (exec_load_ok hexec).1
      rw [hsaved] at hm
      cases hm
      rfl
  | true =>
      obtain ⟨r, rfl⟩ : ∃ r, e = .save r := by
        cases e <;> first | exact ⟨_, rfl⟩ | cases hsave
      have hmay : s.MaySave operationId r := hallow.resolve_left (by simp [Op.isQuiet])
      have hstart : s.phase ≠ .start := fun hstart => by
        have := h.worker
        rw [hstart] at this
        cases this
      have hid := (hmay.keeps hstart h.sound).1
      have hsound := hmove.sound fun _ => h.sound
      rcases answer with error | ⟨⟩
      · rw [WorkerState.next_unsaved hstart] at hsound ⊢
        have hafter : ∀ {saved'}, saved' = saved ∨ saved' = r →
            KeepsSnapshot operationId saved' _ :=
          fun hwritten => h.afterFailure hmay hsound hwritten (hreport r error rfl)
        rcases (exec_change hexec).state operationId with hsame | ⟨r', hr', -, -, hrecord⟩
        · exact ⟨saved, hsame.trans hsaved, hcancelable, hafter (.inl rfl)⟩
        · cases hr'
          exact ⟨r, hrecord, h.not_cancelable hmay, hafter (.inr rfl)⟩
      · rw [WorkerState.next_saved hstart] at hsound ⊢
        refine ⟨r, ?_, h.not_cancelable hmay, h.afterSave hmay hsound⟩
        rw [(exec_save_ok hexec).2, ← hid]
        exact World.state_putState_self r

/-- The invariant of the configuration: the record on disk can only be cancelled while it
names no snapshot. -/
def SnapshotKept (operationId : String) (c : Race) : Prop :=
  1 ≤ c.fresh ∧ ∃ saved, c.world.state operationId = .record saved ∧
    (saved.snapshotNumber.isSome → saved.state.isCancelable = false)

/-- The invariant of each process: a Cancel request holds a record without a snapshot. -/
def SnapshotKeeper (operationId : String) (c : Race) (i : ℕ) : (Σ p, Party.State p) → Prop
  | ⟨.worker, s⟩ => i = 0 ∧ ∀ saved, c.world.state operationId = .record saved →
      KeepsSnapshot operationId saved s
  | ⟨.cancel, s⟩ => i ≠ 0 ∧ ∀ m, s = .holding m →
      m.operationId = operationId ∧ m.snapshotNumber = none

/-- A process whose files are as before keeps its invariant. -/
theorem SnapshotKeeper.frame {c c' : Race} {j : ℕ} {t : Σ p, Party.State p}
    (h : SnapshotKeeper operationId c j t)
    (hstate : c'.world.state operationId = c.world.state operationId) :
    SnapshotKeeper operationId c' j t := by
  obtain ⟨_ | _, t⟩ := t
  · exact ⟨h.1, fun saved hsaved => h.2 saved (by rw [← hstate]; exact hsaved)⟩
  · exact h

/-- A step of a Cancel request in the world. -/
theorem SnapshotKeeper.exec {c : Race} {i : ℕ} {e : Op} {answer : e.Answer} {w' : World}
    {t : DecisionState} (hkept : SnapshotKept operationId c)
    (h : SnapshotKeeper operationId c i ⟨.cancel, t⟩)
    (hallow : e.isQuiet ∨ t.permits cancellation operationId e)
    (hexec : exec true i e c.world answer w') :
    (∃ saved', w'.state operationId = .record saved' ∧
      (c.world.state operationId = .record saved' ∨ saved'.snapshotNumber = none)) ∧
    ∀ m, t.next cancellation ⟨e, answer⟩ = .holding m →
      m.operationId = operationId ∧ m.snapshotNumber = none := by
  obtain ⟨hfresh, saved, hsaved, hcancelable⟩ := hkept
  have hmove := DecisionState.moves hallow (validAnswer_of_exec hexec)
  have hkeep : e.isSave = false → ∃ saved', w'.state operationId = .record saved' ∧
      (c.world.state operationId = .record saved' ∨ saved'.snapshotNumber = none) := fun hsave =>
    ⟨saved, ((exec_change hexec).state_of_not_save hsave _).trans hsaved, .inl hsaved⟩
  generalize t.next cancellation ⟨e, answer⟩ = t' at hmove
  cases hmove with
  | quiet hquiet => exact ⟨hkeep (isSave_of_quiet hquiet), h.2⟩
  | read m hidle happlies hid hloadable =>
      refine ⟨hkeep rfl, ?_⟩
      rintro _ ⟨⟩
      obtain ⟨hm, -, -⟩ := exec_load_ok hexec
      rw [hsaved] at hm
      cases hm
      refine ⟨hid, ?_⟩
      by_contra hsome
      have := hcancelable (Option.isSome_iff_ne_none.mpr hsome)
      rw [show saved.state.isCancelable = true from happlies] at this
      cases this
  | refuse answer hidle => exact ⟨hkeep rfl, fun m hm => by cases hm⟩
  | look answer => exact ⟨hkeep rfl, h.2⟩
  | write m timestamp answer hholds =>
      refine ⟨?_, fun m hm => by cases hm⟩
      rcases (exec_change hexec).state operationId with hsame | ⟨r, hr, -, -, hrecord⟩
      · exact ⟨saved, hsame.trans hsaved, .inl hsaved⟩
      · cases hr
        exact ⟨_, hrecord, .inr (h.2 m hholds).2⟩

/-- Only the worker writes over a record that names a snapshot. -/
theorem CancelsBeforeSnapshot.names {c : Race} {i : ℕ} {r : OperationStateRecord}
    {answer : Except PersistenceError Unit} (hi : i ≠ 0)
    (h : CancelsBeforeSnapshot operationId c (.act i (.save r) answer)) :
    c.world.Names operationId none := by
  cases i with
  | zero => exact absurd rfl hi
  | succ i => exact h

theorem preserved_snapshotKept :
    Preserved (system true) (fun uid => cancel uid operationId)
      (Contract.family (Party.contract operationId)) (CancelsBeforeSnapshot operationId)
      (fun _ => ⟨.cancel, .idle⟩)
      fun c φ => SnapshotKept operationId c ∧
        ∀ i s, φ i = some s → SnapshotKeeper operationId c i s := by
  refine Preserved.of_local ?_ ?_ ?_
  · rintro c c' uid ⟨hfresh, hdisk⟩ - - hs hw
    have hfresh' := hs.fresh_le
    have hidle : ∀ m, DecisionState.idle = .holding m →
        m.operationId = operationId ∧ m.snapshotNumber = none := by
      intro m hm
      cases hm
    refine ⟨⟨by omega, by rw [hw]; exact hdisk⟩, ⟨by omega, hidle⟩, fun j t _ hj => ?_⟩
    exact hj.frame (by rw [hw])
  · rintro c c' φ i e answer ⟨party, s⟩ hkept hL hφ hpre hok hs hexec
    obtain ⟨hfresh, saved, hsaved, hcancelable⟩ := hkept
    have hfresh' : 1 ≤ c'.fresh := hfresh.trans hs.fresh_le
    have hvalid := validAnswer_of_exec hexec
    have hself := hL i _ hφ
    cases party with
    | worker =>
        obtain ⟨rfl, hkeeps⟩ := hself
        obtain ⟨saved', hsaved', hcancelable', hkeep⟩ := (hkeeps saved hsaved).exec hsaved
          hcancelable hpre hexec (by rintro r error ⟨⟩ hsome; exact hok hsome error rfl)
        refine ⟨⟨.worker, s.next ⟨e, answer⟩⟩, ⟨_, ⟨hvalid, rfl⟩, rfl⟩,
          ⟨hfresh', saved', hsaved', hcancelable'⟩, ⟨rfl, fun r hr => ?_⟩, ?_⟩
        · rw [hsaved'] at hr
          cases hr
          exact hkeep
        · rintro j ⟨_ | _, t⟩ hj hφj
          · exact absurd (hL j _ hφj).1 hj
          · exact hL j _ hφj
    | cancel =>
        obtain ⟨⟨saved', hsaved', hwritten⟩, hholds⟩ :=
          SnapshotKeeper.exec ⟨hfresh, saved, hsaved, hcancelable⟩ hself hpre hexec
        refine ⟨⟨.cancel, s.next cancellation ⟨e, answer⟩⟩, ⟨_, ⟨hvalid, rfl⟩, rfl⟩,
          ⟨hfresh', saved', hsaved', ?_⟩, ⟨hself.1, hholds⟩, ?_⟩
        · rcases hwritten with hsame | hnone
          · rw [hsaved] at hsame
            cases hsame
            exact hcancelable
          · intro hsome
            rw [hnone] at hsome
            cases hsome
        · rintro j ⟨_ | _, t⟩ hj hφj
          · obtain ⟨hzero, hkeeps⟩ := hL j _ hφj
            refine ⟨hzero, fun r hr => ?_⟩
            rw [hsaved'] at hr
            cases hr
            rcases hwritten with hsame | hnone
            · exact hkeeps saved' hsame
            · exact (hkeeps saved hsaved).overwritten hnone
          · exact hL j _ hφj
  · rintro c c' ⟨hfresh, hdisk⟩ - hs ⟨temporary, -, hw⟩
    exact ⟨hfresh.trans hs.fresh_le, by rw [hw]; exact hdisk⟩

/-- A worker that has a snapshot saves it again. -/
theorem KeepsSnapshot.keeps_number {r : OperationStateRecord} {number : ℕ}
    (h : KeepsSnapshot operationId saved s) (hnumber : saved.snapshotNumber = some number)
    (may : s.MaySave operationId r) : r.snapshotNumber = some number := by
  have hrecord : s.record.snapshotNumber = some number := by
    rcases h.snapshot with hnone | hsame
    · rw [hnone] at hnumber
      cases hnumber
    · rw [← hsame, hnumber]
  have hadvance : ∀ {next}, s.record.transitionTo next = .ok r → r.snapshotNumber = some number := by
    intro next hnext
    obtain ⟨-, -, -, rfl⟩ := OperationStateRecord.transitionTo_eq_ok.mp hnext
    exact hrecord
  cases may with
  | initial phase => have := h.worker; rw [phase] at this; cases this
  | downloading _ next | snapshotting _ next | applying _ next | ready _ next
  | result _ _ _ _ next => exact hadvance next
  | snapshot _ phase =>
      rw [h.before (by rw [phase]; rfl)] at hrecord
      cases hrecord
  | failure _ _ _ next => subst next; exact hrecord

/-- Once it is on disk, the snapshot number stays. -/
theorem preserved_names (number : ℕ) :
    Preserved (system true) (fun uid => cancel uid operationId)
      (Contract.family (Party.contract operationId)) (CancelsBeforeSnapshot operationId)
      (fun _ => ⟨.cancel, .idle⟩)
      fun c φ => (SnapshotKept operationId c ∧
        ∀ i s, φ i = some s → SnapshotKeeper operationId c i s) ∧
        c.world.Names operationId (some number) := by
  refine preserved_snapshotKept.and ?_ ?_ ?_
  · intro c c' uid hnames _ hw
    rw [hw]
    exact hnames
  · rintro c c' φ i e answer ⟨party, s⟩ ⟨-, hL⟩ ⟨saved, hsaved, hnumber⟩ hφ hpre hok - hexec
    rcases (exec_change hexec).state operationId with hsame | ⟨r, rfl, -, -, hrecord⟩
    · exact ⟨saved, hsame.trans hsaved, hnumber⟩
    · have hself := hL i _ hφ
      cases party with
      | worker =>
          obtain ⟨rfl, hkeeps⟩ := hself
          have hmay : s.MaySave operationId r := Or.resolve_left hpre (by simp [Op.isQuiet])
          exact ⟨r, hrecord, (hkeeps saved hsaved).keeps_number hnumber hmay⟩
      | cancel =>
          obtain ⟨saved', hsaved', hnone⟩ := hok.names hself.1
          rw [hsaved] at hsaved'
          cases hsaved'
          rw [hnone] at hnumber
          cases hnumber
  · rintro c c' hnames - ⟨temporary, -, hw⟩
    rw [hw]
    exact hnames

end

/-- Where the race starts, nothing has been recorded yet. -/
theorem snapshotKept_race {ext : Externals} {w : World} {r : OperationStateRecord}
    {planned : PendingPlan} (h : Loadable r)
    (hinitial : WorkerState.IsInitial r.operationId r) (hw : w.state r.operationId = .record r) :
    SnapshotKept r.operationId (race ext w r planned) ∧
      ∀ i s, raceStates r i = some s → SnapshotKeeper r.operationId (race ext w r planned) i s := by
  obtain ⟨-, hawaiting, hnone, -, hcode⟩ := hinitial
  refine ⟨⟨Nat.le_refl _, r, hw, fun hsome => by rw [hnone] at hsome; cases hsome⟩, ?_⟩
  intro i s hs
  by_cases hi : i = 0
  · subst hi
    cases hs
    refine ⟨rfl, fun saved hsaved => ?_⟩
    have hrecord : w.state r.operationId = .record saved := hsaved
    rw [hw] at hrecord
    cases hrecord
    exact .written rfl (WorkerState.sound_read h hawaiting) (fun _ => hnone) (fun _ => hcode) nofun
  · rw [raceStates, if_neg hi] at hs
    cases hs

namespace Sample

/-- The race for the sample update. -/
def updateRace : Race := race externals world record ⟨planned, none⟩

/-- The race after a schedule. -/
def raceAfter (schedule : List (Choice ℕ)) : Race :=
  (simulation oracle).plays (fun uid => cancel uid operationId) updateRace schedule

/-- Process `i` takes `n` steps. -/
def acts (i n : ℕ) : List (Choice ℕ) := List.replicate n (.act i)

/-- The worker alone, until the snapshot number is on disk. -/
def untilSnapshot : Race := raceAfter (acts 0 16)

theorem loadable_record : Loadable record := by decide +kernel

theorem initial_record : WorkerState.IsInitial record.operationId record :=
  ⟨rfl, rfl, rfl, rfl, rfl⟩

/-- Where nothing fails, the worker alone meets the condition. -/
theorem reach_untilSnapshot :
    RaceReach record.operationId (CancelsBeforeSnapshot record.operationId) updateRace
      untilSnapshot := by
  refine (simulation oracle).reach_if _ (I := fun _ => True) trivial ?_
  refine fun choice hchoice c _ => ⟨trivial, fun l hlabel => ?_⟩
  obtain rfl := List.eq_of_mem_replicate hchoice
  unfold Strategy.label at hlabel
  rcases hproc : c.procs 0 with _ | _ | ⟨e, k⟩ <;> simp only [hproc] at hlabel
  · cases hlabel
  · cases hlabel
  · cases hlabel
    cases e with
    | save r =>
        intro hsome e he
        change (World.reply oracle 0 (.save r) c.world).1 = .error e at he
        cases hcheck : checkSave r with
        | error e' =>
            simp only [World.reply, hcheck] at he
            exact he
        | ok u => simp only [World.reply, hcheck] at he; cases he
    | _ => trivial

end Sample

end LyraUpgrade
