import LyraUpgrade.Service.OneWorker
import LyraUpgrade.Service.RollbackProtocol

/-!
# One operation writes at a time

Any number of requests of every kind, for any number of operations, on a machine on which
nothing fails.  A worker changes its record to a writing state only under the transaction
lock, but the record of its failure is saved after the lock was given back: in between
another worker can begin.  Where a worker begins to write only when every other worker that
wrote has ended, at most one operation has a record in a writing state.

* `OneWrites` — the property, of the files.
* `ReportsFirst` — the condition on a step.
* `Orderly` — the invariant: what the files and the workers have to do with each other.
-/

namespace LyraUpgrade

open Interaction

/-! ## Requests of the service -/

inductive ServiceRequest
  | start (request : StartRequest)
  | cancel (uid : ℕ) (operationId : String)
  | keepCurrent (uid : ℕ) (operationId : String)
  | rollback (uid : ℕ) (operationId : String)

/-- The handler of a request, with the worker it may spawn. -/
def ServiceRequest.program (ext : Externals) : ServiceRequest → Prog Sig Exit
  | start request => LyraUpgrade.start ext request
  | cancel uid operationId => LyraUpgrade.cancel uid operationId
  | keepCurrent uid operationId => LyraUpgrade.keepCurrent uid operationId
  | rollback uid operationId => LyraUpgrade.rollback uid operationId

abbrev Requests := Config Sig ServiceRequest World Exit

/-- The protocols the requests keep to. -/
inductive Service
  | worker (operationId : String)
  | decision (decision : Decision) (operationId : String)
  | rollback (operationId : String)

namespace Service

@[reducible] def State : Service → Type
  | worker _ => WorkerState
  | decision _ _ => DecisionState
  | rollback _ => RollbackState

def contract : (s : Service) → Contract Sig s.State
  | worker operationId => workerContract operationId
  | decision d operationId => decisionContract d operationId
  | rollback operationId => rollbackContract operationId

def isWorker : Service → Bool
  | worker _ => true
  | _ => false

/-- What is known when a process has ended. -/
def Post (exit : Exit) : (Σ s, State s) → Prop
  | ⟨worker _, s⟩ => Closes exit s
  | _ => True

/-- Where a request begins. -/
def start : ServiceRequest → Σ s, State s
  | .start request => ⟨worker request.operationId, .start, initialRecord request request.submitted "", []⟩
  | .cancel _ operationId => ⟨decision cancellation operationId, DecisionState.idle⟩
  | .keepCurrent _ operationId => ⟨decision recoveryDeclined operationId, DecisionState.idle⟩
  | .rollback _ operationId => ⟨rollback operationId, RollbackPhase.start, []⟩

end Service

/-- **Every request keeps to its protocol.** -/
theorem wp_service (ext : Externals) (request : ServiceRequest) :
    (request.program ext).wp (Contract.family Service.contract) Service.Post
      (Service.start request) := by
  cases request with
  | start request =>
      refine Prog.wp_mono ?_ (Prog.wp_family (K := Service.contract)
        (i := .worker request.operationId) (wp_start ext request rfl))
      rintro exit _ ⟨t, rfl, ht⟩
      exact ht
  | cancel uid operationId =>
      refine Prog.wp_mono ?_ (Prog.wp_family (K := Service.contract)
        (i := .decision cancellation operationId) (wp_carryOut uid))
      rintro exit _ ⟨t, rfl, -⟩
      trivial
  | keepCurrent uid operationId =>
      refine Prog.wp_mono ?_ (Prog.wp_family (K := Service.contract)
        (i := .decision recoveryDeclined operationId) (wp_carryOut uid))
      rintro exit _ ⟨t, rfl, -⟩
      trivial
  | rollback uid operationId =>
      refine Prog.wp_mono ?_ (Prog.wp_family (K := Service.contract) (i := .rollback operationId)
        (wp_rollback uid rfl))
      rintro exit _ ⟨t, rfl, -⟩
      trivial

/-! ## The property and its condition -/

/-- The states in which an operation changes the system. -/
def OperationState.isWriting : OperationState → Bool
  | .snapshotting | .applying | .applyingOffline => true
  | _ => false

/-- The operation has a persisted record in such a state. -/
def World.Writing (w : World) (operationId : String) : Prop :=
  ∃ r, w.state operationId = .record r ∧ r.state.isWriting

instance (w : World) (operationId : String) : Decidable (w.Writing operationId) :=
  match h : w.state operationId with
  | .record r => decidable_of_iff (r.state.isWriting = true)
      ⟨fun hr => ⟨r, h, hr⟩, fun ⟨r', hr', hs⟩ => by rw [h] at hr'; cases hr'; exact hs⟩
  | .absent | .malformed => isFalse fun ⟨r', hr', _⟩ => by rw [h] at hr'; cases hr'

/-- At most one operation has. -/
def OneWrites (w : World) : Prop := ∀ a b, w.Writing a → w.Writing b → a = b

/-- The process has persisted a writing state of the operation. -/
def HasWritten (c : Requests) (i : ℕ) (operationId : String) : Prop :=
  ∃ r, ⟨Op.save r, Except.ok ()⟩ ∈ c.events i ∧ r.operationId = operationId ∧ r.state.isWriting

/-- A worker begins to write only when every other process that has written for another
operation has ended. -/
def ReportsFirst (c : Requests) : Label Sig ServiceRequest → Prop
  | .act i (.save r) (.ok ()) => r.state = .snapshotting →
      ∀ j id, j ≠ i → HasWritten c j id → id ≠ r.operationId → Ended (c.procs j)
  | .crash => False
  | _ => True

/-- No operation is under way, and records that await confirmation are as Start makes them. -/
structure Settled (w : World) : Prop where
  unlocked : w.lock = none
  quiet : ∀ id, ¬ w.Writing id
  fresh : ∀ id r, w.state id = .record r → r.state = .awaitingConfirmation → r.errorCode = none

section

variable {w : World} {r : OperationStateRecord}

theorem World.writing_putState_self :
    (w.putState r).Writing r.operationId ↔ r.state.isWriting := by
  constructor
  · rintro ⟨r', hr', hwriting⟩
    rw [World.state_putState_self] at hr'
    cases hr'
    exact hwriting
  · exact fun hwriting => ⟨r, World.state_putState_self r, hwriting⟩

theorem World.writing_putState_of_ne {id : String} (h : id ≠ r.operationId) :
    (w.putState r).Writing id ↔ w.Writing id := by
  unfold World.Writing
  rw [World.state_putState_of_ne h]

/-- A file that is not touched. -/
theorem World.Writing.congr {w w' : World} (h : ∀ id, w'.state id = w.state id) (id : String) :
    w'.Writing id ↔ w.Writing id := by
  unfold World.Writing
  rw [h]

end

/-! ## What a step of a worker does -/

/-- The record of the operation is in a writing state, or about to leave it. -/
def Phase.isWriting : Phase → Bool
  | .snapshotting | .taken | .saved | .applying => true
  | _ => false

/-- The worker has begun to write, and its last record is still to come. -/
def Phase.owesRecord : Phase → Bool
  | .snapshotting | .taken | .saved | .applying | .failed | .ended | .reporting => true
  | _ => false

theorem Phase.isIdle_of_isWriting {p : Phase} (h : p.isWriting) : p.isIdle = false := by
  cases p <;> first | rfl | cases h

theorem Phase.holdsLock_of_isWriting {p : Phase} (h : p.isWriting) : p.holdsLock := by
  cases p <;> first | rfl | cases h

theorem Phase.owesRecord_of_isWriting {p : Phase} (h : p.isWriting) : p.owesRecord := by
  cases p <;> first | rfl | cases h

/-- A worker that owes a record has not come to its end. -/
theorem Closes.not_owesRecord {exit : Exit} {s : WorkerState} (h : Closes exit s) :
    s.phase.owesRecord = false := by
  cases exit with
  | answered response => rcases h with h | h | h <;> rw [h] <;> rfl
  | worker execution =>
      cases execution with
      | ok outcome => rw [show s.phase = .closed .succeeded from h]; rfl
      | error error => rcases h with h | h | h <;> rw [h] <;> rfl
  | offline | verifier => exact h.elim

namespace WorkerState

variable {operationId : String} {s : WorkerState} {r : OperationStateRecord}

/-- The lock is held where it was taken or is kept. -/
theorem Moves.holdsLock {e : Event Sig} {phase : Phase} (h : s.Moves operationId e phase r)
    (hlock : phase.holdsLock) :
    e = ⟨.acquireLock, .ok ()⟩ ∨ (s.phase.holdsLock ∧ e.op ≠ .releaseLock) := by
  cases h with
  | quiet hquiet =>
      refine .inr ⟨hlock, fun he => ?_⟩
      rw [he] at hquiet
      cases hquiet
  | lock => exact .inl rfl
  | found | refused | busy => cases hlock
  | poll _ hphase => exact .inr ⟨by rw [hphase]; rfl, by simp⟩
  | look | unlock => split_ifs at hlock <;> cases hlock
  | takeSnapshot _ _ hphase | apply _ hphase | mark _ hphase =>
      exact .inr ⟨by rw [hphase]; rfl, by simp⟩
  | create => cases hlock
  | saved hstart may | unsaved _ hstart may =>
      cases may with
      | initial hphase => exact absurd hphase hstart
      | downloading hphase | snapshotting hphase | snapshot _ hphase | applying hphase
      | ready hphase | result hphase => exact .inr ⟨by rw [hphase]; rfl, by simp⟩
      | failure hphase => rw [hphase] at hlock; cases hlock

/-- Without a save the record in memory changes only when Start reads it. -/
theorem Moves.errorCode {e : Event Sig} {phase : Phase} (h : s.Moves operationId e phase r)
    (hsave : e.op.isSave = false) (hcode : s.phase.isIdle = false → s.record.errorCode = none)
    (hread : ∀ m, e = ⟨.load operationId, .ok m⟩ → m.state = .awaitingConfirmation →
      m.errorCode = none) (hopen : phase.isIdle = false) : r.errorCode = none := by
  cases h with
  | quiet => exact hcode hopen
  | found _ _ awaiting => exact hread r rfl awaiting
  | refused | create => cases hopen
  | poll _ hphase | lock hphase | busy _ hphase | takeSnapshot _ _ hphase | apply _ hphase
  | mark _ hphase => exact hcode (by rw [hphase]; rfl)
  | look _ hphase => exact hcode (by rcases hphase with hphase | hphase <;> rw [hphase] <;> rfl)
  | unlock hphase => exact hcode (Phase.isIdle_of_holdsLock hphase)
  | saved | unsaved => cases hsave

/-- Without a save a worker does not begin to write. -/
theorem Moves.isWriting {e : Event Sig} {phase : Phase} (h : s.Moves operationId e phase r)
    (hsave : e.op.isSave = false) (hwriting : phase.isWriting) : s.phase.isWriting := by
  cases h with
  | quiet => exact hwriting
  | found | refused | lock | busy | create => cases hwriting
  | poll | look | unlock => split_ifs at hwriting <;> cases hwriting
  | takeSnapshot _ _ hphase | apply _ hphase | mark _ hphase => rw [hphase]; rfl
  | saved | unsaved => cases hsave

/-- Without a save a worker goes on owing its record, unless it is told of a cancellation. -/
theorem Moves.owesRecord {e : Event Sig} {phase : Phase} (h : s.Moves operationId e phase r)
    (hsave : e.op.isSave = false) (howes : s.phase.owesRecord)
    (hread : ∀ m, e = ⟨.load operationId, .ok m⟩ → m.errorCode ≠ some cancelledCode) :
    phase.owesRecord := by
  have hdead : ∀ {p}, s.phase = p → p.owesRecord = false → phase.owesRecord := by
    intro p hphase hp
    rw [hphase, hp] at howes
    cases howes
  cases h with
  | quiet => exact howes
  | found _ hphase | refused _ hphase | poll _ hphase | lock hphase | busy _ hphase
  | create _ hphase => exact hdead hphase rfl
  | look answer hphase =>
      rw [if_neg]
      · rfl
      · intro hcancelled
        obtain ⟨saved, rfl, hcode⟩ := isCancelled_iff.mp hcancelled
        exact hread saved rfl hcode
  | unlock =>
      rw [if_neg]
      · rfl
      · intro hfinished
        rw [hfinished] at howes
        cases howes
  | takeSnapshot | apply | mark => rfl
  | saved | unsaved => cases hsave

/-- A worker that saves a writing state is writing from then on. -/
theorem MaySave.isWriting (may : s.MaySave operationId r) (hstart : s.phase ≠ .start)
    (hwriting : r.state.isWriting) : (phaseAfterSave r s.phase).isWriting := by
  have hadvance : ∀ {next}, s.record.transitionTo next = .ok r → next.isWriting := by
    intro next hnext
    obtain ⟨-, -, -, rfl⟩ := OperationStateRecord.transitionTo_eq_ok.mp hnext
    exact hwriting
  cases may with
  | initial hphase => exact absurd hphase hstart
  | downloading _ next | ready _ next => cases hadvance next
  | snapshotting hphase | snapshot _ hphase => rw [hphase]; rfl
  | applying hphase next =>
      obtain ⟨-, -, -, rfl⟩ := OperationStateRecord.transitionTo_eq_ok.mp next
      rw [hphase]
      rfl
  | result _ _ state final next => rcases final with rfl | rfl <;> cases hadvance next
  | failure _ error timestamp next =>
      subst next
      change (failureState error _).isWriting at hwriting
      unfold failureState at hwriting
      split_ifs at hwriting <;> cases hwriting

/-- A worker begins to write when it saves that it takes the snapshot. -/
theorem MaySave.begins (may : s.MaySave operationId r) (hstart : s.phase ≠ .start)
    (hwriting : (phaseAfterSave r s.phase).isWriting) :
    (s.phase = .downloading ∧ r.state = .snapshotting) ∨ s.phase.isWriting := by
  cases may with
  | initial hphase => exact absurd hphase hstart
  | snapshotting hphase next =>
      obtain ⟨-, -, -, rfl⟩ := OperationStateRecord.transitionTo_eq_ok.mp next
      exact .inl ⟨hphase, rfl⟩
  | downloading hphase => rw [hphase] at hwriting; cases hwriting
  | snapshot _ hphase | applying hphase | ready hphase | result hphase =>
      exact .inr (by rw [hphase]; rfl)
  | failure hphase => rw [hphase] at hwriting; cases hwriting

/-- Until its last record, a worker writes the error code it has read. -/
theorem MaySave.errorCode (may : s.MaySave operationId r) (hstart : s.phase ≠ .start)
    (hopen : (phaseAfterSave r s.phase).isIdle = false) :
    r.errorCode = s.record.errorCode := by
  have hadvance : ∀ {next}, s.record.transitionTo next = .ok r →
      r.errorCode = s.record.errorCode := by
    intro next hnext
    obtain ⟨-, -, -, rfl⟩ := OperationStateRecord.transitionTo_eq_ok.mp hnext
    rfl
  cases may with
  | initial hphase => exact absurd hphase hstart
  | downloading _ next | snapshotting _ next | applying _ next | ready _ next
  | result _ _ _ _ next => exact hadvance next
  | snapshot _ _ _ next => subst next; rfl
  | failure hphase => rw [hphase] at hopen; cases hopen

end WorkerState

/-! ## The invariant -/

section

variable {c c' : Requests} {φ : ℕ → Option (Σ s, Service.State s)} {i : ℕ}

/-- What is known of a worker. -/
structure Working (w : World) (i : ℕ) (operationId : String) (s : WorkerState) : Prop where
  lock : s.phase.holdsLock → w.lock = some i
  sound : s.phase.hasWorker → s.Sound operationId
  code : s.phase.isIdle = false → s.record.errorCode = none
  alone : s.phase.isWriting → ∀ id, w.Writing id → id = operationId

/-- The files and the workers: an operation in a writing state has a worker that wrote it
and still owes a record. -/
structure Orderly (c : Requests) (φ : ℕ → Option (Σ s, Service.State s)) : Prop where
  oneWrites : OneWrites c.world
  cancelled : ∀ id r, c.world.state id = .record r → r.errorCode = some cancelledCode →
    r.state.isWriting = false
  fresh : ∀ id r, c.world.state id = .record r → r.state = .awaitingConfirmation →
    r.errorCode = none
  working : ∀ i id s, φ i = some ⟨.worker id, s⟩ → Working c.world i id s
  tended : ∀ id, c.world.Writing id → ∃ i s, φ i = some ⟨.worker id, s⟩ ∧ s.phase.owesRecord ∧
    HasWritten c i id

/-- A worker is not concerned by a step that keeps its lock and starts no other writing. -/
theorem Working.frame {w w' : World} {j : ℕ} {operationId : String} {s : WorkerState}
    (h : Working w j operationId s) (hlock : w.lock = some j → w'.lock = some j)
    (hwriting : s.phase.isWriting → ∀ id, w'.Writing id → id = operationId ∨ w.Writing id) :
    Working w' j operationId s where
  lock := fun hp => hlock (h.lock hp)
  sound := h.sound
  code := h.code
  alone := fun hp id hid => (hwriting hp id hid).elim (fun h => h) (h.alone hp id)

/-- A step that writes no record. -/
theorem Orderly.observe {t' : Σ s, Service.State s} (h : Orderly c φ)
    (hstate : ∀ id, c'.world.state id = c.world.state id)
    (hwritten : ∀ j id, HasWritten c j id → HasWritten c' j id)
    (hlock : ∀ j, j ≠ i → c.world.lock = some j → c'.world.lock = some j)
    (hself : ∀ id s, t' = ⟨.worker id, s⟩ → Working c'.world i id s)
    (howes : ∀ id s, φ i = some ⟨.worker id, s⟩ → s.phase.owesRecord → c.world.Writing id →
      ∃ s', t' = ⟨.worker id, s'⟩ ∧ s'.phase.owesRecord) :
    Orderly c' (Function.update φ i (some t')) where
  oneWrites := fun a b ha hb => h.oneWrites a b ((World.Writing.congr hstate a).mp ha)
    ((World.Writing.congr hstate b).mp hb)
  cancelled := fun id r hr => h.cancelled id r ((hstate id).symm.trans hr)
  fresh := fun id r hr => h.fresh id r ((hstate id).symm.trans hr)
  working := by
    intro j id s hj
    by_cases hji : j = i
    · subst hji
      rw [Function.update_self] at hj
      cases hj
      exact hself id s rfl
    · rw [Function.update_of_ne hji] at hj
      exact (h.working j id s hj).frame (hlock j hji) fun _ id' hid' =>
        .inr ((World.Writing.congr hstate id').mp hid')
  tended := by
    intro id hid
    rw [World.Writing.congr hstate] at hid
    obtain ⟨j, s, hj, hphase, hwrote⟩ := h.tended id hid
    by_cases hji : j = i
    · subst hji
      obtain ⟨s', rfl, hphase'⟩ := howes id s hj hphase hid
      exact ⟨j, s', Function.update_self .., hphase', hwritten j id hwrote⟩
    · exact ⟨j, s, (Function.update_of_ne hji ..).trans hj, hphase, hwritten j id hwrote⟩

/-- A step that writes a record.  Where it is in a writing state, a worker of the operation
has written it under the lock. -/
theorem Orderly.write {r : OperationStateRecord} {t' : Σ s, Service.State s} (h : Orderly c φ)
    (hworld : c'.world = c.world.putState r)
    (hwritten : ∀ j id, HasWritten c j id → HasWritten c' j id)
    (hkind : ∀ id s, φ i = some ⟨.worker id, s⟩ → id = r.operationId)
    (hself : ∀ id s, t' = ⟨.worker id, s⟩ → Working c'.world i id s)
    (hwriting : r.state.isWriting → c.world.lock = some i ∧ HasWritten c' i r.operationId ∧
      ∃ s, t' = ⟨.worker r.operationId, s⟩ ∧ s.phase.isWriting)
    (hcode : r.errorCode = some cancelledCode → r.state.isWriting = false)
    (hfresh : r.state = .awaitingConfirmation → r.errorCode = none) :
    Orderly c' (Function.update φ i (some t')) where
  oneWrites := by
    intro a b ha hb
    cases hr : r.state.isWriting with
    | true =>
        obtain ⟨-, -, s, ht', hphase⟩ := hwriting hr
        have halone := (hself _ s ht').alone hphase
        rw [halone a ha, halone b hb]
    | false =>
        have hold : ∀ id, c'.world.Writing id → c.world.Writing id := by
          intro id hid
          rw [hworld] at hid
          by_cases hop : id = r.operationId
          · subst hop
            rw [World.writing_putState_self, hr] at hid
            cases hid
          · exact (World.writing_putState_of_ne hop).mp hid
        exact h.oneWrites a b (hold a ha) (hold b hb)
  cancelled := by
    intro id r' hr' hcancelled
    rw [hworld] at hr'
    by_cases hop : id = r.operationId
    · subst hop
      rw [World.state_putState_self] at hr'
      cases hr'
      exact hcode hcancelled
    · rw [World.state_putState_of_ne hop] at hr'
      exact h.cancelled id r' hr' hcancelled
  fresh := by
    intro id r' hr' hawaiting
    rw [hworld] at hr'
    by_cases hop : id = r.operationId
    · subst hop
      rw [World.state_putState_self] at hr'
      cases hr'
      exact hfresh hawaiting
    · rw [World.state_putState_of_ne hop] at hr'
      exact h.fresh id r' hr' hawaiting
  working := by
    intro j id s hj
    by_cases hji : j = i
    · subst hji
      rw [Function.update_self] at hj
      cases hj
      exact hself id s rfl
    · rw [Function.update_of_ne hji] at hj
      have hworking := h.working j id s hj
      refine hworking.frame (fun hlock => by rw [hworld]; exact hlock) fun hphase id' hid' => ?_
      rw [hworld] at hid'
      by_cases hop : id' = r.operationId
      · -- two workers cannot both hold the lock
        subst hop
        obtain ⟨hlock, -⟩ := hwriting (World.writing_putState_self.mp hid')
        rw [hworking.lock (Phase.holdsLock_of_isWriting hphase)] at hlock
        cases hlock
        exact absurd rfl hji
      · exact .inr ((World.writing_putState_of_ne hop).mp hid')
  tended := by
    intro id hid
    rw [hworld] at hid
    by_cases hop : id = r.operationId
    · subst hop
      obtain ⟨-, hwrote, s, ht', hphase⟩ := hwriting (World.writing_putState_self.mp hid)
      subst ht'
      exact ⟨i, s, Function.update_self .., Phase.owesRecord_of_isWriting hphase, hwrote⟩
    · obtain ⟨j, s, hj, hphase, hwrote⟩ := h.tended id ((World.writing_putState_of_ne hop).mp hid)
      have hji : j ≠ i := by
        rintro rfl
        exact hop (hkind id s hj)
      exact ⟨j, s, (Function.update_of_ne hji ..).trans hj, hphase, hwritten j id hwrote⟩

/-- A step of a request that has no worker: what it saves is not in a writing state and does
not await confirmation. -/
theorem Orderly.bystander {e : Op} {answer : e.Answer} {t t' : Σ s, Service.State s}
    (h : Orderly c φ) (hφ : φ i = some t) (ht : t.1.isWorker = false)
    (ht' : t'.1.isWorker = false) (hwritten : ∀ j id, HasWritten c j id → HasWritten c' j id)
    (hexec : exec false i e c.world answer c'.world)
    (hsaves : ∀ r, e = .save r → r.state.isWriting = false ∧ r.state ≠ .awaitingConfirmation) :
    Orderly c' (Function.update φ i (some t')) := by
  have hkind : ∀ id s, φ i ≠ some ⟨.worker id, s⟩ := by
    intro id s hi
    rw [hφ] at hi
    rw [Option.some.inj hi] at ht
    cases ht
  have hkind' : ∀ id s, t' ≠ ⟨.worker id, s⟩ := by
    rintro id s rfl
    cases ht'
  have hsame : (∀ id, c'.world.state id = c.world.state id) →
      Orderly c' (Function.update φ i (some t')) := fun hstate =>
    h.observe hstate hwritten (fun j hji hj => exec_lock_held hexec hj (.inl hji))
      (fun id s hs => absurd hs (hkind' id s)) fun id s hi => absurd hi (hkind id s)
  cases hsave : e.isSave with
  | false => exact hsame fun id => (exec_change hexec).state_of_not_save hsave id
  | true =>
      cases e with
      | save r =>
          obtain ⟨hquiet, hawaiting⟩ := hsaves r rfl
          rcases exec_save_cases hexec with ⟨rfl, hworld⟩ | ⟨error, rfl, hworld⟩
          · refine h.write hworld hwritten (fun id s hi => absurd hi (hkind id s))
              (fun id s hs => absurd hs (hkind' id s)) (fun hw => ?_) (fun _ => hquiet)
              fun hr => absurd hr hawaiting
            rw [hquiet] at hw
            cases hw
          · exact hsame fun id => by rw [hworld]
      | _ => cases hsave

/-- What a process has written stays written. -/
theorem HasWritten.step {ext : Externals} {l : Label Sig ServiceRequest} {j : ℕ} {id : String}
    (h : HasWritten c j id)
    (hs : Step (system false) (ServiceRequest.program ext) c l c') : HasWritten c' j id := by
  obtain ⟨r, hr, hid, hwriting⟩ := h
  refine ⟨r, ?_, hid, hwriting⟩
  rw [hs.events_eq]
  exact List.mem_append_left _ hr

/-- The operations of others are not in a writing state when a worker begins to write: their
workers still owe a record, so they have not ended. -/
theorem Orderly.begins {operationId : String} {s : WorkerState} {r : OperationStateRecord}
    (h : Orderly c φ) (hkeeps : Keeps (Contract.family Service.contract) Service.Post c φ)
    (hφ : φ i = some ⟨.worker operationId, s⟩) (hid : r.operationId = operationId)
    (hok : ReportsFirst c (.act i (.save r) (.ok ()))) (hstate : r.state = .snapshotting)
    (id : String) (hwriting : c.world.Writing id) : id = operationId := by
  by_contra hne
  obtain ⟨j, t, hj, howes, hwrote⟩ := h.tended id hwriting
  have hji : j ≠ i := by
    rintro rfl
    rw [hφ] at hj
    cases hj
    exact hne rfl
  obtain ⟨p, hp, hwp⟩ := hkeeps j _ hj
  obtain ⟨exit, rfl⟩ := hok hstate j id hji hwrote (by rw [hid]; exact hne) p hp
  rw [Closes.not_owesRecord hwp] at howes
  cases howes

section worker

variable {operationId : String} {s : WorkerState} {e : Op} {answer : e.Answer}

/-- A worker has the lock where its phase says so. -/
theorem Working.lock_next (h : Working c.world i operationId s)
    (hallow : s.allows operationId e) (hexec : exec false i e c.world answer c'.world)
    (hheld : (s.next ⟨e, answer⟩).phase.holdsLock) : c'.world.lock = some i := by
  rcases (WorkerState.moves hallow (validAnswer_of_exec hexec)).holdsLock hheld with heq | hkept
  · cases heq
    exact (exec_acquire_ok hexec).2
  · exact exec_lock_held hexec (h.lock hkept.1) (.inr hkept.2)

/-- A worker that writes no record. -/
theorem Orderly.workerObserves (h : Orderly c φ) (hφ : φ i = some ⟨.worker operationId, s⟩)
    (hallow : s.allows operationId e) (hexec : exec false i e c.world answer c'.world)
    (hwritten : ∀ j id, HasWritten c j id → HasWritten c' j id) (hsave : e.isSave = false) :
    Orderly c' (Function.update φ i (some ⟨.worker operationId, s.next ⟨e, answer⟩⟩)) := by
  have hvalid := validAnswer_of_exec hexec
  have hmove := WorkerState.moves hallow hvalid
  have hworking := h.working i operationId s hφ
  have hstate : ∀ id, c'.world.state id = c.world.state id :=
    fun id => (exec_change hexec).state_of_not_save hsave id
  refine h.observe hstate hwritten (fun j hji hj => exec_lock_held hexec hj (.inl hji)) ?_ ?_
  · rintro id t ht
    cases ht
    refine ⟨hworking.lock_next hallow hexec,
      WorkerState.sound_next hallow hvalid hworking.sound,
      hmove.errorCode hsave hworking.code ?_, ?_⟩
    · rintro m heq hawaiting
      cases heq
      exact h.fresh _ m (exec_load_ok hexec).1 hawaiting
    · intro hwriting id hid
      exact hworking.alone (hmove.isWriting hsave hwriting) id
        ((World.Writing.congr hstate id).mp hid)
  · intro id t ht howes hwriting
    rw [hφ] at ht
    cases ht
    -- a record in a writing state is not that of a cancellation
    refine ⟨_, rfl, hmove.owesRecord hsave howes ?_⟩
    rintro m heq hcode
    cases heq
    obtain ⟨r, hr, hrwriting⟩ := hwriting
    rw [(exec_load_ok hexec).1] at hr
    cases hr
    rw [h.cancelled _ m (exec_load_ok hexec).1 hcode] at hrwriting
    cases hrwriting

variable {r : OperationStateRecord} {saved : Except PersistenceError Unit}

/-- Start writes the first record of an operation, which awaits confirmation. -/
theorem Orderly.workerCreates (h : Orderly c φ) (hφ : φ i = some ⟨.worker operationId, s⟩)
    (hstart : s.phase = .start) (hinitial : WorkerState.IsInitial operationId r)
    (hexec : exec false i (.save r) c.world saved c'.world)
    (hwritten : ∀ j id, HasWritten c j id → HasWritten c' j id) :
    Orderly c' (Function.update φ i (some ⟨.worker operationId, s.next ⟨.save r, saved⟩⟩)) := by
  obtain ⟨hid, hawaiting, -, -, hcode⟩ := hinitial
  have hphase : (s.next ⟨Op.save r, saved⟩).phase = .start := by
    show WorkerState.nextPhase s.phase _ = _
    rw [hstart]
    rcases saved with error | ⟨⟩ <;> rfl
  have hself : Working c'.world i operationId (s.next ⟨Op.save r, saved⟩) := by
    constructor <;> rw [hphase] <;> exact fun h => by cases h
  rcases exec_save_cases hexec with ⟨rfl, hworld⟩ | ⟨error, rfl, hworld⟩
  · refine h.write hworld hwritten ?_ ?_ ?_ ?_ fun _ => hcode
    · intro id t ht
      rw [hφ] at ht
      cases ht
      exact hid.symm
    · intro id t ht
      cases ht
      exact hself
    · intro hwriting
      rw [hawaiting] at hwriting
      cases hwriting
    · exact fun _ => by rw [hawaiting]; rfl
  · refine h.observe (fun id => by rw [hworld]) hwritten (fun j _ hj => by rw [hworld]; exact hj)
      ?_ ?_
    · intro id t ht
      cases ht
      exact hself
    · intro id t ht howes
      rw [hφ] at ht
      cases ht
      rw [hstart] at howes
      cases howes

/-- A worker writes a record.  Where it begins to write, the others have ended. -/
theorem Orderly.workerSaves (h : Orderly c φ)
    (hkeeps : Keeps (Contract.family Service.contract) Service.Post c φ)
    (hφ : φ i = some ⟨.worker operationId, s⟩) (hstart : s.phase ≠ .start)
    (may : s.MaySave operationId r) (hok : ReportsFirst c (.act i (.save r) saved))
    (hexec : exec false i (.save r) c.world saved c'.world)
    (hwritten : ∀ j id, HasWritten c j id → HasWritten c' j id)
    (hevents : c'.events i = c.events i ++ [⟨.save r, saved⟩]) :
    Orderly c' (Function.update φ i (some ⟨.worker operationId, s.next ⟨.save r, saved⟩⟩)) := by
  have hworking := h.working i operationId s hφ
  have hallow : s.allows operationId (.save r) := .inr may
  have hsound := hworking.sound (may.hasWorker hstart)
  obtain ⟨hid, hloadable, -⟩ := may.keeps hstart hsound
  obtain ⟨rfl, hworld⟩ := exec_save_reliable hexec hloadable
  have hlock := hworking.lock_next hallow hexec
  have hsound' := WorkerState.sound_next hallow (validAnswer_of_exec hexec) hworking.sound
  rw [WorkerState.next_saved hstart] at hlock hsound' ⊢
  have hcode : (WorkerState.phaseAfterSave r s.phase).isIdle = false → r.errorCode = none := by
    intro hopen
    refine (may.errorCode hstart hopen).trans (hworking.code ?_)
    cases may with
    | initial hphase => exact absurd hphase hstart
    | downloading hphase | snapshotting hphase | snapshot _ hphase | applying hphase
    | ready hphase | result hphase | failure hphase => rw [hphase]; rfl
  refine h.write hworld hwritten ?_ ?_ ?_ ?_ fun hawaiting =>
    absurd hawaiting (may.not_awaiting hstart hsound)
  · intro id t ht
    rw [hφ] at ht
    cases ht
    exact hid.symm
  · intro id t ht
    cases ht
    refine ⟨hlock, hsound', hcode, fun hwriting id' hid' => ?_⟩
    rw [hworld] at hid'
    by_cases hop : id' = r.operationId
    · exact hop.trans hid
    · have hold := (World.writing_putState_of_ne hop).mp hid'
      rcases may.begins hstart hwriting with ⟨-, hstate⟩ | hwriting
      · exact h.begins hkeeps hφ hid hok hstate id' hold
      · exact hworking.alone hwriting id' hold
  · intro hwriting
    have hphase := may.isWriting hstart hwriting
    have hheld := hlock (Phase.holdsLock_of_isWriting hphase)
    rw [hworld] at hheld
    refine ⟨hheld, ⟨r, ?_, rfl, hwriting⟩, _, by rw [hid], hphase⟩
    rw [hevents]
    exact List.mem_append_right _ (List.mem_singleton_self _)
  · intro hcancelled
    by_contra hwriting
    have hphase := may.isWriting hstart (by simpa using hwriting)
    rw [hcode (Phase.isIdle_of_isWriting hphase)] at hcancelled
    cases hcancelled

end worker

end

/-! ## Runs -/

theorem preserved_orderly (ext : Externals) :
    Preserved (system false) (ServiceRequest.program ext) (Contract.family Service.contract)
      ReportsFirst Service.start fun c φ =>
        Orderly c φ ∧ Keeps (Contract.family Service.contract) Service.Post c φ := by
  refine .keeping (wp_service ext) ?_ ?_ ?_
  · intro c c' φ request h hfree _ hs hw
    have hstate : ∀ id, c'.world.state id = c.world.state id := fun id => by rw [hw]
    refine h.observe hstate (fun j id hwrote => hwrote.step hs) (fun j _ hj => by rw [hw]; exact hj)
      ?_ ?_
    · intro id s ht
      cases request with
      | start request => cases ht; constructor <;> exact fun h => by cases h
      | cancel | keepCurrent | rollback => cases ht
    · intro id s hi
      rw [hfree] at hi
      cases hi
  · rintro c c' φ i e answer ⟨kind, s⟩ h hkeeps hφ hpre hok hs hexec
    have hvalid := validAnswer_of_exec hexec
    have hwritten : ∀ j id, HasWritten c j id → HasWritten c' j id := fun j id hw => hw.step hs
    cases kind with
    | worker operationId =>
        refine ⟨⟨.worker operationId, s.next ⟨e, answer⟩⟩, ⟨_, ⟨hvalid, rfl⟩, rfl⟩, ?_⟩
        cases hsave : e.isSave with
        | false => exact h.workerObserves hφ hpre hexec hwritten hsave
        | true =>
            cases e with
            | save r =>
                have may : s.MaySave operationId r := hpre.resolve_left (by simp [Op.isQuiet])
                by_cases hstart : s.phase = .start
                · cases may with
                  | initial _ hinitial => exact h.workerCreates hφ hstart hinitial hexec hwritten
                  | downloading hphase | snapshotting hphase | snapshot _ hphase
                  | applying hphase | ready hphase | result hphase | failure hphase =>
                      rw [hstart] at hphase
                      cases hphase
                · refine h.workerSaves hkeeps hφ hstart may hok hexec hwritten ?_
                  rw [hs.events_eq, Label.eventOf, if_pos rfl]
                  rfl
            | _ => cases hsave
    | decision d operationId =>
        refine ⟨⟨.decision d operationId, DecisionState.next d s ⟨e, answer⟩⟩,
          ⟨_, ⟨hvalid, rfl⟩, rfl⟩, h.bystander hφ rfl rfl hwritten hexec ?_⟩
        rintro r rfl
        obtain ⟨m, timestamp, -, rfl⟩ : s.permits d operationId (.save r) :=
          hpre.resolve_left (by simp [Op.isQuiet])
        exact ⟨rfl, fun hawaiting => by cases hawaiting⟩
    | rollback operationId =>
        refine ⟨⟨.rollback operationId, s.next ⟨e, answer⟩⟩, ⟨_, ⟨hvalid, rfl⟩, rfl⟩,
          h.bystander hφ rfl rfl hwritten hexec ?_⟩
        rintro r rfl
        have may : s.MaySave r := hpre.resolve_left (by simp [Op.isQuiet])
        cases may with
        | intent record _ _ _ _ hstate =>
            show record.state.isWriting = false ∧ record.state ≠ _
            rw [hstate]
            exact ⟨rfl, by simp⟩
        | scheduled | failed => exact ⟨rfl, fun hawaiting => by cases hawaiting⟩
  · intro c c' φ _ hok
    exact hok.elim

/-- **One operation writes at a time**, in every run without crashes and failures of the file
system in which a worker begins to write only when every other worker that has written has
ended. -/
theorem one_writes (ext : Externals) {w : World} (hw : Settled w) {c : Requests}
    (h : Reach (system false) (ServiceRequest.program ext) ReportsFirst (Config.boot w) c) :
    OneWrites c.world := by
  have hinit : Orderly (Config.boot w : Requests) fun _ => none :=
    ⟨fun a _ ha => absurd ha (hw.quiet a),
      fun id r hr _ => Bool.eq_false_iff.mpr fun hwriting => hw.quiet id ⟨r, hr, hwriting⟩,
      hw.fresh, fun _ _ _ hi => (by cases hi), fun id hid => absurd hid (hw.quiet id)⟩
  obtain ⟨φ, -, horderly, -⟩ := h.tracked (wp_service ext) (preserved_orderly ext)
    (Tracked.boot w) ⟨hinit, fun i s hi => (by cases hi)⟩
  exact horderly.oneWrites

namespace Sample

/-- A second operation of the same user, for the same update. -/
def secondId : String := "0b9d8c7e-6f5a-4b3c-8d2e-1f0a9b8c7d6e"

def secondRecord : OperationStateRecord := { record with operationId := secondId }

def twoOperations : World where
  operations := fun id =>
    if id = operationId then directory
    else if id = secondId then { directory with state := .record secondRecord } else {}
  lock := none
  marker := .absent
  sequence := none
  temporary := none

/-- No snapshot can be taken. -/
def noSnapshots : Oracle :=
  { oracle with run := fun command => ⟨some (if command.isSnapshot then 1 else 0), []⟩ }

/-- Both updates are started. -/
def bothStarted : List (Choice ServiceRequest) :=
  [.spawn (.start request), .spawn (.start { request with operationId := secondId })]

/-- The machine after a schedule. -/
def requestsAfter (schedule : List (Choice ServiceRequest)) : Requests :=
  (simulation noSnapshots).plays (ServiceRequest.program externals) (Config.boot twoOperations)
    schedule

/-- The step needs no failure: it is no crash, and nobody lists the state root. -/
def needsNoFailure : Label Sig ServiceRequest → Bool
  | .spawn _ _ => true
  | .act _ .listOperations _ => false
  | .act _ _ _ => true
  | .crash => false

/-- Whose step it is. -/
def turn : Label Sig ServiceRequest → ℕ
  | .act i _ _ => i
  | _ => 0

/-- Such a run of the simulation is one on a machine on which nothing fails. -/
theorem reach_requests {ok : Requests → Label Sig ServiceRequest → Prop} {J : Requests → Prop}
    {c : Requests} {schedule : List (Choice ServiceRequest)} (hJ : J c)
    (hok : ∀ choice ∈ schedule, ∀ c, J c →
      J ((simulation noSnapshots).play (ServiceRequest.program externals) c choice) ∧
      ∀ l, (simulation noSnapshots).label c choice = some l → ok c l)
    (hreliable : ((simulation noSnapshots).plays (ServiceRequest.program externals) c
      schedule).history.all needsNoFailure) :
    Reach (system false) (ServiceRequest.program externals) (fun c l => ok c l ∧ needsNoFailure l) c
      ((simulation noSnapshots).plays (ServiceRequest.program externals) c schedule) := by
  refine (simulation noSnapshots).reach_on _ ?_ ?_ hJ hok
    fun l hl => List.all_eq_true.mp hreliable l hl
  · intro i e w hgood
    refine World.exec_reply_of_ne false e w ?_
    rintro rfl
    cases hgood
  · exact fun h => by cases h

/-- The program has come to its end. -/
def isPure : Option (Prog Sig Exit) → Bool
  | some (.pure _) => true
  | _ => false

theorem ended_of_isPure {p : Option (Prog Sig Exit)} (h : isPure p) : Ended p := by
  rintro q rfl
  cases q with
  | pure exit => exact ⟨exit, rfl⟩
  | op => cases h

/-- The first worker fails, and records that. -/
def firstReported : Requests := requestsAfter (bothStarted ++ List.replicate 25 (.act 0))

/-- What the run shows, evaluated once. -/
theorem firstReported_run : firstReported.history.all (fun l => needsNoFailure l && turn l ≤ 1) ∧
    isPure (firstReported.procs 0) := by decide +kernel

/-- Then the second one begins to write. -/
def secondWrites : Requests :=
  (simulation noSnapshots).plays (ServiceRequest.program externals) firstReported
    (List.replicate 19 (.act 1))

theorem secondWrites_run : secondWrites.history.all needsNoFailure ∧
    secondWrites.world.Writing secondId := by decide +kernel

/-- The second worker begins while the first has failed and not said so yet. -/
def bothWrite : Requests :=
  requestsAfter (bothStarted ++ List.replicate 22 (.act 0) ++ List.replicate 19 (.act 1))

theorem bothWrite_run : bothWrite.history.all needsNoFailure ∧
    bothWrite.world.Writing operationId ∧ bothWrite.world.Writing secondId := by decide +kernel

/-- A worker may begin to write where nobody else has, or those who have are done. -/
theorem reportsFirst_act {c : Requests} {i : ℕ} {l : Label Sig ServiceRequest}
    (hl : ∃ e r, l = .act i e r)
    (hothers : ∀ j id, j ≠ i → HasWritten c j id → Ended (c.procs j)) : ReportsFirst c l := by
  obtain ⟨e, answer, rfl⟩ := hl
  cases e with
  | save r =>
      rcases answer with error | ⟨⟩
      · trivial
      · exact fun _ j id hj hwrote _ => hothers j id hj hwrote
  | _ => trivial

theorem not_hasWritten {c : Requests} {j : ℕ} {id : String} (h : c.events j = []) :
    ¬ HasWritten c j id := by
  rintro ⟨r, hr, -⟩
  rw [h] at hr
  cases hr

theorem reach_firstReported : Reach (system false) (ServiceRequest.program externals) ReportsFirst
    (Config.boot twoOperations) firstReported := by
  have hreliable : firstReported.history.all needsNoFailure :=
    List.all_eq_true.mpr fun l hl =>
      (Bool.and_eq_true_iff.mp (List.all_eq_true.mp firstReported_run.1 l hl)).1
  refine Reach.mono (fun _ _ h => h.1) (reach_requests
    (J := fun c => ∀ j, j ≠ 0 → c.events j = []) (fun _ _ => rfl) ?_ hreliable)
  intro choice hchoice c hsilent
  rcases List.mem_append.mp hchoice with hspawn | hact
  · obtain ⟨request, rfl⟩ : ∃ request, choice = .spawn request := by
      rcases List.mem_pair.mp hspawn with rfl | rfl <;> exact ⟨_, rfl⟩
    refine ⟨fun j hj => (Strategy.events_spawn ..).trans (hsilent j hj), fun l hlabel => ?_⟩
    cases hlabel
    trivial
  · obtain rfl := List.eq_of_mem_replicate hact
    refine ⟨fun j hj => (Strategy.events_act_of_ne _ _ c hj).trans (hsilent j hj),
      fun l hlabel => reportsFirst_act (Strategy.label_act _ hlabel) fun j id hj hwrote => ?_⟩
    exact absurd hwrote (not_hasWritten (hsilent j hj))

theorem reach_secondWrites : Reach (system false) (ServiceRequest.program externals) ReportsFirst
    (Config.boot twoOperations) secondWrites := by
  refine reach_firstReported.trans (Reach.mono (fun _ _ h => h.1) (reach_requests
    (J := fun c => Ended (c.procs 0) ∧ ∀ j, 1 < j → c.events j = []) ⟨?_, ?_⟩ ?_
    secondWrites_run.1))
  · exact ended_of_isPure firstReported_run.2
  · intro j hj
    refine List.filterMap_eq_nil_iff.mpr fun l hl => ?_
    have hturn : turn l ≤ 1 := of_decide_eq_true
      (Bool.and_eq_true_iff.mp (List.all_eq_true.mp firstReported_run.1 l hl)).2
    cases l with
    | act i e answer => exact if_neg (Nat.ne_of_lt (Nat.lt_of_le_of_lt hturn hj))
    | spawn | crash => rfl
  · intro choice hchoice c hc
    obtain ⟨hended, hsilent⟩ := hc
    obtain rfl := List.eq_of_mem_replicate hchoice
    refine ⟨⟨?_, fun j hj => (Strategy.events_act_of_ne _ _ c (by omega)).trans (hsilent j hj)⟩,
      fun l hlabel => reportsFirst_act (Strategy.label_act _ hlabel) fun j id hj hwrote => ?_⟩
    · rw [Strategy.procs_act_of_ne _ _ _ (by decide)]
      exact hended
    · rcases Nat.lt_or_ge 1 j with hlt | hle
      · exact absurd hwrote (not_hasWritten (hsilent j hlt))
      · obtain rfl : j = 0 := by omega
        exact hended

theorem settled_twoOperations : Settled twoOperations := by
  have hrecord : ∀ id r, twoOperations.state id = .record r →
      r.state = .awaitingConfirmation ∧ r.errorCode = none := by
    intro id r hr
    change OperationDirectory.state (if id = operationId then directory
      else if id = secondId then { directory with state := .record secondRecord } else {}) = _ at hr
    split_ifs at hr <;> cases hr <;> exact ⟨rfl, rfl⟩
  refine ⟨rfl, ?_, fun id r hr _ => (hrecord id r hr).2⟩
  rintro id ⟨r, hr, hwriting⟩
  rw [(hrecord id r hr).1] at hwriting
  cases hwriting

end Sample

theorem one_writes_sample : Sample.secondWrites.world.Writing Sample.secondId ∧
    OneWrites Sample.secondWrites.world :=
  ⟨Sample.secondWrites_run.2, one_writes Sample.externals Sample.settled_twoOperations
    Sample.reach_secondWrites⟩

/-- A worker that failed gives the lock back before its record says so, and another worker
begins to write. -/
theorem two_write : ¬ ∀ c : Requests, Reach (system false)
    (ServiceRequest.program Sample.externals) (fun _ l => l ≠ .crash)
    (Config.boot Sample.twoOperations) c → OneWrites c.world := by
  intro h
  have hreach : Reach (system false) (ServiceRequest.program Sample.externals)
      (fun _ l => l ≠ .crash) (Config.boot Sample.twoOperations) Sample.bothWrite := by
    have hrun : Reach (system false) (ServiceRequest.program Sample.externals)
        (fun _ l => True ∧ Sample.needsNoFailure l) (Config.boot Sample.twoOperations)
        Sample.bothWrite :=
      Sample.reach_requests (J := fun _ => True) trivial
        (fun _ _ _ _ => ⟨trivial, fun _ _ => trivial⟩) Sample.bothWrite_run.1
    refine hrun.mono ?_
    rintro c l ⟨-, hl⟩ rfl
    cases hl
  have hone := h _ hreach Sample.operationId Sample.secondId Sample.bothWrite_run.2.1
    Sample.bothWrite_run.2.2
  revert hone
  decide

end LyraUpgrade
