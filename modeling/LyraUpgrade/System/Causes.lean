import LyraUpgrade.System.Simulation
import LyraUpgrade.System.Writers

/-!
# Failures carry their cause

Six programs write the records of failures and of completed operations, and some of them
take the error code away again on the way.  What each of them has in memory may be stale,
but it is a record somebody has written; so the claim of a record about itself is kept by
every save, whatever is on disk by then.

* `Caused` — what a record says about its own end.
* `Coherent` — what has to be known of the records on the way there.
* `causes_kept` — the result.
-/

namespace LyraUpgrade

open Interaction

/-! ## What a record says -/

/-- A failure names its cause, a completed operation has none, and where its boot had to be
verified it was. -/
structure Caused (r : OperationStateRecord) : Prop where
  failure : r.state = .failed ∨ r.state = .blocked ∨ r.state = .needsRecovery → r.errorCode.isSome
  completed : r.state = .completed → r.errorCode = none
  verified : r.state = .completed → r.operation.isSignedOffline ∨ r.recovery.isSome →
    r.bootVerification = some .passed

/-- The states a worker passes through before it writes a result. -/
def OperationState.isUnderWay : OperationState → Bool
  | .awaitingConfirmation | .downloading | .snapshotting | .applying => true
  | _ => false

/-- What every record on disk or in memory keeps: an operation that is under way has no error
code, and none names a snapshot before one is taken; only an update of the installed release
is applied by a worker. -/
structure Coherent (r : OperationStateRecord) : Prop extends Caused r where
  underWay : r.state.isUnderWay → r.errorCode = none
  snapshot : r.state = .awaitingConfirmation ∨ r.state = .downloading → r.snapshotNumber = none
  applying : r.state = .applying → r.operation = .updateWithinRelease

section

variable {r : OperationStateRecord}

/-- A failure with a cause. -/
theorem coherent_of_failure (hcode : r.errorCode.isSome)
    (hstate : r.state = .failed ∨ r.state = .blocked ∨ r.state = .needsRecovery) : Coherent r := by
  have hnot : ∀ {state}, r.state = state → state ≠ .failed → state ≠ .blocked →
      state ≠ .needsRecovery → False := by
    rintro state rfl h₁ h₂ h₃
    rcases hstate with h | h | h
    · exact h₁ h
    · exact h₂ h
    · exact h₃ h
  refine ⟨⟨fun _ => hcode, fun h => ?_, fun h => ?_⟩, fun h => ?_, fun h => ?_, fun h => ?_⟩
  · exact (hnot h (by decide) (by decide) (by decide)).elim
  · exact (hnot h (by decide) (by decide) (by decide)).elim
  · rcases hstate with hstate | hstate | hstate <;> rw [hstate] at h <;> cases h
  · rcases h with h | h <;> exact (hnot h (by decide) (by decide) (by decide)).elim
  · exact (hnot h (by decide) (by decide) (by decide)).elim

/-- A record that is on its way to a boot, and claims nothing. -/
theorem coherent_of_pending (h : r.state = .readyToReboot ∨ r.state = .applyingOffline ∨
    r.state = .awaitingReboot ∨ r.state = .verifyingBoot) : Coherent r := by
  refine ⟨⟨fun hfailed => ?_, fun hcompleted => ?_, fun hcompleted => ?_⟩, fun hrunning => ?_,
    fun hearly => ?_, fun happlying => ?_⟩
  · rcases h with h | h | h | h <;> rw [h] at hfailed <;> simp at hfailed
  · rcases h with h | h | h | h <;> rw [h] at hcompleted <;> cases hcompleted
  · rcases h with h | h | h | h <;> rw [h] at hcompleted <;> cases hcompleted
  · rcases h with h | h | h | h <;> rw [h] at hrunning <;> cases hrunning
  · rcases h with h | h | h | h <;> rw [h] at hearly <;> simp at hearly
  · rcases h with h | h | h | h <;> rw [h] at happlying <;> cases happlying

/-- A record under way without an error code. -/
theorem coherent_of_underWay (hcode : r.errorCode = none) (hstate : r.state.isUnderWay)
    (hsnapshot : r.state = .awaitingConfirmation ∨ r.state = .downloading → r.snapshotNumber = none)
    (happlying : r.state = .applying → r.operation = .updateWithinRelease) : Coherent r := by
  refine ⟨⟨fun hfailed => ?_, fun _ => hcode, fun hcompleted => ?_⟩, fun _ => hcode, hsnapshot,
    happlying⟩
  · rcases hfailed with h | h | h <;> rw [h] at hstate <;> cases hstate
  · rw [hcompleted] at hstate
    cases hstate

end

/-! ## What each program saves -/

section

variable {operationId : String} {r : OperationStateRecord}

theorem coherent_failureRecord (error : ExecutionError) (m : OperationStateRecord) (timestamp : String) :
    Coherent (failureRecord error m timestamp) := by
  refine coherent_of_failure rfl ?_
  show failureState error m.snapshotNumber.isSome = _ ∨ failureState error m.snapshotNumber.isSome = _
    ∨ failureState error m.snapshotNumber.isSome = _
  unfold failureState
  split_ifs <;> simp

/-- **A worker** writes records under way until its last one. -/
theorem WorkerState.MaySave.coherent {s : WorkerState} (may : s.MaySave operationId r)
    (h : s.phase.hasWorker → s.Sound operationId ∧ Coherent s.record) : Coherent r := by
  -- the record in memory, in a phase that determines its state
  have hmemory : ∀ {p : Phase} {state}, s.phase = p → p.hasWorker → p.recordState = some state →
      s.record.state = state ∧ s.record.recovery = none ∧ Coherent s.record := by
    rintro p state rfl hworker hstate
    obtain ⟨hsound, hcoherent⟩ := h hworker
    exact ⟨hsound.state state hstate, hsound.recovery, hcoherent⟩
  cases may with
  | initial _ hinitial =>
      obtain ⟨-, hstate, hnone, -, hcode⟩ := hinitial
      refine coherent_of_underWay hcode (by rw [hstate]; rfl) (fun _ => hnone) fun happlying => ?_
      rw [hstate] at happlying
      cases happlying
  | downloading hphase next =>
      obtain ⟨hstate, -, hcoherent⟩ := hmemory hphase rfl rfl
      obtain ⟨-, -, -, rfl⟩ := OperationStateRecord.transitionTo_eq_ok.mp next
      exact coherent_of_underWay (hcoherent.underWay (by rw [hstate]; rfl)) rfl
        (fun _ => hcoherent.snapshot (.inl hstate)) fun h => by cases h
  | snapshotting hphase next =>
      obtain ⟨hstate, -, hcoherent⟩ := hmemory hphase rfl rfl
      obtain ⟨-, -, -, rfl⟩ := OperationStateRecord.transitionTo_eq_ok.mp next
      exact coherent_of_underWay (hcoherent.underWay (by rw [hstate]; rfl)) rfl (fun h => by simp at h)
        fun h => by cases h
  | snapshot number hphase _ next =>
      subst next
      obtain ⟨hstate, -, hcoherent⟩ := hmemory hphase rfl rfl
      refine coherent_of_underWay (hcoherent.underWay (by rw [hstate]; rfl)) ?_ (fun hearly => ?_)
        fun happlying => ?_
      · show s.record.state.isUnderWay
        rw [hstate]
        rfl
      · change s.record.state = _ ∨ s.record.state = _ at hearly
        rw [hstate] at hearly
        simp at hearly
      · exact hcoherent.applying happlying
  | applying hphase next =>
      obtain ⟨hstate, -, hcoherent⟩ := hmemory hphase rfl rfl
      obtain ⟨-, -, hvalid, rfl⟩ := OperationStateRecord.transitionTo_eq_ok.mp next
      refine coherent_of_underWay (hcoherent.underWay (by rw [hstate]; rfl)) rfl (fun h => by simp at h)
        fun _ => ?_
      rw [hstate] at hvalid
      simpa [validTransition] using hvalid
  | ready hphase next =>
      obtain ⟨-, -, -, rfl⟩ := OperationStateRecord.transitionTo_eq_ok.mp next
      exact coherent_of_pending (.inl rfl)
  | result hphase _ state final next =>
      obtain ⟨-, -, -, rfl⟩ := OperationStateRecord.transitionTo_eq_ok.mp next
      rcases final with rfl | rfl
      · exact coherent_of_pending (.inr (.inr (.inl rfl)))
      · obtain ⟨hstate, hrecovery, hcoherent⟩ := hmemory hphase rfl rfl
        have hcode := hcoherent.underWay (by rw [hstate]; rfl)
        refine ⟨⟨fun h => ?_, fun _ => hcode, fun _ hverified => ?_⟩, fun _ => hcode,
          fun h => by simp at h, fun h => by cases h⟩
        · simp at h
        · -- a worker completes updates of the installed release only, without a goal
          exfalso
          rcases hverified with hsigned | hgoal
          · change s.record.operation.isSignedOffline = true at hsigned
            rw [hcoherent.applying hstate] at hsigned
            cases hsigned
          · change s.record.recovery.isSome = true at hgoal
            rw [hrecovery] at hgoal
            cases hgoal
  | failure _ error timestamp next =>
      subst next
      exact coherent_failureRecord error s.record timestamp

/-- **A rollback** keeps the code of the failure until it is scheduled. -/
theorem RollbackState.MaySave.coherent {s : RollbackState} (may : s.MaySave r)
    (h : ∀ m, s.phase = .read m → Coherent m) : Coherent r := by
  cases may with
  | intent record number source timestamp hphase hstate =>
      exact coherent_of_failure ((h record hphase).failure (.inr (.inr hstate))) (.inr (.inr hstate))
  | scheduled record goal boot => exact coherent_of_pending (.inr (.inr (.inl rfl)))
  | failed record error => exact coherent_of_failure rfl (.inr (.inr rfl))

theorem coherent_decision {d : Decision} {m : OperationStateRecord} {timestamp : String} :
    Coherent (d.record m timestamp) :=
  coherent_of_failure rfl (.inl rfl)

theorem OfflineState.MaySave.coherent {ext : Externals} {s : OfflineState} (may : s.MaySave ext r) :
    Coherent r := by
  cases may with
  | enter m r _ _ _ next =>
      obtain ⟨-, -, -, rfl⟩ := OperationStateRecord.transitionTo_eq_ok.mp next
      exact coherent_of_pending (.inr (.inl rfl))
  | result m r _ _ next =>
      obtain ⟨-, -, -, rfl⟩ := OperationStateRecord.transitionTo_eq_ok.mp next
      exact coherent_of_pending (.inr (.inr (.inl rfl)))
  | failed m => exact coherent_of_failure rfl (.inr (.inr rfl))

/-- **The verifier** takes the code away only where the check has passed. -/
theorem VerifierState.MaySave.coherent {s : VerifierState} (may : s.MaySave r) : Coherent r := by
  have hcompleted : ∀ record, Coherent (completedRecord record) := fun record =>
    ⟨⟨fun h => by simp [completedRecord] at h, fun _ => rfl, fun _ _ => rfl⟩, fun _ => rfl,
      fun h => by simp [completedRecord] at h, fun h => by cases h⟩
  cases may with
  | interrupted m _ _ hunfinished =>
      exact coherent_of_failure rfl ((interruptedRecord_state hunfinished).imp_right .inr)
  | enter m r _ _ hpending henter =>
      exact coherent_of_pending (.inr (.inr (.inr (enterVerification_eq hpending henter).2.2.2)))
  | verified record | consumed record => exact hcompleted record
  | failed record code => exact coherent_of_failure rfl (.inr (.inr rfl))

/-! ## What each program has in memory -/

/-- A record in memory was read, or is about to be saved. -/
theorem WorkerState.Moves.coherent {s : WorkerState} {e : Event Sig} {phase : Phase}
    (hmove : s.Moves operationId e phase r)
    (h : s.phase.hasWorker → s.Sound operationId ∧ Coherent s.record)
    (hread : ∀ m, e = ⟨.load operationId, .ok m⟩ → Coherent m) (hworker : phase.hasWorker) :
    Coherent r := by
  have hmemory : ∀ {p : Phase}, s.phase = p → p.hasWorker → Coherent s.record := by
    rintro p rfl hp
    exact (h hp).2
  cases hmove with
  | quiet => exact hmemory rfl hworker
  | found => exact hread r rfl
  | refused | create => cases hworker
  | poll _ hphase | lock hphase | busy _ hphase | takeSnapshot _ _ hphase | apply _ hphase
  | mark _ hphase => exact hmemory hphase rfl
  | look _ hphase => rcases hphase with hphase | hphase <;> exact hmemory hphase rfl
  | unlock hphase =>
      refine hmemory rfl ?_
      generalize s.phase = p at hphase
      cases p <;> first | rfl | cases hphase
  | saved _ may | unsaved _ _ may => exact may.coherent h

namespace Writer

/-- What a process may still write out of its memory is kept as well. -/
def Remembers : (Σ w, State w) → Prop
  | ⟨worker operationId, s⟩ => Phase.hasWorker (WorkerState.phase s) →
      WorkerState.Sound operationId s ∧ Coherent (WorkerState.record s)
  | ⟨rollback _, s⟩ => ∀ m, RollbackState.phase s = .read m → Coherent m
  | _ => True

variable {ext : Externals} {t : Σ w, State w}

theorem coherent_of_save (hpre : (Contract.family (contract ext)).pre (.save r) t)
    (h : Remembers t) : Coherent r := by
  obtain ⟨_ | _ | _ | _ | _, s⟩ := t
  · have hallow : WorkerState.allows _ s (.save r) := hpre.1
    exact WorkerState.MaySave.coherent (hallow.resolve_left (by simp [Op.isQuiet])) h
  · obtain ⟨m, timestamp, -, rfl⟩ := hpre.resolve_left (by simp [Op.isQuiet])
    exact coherent_decision
  · exact RollbackState.MaySave.coherent (hpre.resolve_left (by simp [Op.isQuiet])) h
  · exact OfflineState.MaySave.coherent (hpre.resolve_left (by simp [Op.isQuiet]))
  · exact VerifierState.MaySave.coherent (hpre.resolve_left (by simp [Op.isDetached, Op.isQuiet]))

theorem remembers_next {e : Op} {answer : e.Answer} {i : ℕ} {w w' : World} (h : Remembers t)
    (hpre : (Contract.family (contract ext)).pre e t) (hexec : exec true i e w answer w')
    (hdisk : ∀ id r, w.state id = .record r → Coherent r) : Remembers (next ⟨e, answer⟩ t) := by
  have hread : ∀ {id m}, (⟨e, answer⟩ : Event Sig) = ⟨.load id, .ok m⟩ → Coherent m := by
    rintro id m ⟨⟩
    exact hdisk id m (exec_load_ok hexec).1
  obtain ⟨_ | _ | _ | _ | _, s⟩ := t
  · intro hworker
    refine ⟨WorkerState.sound_next hpre.1 (validAnswer_of_exec hexec) (fun hs => (h hs).1) hworker,
      ?_⟩
    exact (WorkerState.moves hpre.1 (validAnswer_of_exec hexec)).coherent h (fun m => hread) hworker
  · trivial
  · intro m hm
    have hmove := RollbackState.moves hpre (validAnswer_of_exec hexec)
    change (RollbackState.next s ⟨e, answer⟩).phase = .read m at hm
    generalize (RollbackState.next s ⟨e, answer⟩).phase = p at hmove hm
    cases hmove with
    | quiet | look => exact h m hm
    | read r =>
        cases hm
        exact hread rfl
    | unread | lock | busy | unlock | launch => cases hm
    | save saved may =>
        exfalso
        cases may with
        | intent _ _ _ _ hphase | scheduled _ _ _ hphase =>
            rw [hphase] at hm
            rcases saved with error | ⟨⟩ <;> cases hm
        | failed _ _ hphase =>
            rcases hphase with hphase | hphase <;> rw [hphase] at hm <;>
              rcases saved with error | ⟨⟩ <;> cases hm
  · trivial
  · trivial

end Writer

theorem preserved_coherent (ext : Externals) {ok : Activities → Label Sig Activity → Prop} :
    Preserved (system true) (Activity.program ext) (Contract.family (Writer.contract ext)) ok
      Writer.start fun c φ => (∀ id r, c.world.state id = .record r → Coherent r) ∧
        ∀ i t, φ i = some t → Writer.Remembers t := by
  refine Preserved.of_local (L := fun _ _ t => Writer.Remembers t) ?_ ?_ ?_
  · intro c c' activity hdisk _ _ hs hw
    refine ⟨by rw [hw]; exact hdisk, ?_, fun _ _ _ h => h⟩
    rcases activity with (_ | _ | _ | _) | _ | _
    · exact fun h => by cases h
    · trivial
    · trivial
    · exact fun m hm => by cases hm
    · trivial
    · trivial
  · intro c c' φ i e answer t hdisk hmemory hφ hpre _ hs hexec
    refine ⟨Writer.next ⟨e, answer⟩ t, Writer.contract_next hexec, ?_,
      Writer.remembers_next (hmemory i t hφ) hpre hexec hdisk, fun j u _ hj => hmemory j u hj⟩
    intro id r hr
    rcases (exec_change hexec).state id with hsame | ⟨r', rfl, -, -, hrecord⟩
    · exact hdisk id r (hsame.symm.trans hr)
    · rw [hrecord] at hr
      cases hr
      exact Writer.coherent_of_save hpre (hmemory i t hφ)
  · rintro c c' hdisk - hs ⟨temporary, -, hw⟩
    rw [hw]
    exact hdisk

end

/-- **Failures carry their cause.**  From a store without records, in every run of any
programs with failures and crashes, every record on disk says why it failed, and a completed
one that its boot was verified where it had to be. -/
theorem causes_kept (ext : Externals) {w : World} (hw : ∀ id r, w.state id ≠ .record r)
    {c : Activities} (h : Reach (system true) (Activity.program ext) (fun _ _ => True)
      (Config.boot w) c) (id : String) (r : OperationStateRecord)
    (hr : c.world.state id = .record r) : Caused r := by
  obtain ⟨φ, -, hdisk, -⟩ := h.tracked (wp_activity ext) (preserved_coherent ext) (Tracked.boot w)
    ⟨fun id r hr => absurd hr (hw id r), fun i s hi => (by cases hi)⟩
  exact (hdisk id r hr).toCaused

namespace Sample

/-- A host on which no operation was started. -/
def freshWorld : World := { world with operations := fun _ => {} }

/-- The machine after a schedule. -/
def activitiesAfter (schedule : List (Choice Activity)) : Activities :=
  (simulation oracle).plays (Activity.program externals) (Config.boot freshWorld) schedule

/-- An update is started, the machine crashes while it downloads, and boots again. -/
def interruptedUpdate : Activities :=
  activitiesAfter ([.spawn (.request (.start request))] ++ List.replicate 17 (.act 0) ++ [.crash] ++
    [.spawn .boot] ++ List.replicate 4 (.act 1))

theorem freshWorld_state (id : String) (r : OperationStateRecord) :
    freshWorld.state id ≠ .record r := by
  intro h
  cases h

end Sample

theorem causes_kept_sample : Sample.interruptedUpdate.world.InState Sample.operationId .failed ∧
    ∀ id r, Sample.interruptedUpdate.world.state id = .record r → Caused r :=
  ⟨by decide +kernel, causes_kept Sample.externals Sample.freshWorld_state
    ((simulation Sample.oracle).reach _ _ _)⟩

end LyraUpgrade
