import LyraUpgrade.Service.Decision

/-!
# The protocol of a rollback request

A request to roll back works under the transaction lock: it reads the record again,
saves its intent, runs the command that selects another root for the next boot, and
saves what it found afterwards.  The automaton of this module follows it; `wp_rollback`
says that the program keeps to it.

The record in memory is part of the phase, so that there is none before it was read.
What a save rests on is found among the events.
-/

namespace LyraUpgrade

open Interaction

/-! ## The automaton -/

inductive RollbackPhase
  /-- Nothing has been decided. -/
  | start
  /-- The lock is held. -/
  | locked
  /-- The record was read under the lock. -/
  | read (record : OperationStateRecord)
  /-- The intent is saved. -/
  | intended (record : OperationStateRecord)
  /-- The command has been run. -/
  | launched (record : OperationStateRecord)
  /-- The scheduled record could not be saved. -/
  | unconfirmed (record : OperationStateRecord)
  /-- Nothing more will be written. -/
  | finished
  | released
  deriving DecidableEq

/-- The phases in which the transaction lock is held. -/
def RollbackPhase.holdsLock : RollbackPhase → Bool
  | .start | .released => false
  | _ => true

structure RollbackState where
  phase : RollbackPhase
  events : List (Event Sig)

/-- The record is an intent for the snapshot of that number, whose subvolume was looked at. -/
structure Intent (events : List (Event Sig)) (record : OperationStateRecord) (number : ℕ)
    (source : SubvolumeIdentity) : Prop where
  state : record.state = .needsRecovery
  recovery : record.recovery = some ⟨number, source, none⟩
  inspected : ⟨Op.query (.inspectSubvolume (.snapshot number)), Except.ok source⟩ ∈ events

/-- The clone `boot` was looked at after the command: it carries the release `source`,
and it is the default subvolume. -/
structure Verified (events : List (Event Sig)) (source : ReleaseIdentity)
    (boot : SubvolumeIdentity) : Prop where
  clone : ∃ number, ⟨Op.query (.inspectSubvolume (.snapshot number)), Except.ok boot⟩ ∈ events ∧
    ⟨Op.query (.releaseIdentityAt number), Except.ok source⟩ ∈ events
  default : ⟨Op.query .defaultSubvolume, Except.ok boot.id⟩ ∈ events

theorem Intent.mono {events events' : List (Event Sig)} {record : OperationStateRecord}
    {number : ℕ} {source : SubvolumeIdentity} (h : Intent events record number source)
    (hsub : events ⊆ events') : Intent events' record number source :=
  ⟨h.state, h.recovery, hsub h.inspected⟩

theorem Verified.mono {events events' : List (Event Sig)} {source : ReleaseIdentity}
    {boot : SubvolumeIdentity} (h : Verified events source boot) (hsub : events ⊆ events') :
    Verified events' source boot := by
  obtain ⟨⟨number, hboot, hrelease⟩, hdefault⟩ := h
  exact ⟨⟨number, hsub hboot, hsub hrelease⟩, hsub hdefault⟩

namespace RollbackState

/-- The records a rollback may save. -/
inductive MaySave (s : RollbackState) : OperationStateRecord → Prop
  | intent (record : OperationStateRecord) (number : ℕ) (source : SubvolumeIdentity)
      (timestamp : String) (phase : s.phase = .read record) (state : record.state = .needsRecovery)
      (complete : ∀ goal, record.recovery = some goal → goal.bootSnapshot.isSome)
      (inspected : ⟨Op.query (.inspectSubvolume (.snapshot number)), Except.ok source⟩ ∈ s.events) :
      MaySave s (rollbackIntent record number source timestamp)
  | scheduled (record : OperationStateRecord) (goal : RollbackGoal) (boot : SubvolumeIdentity)
      (phase : s.phase = .launched record) (recovery : record.recovery = some goal)
      (verified : Verified s.events record.source boot) :
      MaySave s (scheduledRecord record goal boot)
  | failed (record : OperationStateRecord) (error : String)
      (phase : s.phase = .launched record ∨ s.phase = .unconfirmed record) :
      MaySave s (rollbackFailedRecord record error)

/-- The operations that are not quiet, by phase. -/
def permits (operationId : String) (s : RollbackState) : Op → Prop
  | .load id => id = operationId ∧ (s.phase = .start ∨ s.phase = .locked ∨ s.phase = .released)
  | .acquireLock => s.phase = .start
  | .releaseLock => s.phase.holdsLock
  | .run id (.rollback number) => id = operationId ∧
      ∃ record source, s.phase = .intended record ∧ Intent s.events record number source
  | .save r => MaySave s r
  | _ => False

def nextPhase : RollbackPhase → Event Sig → RollbackPhase
  | .locked, ⟨.load _, .ok r⟩ => .read r
  | .locked, ⟨.load _, .error _⟩ => .finished
  | .read _, ⟨.save r, .ok ()⟩ => .intended r
  | .launched _, ⟨.save r, .error _⟩ =>
      if r.state = .awaitingReboot then .unconfirmed r else .finished
  | _, ⟨.save _, _⟩ => .finished
  | .intended r, ⟨.run _ (.rollback _), _⟩ => .launched r
  | _, ⟨.acquireLock, .ok ()⟩ => .locked
  | _, ⟨.releaseLock, _⟩ => .released
  | p, _ => p

def next (s : RollbackState) (e : Event Sig) : RollbackState where
  phase := nextPhase s.phase e
  events := s.events ++ [e]

end RollbackState

/-- The protocol of a request to roll back `operationId`. -/
def rollbackAutomaton (operationId : String) : Automaton Sig RollbackState where
  allows := fun s e => e.isQuiet ∨ s.permits operationId e
  next := RollbackState.next

def rollbackContract (operationId : String) : Contract Sig RollbackState :=
  (rollbackAutomaton operationId).contract validAnswer

/-! ## Steps -/

namespace RollbackState

variable {operationId : String} {s : RollbackState}

/-- A quiet operation is noted, and changes nothing else. -/
theorem next_quiet {e : Event Sig} (h : Op.isQuiet e.op) :
    s.next e = { s with events := s.events ++ [e] } := by
  obtain ⟨e, a⟩ := e
  obtain ⟨phase, events⟩ := s
  show (⟨nextPhase phase ⟨e, a⟩, _⟩ : RollbackState) = _
  congr 1
  cases e with
  | run id command =>
      cases command with
      | rollback number => exact absurd h (by simp [Op.isQuiet, Command.isCritical])
      | _ => cases phase <;> rfl
  | acquireLock | releaseLock | load _ | save _ => exact absurd h (by simp [Op.isQuiet])
  | _ => cases phase <;> rfl

/-- **The steps of the protocol**, with the phase after each. -/
inductive Moves (operationId : String) (s : RollbackState) : Event Sig → RollbackPhase → Prop
  | quiet {e : Event Sig} (quiet : Op.isQuiet e.op) : Moves operationId s e s.phase
  | look (answer : Except PersistenceError OperationStateRecord)
      (phase : s.phase = .start ∨ s.phase = .released) :
      Moves operationId s ⟨.load operationId, answer⟩ s.phase
  | read (r : OperationStateRecord) (phase : s.phase = .locked) (id : r.operationId = operationId)
      (loadable : Loadable r) : Moves operationId s ⟨.load operationId, .ok r⟩ (.read r)
  | unread (error : PersistenceError) (phase : s.phase = .locked) :
      Moves operationId s ⟨.load operationId, .error error⟩ .finished
  | lock (phase : s.phase = .start) : Moves operationId s ⟨.acquireLock, .ok ()⟩ .locked
  | busy (error : LockError) (phase : s.phase = .start) :
      Moves operationId s ⟨.acquireLock, .error error⟩ .start
  | unlock (phase : s.phase.holdsLock) : Moves operationId s ⟨.releaseLock, ()⟩ .released
  | launch (record : OperationStateRecord) (number : ℕ) (source : SubvolumeIdentity)
      (output : Output) (phase : s.phase = .intended record)
      (intent : Intent s.events record number source) :
      Moves operationId s ⟨.run operationId (.rollback number), output⟩ (.launched record)
  | save {r : OperationStateRecord} (answer : Except PersistenceError Unit)
      (may : MaySave s r) :
      Moves operationId s ⟨.save r, answer⟩ (nextPhase s.phase ⟨.save r, answer⟩)

/-- Every allowed operation with a valid answer is one of the steps. -/
theorem moves {e : Op} {answer : e.Answer} (hallow : e.isQuiet ∨ s.permits operationId e)
    (hvalid : validAnswer ⟨e, answer⟩) :
    Moves operationId s ⟨e, answer⟩ (s.next ⟨e, answer⟩).phase := by
  rcases hallow with hquiet | hpermit
  · rw [next_quiet hquiet]
    exact .quiet hquiet
  show Moves operationId s _ (nextPhase s.phase _)
  cases e with
  | load id =>
      obtain ⟨rfl, hphase⟩ := hpermit
      rcases hphase with hphase | hphase | hphase
      · have hstay : nextPhase s.phase ⟨Op.load id, answer⟩ = s.phase := by rw [hphase]; rfl
        rw [hstay]
        exact .look answer (.inl hphase)
      · rw [hphase]
        cases answer with
        | error e => exact .unread e hphase
        | ok r =>
            obtain ⟨hid, hloadable⟩ := hvalid r rfl
            exact .read r hphase hid hloadable
      · have hstay : nextPhase s.phase ⟨Op.load id, answer⟩ = s.phase := by rw [hphase]; rfl
        rw [hstay]
        exact .look answer (.inr hphase)
  | acquireLock =>
      have hphase : s.phase = .start := hpermit
      rw [hphase]
      rcases answer with error | ⟨⟩
      · exact .busy error hphase
      · exact .lock hphase
  | releaseLock =>
      have hreleased : nextPhase s.phase ⟨Op.releaseLock, answer⟩ = .released := by
        cases s.phase <;> rfl
      rw [hreleased]
      exact .unlock hpermit
  | run id command =>
      cases command with
      | rollback number =>
          obtain ⟨rfl, record, source, hphase, hintent⟩ := hpermit
          rw [hphase]
          exact .launch record number source answer hphase hintent
      | _ => exact hpermit.elim
  | save r => exact .save answer hpermit
  | _ => exact hpermit.elim

end RollbackState

/-! ## The program follows it -/

section

variable {operationId : String} {α : Type} {s : RollbackState}

namespace RollbackState

/-- Only the events have grown. -/
structure Follows (s s' : RollbackState) : Prop where
  phase : s'.phase = s.phase
  events : s.events ⊆ s'.events

theorem Follows.refl (s : RollbackState) : Follows s s := ⟨rfl, fun _ h => h⟩

theorem Follows.trans {s t u : RollbackState} (h : Follows s t) (h' : Follows t u) :
    Follows s u :=
  ⟨h'.phase.trans h.phase, fun _ he => h'.events (h.events he)⟩

theorem follows_quiet {e : Event Sig} (h : Op.isQuiet e.op) : Follows s (s.next e) := by
  rw [next_quiet h]
  exact ⟨rfl, List.subset_append_left _ _⟩

theorem mem_next (s : RollbackState) (e : Event Sig) : e ∈ (s.next e).events :=
  List.mem_append_right _ (List.mem_singleton_self e)

theorem wp_ask {e : Op} {Q : e.Answer → RollbackState → Prop} (hpermit : s.permits operationId e)
    (h : ∀ a : e.Answer, validAnswer ⟨e, a⟩ → Q a (s.next ⟨e, a⟩)) :
    (ask e).wp (rollbackContract operationId) Q s :=
  Automaton.wp_request (Or.inr hpermit) h

theorem wp_observe {e : Op} {Q : e.Answer → RollbackState → Prop} (hquiet : e.isQuiet)
    (h : ∀ a : e.Answer, Follows s (s.next ⟨e, a⟩) → ⟨e, a⟩ ∈ (s.next ⟨e, a⟩).events →
      Q a (s.next ⟨e, a⟩)) : (ask e).wp (rollbackContract operationId) Q s :=
  Automaton.wp_request (Or.inl hquiet) fun a _ => h a (follows_quiet hquiet) (mem_next s _)

theorem wp_quiet {p : Prog Sig α} (h : Quiet p) (s : RollbackState) :
    p.wp (rollbackContract operationId) (fun _ s' => Follows s s') s := by
  refine Prog.wp_of_only Follows.refl (fun _ _ _ => Follows.trans)
    (fun e s he => Or.inl he) ?_ h s
  rintro e s a _ he ⟨-, rfl⟩
  exact follows_quiet he

/-- Where `finish_rollback` ends: the scheduled record is saved, or the record in memory is
the one the protocol knows. -/
def Finishes : Except String Unit → OperationStateRecord → RollbackState → Prop
  | .ok (), _, s => s.phase = .finished
  | .error _, r, s => s.phase = .launched r ∨ s.phase = .unconfirmed r

/-- **Scheduling.**  From a saved intent, a record that names a boot clone is saved only
after the clone was looked at. -/
theorem wpE_finishRollback {intent : OperationStateRecord} {number : ℕ}
    {source : SubvolumeIdentity} (hphase : s.phase = .intended intent)
    (hintent : Intent s.events intent number source) :
    wpE (rollbackContract operationId) Finishes (finishRollback operationId number) intent s := by
  unfold finishRollback
  rw [wpE_bind, wpE_perform]
  refine wp_ask (e := .run operationId (.rollback number))
    ⟨rfl, intent, source, hphase, hintent⟩ fun output _ => ?_
  have hlaunched : (s.next ⟨Op.run operationId (.rollback number), output⟩).phase =
      .launched intent := by
    show nextPhase s.phase _ = _
    rw [hphase]
    rfl
  generalize s.next ⟨Op.run operationId (.rollback number), output⟩ = s₁ at hlaunched
  -- whatever fails before the save leaves the intent in memory
  have hfail : ∀ {s'}, Follows s₁ s' → ∀ error, Finishes (.error error) intent s' :=
    fun h _ => .inl (h.phase.trans hlaunched)
  dsimp only
  rw [wpE_bind, wpE_failIf]
  refine ⟨fun _ => hfail (.refl s₁) _, fun _ => ?_⟩
  dsimp only
  rw [wpE_bind]
  cases parsePositive output.stdout with
  | none => exact hfail (.refl s₁) "ROLLBACK_RESULT_INVALID"
  | some bootNumber =>
      show wpE _ _ (pure bootNumber) _ _
      rw [wpE_pure]
      dsimp only
      rw [wpE_bind, wpE_attempt]
      refine wp_observe rfl fun inspected h₂ hboot => ?_
      cases inspected with
      | error e => exact hfail h₂ _
      | ok boot =>
          dsimp only
          rw [wpE_bind, wpE_get]
          dsimp only
          rw [wpE_bind, hintent.recovery]
          show wpE _ _ (pure (⟨number, source, none⟩ : RollbackGoal)) _ _
          rw [wpE_pure]
          dsimp only
          rw [wpE_bind, wpE_failIf]
          refine ⟨fun _ => hfail h₂ _, fun _ => ?_⟩
          dsimp only
          rw [wpE_bind, wpE_attempt]
          refine wp_observe rfl fun found h₃ hdefault => ?_
          cases found with
          | error e => exact hfail (h₂.trans h₃) _
          | ok default =>
              dsimp only
              rw [wpE_bind, wpE_failIf]
              refine ⟨fun _ => hfail (h₂.trans h₃) _, fun hsame => ?_⟩
              dsimp only
              rw [wpE_bind, wpE_attempt]
              refine wp_observe rfl fun identity h₄ hrelease => ?_
              have h₁₄ := h₂.trans (h₃.trans h₄)
              cases identity with
              | error e => exact hfail h₁₄ _
              | ok release =>
                  dsimp only
                  rw [wpE_bind, wpE_get]
                  dsimp only
                  rw [wpE_bind, wpE_failIf]
                  refine ⟨fun _ => hfail h₁₄ _, fun hsource => ?_⟩
                  dsimp only
                  rw [wpE_bind, wpE_get]
                  dsimp only
                  rw [wpE_bind, wpE_set]
                  dsimp only
                  rw [wpE_bind, wpE_get]
                  dsimp only
                  rw [wpE_attempt]
                  obtain rfl := not_not.mp hsame
                  obtain rfl := not_not.mp hsource
                  refine wp_ask (.scheduled intent _ boot (h₁₄.phase.trans hlaunched)
                    hintent.recovery ⟨⟨bootNumber, ?_, hrelease⟩, ?_⟩) fun saved _ => ?_
                  · exact h₄.events (h₃.events hboot)
                  · exact h₄.events hdefault
                  · have hfinal := h₁₄.phase.trans hlaunched
                    cases saved with
                    | error e =>
                        refine .inr ?_
                        show nextPhase _ _ = _
                        rw [hfinal]
                        rfl
                    | ok u =>
                        show nextPhase _ _ = _
                        rw [hfinal]
                        rfl

/-- What the checks before the intent found. -/
def Admits (state : OperationStateRecord) (s : RollbackState) :
    Except String (ℕ × SubvolumeIdentity) → RollbackState → Prop
  | .ok (number, source), s' => Follows s s' ∧ state.state = .needsRecovery ∧
      (∀ goal, state.recovery = some goal → goal.bootSnapshot.isSome) ∧
      ⟨Op.query (.inspectSubvolume (.snapshot number)), Except.ok source⟩ ∈ s'.events
  | .error _, s' => Follows s s'

theorem wp_checkRollback (state : OperationStateRecord) (s : RollbackState) :
    (checkRollback state).wp (rollbackContract operationId) (Admits state s) s := by
  unfold checkRollback
  split_ifs with hstate hincomplete
  · exact Follows.refl s
  · exact Follows.refl s
  have hcomplete : ∀ goal, state.recovery = some goal → goal.bootSnapshot.isSome := by
    intro goal hgoal
    rw [hgoal] at hincomplete
    cases hboot : goal.bootSnapshot with
    | none => exact absurd (by simp [hboot]) hincomplete
    | some boot => rfl
  cases state.snapshotNumber with
  | none => exact Follows.refl s
  | some number =>
      dsimp only
      rw [Prog.wp_bind]
      refine wp_observe rfl fun release h₁ _ => ?_
      cases release with
      | error e => exact h₁
      | ok release =>
          dsimp only
          split_ifs with hrelease
          · exact h₁
          rw [Prog.wp_bind]
          refine wp_observe rfl fun format h₂ _ => ?_
          split_ifs with hformat
          · exact h₁.trans h₂
          rw [Prog.wp_bind]
          refine wp_observe rfl fun persistent h₃ _ => ?_
          have h₁₃ := h₁.trans (h₂.trans h₃)
          rcases persistent with e | _ | _
          · exact h₁₃
          · exact h₁₃
          dsimp only
          rw [Prog.wp_bind]
          refine wp_observe rfl fun inspected h₄ hinspected => ?_
          cases inspected with
          | error e => exact h₁₃.trans h₄
          | ok source => exact ⟨h₁₃.trans h₄, not_not.mp hstate, hcomplete, hinspected⟩

/-- Under the lock: the intent, the command, and the record of how it ended. -/
theorem wp_scheduleRollbackLocked (timestamp : String) (hs : s.phase = .locked) :
    (scheduleRollbackLocked operationId timestamp).wp (rollbackContract operationId)
      (fun _ s' => s'.phase.holdsLock) s := by
  unfold scheduleRollbackLocked
  rw [Prog.wp_bind]
  refine wp_ask (e := .load operationId) ⟨rfl, .inr (.inl hs)⟩ fun answer _ => ?_
  have hread : (s.next ⟨Op.load operationId, answer⟩).phase =
      match answer with
      | .ok r => .read r
      | .error _ => .finished := by
    show nextPhase s.phase _ = _
    rw [hs]
    cases answer <;> rfl
  cases answer with
  | error e =>
      show RollbackPhase.holdsLock _
      rw [hread]
      rfl
  | ok state =>
      dsimp only at hread ⊢
      rw [Prog.wp_bind]
      refine Prog.wp_mono ?_ (wp_checkRollback state _)
      intro checked s₂ hchecked
      cases checked with
      | error e =>
          show s₂.phase.holdsLock
          rw [Follows.phase hchecked, hread]
          rfl
      | ok found =>
          obtain ⟨number, source⟩ := found
          obtain ⟨h₂, hstate, hcomplete, hinspected⟩ := hchecked
          replace hread := h₂.phase.trans hread
          dsimp only
          rw [Prog.wp_bind]
          refine wp_ask (.intent state number source timestamp hread hstate hcomplete hinspected)
            fun saved _ => ?_
          have hnext : (s₂.next ⟨Op.save (rollbackIntent state number source timestamp),
              saved⟩).phase = match saved with
                | .ok () => .intended (rollbackIntent state number source timestamp)
                | .error _ => .finished := by
            show nextPhase s₂.phase _ = _
            rw [hread]
            cases saved <;> rfl
          cases saved with
          | error e =>
              show RollbackPhase.holdsLock _
              rw [hnext]
              rfl
          | ok u =>
              dsimp only at hnext ⊢
              rw [Prog.wp_bind]
              refine Prog.wp_mono ?_ (wpE_finishRollback hnext
                ⟨hstate, rfl, List.mem_append_left _ hinspected⟩)
              rintro ⟨result, r⟩ s₃ hfinishes
              cases result with
              | ok u =>
                  show s₃.phase.holdsLock
                  rw [show s₃.phase = .finished from hfinishes]
                  rfl
              | error error =>
                  dsimp only
                  rw [Prog.wp_bind]
                  refine wp_ask (.failed r error hfinishes) fun saved _ => ?_
                  have hfinished : (s₃.next ⟨Op.save (rollbackFailedRecord r error), saved⟩).phase =
                      .finished := by
                    show nextPhase s₃.phase _ = _
                    rcases hfinishes with h | h <;> rw [h] <;> rcases saved with e | ⟨⟩ <;> rfl
                  cases saved <;>
                  · show RollbackPhase.holdsLock _
                    rw [hfinished]
                    rfl

theorem wp_rejected (code : String) :
    (rejected code).wp (rollbackContract operationId) (fun _ _ => True) s :=
  Prog.wp_mono (fun _ _ _ => trivial) (wp_quiet (quiet_rejected code) s)

theorem wp_status (hs : s.phase = .start ∨ s.phase = .released) :
    (status operationId).wp (rollbackContract operationId) (fun _ _ => True) s := by
  unfold status
  rw [Prog.wp_bind]
  refine wp_ask ⟨rfl, hs.imp_right .inr⟩ fun answer _ => ?_
  cases answer with
  | error e => exact wp_rejected _
  | ok state =>
      exact Prog.wp_mono (fun _ _ _ => trivial)
        (wp_quiet (Prog.only_bind (quiet_ask rfl) fun _ => Prog.only_pure _) _)

end RollbackState

open RollbackState

/-- **A request to roll back keeps to its protocol.** -/
theorem wp_rollback (uid : ℕ) (hs : s.phase = .start) :
    (rollback uid operationId).wp (rollbackContract operationId) (fun _ _ => True) s := by
  unfold rollback
  rw [Prog.wp_bind]
  refine Prog.wp_mono ?_ (RollbackState.wp_quiet (quiet_operationOwnedBy _ _) s)
  intro owned s₁ h₁
  split_ifs
  · exact RollbackState.wp_rejected _
  rw [Prog.wp_bind]
  refine RollbackState.wp_ask (e := .load operationId) ⟨rfl, .inl (h₁.phase.trans hs)⟩ fun answer _ => ?_
  have hstart : (s₁.next ⟨Op.load operationId, answer⟩).phase = .start := by
    show nextPhase s₁.phase _ = _
    rw [h₁.phase, hs]
    rfl
  cases answer with
  | error e => exact RollbackState.wp_rejected _
  | ok state =>
      dsimp only
      split_ifs
      · exact RollbackState.wp_rejected _
      rw [Prog.wp_bind]
      refine wp_observe rfl fun timestamp h₂ _ => ?_
      unfold scheduleRollback
      simp only [bind_assoc]
      rw [Prog.wp_bind]
      refine RollbackState.wp_ask (h₂.phase.trans hstart) fun granted _ => ?_
      cases granted with
      | error e => exact RollbackState.wp_rejected _
      | ok u =>
          dsimp only
          simp only [bind_assoc]
          rw [Prog.wp_bind]
          refine Prog.wp_mono ?_ (wp_scheduleRollbackLocked timestamp ?_)
          · intro result s₃ hlock
            rw [Prog.wp_bind]
            refine RollbackState.wp_ask hlock fun _ _ => ?_
            rw [pure_bind]
            cases result with
            | error e => exact RollbackState.wp_rejected _
            | ok u =>
                refine RollbackState.wp_status (.inr ?_)
                show nextPhase s₃.phase _ = _
                cases s₃.phase <;> rfl
          · show nextPhase _ _ = _
            rw [h₂.phase, hstart]
            rfl

end

end LyraUpgrade
