import LyraUpgrade.Service.Protocol

/-!
# Workers keep to their protocol

`wp_start`: from the start, a Start request and its worker issue only operations that
the protocol allows, whatever the answers are.  The proof follows the program: a rule
for each stage, and the stages in their order.

A stage is given where it starts (`At`) and what must hold where it ends; a failure
inside may leave the worker at any phase that holds the lock (`Failing`), because the
caller only releases it.
-/

namespace LyraUpgrade

open Interaction

/-! ## Rules -/

section

variable {operationId : String} {α β : Type}

namespace WorkerState

/-- Only the events have grown. -/
structure Follows (s s' : WorkerState) : Prop where
  phase : s'.phase = s.phase
  record : s'.record = s.record
  events : s.events <+: s'.events

theorem Follows.refl (s : WorkerState) : Follows s s := ⟨rfl, rfl, List.prefix_refl _⟩

theorem Follows.trans {s t u : WorkerState} (h : Follows s t) (h' : Follows t u) : Follows s u :=
  ⟨h'.phase.trans h.phase, h'.record.trans h.record, h.events.trans h'.events⟩

theorem follows_quiet {s : WorkerState} {e : Event Sig} (h : Op.isQuiet e.op) :
    Follows s (s.next e) := by
  rw [next_quiet h]
  exact ⟨rfl, rfl, List.prefix_append _ _⟩

/-- The worker stands at a phase, with this record in memory. -/
structure At (p : Phase) (r : OperationStateRecord) (s : WorkerState) : Prop where
  phase : s.phase = p
  record : s.record = r

theorem Sound.follows {operationId : String} {s s' : WorkerState} (h : Sound operationId s)
    (hs : Follows s s') : Sound operationId s' := by
  obtain ⟨⟨r, hloaded, hawaiting⟩, hid, hloadable, hrecovery, hstate⟩ := h
  refine ⟨⟨r, hs.events.subset hloaded, hawaiting⟩, ?_, ?_, ?_, ?_⟩
  all_goals rw [hs.record]
  · exact hid
  · exact hloadable
  · exact hrecovery
  · rw [hs.phase]
    exact hstate

theorem At.follows {p : Phase} {r : OperationStateRecord} {s s' : WorkerState} (h : At p r s)
    (hs : Follows s s') : At p r s' :=
  ⟨hs.phase.trans h.phase, hs.record.trans h.record⟩

/-- Where a failure leaves the body of a worker. -/
structure Failing (r : OperationStateRecord) (s : WorkerState) : Prop where
  record : s.record = r
  locked : s.phase.holdsLock
  unfinished : s.phase ≠ .finished

theorem Failing.follows {r : OperationStateRecord} {s s' : WorkerState} (h : Failing r s)
    (hs : Follows s s') : Failing r s' :=
  ⟨hs.record.trans h.record, by rw [hs.phase]; exact h.locked, by rw [hs.phase]; exact h.unfinished⟩

theorem At.failing {p : Phase} {r : OperationStateRecord} {s : WorkerState} (h : At p r s)
    (hp : (p.holdsLock && decide (p ≠ .finished)) = true) : Failing r s := by
  rw [Bool.and_eq_true, decide_eq_true_eq, ← h.phase] at hp
  exact ⟨h.record, hp.1, hp.2⟩

end WorkerState

open WorkerState

theorem wp_ask {e : Op} {s : WorkerState} {Q : e.Answer → WorkerState → Prop}
    (hallow : s.permits operationId e)
    (h : ∀ a : e.Answer, validAnswer ⟨e, a⟩ → Q a (s.next ⟨e, a⟩)) :
    (ask e).wp (workerContract operationId) Q s :=
  Automaton.wp_request (Or.inr hallow) h

theorem wp_ask_quiet {e : Op} {s : WorkerState} {Q : e.Answer → WorkerState → Prop}
    (hquiet : e.isQuiet) (h : ∀ a : e.Answer, Follows s (s.next ⟨e, a⟩) → Q a (s.next ⟨e, a⟩)) :
    (ask e).wp (workerContract operationId) Q s :=
  Automaton.wp_request (Or.inl hquiet) fun a _ => h a (follows_quiet hquiet)

theorem wp_quiet {p : Prog Sig α} (h : Quiet p) (s : WorkerState) :
    p.wp (workerContract operationId) (fun _ s' => Follows s s') s := by
  refine Prog.wp_of_only Follows.refl (fun _ _ _ => Follows.trans)
    (fun e s he => Or.inl he) ?_ h s
  rintro e s a _ he ⟨-, rfl⟩
  exact follows_quiet he

/-- The worker only observes, or writes files of its own. -/
def Silent (operationId : String) (x : Worker α) : Prop :=
  ∀ r s, wpE (workerContract operationId) (fun _ r' s' => r' = r ∧ Follows s s') x r s

theorem silent_pure (a : α) : Silent operationId (pure a : Worker α) :=
  fun _ s => ⟨rfl, Follows.refl s⟩

theorem silent_throw (e : ExecutionError) : Silent operationId (throw e : Worker α) :=
  fun _ s => ⟨rfl, Follows.refl s⟩

theorem silent_get : Silent operationId (get : Worker OperationStateRecord) :=
  fun _ s => ⟨rfl, Follows.refl s⟩

theorem silent_bind {x : Worker α} {f : α → Worker β} (hx : Silent operationId x)
    (hf : ∀ a, Silent operationId (f a)) : Silent operationId (x >>= f) := by
  intro r s
  rw [wpE_bind]
  refine wpE_mono ?_ (hx r s)
  rintro res _ s' ⟨rfl, hs⟩
  cases res with
  | error e => exact ⟨rfl, hs⟩
  | ok a => exact wpE_mono (fun _ _ _ h => ⟨h.1, hs.trans h.2⟩) (hf a _ s')

theorem silent_attempt {ε : Type} {p : Prog Sig (Except ε α)} (f : ε → ExecutionError)
    (h : Quiet p) : Silent operationId (attempt p f) := by
  intro r s
  rw [wpE_attempt]
  refine Prog.wp_mono (fun res s' hs => ?_) (wp_quiet h s)
  cases res <;> exact ⟨rfl, hs⟩

theorem silent_perform {p : Prog Sig α} (h : Quiet p) :
    Silent operationId (perform p : Worker α) := by
  intro r s
  rw [wpE_perform]
  exact Prog.wp_mono (fun _ _ hs => ⟨rfl, hs⟩) (wp_quiet h s)

theorem silent_orFail {ε : Type} (result : Except ε α) (f : ε → ExecutionError) :
    Silent operationId (orFail result f) :=
  silent_attempt f (Prog.only_pure _)

theorem silent_failIf (c : Prop) [Decidable c] (error : ExecutionError) :
    Silent operationId (failIf c error : Worker PUnit) := by
  intro r s
  rw [wpE_failIf]
  exact ⟨fun _ => ⟨rfl, Follows.refl s⟩, fun _ => ⟨rfl, Follows.refl s⟩⟩

/-- A command that is not critical, run for the operation. -/
theorem silent_runRequired {command : Command} (error : ExecutionError)
    (h : command.isCritical = false) : Silent operationId (runRequired operationId command error) := by
  refine silent_bind (silent_perform (quiet_ask (by simp [Op.isQuiet, h]))) fun output => ?_
  cases hsuccess : Output.success output with
  | true => exact silent_pure _
  | false => exact silent_throw _

theorem silent_recordInventory (kind : InventoryKind) (error : ExecutionError) :
    Silent operationId (recordInventory operationId kind error) :=
  silent_bind (silent_attempt _ (quiet_ask rfl)) fun _ =>
    silent_bind (silent_attempt _ (quiet_ask rfl)) fun _ => silent_pure _

/-- What a stage owes: its own postcondition, or a failure inside the body. -/
def Body (Q : α → OperationStateRecord → WorkerState → Prop) :
    Except ExecutionError α → OperationStateRecord → WorkerState → Prop
  | .ok a, r, s => Q a r s
  | .error _, r, s => Failing r s

variable {Q : α → OperationStateRecord → WorkerState → Prop} {r : OperationStateRecord}
variable {s : WorkerState}

/-- A stage in two parts. -/
theorem body_bind {P : β → OperationStateRecord → WorkerState → Prop} {x : Worker β}
    {f : β → Worker α} (hx : wpE (workerContract operationId) (Body P) x r s)
    (hf : ∀ b r' s', P b r' s' → wpE (workerContract operationId) (Body Q) (f b) r' s') :
    wpE (workerContract operationId) (Body Q) (x >>= f) r s := by
  rw [wpE_bind]
  refine wpE_mono (fun res r' s' h => ?_) hx
  cases res with
  | error e => exact h
  | ok b => exact hf b r' s' h

/-- A silent part first: the phase and the record stay. -/
theorem body_silent {x : Worker β} {f : β → Worker α} (hx : Silent operationId x)
    (hfail : Failing r s)
    (hf : ∀ b s', Follows s s' → wpE (workerContract operationId) (Body Q) (f b) r s') :
    wpE (workerContract operationId) (Body Q) (x >>= f) r s := by
  refine body_bind (P := fun _ r' s' => r' = r ∧ Follows s s') ?_ ?_
  · refine wpE_mono (fun res r' s' h => ?_) (hx r s)
    cases res with
    | ok b => exact h
    | error e =>
        refine ⟨?_, ?_, ?_⟩
        · rw [h.2.record, h.1]; exact hfail.record
        · rw [h.2.phase]; exact hfail.locked
        · rw [h.2.phase]; exact hfail.unfinished
  · rintro b _ s' ⟨rfl, hs⟩
    exact hf b s' hs

/-- A save in the body, where the protocol permits it.  The record in memory may be
ahead of the protocol, which learns of it here. -/
theorem body_saveRecord {Q : Unit → OperationStateRecord → WorkerState → Prop} {p : Phase}
    (hs : s.phase = p) (hpermit : s.permits operationId (.save r))
    (hphase : phaseAfterFailure p = .failed) (hstart : p ≠ .start)
    (hok : ∀ s', At (phaseAfterSave r p) r s' → s.events <+: s'.events → Q () r s') :
    wpE (workerContract operationId) (Body Q) saveRecord r s := by
  unfold saveRecord
  rw [wpE_bind, wpE_get]
  dsimp only
  rw [wpE_attempt]
  refine wp_ask hpermit fun a _ => ?_
  have hrecord : (s.next ⟨Op.save r, a⟩).record = r := by
    change nextRecord s.phase s.record ⟨Op.save r, a⟩ = r
    rw [hs, nextRecord, if_neg hstart]
  cases a with
  | error e =>
      have hfailed : (s.next ⟨Op.save r, .error e⟩).phase = .failed := by
        change phaseAfterFailure s.phase = _
        rw [hs, hphase]
      exact At.failing ⟨hfailed, hrecord⟩ rfl
  | ok u =>
      refine hok _ ⟨?_, hrecord⟩ (List.prefix_append _ _)
      change phaseAfterSave r s.phase = _
      rw [hs]

/-- A state change in the body: the transition, the save, and the event. -/
theorem body_advanceTo {Q : Unit → OperationStateRecord → WorkerState → Prop} {p : Phase}
    {next : OperationState} (hs : At p r s) (hlock : p.holdsLock) (hunfinished : p ≠ .finished)
    (hpermit : ∀ r', r.transitionTo next = .ok r' → s.permits operationId (.save r'))
    (hphase : phaseAfterFailure p = .failed)
    (hok : ∀ r' s', r.transitionTo next = .ok r' → At (phaseAfterSave r' p) r' s' →
      s.events <+: s'.events → Q () r' s') :
    wpE (workerContract operationId) (Body Q) (advanceTo next) r s := by
  have hstart : p ≠ .start := by rintro rfl; cases hlock
  unfold advanceTo transition
  simp only [bind_assoc]
  rw [wpE_bind, wpE_get]
  dsimp only
  rw [wpE_bind, wpE_orFail]
  cases htransition : r.transitionTo next with
  | error e =>
      exact ⟨hs.record, by rw [hs.phase]; exact hlock, by rw [hs.phase]; exact hunfinished⟩
  | ok r' =>
      dsimp only
      rw [wpE_bind, wpE_set]
      dsimp only
      unfold persist
      refine body_bind (body_saveRecord (Q := fun _ r'' s' => r'' = r' ∧
        At (phaseAfterSave r' p) r' s' ∧ s.events <+: s'.events) hs.phase
        (hpermit r' htransition) hphase hstart fun s' hs' he => ⟨rfl, hs', he⟩) ?_
      rintro ⟨⟩ _ s' ⟨rfl, hs', he⟩
      rw [wpE_bind, wpE_get]
      dsimp only
      rw [wpE_perform]
      refine Prog.wp_mono (fun _ s'' hf => ?_) (wp_quiet (quiet_ask rfl) s')
      exact hok _ s'' htransition (hs'.follows hf) (he.trans hf.events)

theorem isCancelled_iff {answer : Except PersistenceError OperationStateRecord} :
    isCancelled answer ↔ ∃ saved, answer = .ok saved ∧ saved.errorCode = some cancelledCode := by
  cases answer <;> simp [isCancelled]

/-- A poll goes on where the record shows no cancellation. -/
theorem body_pollCancel {Q : Unit → OperationStateRecord → WorkerState → Prop}
    (hs : At .downloading r s)
    (hok : ∀ s', At .downloading r s' → s.events <+: s'.events → Q () r s') :
    wpE (workerContract operationId) (Body Q) (pollCancel operationId) r s := by
  unfold pollCancel
  rw [wpE_bind, wpE_perform]
  refine wp_ask (e := .load operationId)
    ⟨rfl, .inr (.inr (.inl hs.phase))⟩ fun answer _ => ?_
  have hphase : (s.next ⟨Op.load operationId, answer⟩).phase =
      if isCancelled answer then .told else .downloading := by
    change phaseAfterLoad answer s.phase = _
    rw [hs.phase]
    rfl
  have hrecord : (s.next ⟨Op.load operationId, answer⟩).record = r := by
    change nextRecord s.phase s.record ⟨Op.load operationId, answer⟩ = r
    rw [hs.phase, ← hs.record]
    cases answer <;> rfl
  dsimp only
  rw [wpE_failIf]
  refine ⟨fun hcancelled => ?_, fun hcancelled => ?_⟩
  · rw [if_pos hcancelled] at hphase
    exact At.failing ⟨hphase, hrecord⟩ rfl
  · rw [if_neg hcancelled] at hphase
    exact hok _ ⟨hphase, hrecord⟩ (List.prefix_append _ _)

/-- Where a worker is when it has given up the lock. -/
def Ends : Except ExecutionError α → OperationStateRecord → WorkerState → Prop
  | .ok _, _, s => s.phase = .closed .succeeded
  | .error _, r, s => At .ended r s

/-- The lock, the body, and the release on every path. -/
theorem wpE_withTransactionLock {body : Worker α} (hs : At .waiting r s)
    (hbody : ∀ s', At .locked r s' →
      wpE (workerContract operationId) (Body fun _ r' s'' => At .finished r' s'') body r s') :
    wpE (workerContract operationId) Ends (withTransactionLock body) r s := by
  change Prog.wp _ _ (ask .acquireLock >>= _) s
  rw [Prog.wp_bind]
  refine wp_ask hs.phase fun answer _ => ?_
  cases answer with
  | error e =>
      have hended : At .ended r (s.next ⟨Op.acquireLock, .error e⟩) := ⟨rfl, hs.record⟩
      cases e <;> exact hended
  | ok u =>
      have hlocked : At .locked r (s.next ⟨Op.acquireLock, .ok u⟩) := ⟨rfl, hs.record⟩
      change Prog.wp _ _ (body.run.run r >>= _) _
      rw [Prog.wp_bind]
      refine Prog.wp_mono ?_ (hbody _ hlocked)
      rintro ⟨res, r'⟩ s' hres
      rw [Prog.wp_bind]
      have hphase : ∀ p, s'.phase = p → (s'.next ⟨Op.releaseLock, ()⟩).phase =
          if p = .finished then .closed .succeeded else .ended := by
        rintro _ rfl
        rfl
      cases res with
      | ok a =>
          have hlock : s'.phase.holdsLock := by rw [hres.phase]; rfl
          refine wp_ask hlock fun _ _ => ?_
          exact hphase _ hres.phase
      | error e =>
          refine wp_ask hres.locked fun _ _ => ?_
          refine ⟨?_, hres.record⟩
          exact (hphase _ rfl).trans (if_neg hres.unfinished)

/-! ## Updating the installed release -/

theorem planWithinRelease_eq_ok {digest : List Char → String} {facts : HostFacts}
    {solver : SolverResult} {planned : PlannedUpdate}
    (h : planWithinRelease digest facts solver = .ok planned) :
    planned.facts = facts ∧ planned.solver = solver := by
  unfold planWithinRelease at h
  dsimp only at h
  split_ifs at h
  cases hbuild : buildPlan .updateWithinRelease facts
      (evaluateSolverPreflight facts {} solver {}) none none solver with
  | error e => rw [hbuild] at h; cases h
  | ok plan => rw [hbuild] at h; cases h; exact ⟨rfl, rfl⟩

theorem planning_planUpdate (digest : List Char → String) : Planning (planUpdate digest) := by
  refine Prog.only_bind (planning_ask rfl) fun answer => ?_
  cases answer <;> exact Prog.only_pure _

/-- The observation behind a plan is among the events. -/
def Simulated (planned : PlannedUpdate) (events : List (Event Sig)) : Prop :=
  ⟨Op.query .simulateUpdate, Except.ok (planned.facts, planned.solver)⟩ ∈ events

/-- Planning again. -/
theorem body_planUpdate {Q : PlannedUpdate → OperationStateRecord → WorkerState → Prop}
    (digest : List Char → String) (hfail : Failing r s)
    (hok : ∀ planned s', Follows s s' → Simulated planned s'.events → Q planned r s') :
    wpE (workerContract operationId) (Body Q) (attempt (planUpdate digest) .replan) r s := by
  rw [wpE_attempt]
  change Prog.wp _ _ (ask (.query .simulateUpdate) >>= _) s
  rw [Prog.wp_bind]
  refine wp_ask_quiet rfl fun answer hfollows => ?_
  have hfails := hfail.follows hfollows
  cases answer with
  | error e => exact hfails
  | ok observed =>
      obtain ⟨facts, solver⟩ := observed
      change Prog.wp _ _ (pure (planWithinRelease digest facts solver)) _
      rw [Prog.wp_pure]
      cases hplan : planWithinRelease digest facts solver with
      | error e => exact hfails
      | ok planned =>
          obtain ⟨hfacts, hsolver⟩ := planWithinRelease_eq_ok hplan
          refine hok planned _ hfollows ?_
          rw [Simulated, hfacts, hsolver]
          exact List.mem_append_right _ (List.mem_singleton_self _)

theorem body_downloadUpdate {Q : PlannedUpdate → OperationStateRecord → WorkerState → Prop}
    (digest : List Char → String) (confirmed : PlannedUpdate) (hs : At .locked r s)
    (hok : ∀ fresh r' s', At .downloading r' s' → s.events <+: s'.events →
      Simulated fresh s'.events → Q fresh r' s') :
    wpE (workerContract operationId) (Body Q) (downloadUpdate digest operationId confirmed) r s := by
  unfold downloadUpdate
  refine body_bind (P := fun _ r' s' => At .downloading r' s' ∧ s.events <+: s'.events)
    (body_advanceTo hs rfl (by decide) (fun r' h => ?_) rfl
      fun r' s' _ hs' he => ⟨hs', he⟩) ?_
  · exact .downloading hs.phase (by rw [hs.record]; exact h)
  rintro ⟨⟩ r₁ s₁ ⟨hs, h₁⟩
  refine body_silent (silent_runRequired _ rfl) (hs.failing rfl) fun _ s₂ h₂ => ?_
  replace hs := hs.follows h₂
  refine body_bind (P := fun _ r' s' => At .downloading r' s' ∧ s₂.events <+: s'.events)
    (body_pollCancel hs fun s' hs' he => ⟨hs', he⟩) ?_
  rintro ⟨⟩ r₃ s₃ ⟨hs, h₃⟩
  refine body_bind (P := fun fresh r' s' => At .downloading r' s' ∧ s₃.events <+: s'.events ∧
    Simulated fresh s'.events)
    (body_planUpdate digest (hs.failing rfl) fun planned s' hf ho => ⟨hs.follows hf, hf.events, ho⟩) ?_
  rintro fresh r₄ s₄ ⟨hs, h₄, hsimulated⟩
  refine body_silent (silent_failIf _ _) (hs.failing rfl) fun _ s₅ h₅ => ?_
  replace hs := hs.follows h₅
  refine body_silent (silent_runRequired _ rfl) (hs.failing rfl) fun _ s₆ h₆ => ?_
  replace hs := hs.follows h₆
  refine body_bind (P := fun _ r' s' => At .downloading r' s' ∧ s₆.events <+: s'.events)
    (body_pollCancel hs fun s' hs' he => ⟨hs', he⟩) ?_
  rintro ⟨⟩ r₇ s₇ ⟨hs, h₇⟩
  refine body_silent (silent_attempt _ (planning_planUpdate digest).quiet) (hs.failing rfl) fun current s₈ h₈ => ?_
  replace hs := hs.follows h₈
  refine body_silent (silent_failIf _ _) (hs.failing rfl) fun _ s₉ h₉ => ?_
  have h₄₉ : s₄.events <+: s₉.events :=
    h₅.events.trans (h₆.events.trans (h₇.trans (h₈.events.trans h₉.events)))
  have h₀₄ : s.events <+: s₄.events := h₁.trans (h₂.events.trans (h₃.trans h₄))
  exact hok fresh _ s₉ (hs.follows h₉) (h₀₄.trans h₄₉) (h₄₉.subset hsimulated)

/-- The snapshot is taken, and its number is on disk before anything is applied. -/
theorem body_takeSnapshot {Q : Unit → OperationStateRecord → WorkerState → Prop}
    (description : String) (hs : At .downloading r s)
    (hok : ∀ r' s', At .saved r' s' → s.events <+: s'.events → Q () r' s') :
    wpE (workerContract operationId) (Body Q) (takeSnapshot operationId description) r s := by
  unfold takeSnapshot
  refine body_bind (P := fun _ r' s' => At .snapshotting r' s' ∧ s.events <+: s'.events)
    (body_advanceTo hs rfl (by decide) (fun r' h => ?_) rfl
      fun r' s' _ hs' he => ⟨hs', he⟩) ?_
  · exact .snapshotting hs.phase (by rw [hs.record]; exact h)
  rintro ⟨⟩ r₁ s₁ ⟨hs, h₁⟩
  -- the command itself: afterwards a snapshot may exist, whatever it answered
  refine body_bind (P := fun _ r' s' => At .taken r' s' ∧ s₁.events <+: s'.events) ?_ ?_
  · unfold runRequired
    rw [wpE_bind, wpE_perform]
    refine wp_ask (e := .run operationId (.createSnapshot description)) ⟨rfl, hs.phase⟩
      fun output _ => ?_
    have htaken : At .taken r₁ (s₁.next ⟨.run operationId (.createSnapshot description), output⟩) :=
      ⟨rfl, hs.record⟩
    dsimp only
    split_ifs
    · exact ⟨htaken, List.prefix_append _ _⟩
    · exact htaken.failing rfl
  rintro output r₂ s₂ ⟨hs, h₂⟩
  rw [wpE_bind, wpE_orFail]
  cases hnumber : parseSnapshotNumber output.stdout with
  | error e => exact hs.failing rfl
  | ok number =>
      dsimp only
      rw [wpE_bind, wpE_get]
      dsimp only
      rw [wpE_bind, wpE_set]
      refine body_saveRecord (r := { r₂ with snapshotNumber := some number }) hs.phase ?_ rfl
        (by decide) fun s' hs' he => hok _ s' hs' (h₁.trans (h₂.trans he))
      have hpos : 0 < number := by
        unfold parseSnapshotNumber at hnumber
        split at hnumber
        · split_ifs at hnumber with hpos
          cases hnumber
          exact hpos
        · cases hnumber
      exact .snapshot number hs.phase hpos (by rw [hs.record])

/-- What happened between two states. -/
def Since (s s' : WorkerState) (after : List (Event Sig)) : Prop := s'.events = s.events ++ after

/-- New boot files, if they are needed. -/
theorem body_rebuildBoot {Q : Unit → OperationStateRecord → WorkerState → Prop} {needed : Bool}
    (hfail : Failing r s)
    (hok : ∀ s' after, Follows s s' → Since s s' after →
      (needed → ∃ dracut grub : Output, dracut.success ∧ grub.success ∧
        ⟨Op.run operationId .dracut, dracut⟩ ∈ after ∧
        ⟨Op.run operationId .grubMkconfig, grub⟩ ∈ after) → Q () r s') :
    wpE (workerContract operationId) (Body Q) (rebuildBoot operationId needed) r s := by
  cases needed with
  | false =>
      exact hok s [] (Follows.refl s) (List.append_nil _).symm fun h => absurd h Bool.false_ne_true
  | true =>
      change wpE _ _ (runRequired operationId .dracut .initramfs >>= _) r s
      rw [wpE_bind]
      unfold runRequired
      rw [wpE_bind, wpE_perform]
      refine wp_ask_quiet rfl fun dracut h₁ => ?_
      have hfail₁ := hfail.follows h₁
      dsimp only
      split_ifs with hdracut
      · rw [wpE_pure]
        dsimp only
        rw [wpE_bind, wpE_bind, wpE_perform]
        refine wp_ask_quiet rfl fun grub h₂ => ?_
        dsimp only
        split_ifs with hgrub
        · refine hok _ [⟨Op.run operationId .dracut, dracut⟩, ⟨Op.run operationId .grubMkconfig, grub⟩]
            (h₁.trans h₂) ?_ fun _ => ⟨dracut, grub, hdracut, hgrub, by simp, by simp⟩
          rw [Since, next_quiet rfl, next_quiet rfl]
          simp
        · exact hfail₁.follows h₂
      · exact hfail₁

/-- The inventory is captured and stored. -/
theorem body_recordInventory {Q : InventoryReport → OperationStateRecord → WorkerState → Prop}
    {kind : InventoryKind} {error : ExecutionError} (hfail : Failing r s)
    (hok : ∀ report s' after, Follows s s' → Since s s' after →
      ⟨Op.query .captureInventory, Except.ok report⟩ ∈ after → Q report r s') :
    wpE (workerContract operationId) (Body Q) (recordInventory operationId kind error) r s := by
  unfold recordInventory
  rw [wpE_bind, wpE_attempt]
  refine wp_ask_quiet rfl fun answer h₁ => ?_
  cases answer with
  | error e => exact hfail.follows h₁
  | ok report =>
      dsimp only
      rw [wpE_bind, wpE_attempt]
      refine wp_ask_quiet rfl fun written h₂ => ?_
      cases written with
      | error e => exact (hfail.follows h₁).follows h₂
      | ok u =>
          refine hok report _ [⟨Op.query .captureInventory, Except.ok report⟩,
            ⟨Op.writeInventory operationId kind report, .ok u⟩] (h₁.trans h₂) ?_ (by simp)
          rw [Since, next_quiet rfl, next_quiet rfl]
          simp

/-- The packages are changed, and the record says so only when what must follow
succeeded. -/
theorem body_applyUpdate (confirmed fresh : PlannedUpdate) (hs : At .saved r s)
    (hobserved : Observed operationId confirmed.plan (fresh.facts, fresh.solver) s.events) :
    wpE (workerContract operationId) (Body fun _ r' s' => At .finished r' s')
      (applyUpdate operationId confirmed fresh) r s := by
  unfold applyUpdate
  refine body_bind (P := fun _ r' s' => At .applying r' s' ∧ s.events <+: s'.events)
    (body_advanceTo hs rfl (by decide) (fun r' h => ?_) rfl ?_) ?_
  · exact .applying hs.phase (by rw [hs.record]; exact h)
  · intro r' s' h hs' he
    obtain ⟨-, -, -, rfl⟩ := OperationStateRecord.transitionTo_eq_ok.mp h
    exact ⟨hs', he⟩
  rintro ⟨⟩ r₁ s₁ ⟨hs, h₁⟩
  rw [wpE_bind, wpE_perform]
  refine wp_ask (e := .run operationId (.update .apply)) ⟨rfl, hs.phase⟩ fun output _ => ?_
  have hs₂ : At .applying r₁ (s₁.next ⟨.run operationId (.update .apply), output⟩) :=
    ⟨hs.phase, hs.record⟩
  generalize hevents : s₁.next ⟨.run operationId (.update .apply), output⟩ = s₂ at hs₂
  dsimp only
  rw [wpE_bind, wpE_orFail]
  cases hexit : classifyApplyExit output.code with
  | error e => exact hs₂.failing rfl
  | ok u =>
      dsimp only
      refine body_bind (P := fun _ r' s' => At .applying r' s' ∧ ∃ after, Since s₂ s' after ∧
          (touchesBoot fresh.solver.changes → ∃ dracut grub : Output, dracut.success ∧
            grub.success ∧ ⟨Op.run operationId .dracut, dracut⟩ ∈ after ∧
            ⟨Op.run operationId .grubMkconfig, grub⟩ ∈ after))
        (body_rebuildBoot (hs₂.failing rfl) fun s' after hf hsince hboot =>
          ⟨hs₂.follows hf, after, hsince, hboot⟩) ?_
      rintro ⟨⟩ r₃ s₃ ⟨hs₃, after, hsince, hboot⟩
      refine body_bind (P := fun report r' s' => At .applying r' s' ∧ ∃ after', Since s₃ s' after' ∧
          ⟨Op.query .captureInventory, Except.ok report⟩ ∈ after')
        (body_recordInventory (hs₃.failing rfl) fun report s' after' hf hsince hreport =>
          ⟨hs₃.follows hf, after', hsince, hreport⟩) ?_
      rintro report r₄ s₄ ⟨hs₄, after', hsince', hreport⟩
      rw [wpE_bind, wpE_failIf]
      refine ⟨fun _ => hs₄.failing rfl, fun hverify => ?_⟩
      have happlied : Applied operationId s₄.events := by
        refine ⟨s₁.events, output, after ++ after', confirmed.plan, (fresh.facts, fresh.solver),
          ?_, ?_, ⟨h₁.subset hobserved.stored, h₁.subset hobserved.simulated⟩, ?_, ?_⟩
        · rw [hsince', hsince, ← hevents]
          change (s₁.events ++ [_]) ++ _ ++ _ = _
          simp
        · unfold classifyApplyExit at hexit
          split_ifs at hexit with hcode
          exact hcode
        · intro htouches
          obtain ⟨dracut, grub, hdracut, hgrub, hd, hg⟩ := hboot htouches
          exact ⟨dracut, grub, hdracut, hgrub, List.mem_append_left _ hd, List.mem_append_left _ hg⟩
        · exact ⟨report, List.mem_append_right _ hreport, by simpa using hverify⟩
      dsimp only
      refine body_bind (P := fun _ r' s' => At .finished r' s')
        (body_advanceTo hs₄ rfl (by decide) (fun r' h => ?_) rfl fun r' s' _ hs' _ => hs') ?_
      · rw [← hs₄.record] at h
        refine .result hs₄.phase happlied _ ?_ h
        split_ifs
        · exact .inl rfl
        · exact .inr rfl
      · rintro ⟨⟩ r₅ s₅ hs₅
        exact hs₅

/-- **A worker that updates the installed release** keeps to the protocol. -/
theorem wpE_executeUpdate (digest : List Char → String) (confirmed : PlannedUpdate)
    (hs : At .waiting r s) :
    wpE (workerContract operationId) Ends (executeUpdate digest operationId confirmed) r s := by
  unfold executeUpdate
  refine wpE_withTransactionLock hs fun s₁ hs₁ => ?_
  refine body_bind (P := fun _ r' s' => At .locked r' s' ∧
    ⟨Op.writePlan operationId confirmed.plan, Except.ok ()⟩ ∈ s'.events) ?_ ?_
  · rw [wpE_attempt]
    refine wp_ask_quiet rfl fun answer hf => ?_
    cases answer with
    | error e => exact (hs₁.failing rfl).follows hf
    | ok u => exact ⟨hs₁.follows hf, List.mem_append_right _ (List.mem_singleton_self _)⟩
  rintro ⟨⟩ r₂ s₂ ⟨hs₂, hstored⟩
  refine body_silent (silent_recordInventory _ _) (hs₂.failing rfl) fun _ s₃ h₃ => ?_
  refine body_bind (P := fun fresh r' s' => At .downloading r' s' ∧ s₃.events <+: s'.events ∧
    Simulated fresh s'.events) (body_downloadUpdate digest confirmed (hs₂.follows h₃)
      fun fresh r' s' hs' he hsim => ⟨hs', he, hsim⟩) ?_
  rintro fresh r₄ s₄ ⟨hs₄, h₄, hsimulated⟩
  refine body_bind (P := fun _ r' s' => At .saved r' s' ∧ s₄.events <+: s'.events)
    (body_takeSnapshot _ hs₄ fun r' s' hs' he => ⟨hs', he⟩) ?_
  rintro ⟨⟩ r₅ s₅ ⟨hs₅, h₅⟩
  have hstored₅ := h₅.subset (h₄.subset (h₃.events.subset hstored))
  exact body_applyUpdate confirmed fresh hs₅ ⟨hstored₅, h₅.subset hsimulated⟩

/-! ## Staging a signed operation -/

theorem planning_readLastManifestSequence : Planning readLastManifestSequence := by
  refine Prog.only_bind (planning_ask rfl) fun answer => ?_
  cases answer <;> exact Prog.only_pure _

theorem planning_validateTime (ext : Externals) (manifest : ReleaseManifest) :
    Planning (validateTime ext manifest) :=
  Prog.only_bind (planning_ask rfl) fun _ => Prog.only_pure _

theorem planning_verifyManifestFiles (ext : Externals) (document : SignedDocument)
    (installed : ReleaseIdentity) (lastSequence : Option ℕ) (channel : ManifestChannelPolicy) :
    Planning (verifyManifestFiles ext document installed lastSequence channel) := by
  refine Prog.only_bind (planning_ask rfl) fun answer => ?_
  cases answer with
  | error e => exact Prog.only_pure _
  | ok u =>
      dsimp only
      cases ext.parseManifest document.document with
      | none => exact Prog.only_pure _
      | some manifest =>
          dsimp only
          cases validateManifestRoute ext.acceptsUrl manifest installed lastSequence updaterVersion
            channel with
          | error e => exact Prog.only_pure _
          | ok u =>
              refine Prog.only_bind (planning_validateTime ext manifest) fun answer => ?_
              cases answer <;> exact Prog.only_pure _

theorem planning_fetchRepositoryKeys (repositories : List RepositoryTransition) :
    Planning (fetchRepositoryKeys repositories) := by
  induction repositories with
  | nil => exact Prog.only_pure _
  | cons repository repositories ih =>
      refine Prog.only_bind (planning_ask rfl) fun answer => ?_
      cases answer with
      | error e => exact Prog.only_pure _
      | ok u => exact ih

theorem planning_fetchVerifiedManifest (ext : Externals) (installed : ReleaseIdentity)
    (lastSequence : Option ℕ) (channel : ManifestChannelPolicy) :
    Planning (fetchVerifiedManifest ext installed lastSequence channel) := by
  refine Prog.only_bind (planning_ask rfl) fun answer => ?_
  cases answer with
  | error e => exact Prog.only_pure _
  | ok document =>
      refine Prog.only_bind (planning_verifyManifestFiles ext document installed lastSequence channel)
        fun answer => ?_
      cases answer with
      | error e => exact Prog.only_pure _
      | ok manifest =>
          refine Prog.only_bind (planning_fetchRepositoryKeys _) fun answer => ?_
          cases answer <;> exact Prog.only_pure _

theorem quiet_checkPayloads (id : String) (manifest : ReleaseManifest)
    (installed : List InstalledPackage) : Quiet (checkPayloads id manifest installed) := by
  unfold checkPayloads
  split_ifs
  · exact Prog.only_pure _
  · refine Prog.only_bind (quiet_ask rfl) fun answer => ?_
    cases answer <;> exact Prog.only_pure _

section

variable (ext : Externals) (confirmed : PlannedUpdate) (manifest : ReleaseManifest)

theorem silent_confirmRelease : Silent operationId (confirmRelease ext confirmed manifest) :=
  silent_bind silent_get fun _ =>
  silent_bind (silent_failIf _ _) fun _ =>
  silent_bind (silent_orFail _ _) fun _ =>
  silent_bind (silent_attempt _ planning_readLastManifestSequence.quiet) fun _ =>
  silent_bind (silent_attempt _ (quiet_ask rfl)) fun _ =>
  silent_bind (silent_attempt _ (planning_fetchVerifiedManifest _ _ _ _).quiet) fun _ =>
  silent_bind (silent_failIf _ _) fun _ => silent_pure _

theorem silent_prepareRelease (document : SignedDocument) :
    Silent operationId (prepareRelease operationId confirmed manifest document) :=
  silent_bind (silent_recordInventory _ _) fun _ =>
  silent_bind (silent_attempt _ (quiet_ask rfl)) fun _ =>
  silent_bind (silent_attempt _ (quiet_ask rfl)) fun _ =>
  silent_bind (silent_attempt _ (planning_fetchRepositoryKeys _).quiet) fun _ =>
  silent_bind (silent_attempt _ (quiet_ask rfl)) fun _ =>
  silent_bind (silent_attempt _ (quiet_ask rfl)) fun _ =>
  silent_attempt _ (quiet_ask rfl)

theorem silent_revalidateStagedSolver (xml : List Char) :
    Silent operationId (revalidateStagedSolver ext operationId confirmed manifest xml) :=
  silent_bind silent_get fun _ =>
  silent_bind (silent_attempt _ (quiet_ask rfl)) fun _ => silent_orFail _ _

theorem body_stagedTransaction {mode : TransactionMode} {f : Command → Worker α}
    (hfail : Failing r s) (hf : ∀ arguments,
      wpE (workerContract operationId) (Body Q) (f (.transaction mode arguments)) r s) :
    wpE (workerContract operationId) (Body Q)
      (stagedTransaction confirmed manifest mode >>= f) r s := by
  unfold stagedTransaction
  rw [bind_assoc, wpE_bind, wpE_orFail]
  cases transactionArguments manifest confirmed.plan.installedPackages mode with
  | error e => exact hfail
  | ok arguments => exact hf arguments

theorem body_downloadRelease {Q : Unit → OperationStateRecord → WorkerState → Prop}
    (hs : At .locked r s) (hok : ∀ r' s', At .downloading r' s' → Q () r' s') :
    wpE (workerContract operationId) (Body Q)
      (downloadRelease ext operationId confirmed manifest) r s := by
  unfold downloadRelease
  refine body_bind (P := fun _ r' s' => At .downloading r' s')
    (body_advanceTo hs rfl (by decide) (fun r' h => ?_) rfl fun r' s' _ hs' _ => hs') ?_
  · exact .downloading hs.phase (by rw [hs.record]; exact h)
  rintro ⟨⟩ r₁ s₁ hs₁
  refine body_silent (silent_runRequired _ rfl) (hs₁.failing rfl) fun _ s₂ h₂ => ?_
  refine body_bind (body_pollCancel (Q := fun _ r' s' => At .downloading r' s' ∧ r' = r₁)
    (hs₁.follows h₂) fun s' hs' _ => ⟨hs', rfl⟩) ?_
  rintro ⟨⟩ _ s₃ ⟨hs₃, rfl⟩
  refine body_stagedTransaction _ _ (hs₃.failing rfl) fun plan => ?_
  refine body_silent (silent_runRequired _ rfl) (hs₃.failing rfl) fun dryRun s₄ h₄ => ?_
  refine body_silent (silent_revalidateStagedSolver ext confirmed manifest _) ((hs₃.failing rfl).follows h₄) fun _ s₅ h₅ => ?_
  refine body_bind (body_pollCancel (Q := fun _ r' s' => At .downloading r' s')
    (hs₃.follows (h₄.trans h₅)) fun s' hs' _ => hs') ?_
  rintro ⟨⟩ r₆ s₆ hs₆
  refine body_stagedTransaction _ _ (hs₆.failing rfl) fun download => ?_
  refine body_silent (silent_runRequired _ rfl) (hs₆.failing rfl) fun output s₇ h₇ => ?_
  refine body_silent (silent_revalidateStagedSolver ext confirmed manifest _) ((hs₆.failing rfl).follows h₇) fun _ s₈ h₈ => ?_
  refine body_bind (body_pollCancel (Q := fun _ r' s' => At .downloading r' s')
    (hs₆.follows (h₇.trans h₈)) fun s' hs' _ => hs') ?_
  rintro ⟨⟩ r₉ s₉ hs₉
  refine body_silent (silent_attempt _ (quiet_checkPayloads ..)) (hs₉.failing rfl) fun _ s₁₀ h₁₀ => ?_
  refine wpE_mono ?_ (silent_attempt _ (planning_validateTime ext manifest).quiet r₉ s₁₀)
  rintro res _ s₁₁ ⟨rfl, h₁₁⟩
  have hs₁₁ := hs₉.follows (h₁₀.trans h₁₁)
  cases res with
  | error e => exact hs₁₁.failing rfl
  | ok u => exact hok _ s₁₁ hs₁₁

/-- The marker is made, or was there for this operation. -/
theorem body_stageSystemUpdate {Q : Unit → OperationStateRecord → WorkerState → Prop}
    (hs : At .saved r s) (hok : ∀ s', At .saved r s' → Q () r s') :
    wpE (workerContract operationId) (Body Q) (stageSystemUpdate operationId) r s := by
  unfold stageSystemUpdate
  refine body_silent (silent_attempt _ (quiet_ask rfl)) (hs.failing rfl) fun marker s₁ h₁ => ?_
  replace hs := hs.follows h₁
  cases marker with
  | operation other =>
      dsimp only
      rw [wpE_failIf]
      exact ⟨fun _ => hs.failing rfl, fun _ => hok s₁ hs⟩
  | absent =>
      dsimp only
      rw [wpE_attempt]
      refine wp_ask (e := .linkMarker operationId) ⟨rfl, hs.phase⟩ fun answer _ => ?_
      have hs₂ : At .saved r (s₁.next ⟨Op.linkMarker operationId, answer⟩) := ⟨hs.phase, hs.record⟩
      cases answer with
      | error e => exact hs₂.failing rfl
      | ok u => exact hok _ hs₂
  | foreign | invalid => exact hs.failing rfl

/-- **A worker that stages a signed operation** keeps to the protocol. -/
theorem wpE_stageReleaseUpgrade (hs : At .waiting r s) :
    wpE (workerContract operationId) Ends
      (stageReleaseUpgrade ext operationId confirmed manifest) r s := by
  unfold stageReleaseUpgrade
  refine wpE_withTransactionLock hs fun s₁ hs₁ => ?_
  refine body_silent (silent_confirmRelease ext confirmed manifest) (hs₁.failing rfl) fun document s₂ h₂ => ?_
  refine body_silent (silent_prepareRelease confirmed manifest document) ((hs₁.failing rfl).follows h₂) fun _ s₃ h₃ => ?_
  refine body_bind (body_downloadRelease (Q := fun _ r' s' => At .downloading r' s') ext confirmed
    manifest (hs₁.follows (h₂.trans h₃)) fun r' s' hs' => hs') ?_
  rintro ⟨⟩ r₄ s₄ hs₄
  refine body_bind (body_takeSnapshot (Q := fun _ r' s' => At .saved r' s') _ hs₄
    fun r' s' hs' _ => hs') ?_
  rintro ⟨⟩ r₅ s₅ hs₅
  refine body_bind (body_stageSystemUpdate (Q := fun _ r' s' => At .saved r' s') hs₅
    fun s' hs' => hs') ?_
  rintro ⟨⟩ r₆ s₆ hs₆
  refine body_bind (P := fun _ r' s' => At .finished r' s')
    (body_advanceTo hs₆ rfl (by decide) (fun r' h => ?_) rfl ?_) ?_
  · exact .ready hs₆.phase (by rw [hs₆.record]; exact h)
  · intro r' s' h hs' _
    obtain ⟨-, -, -, rfl⟩ := OperationStateRecord.transitionTo_eq_ok.mp h
    exact hs'
  · rintro ⟨⟩ r₇ s₇ hs₇
    exact hs₇

end

/-! ## Start -/

variable (ext : Externals)

/-- Where a worker thread ends. -/
def Closes : Exit → WorkerState → Prop
  | .worker (.ok _), s => s.phase = .closed .succeeded
  | .worker (.error _), s => s.phase = .closed .cancelled ∨ s.phase = .closed .reported ∨
      s.phase = .closed .unreported
  | .answered _, s => s.phase = .start ∨ s.phase = .waiting ∨ s.phase = .closed .refused
  | _, _ => False

/-- Where the execution leaves a worker whose record the thread has in memory. -/
def Leaves (operationId : String) : Except ExecutionError α → OperationStateRecord → WorkerState →
    Prop
  | .ok _, _, s => s.phase = .closed .succeeded
  | .error _, r, s => (s.phase = .ended ∨ s.phase = .waiting) ∧ s.record = r ∧
      r.operationId = operationId

/-- The protocol's own invariant, added to what is known at the end of a program. -/
theorem wp_sound {Q : α → WorkerState → Prop} {p : Prog Sig α}
    (hs : s.phase.hasWorker → Sound operationId s)
    (h : p.wp (workerContract operationId) Q s) :
    p.wp (workerContract operationId)
      (fun a s' => Q a s' ∧ (s'.phase.hasWorker → Sound operationId s')) s := by
  refine Prog.wp_invariant (I := fun s => s.phase.hasWorker → Sound operationId s) ?_ hs h
  rintro e s answer _ hsound hallow ⟨hvalid, rfl⟩
  exact sound_next hallow hvalid hsound

theorem wpE_execution (planned : PendingPlan) (hs : At .waiting r s)
    (hsound : Sound operationId s) :
    wpE (workerContract operationId) (Leaves operationId) (execution ext operationId planned) r s := by
  have hleaves : ∀ {x : Worker ExecutionOutcome}, wpE (workerContract operationId) Ends x r s →
      wpE (workerContract operationId) (Leaves operationId) x r s := by
    intro x hx
    refine Prog.wp_mono ?_ (wp_sound (fun _ => hsound) hx)
    rintro ⟨res, r'⟩ s' ⟨hends, hsound'⟩
    cases res with
    | ok outcome => exact hends
    | error error =>
        have hid := (hsound' (by rw [hends.phase]; rfl)).id
        rw [hends.record] at hid
        exact ⟨.inl hends.phase, hends.record, hid⟩
  unfold execution
  rw [wpE_bind, wpE_get]
  dsimp only
  cases r.operation with
  | updateWithinRelease => exact hleaves (wpE_executeUpdate _ _ hs)
  | releaseUpgrade | packageMigration =>
      dsimp only
      cases planned.manifest with
      | none => exact ⟨.inr hs.phase, hs.record, by rw [← hs.record]; exact hsound.id⟩
      | some manifest => exact hleaves (wpE_stageReleaseUpgrade _ _ _ hs)

/-- The record is looked at before a failure is written to it. -/
theorem wp_workerThread (planned : PendingPlan) (hs : At .waiting r s)
    (hsound : Sound operationId s) :
    (workerThread ext r planned).wp (workerContract operationId) Closes s := by
  have hid : r.operationId = operationId := by rw [← hs.record]; exact hsound.id
  unfold workerThread
  rw [hid, Prog.wp_bind]
  refine Prog.wp_mono ?_ (wpE_execution ext planned hs hsound)
  rintro ⟨result, r'⟩ s' hleaves
  cases result with
  | ok outcome => exact hleaves
  | error error =>
      obtain ⟨hphase, hrecord, hid'⟩ := hleaves
      dsimp only at hrecord hid' ⊢
      rw [hid', Prog.wp_bind]
      refine wp_ask (e := .load operationId) ⟨rfl, ?_⟩ fun answer _ => ?_
      · rcases hphase with hphase | hphase
        · exact .inr (.inr (.inr hphase))
        · exact .inr (.inl hphase)
      have hloaded : (s'.next ⟨Op.load operationId, answer⟩).phase =
          if isCancelled answer then .closed .cancelled else .reporting := by
        change phaseAfterLoad answer s'.phase = _
        rcases hphase with hphase | hphase <;> rw [hphase] <;> rfl
      have hrecord' : (s'.next ⟨Op.load operationId, answer⟩).record = r' := by
        change nextRecord s'.phase s'.record ⟨Op.load operationId, answer⟩ = r'
        rcases hphase with hphase | hphase <;> rw [hphase, ← hrecord] <;> cases answer <;> rfl
      split_ifs with hcancelled
      · rw [if_pos hcancelled] at hloaded
        exact .inl hloaded
      · rw [if_neg hcancelled] at hloaded
        rw [Prog.wp_bind]
        refine wp_ask_quiet rfl fun timestamp hf => ?_
        rw [Prog.wp_bind]
        refine wp_ask (.failure (hf.phase.trans hloaded) error timestamp
          (by rw [hf.record, hrecord'])) fun saved _ => ?_
        have hclosed : ∀ p, p = Phase.reporting → ∀ a : Except PersistenceError Unit,
            nextPhase p ⟨Op.save (failureRecord error r' timestamp), a⟩ = .closed .reported ∨
            nextPhase p ⟨Op.save (failureRecord error r' timestamp), a⟩ = .closed .unreported := by
          rintro _ rfl (e | u)
          · exact .inr rfl
          · exact .inl rfl
        exact .inr (hclosed _ (hf.phase.trans hloaded) saved)

/-- A program that is quiet leaves the phase, and answers a request. -/
theorem wp_rejected (code : String)
    (hs : s.phase = .start ∨ s.phase = .waiting ∨ s.phase = .closed .refused) :
    (rejected code).wp (workerContract operationId) Closes s := by
  change Prog.wp _ _ (ask (.respond (.rejected code)) >>= _) s
  rw [Prog.wp_bind]
  refine wp_ask_quiet rfl fun _ hf => ?_
  rw [Prog.wp_pure, Closes, hf.phase]
  exact hs

/-- The record is read, and the worker starts where it awaits confirmation. -/
theorem wp_startWorker (request : StartRequest) (planned : Option PendingPlan)
    (hs : s.phase = .start) :
    (startWorker ext request planned).wp (workerContract request.operationId) Closes s := by
  unfold startWorker
  cases planned with
  | none => exact wp_rejected _ (.inl hs)
  | some planned =>
      dsimp only
      split_ifs
      · exact wp_rejected _ (.inl hs)
      rw [Prog.wp_bind]
      refine wp_ask (e := .load request.operationId) ⟨rfl, .inl hs⟩ fun answer hvalid => ?_
      have hphase : (s.next ⟨Op.load request.operationId, answer⟩).phase =
          phaseAfterLoad answer .start := by rw [← hs]; rfl
      have hnosound : s.phase.hasWorker → Sound request.operationId s := by
        rw [hs]; exact fun h => by cases h
      have hsound := sound_next (e := .load request.operationId) (.inr ⟨rfl, .inl hs⟩) hvalid
        hnosound
      cases answer with
      | error e => exact wp_rejected _ (.inr (.inr hphase))
      | ok r =>
          have hrecord : (s.next ⟨Op.load request.operationId, Except.ok r⟩).record = r :=
            if_pos hs
          dsimp only
          by_cases hstate : r.state = .awaitingConfirmation
          · have hwaiting : (s.next ⟨Op.load request.operationId, Except.ok r⟩).phase = .waiting := by
              rw [hphase, phaseAfterLoad]; exact if_pos hstate
            have hat : At .waiting r (s.next ⟨Op.load request.operationId, Except.ok r⟩) :=
              ⟨hwaiting, hrecord⟩
            replace hsound := hsound (by rw [hwaiting]; rfl)
            rw [if_neg (not_not_intro hstate), Prog.wp_bind]
            refine wp_ask_quiet rfl fun failed h₁ => ?_
            split_ifs
            · exact wp_rejected _ (.inr (.inl (h₁.phase.trans hwaiting)))
            rw [Prog.wp_bind]
            refine wp_ask_quiet rfl fun complete h₂ => ?_
            split_ifs
            · exact wp_rejected _ (.inr (.inl ((h₁.trans h₂).phase.trans hwaiting)))
            rw [Prog.wp_bind]
            refine wp_ask_quiet rfl fun _ h₃ => ?_
            have hfollows := h₁.trans (h₂.trans h₃)
            exact wp_workerThread ext planned (hat.follows hfollows) (hsound.follows hfollows)
          · rw [if_pos hstate]
            refine wp_rejected _ (.inr (.inr ?_))
            rw [hphase, phaseAfterLoad]
            exact if_neg hstate

theorem quiet_operationOwnedBy (id : String) (uid : ℕ) : Quiet (operationOwnedBy id uid) := by
  unfold operationOwnedBy
  split_ifs
  · exact Prog.only_pure _
  · exact Prog.only_bind (quiet_ask rfl) fun _ => Prog.only_pure _

theorem planning_releaseManifest : Planning (releaseManifest ext) := by
  refine Prog.only_bind (planning_ask rfl) fun installed => ?_
  cases installed with
  | error e => exact Prog.only_pure _
  | ok installed =>
      refine Prog.only_bind (planning_ask rfl) fun channel => ?_
      cases channel with
      | error e => exact Prog.only_pure _
      | ok channel =>
          refine Prog.only_bind planning_readLastManifestSequence fun lastSequence => ?_
          cases lastSequence with
          | error e => exact Prog.only_pure _
          | ok lastSequence =>
              refine Prog.only_bind (planning_fetchVerifiedManifest ..) fun fetched => ?_
              cases fetched <;> exact Prog.only_pure _

theorem planning_authoritativePlan (planSha256 : String) (submitted : PlannedUpdate) :
    Planning (authoritativePlan ext planSha256 submitted) := by
  unfold authoritativePlan
  dsimp only
  cases submitted.plan.operation with
  | updateWithinRelease =>
      exact Prog.only_bind (planning_planUpdate _) fun _ => Prog.only_pure _
  | releaseUpgrade | packageMigration =>
      refine Prog.only_bind (planning_releaseManifest ext) fun manifest => ?_
      cases manifest with
      | error e => exact Prog.only_pure _
      | ok manifest =>
          dsimp only
          split_ifs
          · exact Prog.only_pure _
          · refine Prog.only_bind (planning_ask rfl) fun simulated => ?_
            cases simulated <;> exact Prog.only_pure _

theorem quiet_pendingPlan (request : StartRequest) : Quiet (pendingPlan request) := by
  unfold pendingPlan
  cases request.cached with
  | some plan => exact Prog.only_pure _
  | none =>
      refine Prog.only_bind (quiet_ask rfl) fun answer => ?_
      cases answer <;> exact Prog.only_pure _

/-- A new operation gets its record only where no directory was found. -/
theorem wp_createOperation {request : StartRequest} {initial : OperationStateRecord}
    (pending : PendingPlan) (hs : s.phase = .start)
    (hinitial : IsInitial request.operationId initial)
    (habsent : ⟨Op.directoryExists request.operationId, false⟩ ∈ s.events) :
    (createOperation request initial pending).wp (workerContract request.operationId)
      (fun _ s' => s'.phase = .start) s := by
  unfold createOperation
  rw [Prog.wp_bind]
  refine wp_ask (e := .save initial) (.initial hs hinitial habsent) fun answer _ => ?_
  have hphase : ∀ p, p = Phase.start → ∀ a : Except PersistenceError Unit,
      nextPhase p ⟨Op.save initial, a⟩ = .start := by rintro _ rfl (e | u) <;> rfl
  have hstart := hphase _ hs answer
  cases answer with
  | error e => exact hstart
  | ok u =>
      dsimp only
      rw [Prog.wp_bind]
      refine wp_ask_quiet rfl fun written h₁ => ?_
      cases written with
      | error e => exact h₁.phase.trans hstart
      | ok u =>
          dsimp only
          rw [Prog.wp_bind]
          refine wp_ask_quiet rfl fun owned h₂ => ?_
          have hphase₂ := (h₁.trans h₂).phase.trans hstart
          cases owned <;> exact hphase₂

theorem wp_startNew (request : StartRequest) (hs : s.phase = .start) :
    (startNew ext request).wp (workerContract request.operationId) Closes s := by
  unfold startNew
  rw [Prog.wp_bind]
  refine wp_ask_quiet rfl fun present h₁ => ?_
  cases present with
  | true => exact wp_rejected _ (.inl (h₁.phase.trans hs))
  | false =>
      have habsent : ⟨Op.directoryExists request.operationId, false⟩ ∈
          (s.next ⟨Op.directoryExists request.operationId, false⟩).events :=
        List.mem_append_right _ (List.mem_singleton_self _)
      rw [if_neg Bool.false_ne_true, Prog.wp_bind]
      refine Prog.wp_mono ?_ (wp_quiet (planning_authoritativePlan ext _ _).quiet _)
      intro authoritative s₂ h₂
      have hs₂ := (h₁.trans h₂).phase.trans hs
      cases authoritative with
      | error code => exact wp_rejected _ (.inl hs₂)
      | ok authoritative =>
          dsimp only
          rw [Prog.wp_bind]
          refine wp_ask_quiet rfl fun timestamp h₃ => ?_
          rw [Prog.wp_bind]
          refine Prog.wp_mono ?_ (wp_createOperation _ (h₃.phase.trans hs₂)
            ⟨rfl, rfl, rfl, rfl, rfl⟩ ((h₂.trans h₃).events.subset habsent))
          intro created s₄ hs₄
          split_ifs
          · exact wp_startWorker ext request _ hs₄
          · exact wp_rejected _ (.inl hs₄)

/-- **A Start request and its worker keep to the protocol.** -/
theorem wp_start (request : StartRequest) (hs : s.phase = .start) :
    (start ext request).wp (workerContract request.operationId) Closes s := by
  unfold start
  split_ifs
  · exact wp_rejected _ (.inl hs)
  · exact wp_rejected _ (.inl hs)
  rw [Prog.wp_bind]
  refine Prog.wp_mono ?_ (wp_quiet (quiet_operationOwnedBy _ _) s)
  intro owned s₁ h₁
  split_ifs
  · rw [Prog.wp_bind]
    refine Prog.wp_mono ?_ (wp_quiet (quiet_pendingPlan request) s₁)
    intro planned s₂ h₂
    exact wp_startWorker ext request planned ((h₁.trans h₂).phase.trans hs)
  · exact wp_startNew ext request (h₁.phase.trans hs)

end

end LyraUpgrade
