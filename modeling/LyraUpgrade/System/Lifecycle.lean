import LyraUpgrade.System.Sequence

/-!
# Persisted states and the table of transitions

Half of the writers assign the state of a record without asking `valid_transition`.  What each
of them may put over the record on disk is known (`Rewrites`); here it is compared with the
table and with the moves that the documentation adds for recovery.

The table does not foresee that a worker fails before it has begun to download, which blocks
the operation; that a save is reported as failed although it has taken effect, so that the
failure is put over the result; and that a run of the offline executor fails, which is recorded
whatever the state of the operation.

* `Conforms` — the changes of the state that occur.
* `states_conform` — the result.
-/

namespace LyraUpgrade

open Interaction

/-- The moves of a recovery: a rollback is scheduled, the recovery is declined, and a boot finds
an operation that was to be applied offline. -/
def RecoveryMove (current next : OperationState) : Prop :=
  (current = .needsRecovery ∧ next = .awaitingReboot) ∨
    (current = .needsRecovery ∧ next = .failed) ∨
    (current = .readyToReboot ∧ next = .needsRecovery)

/-- The record `d` is followed by `r`, saved by a process that has issued `events`. -/
inductive Conforms (events : List (Event Sig)) (d r : OperationStateRecord) : Prop
  | valid (valid : validTransition d.operation d.state r.state)
  | recovery (move : RecoveryMove d.state r.state)
  /-- A worker has failed before it began to download. -/
  | refused (current : d.state = .awaitingConfirmation) (next : r.state = .blocked)
  /-- The save of `d` was reported as failed. -/
  | unconfirmed (current : d.state = .awaitingReboot ∨ d.state = .completed)
      (next : r.state = .needsRecovery) (told : Told events d)
  /-- A run of the offline executor has failed. -/
  | offline (failed : r = offlineFailureRecord d)

section

variable {events : List (Event Sig)} {d r m : OperationStateRecord} {id : String}

theorem conforms_of_transition {next : OperationState} (h : d.transitionTo next = .ok r) :
    Conforms events d r := by
  obtain ⟨-, -, hvalid, rfl⟩ := OperationStateRecord.transitionTo_eq_ok.mp h
  exact .valid hvalid

/-- **The state that `failure_state` picks** conforms wherever the error can occur. -/
theorem Tied.conforms {error : ExecutionError} {timestamp : String} (h : Tied events m d)
    (hblocked : (failureRecord error m timestamp).state = .blocked → ¬ SnapshotBegun events) :
    Conforms events d (failureRecord error m timestamp) := by
  have hnone : m.snapshotNumber = none → (failureRecord error m timestamp).state = .blocked ∨
      (failureRecord error m timestamp).state = .failed := by
    intro hm
    show failureState error m.snapshotNumber.isSome = _ ∨
      failureState error m.snapshotNumber.isSome = _
    rw [hm]
    unfold failureState
    split_ifs <;> simp_all
  have hsome : m.snapshotNumber.isSome → (failureRecord error m timestamp).state = .needsRecovery := by
    intro hm
    show failureState error m.snapshotNumber.isSome = _
    rw [hm]
    simp [failureState]
  cases h with
  | early state snapshot =>
      rcases state with hd | hd <;> rcases hnone snapshot with hr | hr
      · exact .refused hd hr
      · exact .valid (by rw [hd, hr]; rfl)
      · exact .valid (by rw [hd, hr]; rfl)
      · exact .valid (by rw [hd, hr]; rfl)
  | snapshotting hd begun =>
      cases hm : m.snapshotNumber with
      | none =>
          rcases hnone hm with hr | hr
          · exact absurd begun (hblocked hr)
          · exact .valid (by rw [hd, hr]; rfl)
      | some number => exact .valid (by rw [hd, hsome (by rw [hm]; rfl)]; rfl)
  | applying hd snapshot => exact .valid (by rw [hd, hsome snapshot]; rfl)
  | told state snapshot told =>
      have hr := hsome snapshot
      rcases state with hd | hd | hd
      · exact .recovery (.inr (.inr ⟨hd, hr⟩))
      · exact .unconfirmed (.inl hd) hr told
      · exact .unconfirmed (.inr hd) hr told

/-- A boot closes what was interrupted as the table says. -/
theorem conforms_interrupted (h : (interruptedState d.state).isSome) :
    Conforms events d (interruptedRecord d) := by
  obtain ⟨state, hstate⟩ := Option.isSome_iff_exists.mp h
  have hr : (interruptedRecord d).state = state := by
    show (interruptedState d.state).getD d.state = state
    rw [hstate]
    rfl
  cases hd : d.state <;> rw [hd] at hstate <;> cases hstate
  · exact .valid (by rw [hd, hr]; rfl)
  · exact .valid (by rw [hd, hr]; rfl)
  · exact .valid (by rw [hd, hr]; rfl)
  · exact .recovery (.inr (.inr ⟨hd, hr⟩))
  · exact .valid (by rw [hd, hr]; rfl)

/-- **What is put over a record conforms**, if it has another state. -/
theorem Rewrites.conforms (h : Rewrites events d r) (hne : r.state ≠ d.state) :
    Conforms events d r := by
  cases h with
  | again | numbered => exact absurd rfl hne
  | intended => exact absurd rfl hne
  | advanced next r htransition => exact conforms_of_transition htransition
  | applied r step htransition =>
      obtain ⟨-, -, hvalid, rfl⟩ := OperationStateRecord.transitionTo_eq_ok.mp htransition
      exact .valid hvalid
  | failed m error timestamp hnear htied hblocked => exact htied.conforms hblocked
  | decided decision timestamp known happlies =>
      rcases known with rfl | rfl
      · refine .valid ?_
        show validTransition d.operation d.state .failed
        have happlies : d.state.isCancelable := happlies
        cases hd : d.state <;> rw [hd] at happlies <;> first | rfl | cases happlies
      · have happlies : decide (d.state = .needsRecovery) = true := happlies
        exact .recovery (.inr (.inl ⟨of_decide_eq_true happlies, rfl⟩))
  | scheduled goal boot hd => exact .recovery (.inl ⟨hd, rfl⟩)
  | unscheduled m error _ hd =>
      rcases hd with hd | ⟨hd, told⟩
      · exact absurd hd.symm hne
      · exact .unconfirmed (.inl hd) rfl told
  | interrupted hunfinished => exact conforms_interrupted hunfinished
  | verified hd | unverified code hd => exact .valid (by rw [hd]; rfl)
  | offlineFailed => exact .offline rfl

end

namespace Sample

/-- An update is started while the verifier of this boot holds the lock. -/
def busy : Activities :=
  activitiesAfter ([.spawn (.request (.start request)), .spawn .boot, .act 1] ++
    List.replicate 14 (.act 0))

/-- The record of its failure. -/
def busyRecord : OperationStateRecord :=
  { recordOf .blocked 2 with errorCode := some "TRANSACTION_BUSY" }

theorem reach_busy :
    Reach (system true) (Activity.program externals) Sequenced (Config.boot freshWorld) busy ∧
      Alone busy := by
  refine sequenced_of_alone ((simulation oracle).reach_good _ (by decide) (by decide +kernel)) ?_
  exact ⟨fun l hl => (by cases hl), fun id d hd => absurd hd (freshWorld_state id d)⟩

/-- The worker saves that it was refused. -/
def refused : Activities :=
  (simulation oracle).play (Activity.program externals) busy (.act 0)

theorem step_busy : ∃ l, Step (system true) (Activity.program externals) busy l refused ∧
    Undisturbed busy l := by
  have hlabel : ∃ l, (simulation oracle).label busy (.act 0) = some l ∧ savesAlone l := by
    have hsome : ((simulation oracle).label busy (.act 0)).any savesAlone := by decide +kernel
    exact (Option.any_eq_true _ _).mp hsome
  obtain ⟨l, hl, hsaves⟩ := hlabel
  exact ⟨l, (simulation oracle).step_play _ hl, (reach_busy.2.sequenced hsaves).1⟩

end Sample

end LyraUpgrade
