import LyraUpgrade.Offline.Executor
import LyraUpgrade.System.Reliable
import LyraUpgrade.System.Simulation

/-!
# Cleaning up after a failed offline run

When the offline executor fails, it marks the operation for recovery, removes
`/system-update` and reboots, so that the machine does not start the same request
again.  `save_state` has the last word on the record, though: without a snapshot
number a record is refused in the state `NeedsRecovery`, and then the marker stays.
-/

namespace LyraUpgrade

open Interaction

section

variable {w : World} {id : String} {r : OperationStateRecord}

/-! ## The marker -/

/-- `/system-update` names the directory of the operation. -/
structure World.Marks (w : World) (id : String) : Prop where
  marker : w.marker = .operation id
  present : (w.operations id).present

theorem World.Marks.putState (h : w.Marks id) : (w.putState r).Marks id where
  marker := h.marker
  present := World.present_modify h.present _ _

theorem yields_resolve (h : w.Marks id) : Yields resolve w (.ok (some id)) w := by
  refine Machine.Yields.bind yields_readMarker ?_
  rw [h.marker]
  refine Machine.Yields.bind yields_directoryExists ?_
  rw [h.present]
  exact .pure _

theorem yields_requireCurrent (h : w.Marks id) : Yields (requireCurrent id) w (.ok ()) w := by
  refine (yields_resolve h).bind ?_
  dsimp only
  rw [if_pos rfl]
  exact .pure _

theorem yields_removeCurrent (h : w.Marks id) :
    Yields (removeCurrent id) w (.ok ()) { w with marker := .absent } := by
  have hmarker : w.marker ≠ .absent := by rw [h.marker]; nofun
  exact (yields_requireCurrent h).bind ((yields_unlinkMarker hmarker).bind (.pure _))

/-! ## The record of the failure -/

/-- A record that could be read can be marked for recovery exactly when it names a
snapshot. -/
theorem loadable_offlineFailureRecord (h : Loadable r) :
    Loadable (offlineFailureRecord r) ↔ r.snapshotNumber.isSome := by
  constructor
  · intro hfailure
    exact hfailure.valid.snapshot_isSome rfl
  · intro hsnapshot
    refine ⟨h.id, h.valid.move rfl rfl rfl rfl rfl rfl rfl rfl (fun _ => hsnapshot) ?_⟩
    intro goal _
    exact ⟨rfl, .inl rfl⟩

/-- With a snapshot number, the record is marked and the marker removed. -/
theorem yields_markRecovery (hmarks : w.Marks r.operationId)
    (hw : w.state r.operationId = .record r) (h : Loadable r)
    (hsnapshot : r.snapshotNumber.isSome) :
    Yields (markRecovery r.operationId) w (.ok ())
      { w.putState (offlineFailureRecord r) with marker := .absent } := by
  have hsave := (loadable_offlineFailureRecord h).mpr hsnapshot
  refine (yields_requireCurrent hmarks).bind (yields_load.bind ?_)
  rw [loadState_eq_ok.mpr ⟨hw, rfl, h⟩]
  exact (yields_save hsave).bind (yields_removeCurrent hmarks.putState)

/-- Without one, nothing changes. -/
theorem yields_markRecovery_error (hmarks : w.Marks r.operationId)
    (hw : w.state r.operationId = .record r) (h : Loadable r) (hnone : r.snapshotNumber = none) :
    Yields (markRecovery r.operationId) w (.error "cannot persist recovery state") w := by
  refine (yields_requireCurrent hmarks).bind (yields_load.bind ?_)
  rw [loadState_eq_ok.mpr ⟨hw, rfl, h⟩]
  cases hcheck : checkSave (offlineFailureRecord r) with
  | error e => exact (yields_save_error hcheck).bind (.pure _)
  | ok u =>
      have hsome := (loadable_offlineFailureRecord h).mp (checkSave_eq_ok.mp hcheck)
      rw [hnone] at hsome
      cases hsome

/-! ## The end of a failed run -/

/-- The operation is left to recovery, the marker is gone, and the reboot was asked for. -/
structure CleanedUp (id : String) (w : World) (t : Trace) : Prop where
  recovery : ∃ saved, w.state id = .record saved ∧ saved.state = .needsRecovery ∧
    saved.errorCode.isSome
  marker : w.marker = .absent
  rebooted : ∃ output, ⟨Op.run id .reboot, output⟩ ∈ t

theorem wp_rebootAfterCleanup (hmarker : w.marker = .absent) (t : Trace)
    {Q : Except String Unit → World × Trace → Prop}
    (hQ : ∀ result t' output, ⟨Op.run id .reboot, output⟩ ∈ t' → Q result (w, t')) :
    (rebootAfterCleanup id).wp reliable Q (w, t) := by
  obtain ⟨t', ht'⟩ := yields_readMarker.wp_bind (w := w) _ t
  rw [rebootAfterCleanup, ht', hmarker]
  dsimp only
  rw [Prog.wp_bind]
  refine ⟨trivial, ?_⟩
  rintro output ⟨w', t''⟩ ⟨hexec, htrace⟩
  obtain rfl : w' = w := hexec
  obtain rfl : t'' = t' ++ [_] := htrace
  exact hQ _ _ output (by simp)

theorem wp_finishOwnedOperation (hmarks : w.Marks r.operationId)
    (hw : w.state r.operationId = .record r) (h : Loadable r)
    (hsnapshot : r.snapshotNumber.isSome) (error : String) :
    (finishOwnedOperation r.operationId true (.error error)).wp reliable
      (fun _ s => CleanedUp r.operationId s.1 s.2) (w, []) := by
  obtain ⟨t, ht⟩ := (yields_markRecovery hmarks hw h hsnapshot).wp_bind _ []
  rw [finishOwnedOperation, ht]
  dsimp only
  rw [if_pos rfl, Prog.wp_bind]
  refine wp_rebootAfterCleanup rfl t fun result t' output houtput => ?_
  have hclean : CleanedUp r.operationId
      { w.putState (offlineFailureRecord r) with marker := .absent } t' :=
    ⟨⟨_, World.state_putState_self (offlineFailureRecord r), rfl, rfl⟩, rfl, output, houtput⟩
  cases result with
  | error e => exact hclean
  | ok u => exact hclean

theorem not_wp_finishOwnedOperation (hmarks : w.Marks r.operationId)
    (hw : w.state r.operationId = .record r) (h : Loadable r) (hnone : r.snapshotNumber = none)
    (error : String) :
    ¬ (finishOwnedOperation r.operationId true (.error error)).wp reliable
      (fun _ s => CleanedUp r.operationId s.1 s.2) (w, []) := by
  obtain ⟨t, ht⟩ := (yields_markRecovery_error hmarks hw h hnone).wp_bind _ []
  rw [finishOwnedOperation, ht]
  intro hclean
  -- the marker is still there
  have hmarker : w.marker = .absent := CleanedUp.marker hclean
  rw [hmarks.marker] at hmarker
  cases hmarker

/-- **A failed offline run cleans up after itself** exactly when the record names a
snapshot. -/
theorem failed_run_cleaned_up (hmarks : w.Marks r.operationId)
    (hw : w.state r.operationId = .record r) (h : Loadable r) (error : String) :
    (finishOwnedOperation r.operationId true (.error error)).wp reliable
      (fun _ s => CleanedUp r.operationId s.1 s.2) (w, []) ↔ r.snapshotNumber.isSome := by
  constructor
  · intro hclean
    by_contra hsnapshot
    exact not_wp_finishOwnedOperation hmarks hw h (by simpa using hsnapshot) error hclean
  · intro hsnapshot
    exact wp_finishOwnedOperation hmarks hw h hsnapshot error

end

namespace Sample

/-- A release upgrade that was cancelled; with a snapshot, if it had one before. -/
def cancelledRecord (snapshotNumber : Option ℕ) : OperationStateRecord :=
  { record with
    operation := .releaseUpgrade
    target := some target
    manifestSha256 := some updateSha256
    state := .failed
    errorCode := some "CANCELLED"
    snapshotNumber := snapshotNumber }

theorem loadable_cancelledRecord :
    Loadable (cancelledRecord none) ∧ Loadable (cancelledRecord (some 7)) := by
  constructor <;> decide +kernel

/-- The machine boots into the request of that operation. -/
def markedWorld (r : OperationStateRecord) : World :=
  { world with
    operations := fun id => if id = operationId then { directory with state := .record r } else {}
    marker := .operation operationId }

theorem marks_markedWorld (r : OperationStateRecord) : (markedWorld r).Marks operationId :=
  ⟨rfl, rfl⟩

theorem state_markedWorld (r : OperationStateRecord) :
    (markedWorld r).state operationId = .record r := rfl

end Sample

theorem failed_run_cleaned_up_sample :
    (finishOwnedOperation Sample.operationId true
      (.error "operation is not ready for offline application")).wp reliable
      (fun _ s => CleanedUp Sample.operationId s.1 s.2)
      (Sample.markedWorld (Sample.cancelledRecord (some 7)), []) :=
  (failed_run_cleaned_up (r := Sample.cancelledRecord (some 7)) (Sample.marks_markedWorld _)
    (Sample.state_markedWorld _) Sample.loadable_cancelledRecord.2 _).mpr rfl

/-- A cancelled operation without a snapshot, whose marker was set by its worker. -/
theorem failed_run_not_cleaned_up : ¬ ∀ (w : World) (r : OperationStateRecord) (error : String),
    w.Marks r.operationId → w.state r.operationId = .record r → Loadable r →
    (finishOwnedOperation r.operationId true (.error error)).wp reliable
      (fun _ s => CleanedUp r.operationId s.1 s.2) (w, []) := by
  intro h
  exact not_wp_finishOwnedOperation (Sample.marks_markedWorld _) (Sample.state_markedWorld _)
    Sample.loadable_cancelledRecord.1 rfl "operation is not ready for offline application"
    (h (Sample.markedWorld (Sample.cancelledRecord none)) (Sample.cancelledRecord none) _
      (Sample.marks_markedWorld _) (Sample.state_markedWorld _) Sample.loadable_cancelledRecord.1)

end LyraUpgrade
