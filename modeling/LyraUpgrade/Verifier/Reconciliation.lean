import LyraUpgrade.Verifier.Recovery
import LyraUpgrade.Verifier.Replay
import Mathlib.Data.String.Basic

/-!
# What one boot settles

A run of the boot verifier that has the machine to itself, on a file system that does not
fail.  What it should do is said without the order of the directory: every interrupted
operation is closed (`World.settled`), and of those that wait for the check of a boot the
latest one is checked (`World.Chosen`).  The scan finds exactly these, in whatever order
the directory lists them.

Closing can be refused: a record that is `Snapshotting` need not have a snapshot number, and
`NeedsRecovery`, where it is moved to, must have one.  Such a record ends the run before the
selected operation is looked at, and it is the only one that does (`reconciled_iff`).
-/

namespace LyraUpgrade

open Interaction

/-! ## What a boot finds -/

/-- The directory of an operation that was closed as interrupted. -/
def OperationDirectory.close (d : OperationDirectory) (r : OperationStateRecord) :
    OperationDirectory :=
  { d with present := true, state := .record (interruptedRecord r) }

namespace World

/-- The operation that `/system-update` names. -/
def marked (w : World) : Option String :=
  match w.marker with
  | .operation id => some id
  | _ => none

/-- The record of an operation directory, as the scan reads it. -/
def Stored (w : World) (r : OperationStateRecord) : Prop :=
  (w.operations r.operationId).present ∧ loadState (w.state r.operationId) r.operationId = .ok r

/-- The operation was not finished, and nothing will finish it. -/
def interrupts (w : World) (r : OperationStateRecord) : Bool :=
  (r.state ≠ .readyToReboot && (interruptedState r.state).isSome) ||
    (r.state = .readyToReboot && w.marked ≠ some r.operationId)

def Interrupted (w : World) (r : OperationStateRecord) : Prop := w.Stored r ∧ w.interrupts r

/-- The operation waits for the check of a boot. -/
def Pending (w : World) (r : OperationStateRecord) : Prop := w.Stored r ∧ isPending r

/-- Of those that wait, the one this boot is checked for. -/
def Chosen (w : World) (r : OperationStateRecord) : Prop :=
  w.Pending r ∧ ∀ r', w.Pending r' → earlierCandidate r r'

/-- The world in which every interrupted operation is closed. -/
def settled (w : World) : World :=
  { w with operations := fun id =>
      match loadState (w.state id) id with
      | .error _ => w.operations id
      | .ok r =>
          if (w.operations id).present && w.interrupts r then (w.operations id).close r
          else w.operations id }

variable {w : World} {r r' : OperationStateRecord}

theorem Stored.eq (h : w.Stored r) (h' : w.Stored r') (hid : r.operationId = r'.operationId) :
    r = r' := by
  have hload := h.2
  rw [hid, h'.2] at hload
  cases hload
  rfl

theorem Stored.state (h : w.Stored r) : w.state r.operationId = .record r :=
  (loadState_eq_ok.mp h.2).1

theorem Stored.loadable (h : w.Stored r) : Loadable r := (loadState_eq_ok.mp h.2).2.2

theorem unfinished_of_interrupts (h : w.interrupts r) : (interruptedState r.state).isSome := by
  simp only [interrupts, Bool.or_eq_true, Bool.and_eq_true, decide_eq_true_eq] at h
  rcases h with ⟨-, h⟩ | ⟨h, -⟩
  · exact h
  · rw [h]
    rfl

theorem not_interrupts_of_pending (h : isPending r) : w.interrupts r = false := by
  have hnone := interruptedState_of_pending h
  cases hinterrupts : w.interrupts r with
  | false => rfl
  | true =>
      have hsome := unfinished_of_interrupts hinterrupts
      rw [hnone] at hsome
      cases hsome

theorem settled_interrupted (h : w.Interrupted r) :
    w.settled.operations r.operationId = (w.operations r.operationId).close r := by
  obtain ⟨⟨hpresent, hload⟩, hinterrupts⟩ := h
  simp only [settled, hload, hpresent, hinterrupts, Bool.and_true, if_true]

/-- Every other directory stays. -/
theorem settled_of_not {id : String} (h : ∀ r, w.Interrupted r → r.operationId ≠ id) :
    w.settled.operations id = w.operations id := by
  unfold settled
  dsimp only
  cases hload : loadState (w.state id) id with
  | error e => rfl
  | ok r =>
      obtain ⟨-, rfl, -⟩ := loadState_eq_ok.mp hload
      refine if_neg fun hboth => ?_
      rw [Bool.and_eq_true] at hboth
      exact h r ⟨⟨hboth.1, hload⟩, hboth.2⟩ rfl

theorem settled_stored (h : w.Stored r) (hnot : w.interrupts r = false) :
    w.settled.operations r.operationId = w.operations r.operationId := by
  refine settled_of_not fun r' hr' hid => ?_
  obtain rfl := hr'.1.eq h hid
  rw [hr'.2] at hnot
  cases hnot

end World

/-! ## The order of the candidates -/

section

variable {a b c : OperationStateRecord}

theorem earlierCandidate_iff : earlierCandidate a b ↔ b.updatedAt < a.updatedAt ∨
    (b.updatedAt = a.updatedAt ∧ a.operationId ≤ b.operationId) := by
  simp [earlierCandidate]

theorem earlierCandidate_total (a b : OperationStateRecord) :
    earlierCandidate a b ∨ earlierCandidate b a := by
  rw [earlierCandidate_iff, earlierCandidate_iff]
  rcases lt_trichotomy a.updatedAt b.updatedAt with hlt | heq | hgt
  · exact .inr (.inl hlt)
  · rcases le_total a.operationId b.operationId with hle | hle
    · exact .inl (.inr ⟨heq.symm, hle⟩)
    · exact .inr (.inr ⟨heq, hle⟩)
  · exact .inl (.inl hgt)

theorem earlierCandidate_trans (hab : earlierCandidate a b) (hbc : earlierCandidate b c) :
    earlierCandidate a c := by
  rw [earlierCandidate_iff] at *
  rcases hab with hab | ⟨hab, hle⟩ <;> rcases hbc with hbc | ⟨hbc, hle'⟩
  · exact .inl (hbc.trans hab)
  · exact .inl (hbc ▸ hab)
  · exact .inl (hab ▸ hbc)
  · exact .inr ⟨hbc.trans hab, hle.trans hle'⟩

/-- Each of two records is not later than the other only if it is one operation. -/
theorem id_eq_of_earlierCandidate (hab : earlierCandidate a b) (hba : earlierCandidate b a) :
    a.operationId = b.operationId := by
  rw [earlierCandidate_iff] at hab hba
  rcases hab with hab | ⟨hab, hle⟩ <;> rcases hba with hba | ⟨hba, hle'⟩
  · exact absurd hba hab.not_gt
  · exact absurd hba hab.ne'
  · exact absurd hab hba.ne'
  · exact le_antisymm hle hle'

/-- The head of the sorted candidates is not later than any of them. -/
theorem earlierCandidate_of_operation {scan : PendingScan} (h : scan.operation = some a)
    (hb : b ∈ scan.candidates) : earlierCandidate a b := by
  have htotal : Std.Total fun a b : OperationStateRecord => (earlierCandidate a b : Prop) :=
    ⟨earlierCandidate_total⟩
  have htrans : IsTrans OperationStateRecord fun a b => (earlierCandidate a b : Prop) :=
    ⟨fun _ _ _ => earlierCandidate_trans⟩
  have hsorted := List.pairwise_insertionSort
    (fun a b : OperationStateRecord => (earlierCandidate a b : Prop)) scan.candidates
  have hmem := (List.perm_insertionSort (fun a b : OperationStateRecord =>
    (earlierCandidate a b : Prop)) scan.candidates).mem_iff.mpr hb
  unfold PendingScan.operation at h
  obtain ⟨rest, hrest⟩ := List.head?_eq_some_iff.mp h
  rw [hrest] at hsorted hmem
  rcases List.mem_cons.mp hmem with rfl | hmem
  · exact (earlierCandidate_total b b).elim id id
  · exact (List.pairwise_cons.mp hsorted).1 b hmem

end

/-! ## The scan -/

/-- What the scan makes of one entry. -/
def scanEntry (w : World) (scan : PendingScan) : Entry → PendingScan
  | .invalid => { scan with invalidEntries := scan.invalidEntries + 1 }
  | .directory id =>
      match loadState (w.state id) id with
      | .error _ => { scan with invalidEntries := scan.invalidEntries + 1 }
      | .ok r => scanRecord scan w.marked r

section

variable {w : World} {r : OperationStateRecord} {entries : List Entry} {scan : PendingScan}

theorem yields_markedOperation : Yields markedOperation w w.marked w := by
  refine yields_readMarker.bind ?_
  unfold World.marked
  cases w.marker <;> exact .pure _

/-- The marker is looked at only where it matters. -/
theorem scanRecord_unmarked (h : r.state ≠ .readyToReboot) (marked marked' : Option String) :
    scanRecord scan marked r = scanRecord scan marked' r := by
  simp [scanRecord, h]

theorem scanEntry_error {id : String} {e : PersistenceError}
    (h : loadState (w.state id) id = .error e) :
    scanEntry w scan (.directory id) = { scan with invalidEntries := scan.invalidEntries + 1 } := by
  simp [scanEntry, h]

theorem scanEntry_ok {id : String} (h : loadState (w.state id) id = .ok r) :
    scanEntry w scan (.directory id) = scanRecord scan w.marked r := by
  simp [scanEntry, h]

theorem yields_scanEntries : Yields (scanEntries scan entries) w (entries.foldl (scanEntry w) scan)
    w := by
  induction entries generalizing scan with
  | nil => exact .pure _
  | cons entry entries ih =>
      rw [List.foldl_cons]
      cases entry with
      | invalid => exact ih
      | directory id =>
          refine yields_load.bind ?_
          cases hload : loadState (w.state id) id with
          | error e =>
              rw [scanEntry_error hload]
              exact ih
          | ok r =>
              rw [scanEntry_ok hload]
              dsimp only
              split_ifs with hready
              · exact yields_markedOperation.bind ih
              · rw [scanRecord_unmarked hready w.marked none]
                exact Machine.Yields.bind (.pure _) ih

theorem mem_candidates_scanEntry {entry : Entry} : r ∈ (scanEntry w scan entry).candidates ↔
    r ∈ scan.candidates ∨ (entry = .directory r.operationId ∧
      loadState (w.state r.operationId) r.operationId = .ok r ∧ isPending r) := by
  cases entry with
  | invalid => simp [scanEntry]
  | directory id =>
      cases hload : loadState (w.state id) id with
      | error e =>
          rw [scanEntry_error hload]
          grind
      | ok m =>
          obtain ⟨-, rfl, -⟩ := loadState_eq_ok.mp hload
          rw [scanEntry_ok hload]
          unfold scanRecord
          split_ifs <;> grind

theorem mem_interrupted_scanEntry {entry : Entry} : r ∈ (scanEntry w scan entry).interrupted ↔
    r ∈ scan.interrupted ∨ (entry = .directory r.operationId ∧
      loadState (w.state r.operationId) r.operationId = .ok r ∧ w.interrupts r) := by
  cases entry with
  | invalid => simp [scanEntry]
  | directory id =>
      cases hload : loadState (w.state id) id with
      | error e =>
          rw [scanEntry_error hload]
          grind
      | ok m =>
          obtain ⟨-, rfl, -⟩ := loadState_eq_ok.mp hload
          rw [scanEntry_ok hload]
          unfold scanRecord
          split_ifs with hpending hinterrupted
          · have := World.not_interrupts_of_pending (w := w) hpending
            grind
          · have : w.interrupts m := hinterrupted
            grind
          · have : ¬ w.interrupts m := hinterrupted
            grind

theorem mem_candidates_foldl : r ∈ (entries.foldl (scanEntry w) scan).candidates ↔
    r ∈ scan.candidates ∨ (.directory r.operationId ∈ entries ∧
      loadState (w.state r.operationId) r.operationId = .ok r ∧ isPending r) := by
  induction entries generalizing scan with
  | nil => simp
  | cons entry entries ih =>
      rw [List.foldl_cons, ih, mem_candidates_scanEntry, List.mem_cons]
      grind

theorem mem_interrupted_foldl : r ∈ (entries.foldl (scanEntry w) scan).interrupted ↔
    r ∈ scan.interrupted ∨ (.directory r.operationId ∈ entries ∧
      loadState (w.state r.operationId) r.operationId = .ok r ∧ w.interrupts r) := by
  induction entries generalizing scan with
  | nil => simp
  | cons entry entries ih =>
      rw [List.foldl_cons, ih, mem_interrupted_scanEntry, List.mem_cons]
      grind

/-- **What the scan finds**, in any order of the directory. -/
theorem mem_candidates (h : w.Lists entries) :
    r ∈ (entries.foldl (scanEntry w) {}).candidates ↔ w.Pending r := by
  rw [mem_candidates_foldl, h.2]
  simp [World.Pending, World.Stored, and_assoc]

theorem mem_interrupted (h : w.Lists entries) :
    r ∈ (entries.foldl (scanEntry w) {}).interrupted ↔ w.Interrupted r := by
  rw [mem_interrupted_foldl, h.2]
  simp [World.Interrupted, World.Stored, and_assoc]

/-- The selected operation is the chosen one. -/
theorem chosen_of_operation (h : w.Lists entries)
    (hr : (entries.foldl (scanEntry w) {}).operation = some r) : w.Chosen r :=
  ⟨(mem_candidates h).mp (VerifierState.mem_of_operation hr),
    fun _ hr' => earlierCandidate_of_operation hr ((mem_candidates h).mpr hr')⟩

theorem not_pending_of_operation (h : w.Lists entries)
    (hnone : (entries.foldl (scanEntry w) {}).operation = none) : ¬ w.Pending r := by
  intro hr
  have hmem := (List.perm_insertionSort (fun a b : OperationStateRecord =>
    (earlierCandidate a b : Prop)) _).mem_iff.mpr ((mem_candidates h).mpr hr)
  rw [PendingScan.operation, List.head?_eq_none_iff] at hnone
  rw [hnone] at hmem
  cases hmem

theorem World.Chosen.eq {r' : OperationStateRecord} (h : w.Chosen r) (h' : w.Chosen r') : r = r' :=
  h.1.1.eq h'.1.1 (id_eq_of_earlierCandidate (h.2 r' h'.1) (h'.2 r h.1))

end

/-! ## Closing what was interrupted -/

/-- The records are replaced, one after the other. -/
def closeAll (w : World) (records : List OperationStateRecord) : World :=
  records.foldl (fun w r => w.putState (interruptedRecord r)) w

section

variable {w : World} {r : OperationStateRecord} {records : List OperationStateRecord}

/-- **What can be closed**: of an operation that was interrupted while its snapshot was taken,
the number must be there. -/
theorem loadable_interruptedRecord (h : Loadable r)
    (hunfinished : (interruptedState r.state).isSome) : Loadable (interruptedRecord r) ↔
      ¬ (r.state = .snapshotting ∧ r.snapshotNumber = none) := by
  constructor
  · rintro hclosed ⟨hstate, hnone⟩
    have hneeds : (interruptedRecord r).state.recordsSnapshot := by
      show ((interruptedState r.state).getD r.state).recordsSnapshot
      rw [hstate]
      rfl
    have hsome : r.snapshotNumber.isSome := hclosed.valid.snapshot_isSome hneeds
    rw [hnone] at hsome
    cases hsome
  · intro hnot
    refine ⟨h.id, h.valid.move rfl rfl rfl rfl rfl rfl rfl rfl ?_ ?_⟩
    · show ((interruptedState r.state).getD r.state).recordsSnapshot → _
      intro hrecords
      by_cases hstate : r.state = .snapshotting
      · exact Option.isSome_iff_ne_none.mpr fun hnone => hnot ⟨hstate, hnone⟩
      · refine h.valid.snapshot_isSome ?_
        generalize r.state = state at *
        cases state <;> first
          | rfl
          | exact absurd rfl hstate
          | exact absurd hrecords (by decide)
    · intro goal hgoal
      rw [recovery_of_interrupted h hunfinished] at hgoal
      cases hgoal

theorem yields_closeInterrupted (h : ∀ r ∈ records, Loadable (interruptedRecord r)) :
    Yields (closeInterrupted records) w true (closeAll w records) := by
  induction records generalizing w with
  | nil => exact .pure _
  | cons r records ih =>
      exact (yields_save (h r (List.mem_cons_self ..))).bind
        (ih fun r' hr' => h r' (List.mem_cons_of_mem _ hr'))

/-- A record that cannot be closed ends the run; until then only valid records were
written. -/
theorem yields_closeInterrupted_false (h : ∃ r ∈ records, ¬ Loadable (interruptedRecord r)) :
    ∃ w', Yields (closeInterrupted records) w false w' ∧
      ∀ id, w'.state id = w.state id ∨ ∃ s, Loadable s ∧ w'.state id = .record s := by
  induction records generalizing w with
  | nil =>
      obtain ⟨r, hr, -⟩ := h
      cases hr
  | cons r records ih =>
      by_cases hloadable : Loadable (interruptedRecord r)
      · have hrest : ∃ r' ∈ records, ¬ Loadable (interruptedRecord r') := by
          obtain ⟨r', hr', hnot⟩ := h
          rcases List.mem_cons.mp hr' with rfl | hr'
          · exact absurd hloadable hnot
          · exact ⟨r', hr', hnot⟩
        obtain ⟨w', hyields, hstate⟩ := ih (w := w.putState (interruptedRecord r)) hrest
        refine ⟨w', (yields_save hloadable).bind hyields, fun id => ?_⟩
        rcases hstate id with hsame | hwritten
        · by_cases hid : id = (interruptedRecord r).operationId
          · subst hid
            exact .inr ⟨_, hloadable, hsame.trans (World.state_putState_self _)⟩
          · exact .inl (hsame.trans (World.state_putState_of_ne hid))
        · exact .inr hwritten
      · cases hcheck : checkSave (interruptedRecord r) with
        | ok u => exact absurd (checkSave_eq_ok.mp hcheck) hloadable
        | error e => exact ⟨w, (yields_save_error hcheck).bind (.pure _), fun _ => .inl rfl⟩

/-- Closing changes directories only. -/
theorem closeAll_eq : closeAll w records =
    { w with operations := (closeAll w records).operations } := by
  unfold closeAll
  induction records generalizing w with
  | nil => rfl
  | cons r records ih =>
      rw [List.foldl_cons, ih]
      rfl

theorem closeAll_of_not {id : String} (h : ∀ r ∈ records, r.operationId ≠ id) :
    (closeAll w records).operations id = w.operations id := by
  unfold closeAll
  induction records generalizing w with
  | nil => rfl
  | cons r records ih =>
      rw [List.foldl_cons, ih fun r' hr' => h r' (List.mem_cons_of_mem _ hr')]
      exact World.modify_of_ne (h r (List.mem_cons_self ..)).symm _

theorem closeAll_of_mem (hr : r ∈ records)
    (honly : ∀ r' ∈ records, r'.operationId = r.operationId → r' = r) :
    (closeAll w records).operations r.operationId = (w.operations r.operationId).close r := by
  unfold closeAll
  induction records generalizing w with
  | nil => cases hr
  | cons r' records ih =>
      rw [List.foldl_cons]
      by_cases hrest : r ∈ records
      · rw [ih hrest fun r' hr' => honly r' (List.mem_cons_of_mem _ hr')]
        by_cases hid : r'.operationId = r.operationId
        · obtain rfl := honly r' (List.mem_cons_self ..) hid
          have hput : (w.putState (interruptedRecord r')).operations r'.operationId =
              (w.operations r'.operationId).close r' := World.modify_self ..
          rw [hput]
          rfl
        · exact congrArg (OperationDirectory.close · r) (World.modify_of_ne (Ne.symm hid) _)
      · obtain rfl := (List.mem_cons.mp hr).resolve_right hrest
        refine (closeAll_of_not fun r' hr' hid => ?_).trans (World.modify_self ..)
        obtain rfl := honly r' (List.mem_cons_of_mem _ hr') hid
        exact hrest hr'

/-- **Closing what the scan found** settles the world. -/
theorem closeAll_settled (h : ∀ r, r ∈ records ↔ w.Interrupted r) :
    closeAll w records = w.settled := by
  have hoperations : (closeAll w records).operations = w.settled.operations := by
    funext id
    by_cases hfound : ∃ r, w.Interrupted r ∧ r.operationId = id
    · obtain ⟨r, hr, rfl⟩ := hfound
      rw [World.settled_interrupted hr, closeAll_of_mem ((h r).mpr hr) fun r' hr' hid =>
        ((h r').mp hr').1.eq hr.1 hid]
    · have hnot : ∀ r, w.Interrupted r → r.operationId ≠ id := fun r hr hid => hfound ⟨r, hr, hid⟩
      rw [World.settled_of_not hnot, closeAll_of_not fun r hr => hnot r ((h r).mp hr)]
  rw [closeAll_eq, hoperations]
  rfl

end

/-! ## What the check leaves alone -/

/-- What the check of an operation and its result issue, apart from the records. -/
def Op.checks (id : String) : Op → Prop
  | .query _ | .readInventory _ _ | .readPlan _ | .readManifestSequence _ | .readSequence
  | .createTemporary | .writeTemporary _ | .syncTemporary | .renameTemporary
  | .syncDirectory => True
  | .writeInventory id' _ _ => id' = id
  | _ => False

/-- Every record stays, and everything about the other operations. -/
structure Beside (id : String) (w w' : World) : Prop where
  others : ∀ id', id' ≠ id → w'.operations id' = w.operations id'
  state : w'.state id = w.state id
  plan : (w'.operations id).plan = (w.operations id).plan
  lock : w'.lock = w.lock
  marker : w'.marker = w.marker

namespace Beside

variable {id : String} {w w' w'' : World}

theorem refl (id : String) (w : World) : Beside id w w := ⟨fun _ _ => rfl, rfl, rfl, rfl, rfl⟩

theorem trans (h : Beside id w w') (h' : Beside id w' w'') : Beside id w w'' where
  others := fun id' hid => (h'.others id' hid).trans (h.others id' hid)
  state := h'.state.trans h.state
  plan := h'.plan.trans h.plan
  lock := h'.lock.trans h.lock
  marker := h'.marker.trans h.marker

theorem of_exec {faults : Bool} {i : ℕ} {e : Op} {answer : e.Answer} (hchecks : e.checks id)
    (h : exec faults i e w answer w') : Beside id w w' := by
  cases e with
  | query q => cases q <;> first | (cases h; exact .refl _ _) | (cases h.1; exact .refl _ _)
  | readInventory _ _ | readPlan _ | readManifestSequence _ | readSequence =>
      cases h.1
      exact .refl _ _
  | writeInventory id' kind report =>
      obtain rfl : id' = id := hchecks
      rcases Writes.cases h with rfl | rfl
      · exact .refl _ _
      · refine ⟨fun _ hne => World.modify_of_ne hne _, ?_, ?_, rfl, rfl⟩
        · refine World.state_modify ?_ _
          intro d
          rfl
        · rw [World.modify_self]
  | createTemporary =>
      simp only [exec] at h
      split_ifs at h
      · cases h.2
        exact .refl _ _
      · rcases h.cases with rfl | rfl <;> exact ⟨fun _ _ => rfl, rfl, rfl, rfl, rfl⟩
  | renameTemporary =>
      simp only [exec] at h
      split at h
      · cases h.2
        exact .refl _ _
      · rcases h.cases with rfl | rfl <;> exact ⟨fun _ _ => rfl, rfl, rfl, rfl, rfl⟩
  | writeTemporary text =>
      rcases h with ⟨-, rfl⟩ | ⟨-, -, part, rfl⟩ <;> exact ⟨fun _ _ => rfl, rfl, rfl, rfl, rfl⟩
  | syncTemporary | syncDirectory => rcases Writes.cases h with rfl | rfl <;> exact .refl _ _
  | _ => cases hchecks

end Beside

section

variable {α : Type} {id : String} {w : World}

theorem wp_beside {p : Prog Sig α} (h : p.Only (Op.checks id)) (t : Trace) :
    p.wp reliable (fun _ s => Beside id w s.1) (w, t) := by
  refine Prog.wp_of_only (I := fun s s' => Beside id s.1 s'.1) (fun _ => .refl _ _)
    (fun _ _ _ => Beside.trans) ?_ ?_ h (w, t)
  · intro e s _
    trivial
  · rintro e s answer s' hchecks ⟨hexec, -⟩
    exact .of_exec hchecks hexec

theorem only_runProbes (probes : List (Probe × CheckFailure)) :
    (runProbes probes).Only (Op.checks id) := by
  induction probes with
  | nil => exact Prog.only_pure _
  | cons probe probes ih =>
      refine Prog.only_bind ⟨trivial, fun _ => trivial⟩ fun passed => ?_
      split_ifs
      · exact ih
      · exact Prog.only_pure _

theorem only_verifyInventory (ext : Externals) (state : OperationStateRecord) :
    (verifyInventory ext state).Only (Op.checks state.operationId) := by
  refine Prog.only_bind ⟨trivial, fun _ => trivial⟩ fun report => ?_
  cases report with
  | error e => exact Prog.only_pure _
  | ok report =>
      refine Prog.only_bind ⟨rfl, fun _ => trivial⟩ fun written => ?_
      cases written with
      | error e => exact Prog.only_pure _
      | ok u =>
          dsimp only
          split_ifs
          · refine Prog.only_bind ⟨trivial, fun _ => trivial⟩ fun before => ?_
            cases before <;> exact Prog.only_pure _
          · refine Prog.only_bind ⟨trivial, fun _ => trivial⟩ fun plan => ?_
            cases plan <;> exact Prog.only_pure _

theorem only_verifyRecovery (state : OperationStateRecord) :
    (verifyRecovery state).Only (Op.checks id) := by
  unfold verifyRecovery
  cases state.recovery with
  | none => exact Prog.only_pure _
  | some goal =>
      dsimp only
      unfold verifyRollbackBoot
      cases goal.bootSnapshot with
      | none => exact Prog.only_pure _
      | some expected =>
          refine Prog.only_bind ⟨trivial, fun _ => trivial⟩ fun source => ?_
          cases source with
          | error e => exact Prog.only_pure _
          | ok source =>
              dsimp only
              split_ifs
              · exact Prog.only_pure _
              refine Prog.only_bind ⟨trivial, fun _ => trivial⟩ fun root => ?_
              cases root with
              | error e => exact Prog.only_pure _
              | ok root =>
                  dsimp only
                  split_ifs
                  · exact Prog.only_pure _
                  refine Prog.only_bind ⟨trivial, fun _ => trivial⟩ fun default => ?_
                  cases default <;> exact Prog.only_pure _

theorem only_verify (ext : Externals) (state : OperationStateRecord) :
    (verify ext state).Only (Op.checks state.operationId) := by
  refine Prog.only_bind ⟨trivial, fun _ => trivial⟩ fun facts => ?_
  cases facts with
  | error e => exact Prog.only_pure _
  | ok facts =>
      dsimp only
      cases verifyRelease state facts.release with
      | error e => exact Prog.only_pure _
      | ok u =>
          refine Prog.only_bind (only_verifyRecovery state) fun recovery => ?_
          cases recovery with
          | error e => exact Prog.only_pure _
          | ok u =>
              dsimp only
              split_ifs
              · exact Prog.only_pure _
              refine Prog.only_bind (only_runProbes _) fun probes => ?_
              cases probes with
              | error e => exact Prog.only_pure _
              | ok u => exact only_verifyInventory ext state

theorem only_consumeSequence (id : String) : (consumeSequence id).Only (Op.checks id) := by
  have hreplace : ∀ n, (replaceSequence n).Only (Op.checks id) := by
    intro n
    refine Prog.only_bind ⟨trivial, fun _ => trivial⟩ fun created => ?_
    cases created with
    | error e => exact Prog.only_pure _
    | ok u =>
        refine Prog.only_bind ⟨trivial, fun _ => trivial⟩ fun written => ?_
        cases written with
        | error e => exact Prog.only_pure _
        | ok u =>
            refine Prog.only_bind ⟨trivial, fun _ => trivial⟩ fun synced => ?_
            cases synced with
            | error e => exact Prog.only_pure _
            | ok u =>
                refine Prog.only_bind ⟨trivial, fun _ => trivial⟩ fun renamed => ?_
                cases renamed with
                | error e => exact Prog.only_pure _
                | ok u => exact ⟨trivial, fun _ => trivial⟩
  refine Prog.only_bind ⟨trivial, fun _ => trivial⟩ fun sequence => ?_
  cases sequence with
  | none => exact Prog.only_pure _
  | some n =>
      refine Prog.only_bind ?_ fun result => ?_
      · have hread : readLastManifestSequence.Only (Op.checks id) := by
          refine Prog.only_bind ⟨trivial, fun _ => trivial⟩ fun answer => ?_
          cases answer <;> exact Prog.only_pure _
        refine Prog.only_bind hread fun previous => ?_
        cases previous with
        | error e => exact Prog.only_pure _
        | ok previous =>
            dsimp only
            split_ifs
            · exact Prog.only_pure _
            · exact hreplace n
      · cases result <;> exact Prog.only_pure _

end

/-! ## The selected operation -/

/-- The record that a check of `v` is persisted in, from how the check ended. -/
def Outcome (v : OperationStateRecord) (failure : Option CheckFailure)
    (result : OperationStateRecord) : Prop :=
  match failure with
  | some error => result = recoveryRecord v error.code
  | none => result = completedRecord v ∨ (v.recovery = none ∧ v.operation.isSignedOffline ∧
      result = recoveryRecord v "MANIFEST_SEQUENCE_PERSIST_FAILED")

/-- The operation was checked: `answer` is what the check reported, `failure` what its
supervisor made of it. -/
structure Attested (w : World) (v : OperationStateRecord) (answer failure : Option CheckFailure)
    (result : OperationStateRecord) (s : World × Trace) : Prop where
  entered : ⟨Op.save v, Except.ok ()⟩ ∈ s.2
  supervised : ⟨Op.query (.supervise answer), failure⟩ ∈ s.2
  outcome : Outcome v failure result
  stored : s.1.state v.operationId = .record result
  others : ∀ id, id ≠ v.operationId → s.1.operations id = w.operations id
  present : (s.1.operations v.operationId).present
  lock : s.1.lock = w.lock
  marker : s.1.marker = w.marker

section

variable {w : World} {m v result : OperationStateRecord} {failure : Option CheckFailure}
variable {t : Trace} {ext : Externals} {Q : OperationStateRecord → World × Trace → Prop}

theorem state_eq_of_pending (h : isPending v) :
    v.state = .awaitingReboot ∨ v.state = .verifyingBoot := by
  simpa only [isPending, Bool.or_eq_true, decide_eq_true_eq] using h

/-- A pending operation may be moved to any state in which a record may carry a goal. -/
theorem Loadable.moved (h : Loadable v) (hpending : isPending v) {state : OperationState}
    {sequence : ℕ} {errorCode lastCompletedStep : Option String}
    {bootVerification : Option BootVerification} (hallows : state.allowsRecovery) :
    Loadable { v with
      state := state
      sequence := sequence
      errorCode := errorCode
      lastCompletedStep := lastCompletedStep
      bootVerification := bootVerification } := by
  have hsnapshot : v.snapshotNumber.isSome := by
    refine h.valid.snapshot_isSome ?_
    rcases state_eq_of_pending hpending with hstate | hstate <;> rw [hstate] <;> rfl
  exact ⟨h.id, h.valid.move rfl rfl rfl rfl rfl rfl rfl rfl (fun _ => hsnapshot)
    fun goal hgoal => ⟨hallows, .inr (confirmed_of_pending h hpending hgoal)⟩⟩

theorem loadable_completedRecord (h : Loadable v) (hpending : isPending v) :
    Loadable (completedRecord v) :=
  h.moved hpending rfl

theorem loadable_recoveryRecord (h : Loadable v) (hpending : isPending v) (code : String) :
    Loadable (recoveryRecord v code) :=
  h.moved hpending rfl

/-- A pending operation can be entered. -/
theorem exists_enterVerification (h : Loadable m) (hpending : isPending m) :
    ∃ v, enterVerification m = some v ∧ Loadable v ∧ isPending v ∧
      v.operationId = m.operationId := by
  unfold enterVerification
  split_ifs with hstate
  · have hnext : m.transitionTo .verifyingBoot = .ok (m.advance .verifyingBoot) := by
      rw [OperationStateRecord.transitionTo_eq_ok]
      refine ⟨h.valid.schema, fun h => (by cases h), ?_, rfl⟩
      rw [hstate]
      rfl
    rw [hnext]
    exact ⟨_, rfl, h.moved hpending rfl, rfl, rfl⟩
  · exact ⟨m, rfl, h, hpending, rfl⟩

theorem Outcome.loadable (h : Outcome v failure result) (hv : Loadable v) (hpending : isPending v) :
    Loadable result := by
  unfold Outcome at h
  split at h
  · rw [h]
    exact loadable_recoveryRecord hv hpending _
  · rcases h with rfl | ⟨-, -, rfl⟩
    · exact loadable_completedRecord hv hpending
    · exact loadable_recoveryRecord hv hpending _

theorem Outcome.operationId (h : Outcome v failure result) : result.operationId = v.operationId := by
  unfold Outcome at h
  split at h
  · rw [h]
    rfl
  · rcases h with rfl | ⟨-, -, rfl⟩ <;> rfl

/-- The check reads the record that was just saved, and leaves all of them. -/
theorem wp_checkBoot_beside (hv : Loadable v) (hstored : w.state v.operationId = .record v) :
    (checkBoot ext v.operationId).wp reliable (fun _ s => Beside v.operationId w s.1) (w, t) := by
  have hload : loadState (w.state v.operationId) v.operationId = .ok v :=
    loadState_eq_ok.mpr ⟨hstored, rfl, hv⟩
  refine yields_load.wp_bind_of fun t' _ => ?_
  rw [hload]
  dsimp only
  rw [Prog.wp_bind]
  refine Prog.wp_mono ?_ (wp_beside (only_verify ext v) t')
  rintro (error | u) s hbeside <;> exact hbeside

/-- The record as it was finished, with the code of the failure. -/
def coded (result : OperationStateRecord) : Option CheckFailure → OperationStateRecord
  | some error => { result with errorCode := some error.code }
  | none => result

/-- How a check is finished, whatever can be recorded of it. -/
theorem wp_finalizeVerification_outcome (failure : Option CheckFailure) :
    (finalizeVerification v failure.isNone).wp reliable (fun result s =>
      Beside v.operationId w s.1 ∧ Outcome v failure (coded result failure)) (w, t) := by
  unfold finalizeVerification
  cases failure with
  | some error => exact ⟨.refl _ _, rfl⟩
  | none =>
      rw [Option.isNone_none, if_neg (by decide)]
      split_ifs with hsigned
      · rw [Bool.and_eq_true, Option.isNone_iff_eq_none] at hsigned
        rw [Prog.wp_bind]
        refine Prog.wp_mono ?_ (wp_beside (only_consumeSequence v.operationId) t)
        rintro consumed s hbeside
        cases consumed with
        | true => exact ⟨hbeside, .inl rfl⟩
        | false => exact ⟨hbeside, .inr ⟨hsigned.1, hsigned.2, rfl⟩⟩
      · exact ⟨.refl _ _, .inl rfl⟩

/-- What the last save leaves. -/
theorem attested_putState {w' : World} {answer : Option CheckFailure}
    (hbeside : Beside v.operationId (w.putState v) w') (houtcome : Outcome v failure result)
    (hentered : ⟨Op.save v, Except.ok ()⟩ ∈ t)
    (hsupervised : ⟨Op.query (.supervise answer), failure⟩ ∈ t) :
    Attested w v answer failure result (w'.putState result, t) where
  entered := hentered
  supervised := hsupervised
  outcome := houtcome
  stored := by
    rw [← houtcome.operationId]
    exact World.state_putState_self result
  others := by
    intro id hne
    have hresult : (w'.putState result).operations id = w'.operations id :=
      World.modify_of_ne (by rw [houtcome.operationId]; exact hne) _
    exact hresult.trans ((hbeside.others id hne).trans (World.modify_of_ne hne _))
  present := by
    rw [← houtcome.operationId, World.putState, World.modify_self]
  lock := hbeside.lock
  marker := hbeside.marker

/-- What is known of what a check reports stays true as more is issued. -/
def Lasting (P : Option CheckFailure → Trace → Prop) : Prop :=
  ∀ answer t t', t <+: t' → P answer t → P answer t'

variable {P : Option CheckFailure → Trace → Prop}

/-- **The selected operation is checked**, and the result is persisted. -/
theorem wp_verifySelected (hlasting : Lasting P) (hv : Loadable v) (hpending : isPending v)
    (hcheck : ∀ t, (checkBoot ext v.operationId).wp reliable (fun answer s => P answer s.2)
      (w.putState v, t)) (incomplete : Bool) :
    (verifySelected ext incomplete v).wp reliable (fun _ s => ∃ answer failure result,
      P answer s.2 ∧ Attested w v answer failure result s) (w, t) := by
  unfold verifySelected
  refine (yields_save hv).request_bind_of fun t₁ _ hentered => ?_
  dsimp only
  rw [Prog.wp_bind]
  unfold supervisedCheck
  rw [Prog.wp_bind]
  have hbeside : (checkBoot ext v.operationId).wp reliable
      (fun _ s => Beside v.operationId (w.putState v) s.1) (w.putState v, t₁) :=
    wp_checkBoot_beside hv (World.state_putState_self v)
  refine Prog.wp_mono ?_ (Machine.wp_alone_grows (Prog.wp_and (hcheck t₁) hbeside))
  rintro answer ⟨w₁, t₂⟩ ⟨⟨hreported, hbeside⟩, hgrown⟩
  refine ⟨trivial, ?_⟩
  rintro failure ⟨w₂, t₃⟩ ⟨hexec, htrace⟩
  obtain rfl : w₂ = w₁ := hexec.1
  obtain rfl : t₃ = t₂ ++ [⟨Op.query (.supervise answer), failure⟩] := htrace
  show (finalizeVerification v failure.isNone >>= _).wp reliable _ _
  rw [Prog.wp_bind]
  refine Prog.wp_mono ?_ (Machine.wp_alone_grows (wp_finalizeVerification_outcome failure))
  rintro finished ⟨w₃, t₄⟩ ⟨⟨hbeside', houtcome⟩, hgrown'⟩
  have hsave : ∀ {k : Except PersistenceError Unit → Prog Sig ℕ}, (∀ answer, ∃ n, k answer = pure n) →
      (ask (.save (coded finished failure)) >>= k).wp reliable (fun _ s =>
        ∃ answer failure result, P answer s.2 ∧ Attested w v answer failure result s) (w₃, t₄) := by
    intro k hk
    refine (yields_save (houtcome.loadable hv hpending)).request_bind_of fun t₅ hgrown'' _ => ?_
    obtain ⟨n, hn⟩ := hk (.ok ())
    rw [hn]
    have hall : t₂ ++ [⟨Op.query (.supervise answer), failure⟩] <+: t₅ := hgrown'.trans hgrown''
    exact ⟨answer, failure, _, hlasting _ _ _ ((List.prefix_append ..).trans hall) hreported,
      attested_putState (hbeside.trans hbeside') houtcome
        (hall.subset (List.mem_append_left _ (hgrown.subset hentered)))
        (hall.subset (List.mem_append_right _ (List.mem_singleton_self _)))⟩
  cases failure with
  | some error => exact hsave fun answer => by rcases answer with e | u <;> exact ⟨_, rfl⟩
  | none => exact hsave fun answer => by rcases answer with e | u <;> exact ⟨_, rfl⟩

end

/-! ## A boot -/

/-- What a boot has settled: everything that was interrupted is closed, and the operation
that it chose, if there was one, is checked. -/
inductive Reconciled (P : Option CheckFailure → Trace → Prop) (w : World) (s : World × Trace) :
    Prop
  | idle (none : ∀ r, ¬ w.Pending r) (settled : s.1 = w.settled)
  | checked (m v result : OperationStateRecord) (answer failure : Option CheckFailure)
      (chosen : w.Chosen m) (entered : enterVerification m = some v) (reported : P answer s.2)
      (attested : Attested w.settled v answer failure result s)

/-- Every interrupted operation can be closed. -/
def World.Closable (w : World) : Prop :=
  ∀ r, w.Stored r → ¬ (r.state = .snapshotting ∧ r.snapshotNumber = none)

section

variable {w : World} {t : Trace} {ext : Externals} {P : Option CheckFailure → Trace → Prop}

theorem World.Closable.loadable {r : OperationStateRecord} (h : w.Closable)
    (hr : w.Interrupted r) : Loadable (interruptedRecord r) :=
  (loadable_interruptedRecord hr.1.loadable (World.unfinished_of_interrupts hr.2)).mpr (h r hr.1)

theorem wp_pendingOperation {Q : Io PendingScan → World × Trace → Prop}
    (h : ∀ entries t', w.Lists entries → t <+: t' →
      Q (.ok (entries.foldl (scanEntry w) {})) (w, t')) :
    pendingOperation.wp reliable Q (w, t) := by
  unfold pendingOperation
  rw [Prog.wp_bind]
  refine ⟨trivial, ?_⟩
  rintro answer ⟨w', t₁⟩ ⟨⟨hw, hanswer⟩, htrace⟩
  obtain rfl : w' = w := hw
  rcases hanswer with ⟨entries, rfl, hlists⟩ | ⟨hfaults, -⟩
  · refine yields_scanEntries.wp_bind_of fun t₂ hgrown => h entries t₂ hlists ?_
    exact (List.prefix_append _ _).trans ((show t₁ = t ++ _ from htrace) ▸ hgrown)
  · cases hfaults

/-- **A boot settles what it finds**, where everything that was interrupted can be closed. -/
theorem wp_verifyBoot (hlasting : Lasting P) (hclosable : w.Closable)
    (hcheck : ∀ m v t, w.Chosen m → enterVerification m = some v →
      (checkBoot ext v.operationId).wp reliable (fun answer s => P answer s.2)
        (w.settled.putState v, t)) :
    (verifyBoot ext).wp reliable (fun _ s => Reconciled P w s) (w, t) := by
  unfold verifyBoot
  rw [Prog.wp_bind]
  refine wp_pendingOperation fun entries t₁ hlists _ => ?_
  dsimp only
  have hinterrupted : ∀ r, r ∈ (entries.foldl (scanEntry w) {}).interrupted ↔ w.Interrupted r :=
    fun r => mem_interrupted hlists
  refine (yields_closeInterrupted fun r hr => hclosable.loadable ((hinterrupted r).mp hr)).wp_bind_of
    fun t₂ _ => ?_
  rw [closeAll_settled hinterrupted, if_neg (by decide)]
  cases hoperation : (entries.foldl (scanEntry w) {}).operation with
  | none => exact .idle (fun r => not_pending_of_operation hlists hoperation) rfl
  | some m =>
      have hchosen := chosen_of_operation hlists hoperation
      obtain ⟨v, henter, hloadable, hpending, -⟩ :=
        exists_enterVerification hchosen.1.1.loadable hchosen.1.2
      dsimp only
      rw [henter]
      refine Prog.wp_mono ?_
        (wp_verifySelected hlasting hloadable hpending (fun t => hcheck m v t hchosen henter) _)
      rintro code s ⟨answer, failure, result, hreported, hattested⟩
      exact .checked m v result answer failure hchosen henter hreported hattested

theorem yields_acquireLock (h : w.lock = none) :
    Yields (ask .acquireLock) w (.ok ()) { w with lock := some 0 } :=
  .request fun r w' => by simp [system, exec, ExecAcquire, h]

theorem yields_releaseLock (h : w.lock = some 0) :
    Yields (ask .releaseLock) w () { w with lock := none } :=
  .request fun r w' => by simp [system, exec, h]

/-- A boot keeps the lock while it works. -/
theorem Reconciled.lock {s : World × Trace} (h : Reconciled P w s) : s.1.lock = w.lock := by
  cases h with
  | idle _ settled => rw [settled]; rfl
  | checked m v result answer failure _ _ _ attested => exact attested.lock

/-- What was settled under the lock is settled. -/
theorem Reconciled.release (hlasting : Lasting P) (hfree : w.lock = none) {w' : World} {t' : Trace}
    (h : Reconciled P { w with lock := some 0 } (w', t)) (hgrown : t <+: t') :
    Reconciled P w ({ w' with lock := none }, t') := by
  cases h with
  | idle hnone settled =>
      refine .idle hnone ?_
      show { w' with lock := none } = w.settled
      rw [show w' = _ from settled, ← hfree]
      rfl
  | checked m v result answer failure chosen entered reported attested =>
      refine .checked m v result answer failure chosen entered (hlasting _ _ _ hgrown reported) ?_
      exact ⟨hgrown.subset attested.entered, hgrown.subset attested.supervised, attested.outcome,
        attested.stored, attested.others, attested.present, hfree.symm, attested.marker⟩

/-- **One run of the verifier** settles what it finds. -/
theorem wp_verifierMain_reconciled (hlasting : Lasting P) (hfree : w.lock = none)
    (hclosable : w.Closable)
    (hcheck : ∀ m v lock t, w.Chosen m → enterVerification m = some v →
      (checkBoot ext v.operationId).wp reliable (fun answer s => P answer s.2)
        ({ w.settled with lock := lock }.putState v, t)) :
    (verifierMain ext).wp reliable (fun _ s => s.1.lock = none ∧ Reconciled P w s) (w, t) := by
  unfold verifierMain
  refine (yields_acquireLock hfree).wp_bind_of fun t₁ _ => ?_
  dsimp only
  rw [Prog.wp_bind]
  have hboot : (verifyBoot ext).wp reliable (fun _ s => Reconciled P { w with lock := some 0 } s)
      ({ w with lock := some 0 }, t₁) :=
    wp_verifyBoot hlasting hclosable fun m v t hchosen henter =>
      hcheck m v (some 0) t hchosen henter
  refine Prog.wp_mono ?_ hboot
  rintro code ⟨w', t₂⟩ hreconciled
  refine (yields_releaseLock hreconciled.lock).wp_bind_of fun t₃ hgrown => ?_
  exact ⟨rfl, hreconciled.release hlasting hfree hgrown⟩

end

/-! ## Reconciliation always completes, or never -/

/-- What a boot should leave: what was interrupted is closed, and the operation that was
chosen has been checked and decided. -/
structure Completes (w : World) (s : World × Trace) : Prop where
  closed : ∀ r, w.Interrupted r → s.1.state r.operationId = .record (interruptedRecord r)
  checked : ∀ m, w.Chosen m → ∃ v answer failure result, enterVerification m = some v ∧
    ⟨Op.save v, Except.ok ()⟩ ∈ s.2 ∧ ⟨Op.query (.supervise answer), failure⟩ ∈ s.2 ∧
    Outcome v failure result ∧ s.1.state m.operationId = .record result

section

variable {w : World} {ext : Externals} {P : Option CheckFailure → Trace → Prop}

theorem Reconciled.completes {s : World × Trace} (h : Reconciled P w s) : Completes w s := by
  cases h with
  | idle hnone settled =>
      refine ⟨fun r hr => ?_, fun m hm => absurd hm.1 (hnone m)⟩
      show (s.1.operations r.operationId).state = _
      rw [settled, World.settled_interrupted hr]
      rfl
  | checked m v result answer failure chosen entered reported attested =>
      have hid : v.operationId = m.operationId := (enterVerification_eq chosen.1.2 entered).1
      constructor
      · intro r hr
        have hne : r.operationId ≠ v.operationId := by
          intro heq
          obtain rfl := hr.1.eq chosen.1.1 (heq.trans hid)
          have hnot := World.not_interrupts_of_pending (w := w) chosen.1.2
          rw [hr.2] at hnot
          cases hnot
        show (s.1.operations r.operationId).state = _
        rw [attested.others _ hne, World.settled_interrupted hr]
        rfl
      · intro m' hm'
        obtain rfl := hm'.eq chosen
        exact ⟨v, answer, failure, result, entered, attested.entered, attested.supervised,
          attested.outcome, hid ▸ attested.stored⟩

/-- A record that cannot be closed ends the run. -/
theorem not_completes (hfree : w.lock = none) {entries : List Entry} (hlists : w.Lists entries)
    {r : OperationStateRecord} (hr : w.Stored r) (hstate : r.state = .snapshotting)
    (hnumber : r.snapshotNumber = none) (t : Trace) :
    ¬ (verifierMain ext).wp reliable (fun _ s => Completes w s) (w, t) := by
  have hinterrupted : w.Interrupted r := ⟨hr, by simp [World.interrupts, hstate, interruptedState]⟩
  have hrefused : ¬ Loadable (interruptedRecord r) := fun h =>
    (loadable_interruptedRecord hr.loadable (World.unfinished_of_interrupts hinterrupted.2)).mp h
      ⟨hstate, hnumber⟩
  intro hwp
  obtain ⟨t₁, hacquired⟩ := (yields_acquireLock hfree).wp_bind _ t
  have hboot := (Prog.wp_bind ..).mp ((hacquired _).mp hwp)
  unfold verifyBoot pendingOperation at hboot
  rw [Prog.wp_bind, Prog.wp_bind] at hboot
  have hlisted := hboot.2 (.ok entries) ({ w with lock := some 0 },
    t₁ ++ [⟨Op.listOperations, Except.ok entries⟩]) ⟨⟨rfl, .inl ⟨entries, rfl, hlists⟩⟩, rfl⟩
  obtain ⟨t₂, hscanned⟩ := yields_scanEntries.wp_bind _ _
  have hscan := (hscanned _).mp hlisted
  have hmem : ∃ r ∈ (entries.foldl (scanEntry { w with lock := some 0 }) {}).interrupted,
      ¬ Loadable (interruptedRecord r) := ⟨r, (mem_interrupted hlists).mpr hinterrupted, hrefused⟩
  obtain ⟨w', hyields, hwritten⟩ := yields_closeInterrupted_false hmem
  obtain ⟨t₃, hclosed⟩ := hyields.wp_bind _ t₂
  have hended := (hclosed _).mp hscan
  have hcompletes := hended.2 ()
    (if w'.lock = some 0 then { w' with lock := none } else w', t₃ ++ [⟨Op.releaseLock, ()⟩])
    ⟨rfl, rfl⟩
  have hfinal : w'.state r.operationId = .record (interruptedRecord r) := by
    have hrecord : World.state (if w'.lock = some 0 then { w' with lock := none } else w')
        r.operationId = .record (interruptedRecord r) :=
      Completes.closed hcompletes r hinterrupted
    split_ifs at hrecord <;> exact hrecord
  rcases hwritten r.operationId with hsame | ⟨s, hs, hrecord⟩
  · have hrecord : w.state r.operationId = .record (interruptedRecord r) := hsame.symm.trans hfinal
    rw [hr.state] at hrecord
    have heq : r.state = (interruptedRecord r).state := by
      injection hrecord with hrecord
      rw [← hrecord]
    rw [hstate, show (interruptedRecord r).state = (interruptedState r.state).getD r.state from rfl,
      hstate] at heq
    cases heq
  · rw [hfinal] at hrecord
    cases hrecord
    exact hrefused hs

/-- **Reconciliation completes** exactly where no operation was interrupted between the record
of its snapshot phase and the number of its snapshot. -/
theorem reconciliation_completes (hfree : w.lock = none) (hlists : ∃ entries, w.Lists entries) :
    (verifierMain ext).wp reliable (fun _ s => Completes w s) (w, []) ↔
      ∀ r, w.Stored r → ¬ (r.state = .snapshotting ∧ r.snapshotNumber = none) := by
  constructor
  · rintro hcompletes r hr ⟨hstate, hnumber⟩
    obtain ⟨entries, hentries⟩ := hlists
    exact not_completes hfree hentries hr hstate hnumber [] hcompletes
  · intro hclosable
    have hlasting : Lasting fun _ _ => True := fun _ _ _ _ _ => trivial
    have hcheck : ∀ m v lock t, w.Chosen m → enterVerification m = some v →
        (checkBoot ext v.operationId).wp reliable (fun _ _ => True)
          ({ w.settled with lock := lock }.putState v, t) := by
      intro m v lock t _ _
      exact Machine.wp_alone_true _ _
    refine Prog.wp_mono ?_ (wp_verifierMain_reconciled hlasting hfree hclosable hcheck)
    rintro exit s ⟨-, hreconciled⟩
    exact hreconciled.completes

end

namespace Sample

def latestId : String := "7a1c2f34-5b6d-4e8f-9a0b-1c2d3e4f5a6c"

/-- The update, when its packages are installed. -/
def appliedRecord : OperationStateRecord :=
  { record with
    operationId := latestId
    sequence := 5
    state := .awaitingReboot
    snapshotNumber := some 8
    lastCompletedStep := some "apply" }

/-- Another update, which a power cut ended in one of its phases. -/
def cutRecord (state : OperationState) (snapshotNumber : Option ℕ) : OperationStateRecord :=
  { record with
    sequence := 3
    state := state
    snapshotNumber := snapshotNumber }

/-- The store of two operations. -/
def twoRecords (a b : OperationStateRecord) : World :=
  { world with
    operations := fun id =>
      if id = a.operationId then { directory with state := .record a }
      else if id = b.operationId then { directory with state := .record b }
      else {} }

theorem lists_twoRecords {a b : OperationStateRecord} (hne : a.operationId ≠ b.operationId) :
    (twoRecords a b).Lists [.directory a.operationId, .directory b.operationId] := by
  constructor
  · rw [List.pairwise_pair]
    intro heq
    exact absurd (Entry.directory.inj heq) hne
  · intro id
    simp only [twoRecords, List.mem_cons, Entry.directory.injEq, List.not_mem_nil, or_false]
    split_ifs with ha hb
    · exact iff_of_true (.inl ha) rfl
    · exact iff_of_true (.inr hb) rfl
    · exact iff_of_false (not_or.mpr ⟨ha, hb⟩) (by decide)

theorem eq_of_twoRecords {a b r : OperationStateRecord} (h : (twoRecords a b).Stored r) :
    r = a ∨ r = b := by
  have hstate := h.state
  simp only [World.state, twoRecords] at hstate
  split_ifs at hstate
  · exact .inl (by cases hstate; rfl)
  · exact .inr (by cases hstate; rfl)

end Sample

/-- A boot after a power cut during the application of another update. -/
theorem reconciliation_completes_sample :
    (verifierMain Sample.externals).wp reliable
      (fun _ s => Completes (Sample.twoRecords (Sample.cutRecord .applying (some 7))
        Sample.appliedRecord) s)
      (Sample.twoRecords (Sample.cutRecord .applying (some 7)) Sample.appliedRecord, []) := by
  refine (reconciliation_completes rfl ⟨_, Sample.lists_twoRecords (by decide)⟩).mpr ?_
  intro r hr
  rcases Sample.eq_of_twoRecords hr with rfl | rfl <;> decide

/-- A power cut between the record of the snapshot phase and the number of the snapshot: every
record can be read, and the boot checks nothing. -/
theorem reconciliation_stops : ¬ ∀ w : World, w.lock = none → (∃ entries, w.Lists entries) →
    (∀ id, (w.operations id).present → ∃ r, loadState (w.state id) id = .ok r) →
    (verifierMain Sample.externals).wp reliable (fun _ s => Completes w s) (w, []) := by
  intro h
  let w := Sample.twoRecords (Sample.cutRecord .snapshotting none) Sample.appliedRecord
  have hlists := Sample.lists_twoRecords (a := Sample.cutRecord .snapshotting none)
    (b := Sample.appliedRecord) (by decide)
  have hreadable : ∀ id, (w.operations id).present → ∃ r, loadState (w.state id) id = .ok r := by
    intro id hpresent
    rcases List.mem_cons.mp ((hlists.2 id).mpr hpresent) with heq | hmem
    · cases heq
      exact ⟨Sample.cutRecord .snapshotting none, by decide +kernel⟩
    · cases List.mem_singleton.mp hmem
      exact ⟨Sample.appliedRecord, by decide +kernel⟩
  refine (reconciliation_completes rfl ⟨_, hlists⟩).mp (h w rfl ⟨_, hlists⟩ hreadable)
    (Sample.cutRecord .snapshotting none) ⟨?_, ?_⟩ ⟨rfl, rfl⟩ <;> decide +kernel

end LyraUpgrade
