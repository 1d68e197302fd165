import LyraUpgrade.Interaction.Recorded
import LyraUpgrade.System.OfflineOnce
import LyraUpgrade.System.ReplayRecord

/-!
# Nothing is finished that was not done

A record that waits for its boot, or says that the operation is complete, was written by one
program out of what another has written, over crashes and stale copies.  Each of them takes
something on trust from the record it has read; what is on disk in the end is nevertheless
backed by what processes have really done.

* `Effected` — what a record that waits for its boot says was done.
* `Examined` — what a verified record says besides.
* `Earned` — the invariant of every record on disk.
* `completion_earned` — the result.
-/

namespace LyraUpgrade

open Interaction

/-! ## What a record says was done -/

/-- A sequence of steps of the machine. -/
abbrev History := List (Label Sig Activity)

/-- The transaction was carried out to its end, by a worker or by an offline executor. -/
def Transacted (ext : Externals) (h : History) (r : OperationStateRecord) : Prop :=
  ∃ i, WorkerState.Applied r.operationId (heard h i) ∨ AppliedOffline ext (heard h i) r

/-- The rollback was carried out: its command was run for the snapshot the goal names, and the
clone it is to boot was seen to carry the release the operation came from, as the default. -/
def Returned (h : History) (r : OperationStateRecord) (goal : RollbackGoal) : Prop :=
  ∃ i boot output, goal.bootSnapshot = some boot ∧
    ⟨Op.run r.operationId (.rollback goal.sourceSnapshotNumber), output⟩ ∈ heard h i ∧
    ⟨Op.query (.inspectSubvolume (.snapshot goal.sourceSnapshotNumber)),
      Except.ok goal.sourceSnapshot⟩ ∈ heard h i ∧
    Verified (heard h i) r.source boot

/-- What a record that waits for its boot says was done. -/
def Effected (ext : Externals) (h : History) (r : OperationStateRecord) : Prop :=
  match r.recovery with
  | none => Transacted ext h r
  | some goal => Returned h r goal

/-- A verifier has taken the operation up after that, and saw its check pass. -/
def Examined (ext : Externals) (h : History) (r : OperationStateRecord) : Prop :=
  ∃ i m before after, h = before ++ .act i (.save m) (.ok ()) :: after ∧
    Effected ext before m ∧ m.state = .verifyingBoot ∧ r = completedRecord m ∧
    Passed (heard h i)

/-- The states after the packages were changed. -/
def OperationState.isEffected : OperationState → Bool
  | .awaitingReboot | .verifyingBoot | .completed => true
  | _ => false

/-- **What a record on disk says was done.** -/
structure Earned (ext : Externals) (h : History) (r : OperationStateRecord) : Prop where
  offline : r.state = .readyToReboot ∨ r.state = .applyingOffline → r.recovery = none
  effected : r.state.isEffected → Effected ext h r
  examined : r.state = .completed → r.operation.isSignedOffline ∨ r.recovery.isSome →
    Examined ext h r

/-! ## More steps -/

section

variable {ext : Externals} {h after : History} {r r' : OperationStateRecord}
  {goal : RollbackGoal} {events more : List (Event Sig)} {operationId : String}
  {manifest : ReleaseManifest} {plan : UpgradePlan}

theorem WorkerState.Applied.append (applied : WorkerState.Applied operationId events)
    (more : List (Event Sig)) : WorkerState.Applied operationId (events ++ more) := by
  obtain ⟨before, output, after, plan, fresh, rfl, hcode, hobserved, hboot, hinventory⟩ := applied
  -- what comes later is behind the transaction
  refine ⟨before, output, after ++ more, plan, fresh, ?_, hcode, hobserved, fun htouches => ?_, ?_⟩
  · rw [List.append_assoc, List.cons_append]
  · obtain ⟨dracut, grub, hdracut, hgrub, hmem, hmem'⟩ := hboot htouches
    exact ⟨dracut, grub, hdracut, hgrub, List.mem_append_left _ hmem, List.mem_append_left _ hmem'⟩
  · obtain ⟨report, hmem, hresult⟩ := hinventory
    exact ⟨report, List.mem_append_left _ hmem, hresult⟩

theorem Concluded.append (concluded : Concluded events operationId manifest plan)
    (more : List (Event Sig)) : Concluded (events ++ more) operationId manifest plan where
  repositories := fun hnone => List.mem_append_left _ (concluded.repositories hnone)
  boot := by
    intro htouches
    obtain ⟨dracut, grub, hdracut, hgrub, hmem, hmem'⟩ := concluded.boot htouches
    exact ⟨dracut, grub, hdracut, hgrub, List.mem_append_left _ hmem, List.mem_append_left _ hmem'⟩
  inventory := by
    intro hmigration
    obtain ⟨report, hmem, hresult⟩ := concluded.inventory hmigration
    exact ⟨report, List.mem_append_left _ hmem, hresult⟩

theorem AppliedOffline.append (applied : AppliedOffline ext events r) (more : List (Event Sig)) :
    AppliedOffline ext (events ++ more) r := by
  obtain ⟨before, arguments, output, after, manifest, plan, rfl, hcode, hlaunchable, hconcluded⟩ :=
    applied
  refine ⟨before, arguments, output, after ++ more, manifest, plan, ?_, hcode, hlaunchable,
    hconcluded.append more⟩
  rw [List.append_assoc, List.cons_append]

theorem Effected.append (effected : Effected ext h r) (after : History) :
    Effected ext (h ++ after) r := by
  unfold Effected at effected ⊢
  cases hgoal : r.recovery with
  | none =>
      rw [hgoal] at effected
      obtain ⟨i, happlied⟩ := effected
      refine ⟨i, ?_⟩
      rw [heard_append]
      exact happlied.imp (fun applied => applied.append _) fun applied => applied.append _
  | some goal =>
      rw [hgoal] at effected
      obtain ⟨i, boot, output, hboot, hrun, hinspected, hverified⟩ := effected
      have hsub : heard h i ⊆ heard (h ++ after) i := by
        rw [heard_append]
        exact List.subset_append_left _ _
      exact ⟨i, boot, output, hboot, hsub hrun, hsub hinspected, hverified.mono hsub⟩

theorem Examined.append (examined : Examined ext h r) (after : History) :
    Examined ext (h ++ after) r := by
  obtain ⟨i, m, before, between, rfl, heffected, hstate, hr, hpassed⟩ := examined
  refine ⟨i, m, before, between ++ after, ?_, heffected, hstate, hr, ?_⟩
  · rw [List.append_assoc, List.cons_append]
  · rw [heard_append]
    exact List.mem_append_left _ hpassed

theorem Earned.append (earned : Earned ext h r) (after : History) : Earned ext (h ++ after) r where
  offline := earned.offline
  effected := fun hstate => (earned.effected hstate).append after
  examined := fun hstate hkind => (earned.examined hstate hkind).append after

/-- The two records are of the same operation, with the same plan and the same goal. -/
structure SameGoal (r r' : OperationStateRecord) : Prop where
  id : r'.operationId = r.operationId
  plan : r'.planSha256 = r.planSha256
  manifest : r'.manifestSha256 = r.manifestSha256
  source : r'.source = r.source
  recovery : r'.recovery = r.recovery

theorem AppliedOffline.congr (applied : AppliedOffline ext events r) (same : SameGoal r r') :
    AppliedOffline ext events r' := by
  obtain ⟨hid, hplan, hmanifest, hsource, -⟩ := same
  obtain ⟨before, arguments, output, after, manifest, plan, hevents, hcode,
    ⟨⟨hplanRead, hplanHash, hmanifestRead, hmanifestHash, hsigned⟩, hrevalidated, hpayloads⟩,
    hconcluded⟩ := applied
  refine ⟨before, arguments, output, after, manifest, plan, ?_, hcode,
    ⟨⟨?_, ?_, ?_, ?_, ?_⟩, ?_, ?_⟩, ?_⟩
  · rw [hid]; exact hevents
  · rw [hid]; exact hplanRead
  · rw [hplan]; exact hplanHash
  · rw [hid]; exact hmanifestRead
  · rw [hmanifest]; exact hmanifestHash
  · rw [hid, hsource]; exact hsigned
  · rw [hid, hplan]; exact hrevalidated
  · rw [hid]; exact hpayloads
  · rw [hid]; exact hconcluded

theorem Effected.congr (effected : Effected ext h r) (same : SameGoal r r') :
    Effected ext h r' := by
  unfold Effected at effected ⊢
  rw [same.recovery]
  cases hgoal : r.recovery with
  | none =>
      rw [hgoal] at effected
      obtain ⟨i, happlied⟩ := effected
      refine ⟨i, happlied.imp (fun applied => ?_) fun applied => applied.congr same⟩
      rw [same.id]
      exact applied
  | some goal =>
      rw [hgoal] at effected
      show Returned h r' goal
      unfold Returned
      rw [same.id, same.source]
      exact effected

theorem sameGoal_completedRecord (r : OperationStateRecord) : SameGoal r (completedRecord r) :=
  ⟨rfl, rfl, rfl, rfl, rfl⟩

theorem sameGoal_of_transitionTo {next : OperationState} (hnext : r.transitionTo next = .ok r') :
    SameGoal r r' := by
  obtain ⟨-, -, -, rfl⟩ := OperationStateRecord.transitionTo_eq_ok.mp hnext
  exact ⟨rfl, rfl, rfl, rfl, rfl⟩

theorem sameGoal_of_enterVerification (henter : enterVerification r = some r') : SameGoal r r' := by
  unfold enterVerification at henter
  split_ifs at henter
  · cases hnext : r.transitionTo .verifyingBoot with
    | error e => rw [hnext] at henter; cases henter
    | ok r₁ =>
        rw [hnext] at henter
        cases henter
        exact sameGoal_of_transitionTo hnext
  · cases henter
    exact ⟨rfl, rfl, rfl, rfl, rfl⟩

/-- A record of a failure, or of an operation that has changed nothing yet. -/
theorem earned_of_idle (hready : r.state ≠ .readyToReboot) (happlying : r.state ≠ .applyingOffline)
    (heffected : r.state.isEffected = false) : Earned ext h r := by
  refine ⟨fun hstate => ?_, fun hstate => ?_, fun hstate => ?_⟩
  · rcases hstate with hstate | hstate
    · exact absurd hstate hready
    · exact absurd hstate happlying
  · rw [heffected] at hstate
    cases hstate
  · rw [hstate] at heffected
    cases heffected

end

/-! ## What the programs have in memory -/

/-- What a rollback knows of the record it carries. -/
def RollbackPhase.Knows (operationId : String) (events : List (Event Sig)) : RollbackPhase → Prop
  | .read m | .intended m => m.operationId = operationId
  | .launched m => m.operationId = operationId ∧ ∃ number source output,
      m.recovery = some ⟨number, source, none⟩ ∧
      ⟨Op.run operationId (.rollback number), output⟩ ∈ events ∧
      ⟨Op.query (.inspectSubvolume (.snapshot number)), Except.ok source⟩ ∈ events
  | _ => True

/-- What the offline executor knows of the goal of its record: there is none. -/
def OfflinePhase.Knows : OfflinePhase → Prop
  | .read m => m.state = .readyToReboot → m.recovery = none
  | .entered m | .applied m => m.recovery = none
  | _ => True

/-- What the verifier with the number `i` knows of the records it has read, and of the one it
has selected. -/
structure Selecting (ext : Externals) (h : History) (i : ℕ) (s : VerifierState) : Prop where
  events : s.events = heard h i
  scanned : ∀ m, VerifierState.Scanned s m → Earned ext h m
  selected : ∀ r, s.phase.selected = some r → ∃ before after,
    h = before ++ .act i (.save r) (.ok ()) :: after ∧ Effected ext before r ∧
      r.state = .verifyingBoot

section

variable {ext : Externals} {operationId : String} {r : OperationStateRecord} {e : Op}
  {answer : e.Answer} {i : ℕ} {w w' : World}

namespace RollbackState

variable {s : RollbackState} {p : RollbackPhase}

theorem knows_mono {events events' : List (Event Sig)} (h : p.Knows operationId events)
    (hsub : events ⊆ events') : p.Knows operationId events' := by
  cases p with
  | launched m =>
      obtain ⟨hid, number, source, output, hrecovery, hrun, hinspected⟩ := h
      exact ⟨hid, number, source, output, hrecovery, hsub hrun, hsub hinspected⟩
  | _ => exact h

theorem knows_next (h : s.phase.Knows operationId s.events)
    (hallow : e.isQuiet ∨ s.permits operationId e) (hvalid : validAnswer ⟨e, answer⟩) :
    (s.next ⟨e, answer⟩).phase.Knows operationId (s.next ⟨e, answer⟩).events := by
  have hmove := moves hallow hvalid
  have hlast := mem_next s ⟨e, answer⟩
  have hsub : s.events ⊆ (s.next ⟨e, answer⟩).events := List.subset_append_left _ _
  generalize (s.next ⟨e, answer⟩).events = events' at hlast hsub ⊢
  generalize (s.next ⟨e, answer⟩).phase = p at hmove ⊢
  cases hmove with
  | quiet | look => exact knows_mono h hsub
  | read r _ hid => exact hid
  | unread | lock | busy | unlock => trivial
  | launch record number source output hphase hintent =>
      -- the intent that was saved names the snapshot of the command
      rw [hphase] at h
      exact ⟨h, number, source, output, hintent.recovery, hlast, hsub hintent.inspected⟩
  | save saved may =>
      cases may with
      | intent record _ _ _ hphase =>
          rw [hphase] at h ⊢
          rcases saved with error | ⟨⟩
          · trivial
          · exact h
      | scheduled record _ _ hphase =>
          rw [hphase]
          rcases saved with error | ⟨⟩ <;> trivial
      | failed record _ hphase =>
          rcases hphase with hphase | hphase <;> rw [hphase] <;> rcases saved with error | ⟨⟩ <;>
            trivial

/-- **A rollback** is scheduled after its command was run. -/
theorem MaySave.earned {h : History} (may : s.MaySave r)
    (hknows : s.phase.Knows operationId s.events) (hevents : s.events = heard h i) :
    Earned ext h r := by
  cases may with
  | intent record number source timestamp hphase hstate =>
      have hstate : (rollbackIntent record number source timestamp).state = .needsRecovery := hstate
      refine earned_of_idle ?_ ?_ ?_ <;> rw [hstate] <;> simp [OperationState.isEffected]
  | scheduled record goal boot hphase hrecovery hverified =>
      rw [hphase] at hknows
      obtain ⟨hid, number, source, output, hgoal, hrun, hinspected⟩ := hknows
      rw [hrecovery] at hgoal
      cases hgoal
      rw [hevents] at hrun hinspected hverified
      refine ⟨fun h => (by simp [scheduledRecord] at h), fun _ => ?_, fun h => (by cases h)⟩
      refine ⟨i, boot, output, rfl, ?_, hinspected, hverified⟩
      rw [← hid] at hrun
      exact hrun
  | failed =>
      exact earned_of_idle (by simp [rollbackFailedRecord]) (by simp [rollbackFailedRecord]) rfl

end RollbackState

/-- **A worker** finishes what it has applied. -/
theorem WorkerState.MaySave.earned {h : History} {s : WorkerState} (may : s.MaySave operationId r)
    (hs : s.phase.hasWorker → s.Sound operationId ∧ Coherent s.record)
    (hevents : s.events = heard h i) : Earned ext h r := by
  cases may with
  | initial _ hinitial =>
      refine earned_of_idle ?_ ?_ ?_ <;> rw [hinitial.2.1] <;> simp [OperationState.isEffected]
  | downloading _ hnext | snapshotting _ hnext | applying _ hnext =>
      obtain ⟨-, -, -, rfl⟩ := OperationStateRecord.transitionTo_eq_ok.mp hnext
      exact earned_of_idle (by simp) (by simp) rfl
  | snapshot number hphase _ hnext =>
      obtain ⟨hsound, -⟩ := hs (by rw [hphase]; rfl)
      have hstate : r.state = .snapshotting := by
        rw [hnext]
        exact hsound.state .snapshotting (by rw [hphase]; rfl)
      refine earned_of_idle ?_ ?_ ?_ <;> rw [hstate] <;> simp [OperationState.isEffected]
  | ready hphase hnext =>
      obtain ⟨hsound, -⟩ := hs (by rw [hphase]; rfl)
      obtain ⟨-, -, -, rfl⟩ := OperationStateRecord.transitionTo_eq_ok.mp hnext
      exact ⟨fun _ => hsound.recovery, fun h => (by cases h), fun h => (by cases h)⟩
  | result hphase happlied state hfinal hnext =>
      obtain ⟨hsound, hcoherent⟩ := hs (by rw [hphase]; rfl)
      obtain ⟨-, -, -, rfl⟩ := OperationStateRecord.transitionTo_eq_ok.mp hnext
      refine ⟨fun h => ?_, fun _ => ?_, fun _ hkind => ?_⟩
      · rcases hfinal with rfl | rfl <;> simp at h
      · have hnone : (s.record.advance state).recovery = none := hsound.recovery
        unfold Effected
        rw [hnone]
        refine ⟨i, .inl ?_⟩
        rw [← hevents]
        show Applied s.record.operationId s.events
        rw [hsound.id]
        exact happlied
      · -- a worker finishes updates of the installed release only, without a goal
        exfalso
        rcases hkind with hsigned | hgoal
        · change s.record.operation.isSignedOffline = true at hsigned
          rw [hcoherent.applying (hsound.state .applying (by rw [hphase]; rfl))] at hsigned
          cases hsigned
        · change s.record.recovery.isSome = true at hgoal
          rw [hsound.recovery] at hgoal
          cases hgoal
  | failure hphase error timestamp hnext =>
      have hstate : r.state = failureState error s.record.snapshotNumber.isSome := by
        rw [hnext]
        rfl
      refine earned_of_idle ?_ ?_ ?_ <;> rw [hstate] <;> unfold failureState <;> split_ifs <;>
        simp [OperationState.isEffected]

namespace OfflineState

variable {s : OfflineState}

theorem knows_next {h : History} (hknows : s.phase.Knows) (hallow : e.isQuiet ∨ s.permits ext e)
    (hexec : exec true i e w answer w')
    (hdisk : ∀ id r, w.state id = .record r → Earned ext h r) :
    (s.next ⟨e, answer⟩).phase.Knows := by
  have hmove := moves hallow (validAnswer_of_exec hexec)
  generalize (s.next ⟨e, answer⟩).phase = p at hmove ⊢
  cases hmove with
  | quiet | unlink => exact hknows
  | lock | unlock | readAgain | unread => trivial
  | busy => trivial
  | read m =>
      -- whoever wrote a record that is ready for the executor gave it no goal
      exact fun hready => (hdisk _ m (exec_load_ok hexec).1).offline (.inl hready)
  | launch r _ _ _ _ hphase =>
      rw [hphase] at hknows
      exact hknows
  | @save r saved may =>
      cases may with
      | enter m _ hphase hready _ hnext =>
          rw [hphase] at hknows ⊢
          rcases saved with error | ⟨⟩
          · trivial
          · unfold phaseAfterSave
            dsimp only
            split_ifs
            · exact (sameGoal_of_transitionTo hnext).recovery.trans (hknows hready)
            · trivial
      | result m r hphase _ hnext =>
          rw [hphase]
          have hstate : r.state ≠ .applyingOffline := by
            obtain ⟨-, -, -, rfl⟩ := OperationStateRecord.transitionTo_eq_ok.mp hnext
            simp
          rcases saved with error | ⟨⟩
          · trivial
          · simp [phaseAfterSave, hstate, OfflinePhase.Knows]
      | failed m hphase =>
          rcases hphase with hphase | hphase <;> rw [hphase] <;> rcases saved with error | ⟨⟩ <;>
            trivial

/-- **The offline executor** finishes what it has applied. -/
theorem MaySave.earned {h : History} (may : s.MaySave ext r) (hknows : s.phase.Knows)
    (hevents : s.events = heard h i) : Earned ext h r := by
  cases may with
  | enter m r hphase hready _ hnext =>
      rw [hphase] at hknows
      have hrecovery := (sameGoal_of_transitionTo hnext).recovery.trans (hknows hready)
      obtain ⟨-, -, -, rfl⟩ := OperationStateRecord.transitionTo_eq_ok.mp hnext
      exact ⟨fun _ => hrecovery, fun h => (by cases h), fun h => (by cases h)⟩
  | result m r hphase happlied hnext =>
      rw [hphase] at hknows
      obtain ⟨hid, hplan, hmanifest, hsource, hrecovery⟩ := sameGoal_of_transitionTo hnext
      have hsame : SameGoal m { r with lastCompletedStep := some "offline-apply" } :=
        ⟨hid, hplan, hmanifest, hsource, hrecovery⟩
      have hstate : r.state = .awaitingReboot := by
        obtain ⟨-, -, -, rfl⟩ := OperationStateRecord.transitionTo_eq_ok.mp hnext
        rfl
      refine ⟨fun h => ?_, fun _ => Effected.congr ?_ hsame, fun h => ?_⟩
      · simp [hstate] at h
      · unfold Effected
        rw [show m.recovery = none from hknows]
        rw [hevents] at happlied
        exact ⟨i, .inr happlied⟩
      · rw [show ({ r with lastCompletedStep := some "offline-apply" } :
          OperationStateRecord).state = r.state from rfl, hstate] at h
        cases h
  | failed =>
      exact earned_of_idle (by simp [offlineFailureRecord]) (by simp [offlineFailureRecord]) rfl

end OfflineState

namespace VerifierState

variable {h : History} {s : VerifierState}

theorem isEffected_of_isPending (hpending : isPending r) : r.state.isEffected := by
  simp only [isPending, Bool.or_eq_true, decide_eq_true_eq] at hpending
  rcases hpending with hstate | hstate <;> rw [hstate] <;> rfl

/-- **The verifier** completes what it has selected, after its check. -/
theorem MaySave.earned (may : s.MaySave r) (hs : Selecting ext h i s) : Earned ext h r := by
  have hcompleted : ∀ m, s.phase.selected = some m → Passed s.events →
      Earned ext h (completedRecord m) := by
    intro m hm hpassed
    obtain ⟨before, after, heq, heffected, hstate⟩ := hs.selected m hm
    rw [hs.events] at hpassed
    refine ⟨fun h => (by simp [completedRecord] at h), fun _ => ?_, fun _ _ =>
      ⟨i, m, before, after, heq, heffected, hstate, rfl, hpassed⟩⟩
    rw [heq]
    exact (heffected.append _).congr (sameGoal_completedRecord m)
  cases may with
  | interrupted m _ _ hunfinished =>
      rcases interruptedRecord_state hunfinished with hstate | hstate <;>
        refine earned_of_idle ?_ ?_ ?_ <;> rw [hstate] <;> simp [OperationState.isEffected]
  | enter m r _ hscanned hpending henter =>
      have hstate := (enterVerification_eq hpending henter).2.2.2
      refine ⟨fun h => (by simp [hstate] at h), fun _ => ?_, fun h => ?_⟩
      · -- the record on disk may be another one by now; what was read is still true
        exact ((hs.scanned m hscanned).effected (isEffected_of_isPending hpending)).congr
          (sameGoal_of_enterVerification henter)
      · rw [hstate] at h
        cases h
  | verified record checked hphase hpassed => exact hcompleted record (by rw [hphase]; rfl) hpassed
  | consumed record n hphase hconsumable =>
      exact hcompleted record (by rw [hphase]; rfl) hconsumable.passed
  | failed => exact earned_of_idle (by simp [recoveryRecord]) (by simp [recoveryRecord]) rfl

/-- A record is selected by the save that takes its operation up. -/
theorem Moves.selected {e : Event Sig} {p : VerifierPhase} (hmove : s.Moves e p)
    (hr : p.selected = some r) : s.phase.selected = some r ∨
      (e = ⟨.save r, .ok ()⟩ ∧ s.MaySave r ∧ r.state = .verifyingBoot) := by
  have hreplaced : ∀ {record step answer}, (replaced record step answer).selected = some r →
      record = r := by
    rintro record step (error | ⟨⟩) hselected <;> exact Option.some.inj hselected
  cases hmove with
  | detached | unread | readSequence => exact .inl hr
  | lock | busy | unlock | read => cases hr
  | check _ _ hphase => exact .inl (by rw [hphase]; exact hr)
  | create _ _ _ _ hphase | write _ _ _ hphase | sync _ _ _ hphase | rename _ _ _ hphase
  | finish _ _ _ hphase =>
      refine .inl ?_
      rw [hphase, ← hreplaced hr]
      rfl
  | @save r' saved may =>
      -- only a scan goes on after its save
      have hscan : (s.phase = .scanning ∨ s.phase = .closing) ∧ saved = .ok () ∧ isPending r' ∧
          r' = r := by
        unfold phaseAfterSave at hr
        cases hphase : s.phase with
        | scanning | closing =>
            rw [hphase] at hr
            rcases saved with error | ⟨⟩
            · cases hr
            · dsimp only at hr
              split_ifs at hr with hpending
              · exact ⟨by simp, rfl, hpending, Option.some.inj hr⟩
              · cases hr
        | _ =>
            rw [hphase] at hr
            cases hr
      obtain ⟨hphase, rfl, hpending, rfl⟩ := hscan
      refine .inr ⟨rfl, may, ?_⟩
      cases may with
      | interrupted m _ _ hunfinished =>
          rcases interruptedRecord_state hunfinished with h | h <;> simp [isPending, h] at hpending
      | enter m _ _ _ hm henter => exact (enterVerification_eq hm henter).2.2.2
      | verified _ _ h | consumed _ _ h =>
          rcases hphase with hphase | hphase <;> cases hphase.symm.trans h
      | failed record _ h => rcases hphase with hphase | hphase <;> rw [hphase] at h <;> cases h

theorem selecting_next (hs : Selecting ext h i s) (hallow : e.isDetached ∨ s.permits e)
    (hexec : exec true i e w answer w') (hdisk : ∀ id r, w.state id = .record r → Earned ext h r) :
    Selecting ext (h ++ [.act i e answer]) i (s.next ⟨e, answer⟩) where
  events := by
    rw [heard_act, ← hs.events]
    rfl
  scanned := by
    intro m hm
    refine Earned.append ?_ _
    rcases List.mem_append.mp hm with hm | hm
    · exact hs.scanned m hm
    · cases List.mem_singleton.mp hm
      exact hdisk _ m (exec_load_ok hexec).1
  selected := by
    intro r hr
    rcases (moves hallow (validReport_of_exec hexec)).selected hr with hold | ⟨heq, may, hstate⟩
    · -- selected before: only the history has grown
      obtain ⟨before, after, rfl, heffected, hstate⟩ := hs.selected r hold
      refine ⟨before, after ++ [.act i e answer], ?_, heffected, hstate⟩
      rw [List.append_assoc, List.cons_append]
    · -- selected by this save, out of a record that was read under the lock
      cases heq
      refine ⟨h, [], rfl, (may.earned hs).effected ?_, hstate⟩
      rw [hstate]
      rfl

end VerifierState

end

/-! ## Every process -/

namespace Writer

/-- What a process relies on when it writes a record. -/
def Relies (ext : Externals) (c : Activities) (i : ℕ) : (Σ w, State w) → Prop
  | ⟨worker _, s⟩ => WorkerState.events s = heard c.history i
  | ⟨decision _ _, _⟩ => True
  | ⟨rollback operationId, s⟩ => RollbackState.events s = heard c.history i ∧
      (RollbackState.phase s).Knows operationId (RollbackState.events s)
  | ⟨offline, s⟩ => OfflineState.events s = heard c.history i ∧ (OfflineState.phase s).Knows
  | ⟨verifier, s⟩ => Selecting ext c.history i s

variable {ext : Externals} {c c' : Activities} {i j : ℕ} {t u : Σ w, State w} {e : Op}
  {answer : e.Answer} {r : OperationStateRecord}

theorem earned_of_save (hpre : (Contract.family (contract ext)).pre (.save r) t)
    (hremembers : Remembers t) (h : Relies ext c i t) : Earned ext c.history r := by
  obtain ⟨_ | _ | _ | _ | _, s⟩ := t
  · have hallow : WorkerState.allows _ s (.save r) := hpre.1
    exact WorkerState.MaySave.earned (hallow.resolve_left (by simp [Op.isQuiet])) hremembers h
  · obtain ⟨m, timestamp, -, rfl⟩ := hpre.resolve_left (by simp [Op.isQuiet])
    exact earned_of_idle (by simp [Decision.record]) (by simp [Decision.record]) rfl
  · exact RollbackState.MaySave.earned (hpre.resolve_left (by simp [Op.isQuiet])) h.2 h.1
  · exact OfflineState.MaySave.earned (hpre.resolve_left (by simp [Op.isQuiet])) h.2 h.1
  · exact VerifierState.MaySave.earned (hpre.resolve_left (by simp [Op.isDetached, Op.isQuiet])) h

theorem relies_start {activity : Activity} (hsilent : heard c.history i = []) :
    Relies ext c i (start activity) := by
  rcases activity with (_ | _ | _ | _) | _ | _
  · exact hsilent.symm
  · trivial
  · trivial
  · exact ⟨hsilent.symm, trivial⟩
  · exact ⟨hsilent.symm, trivial⟩
  · exact ⟨hsilent.symm, fun _ hm => (by cases hm), fun _ hr => (by cases hr)⟩

theorem relies_next (hpre : (Contract.family (contract ext)).pre e t) (h : Relies ext c i t)
    (hdisk : ∀ id r, c.world.state id = .record r → Earned ext c.history r)
    (hexec : exec true i e c.world answer c'.world)
    (hhistory : c'.history = c.history ++ [.act i e answer]) :
    Relies ext c' i (next ⟨e, answer⟩ t) := by
  have hevents : heard c'.history i = heard c.history i ++ [⟨e, answer⟩] := by
    rw [hhistory, heard_act]
  obtain ⟨_ | _ | _ | _ | _, s⟩ := t
  · show WorkerState.events s ++ [_] = _
    rw [hevents, show WorkerState.events s = heard c.history i from h]
  · trivial
  · obtain ⟨hown, hknows⟩ := h
    refine ⟨?_, RollbackState.knows_next hknows hpre (validAnswer_of_exec hexec)⟩
    show RollbackState.events s ++ [_] = _
    rw [hevents, hown]
  · obtain ⟨hown, hknows⟩ := h
    refine ⟨?_, OfflineState.knows_next hknows hpre hexec hdisk⟩
    show OfflineState.events s ++ [_] = _
    rw [hevents, hown]
  · show Selecting ext c'.history i _
    rw [hhistory]
    exact VerifierState.selecting_next h hpre hexec hdisk

/-- A step that is not its own. -/
theorem relies_frame {l : Label Sig Activity} (h : Relies ext c j u)
    (hhistory : c'.history = c.history ++ [l]) (hother : l.eventOf j = none) :
    Relies ext c' j u := by
  have hevents : heard c'.history j = heard c.history j := by
    rw [hhistory, heard_of_eventOf _ hother]
  obtain ⟨_ | _ | _ | _ | _, s⟩ := u
  · exact (show WorkerState.events s = _ from h).trans hevents.symm
  · trivial
  · exact ⟨h.1.trans hevents.symm, h.2⟩
  · exact ⟨h.1.trans hevents.symm, h.2⟩
  · obtain ⟨hown, hscanned, hselected⟩ : Selecting ext c.history j s := h
    refine ⟨hown.trans hevents.symm, fun m hm => ?_, fun r hr => ?_⟩ <;> rw [hhistory]
    · exact (hscanned m hm).append _
    · obtain ⟨before, after, heq, heffected, hstate⟩ := hselected r hr
      refine ⟨before, after ++ [l], ?_, heffected, hstate⟩
      rw [heq, List.append_assoc, List.cons_append]

end Writer

/-! ## Runs -/

/-- Every record on disk is earned. -/
def AllEarned (ext : Externals) (c : Activities) : Prop :=
  ∀ id r, c.world.state id = .record r → Earned ext c.history r

theorem preserved_earned (ext : Externals) {ok : Activities → Label Sig Activity → Prop} :
    Preserved (system true) (Activity.program ext) (Contract.family (Writer.contract ext)) ok
      Writer.start fun c φ =>
        ((∀ id r, c.world.state id = .record r → Coherent r) ∧
          ∀ i t, φ i = some t → Writer.Remembers t) ∧
        (Untouched c ∧ AllEarned ext c) ∧ ∀ i t, φ i = some t → Writer.Relies ext c i t := by
  have hgrow : ∀ {c c' : Activities} {l}, Step (system true) (Activity.program ext) c l c' →
      ∀ {id r}, c.world.state id = .record r → AllEarned ext c → Earned ext c'.history r := by
    intro c c' l hs id r hr h
    rw [hs.history_eq]
    exact (h id r hr).append _
  refine (preserved_coherent ext).extend_local ?_ ?_ ?_
  · rintro c c' activity ⟨huntouched, hearned⟩ hs hw
    refine ⟨⟨huntouched.step hs, fun id r hr => hgrow hs (by rw [← hw]; exact hr) hearned⟩,
      Writer.relies_start ?_, fun j t _ h => Writer.relies_frame h hs.history_eq rfl⟩
    rw [hs.history_eq, heard_of_eventOf _ rfl]
    exact (huntouched c.fresh (Nat.le_refl _)).2.1
  · rintro c c' φ i e answer t t' ⟨-, hmemory⟩ ⟨huntouched, hearned⟩ hrelies hφ hpre hs hexec hnext
    cases Writer.eq_next hnext
    refine ⟨⟨huntouched.step hs, fun id r hr => ?_⟩,
      Writer.relies_next hpre hrelies hearned hexec hs.history_eq,
      fun j u hji h => Writer.relies_frame h hs.history_eq (if_neg (Ne.symm hji))⟩
    rcases (exec_change hexec).state id with hsame | ⟨r', rfl, -, -, hrecord⟩
    · exact hgrow hs (hsame.symm.trans hr) hearned
    · rw [hrecord] at hr
      cases hr
      rw [hs.history_eq]
      exact (Writer.earned_of_save hpre (hmemory i t hφ) hrelies).append _
  · rintro c c' ⟨huntouched, hearned⟩ hs ⟨temporary, -, hw⟩
    refine ⟨huntouched.step hs, fun id r hr => ?_⟩
    rw [hw] at hr
    exact hgrow hs hr hearned

/-- **Nothing is finished that was not done.**  In every run of any programs, with failures and
crashes, from a store whose operations have neither changed anything yet nor a goal: every record
on disk that waits for its boot or is completed belongs to a transaction that was authorized and
carried out to its end, or to a rollback whose clone was seen; and where a boot had to be verified,
a verifier has taken the operation up after that and saw its check pass. -/
theorem completion_earned (ext : Externals) {w : World}
    (hw : ∀ id r, w.state id = .record r →
      Coherent r ∧ r.recovery = none ∧ r.state.isEffected = false) {c : Activities}
    (h : Reach (system true) (Activity.program ext) (fun _ _ => True) (Config.boot w) c)
    (id : String) (r : OperationStateRecord) (hr : c.world.state id = .record r) :
    Earned ext c.history r := by
  have hstart : AllEarned ext (Config.boot w) := by
    intro id r hr
    obtain ⟨-, hrecovery, heffected⟩ := hw id r hr
    refine ⟨fun _ => hrecovery, fun hstate => ?_, fun hstate => ?_⟩
    · rw [heffected] at hstate
      cases hstate
    · rw [hstate] at heffected
      cases heffected
  obtain ⟨φ, -, -, ⟨-, hearned⟩, -⟩ := h.tracked (wp_activity ext) (preserved_earned ext)
    (Tracked.boot w) ⟨⟨fun id r hr => (hw id r hr).1, fun i t hi => (by cases hi)⟩,
      ⟨.boot w, hstart⟩, fun i t hi => (by cases hi)⟩
  exact hearned id r hr

namespace Sample

/-- The solver finds the confirmed plan again, and after the reboot the new release and its
packages are there. -/
def upgradingOracle : Oracle :=
  { releaseOracle with
    query := fun q =>
      match q with
      | .discoverHost => .ok { facts with release := target }
      | .captureInventory =>
          .ok { report with
            installedPackages := ((expectedInventory plan.packageChanges
              (plan.installedPackages, plan.installedPackages)).map Prod.fst).getD [] }
      | q => releaseOracle.query q }

/-- The upgrade is applied offline, and verified after the reboot. -/
def offlineUpgrade : Activities :=
  (simulation upgradingOracle).plays (Activity.program releaseExternals) (Config.boot readyWorld)
    ([.spawn (.offline true)] ++ List.replicate 24 (.act 0) ++ [.crash, .spawn .boot] ++
      List.replicate 24 (.act 1))

/-- The record in the end. -/
def upgradedRecord : OperationStateRecord :=
  completedRecord
    { readyRecord with
      state := .verifyingBoot
      sequence := readyRecord.sequence + 3
      lastCompletedStep := some "offline-apply" }

theorem idle_readyWorld (id : String) (r : OperationStateRecord)
    (hr : readyWorld.state id = .record r) :
    Coherent r ∧ r.recovery = none ∧ r.state.isEffected = false := by
  unfold World.state readyWorld markedWorld at hr
  dsimp only at hr
  split_ifs at hr
  cases hr
  exact ⟨coherent_of_pending (.inl rfl), rfl, rfl⟩

end Sample

theorem completion_earned_sample :
    Sample.offlineUpgrade.world.state Sample.operationId = .record Sample.upgradedRecord ∧
      Earned Sample.releaseExternals Sample.offlineUpgrade.history Sample.upgradedRecord := by
  have hr : Sample.offlineUpgrade.world.state Sample.operationId =
      .record Sample.upgradedRecord := by decide +kernel
  exact ⟨hr, completion_earned Sample.releaseExternals Sample.idle_readyWorld
    ((simulation Sample.upgradingOracle).reach _ _ _) Sample.operationId Sample.upgradedRecord hr⟩

end LyraUpgrade
