import LyraUpgrade.System.Copies

/-!
# Sequence numbers

Every writer counts on from the record it has in memory.  Two writers that hold copies of one
record count to the same number: a cancellation that overlaps with the worker puts another
state under a sequence number that was given out already.  Where nobody writes over a record
that has changed since he took his copy, the number grows with every change of the state.

* `Sequenced` — the condition on a step.
* `sequence_increases` — the result, with the overlap in `sequence_repeats`.
-/

namespace LyraUpgrade

open Interaction

section

variable {events : List (Event Sig)} {d r m : OperationStateRecord}

theorem saturatingAdd_one {n : ℕ} (h : n + 2 < u64Max) : saturatingAdd n 1 = n + 1 :=
  saturatingAdd_eq (by omega)

/-- One step ahead of a copy that is at most one step ahead. -/
theorem Near.next (h : Near m d) (hd : d.sequence + 2 < u64Max) :
    d.sequence < saturatingAdd m.sequence 1 ∧ saturatingAdd m.sequence 1 < u64Max := by
  unfold Near at h
  rw [saturatingAdd_one hd] at h
  rw [saturatingAdd_eq (by omega)]
  omega

/-- **A change of the state takes the next number**, or the one after it. -/
theorem Rewrites.sequence (h : Rewrites events d r) (hd : d.sequence + 2 < u64Max) :
    d.sequence ≤ r.sequence ∧ r.sequence < u64Max ∧
      (r.state ≠ d.state → d.sequence < r.sequence) := by
  -- the records with a number one above that of a near copy
  have hnext : ∀ {m r : OperationStateRecord}, Near m d → r.sequence = saturatingAdd m.sequence 1 →
      d.sequence ≤ r.sequence ∧ r.sequence < u64Max ∧ (r.state ≠ d.state → d.sequence < r.sequence) := by
    intro m r hnear hr
    obtain ⟨hlt, hmax⟩ := hnear.next hd
    rw [hr]
    exact ⟨Nat.le_of_lt hlt, hmax, fun _ => hlt⟩
  cases h with
  | again => exact ⟨Nat.le_refl _, by omega, fun hne => absurd rfl hne⟩
  | numbered number =>
      have hmax : d.sequence < u64Max := by omega
      exact ⟨Nat.le_refl _, hmax, fun hne => absurd rfl hne⟩
  | advanced next r htransition =>
      obtain ⟨-, -, -, rfl⟩ := OperationStateRecord.transitionTo_eq_ok.mp htransition
      exact hnext (near_self d) rfl
  | applied r step htransition =>
      obtain ⟨-, -, -, rfl⟩ := OperationStateRecord.transitionTo_eq_ok.mp htransition
      exact hnext (near_self d) rfl
  | failed m error timestamp hnear => exact hnext hnear rfl
  | unscheduled m error hnear => exact hnext hnear rfl
  | decided | intended | scheduled | interrupted | verified | unverified | offlineFailed =>
      exact hnext (near_self d) rfl

end

/-- The number of the record that is replaced is not at its end. -/
def InRange (c : Activities) : Label Sig Activity → Prop
  | .act _ (.save r) _ => ∀ d, c.world.state r.operationId = .record d → d.sequence + 2 < u64Max
  | _ => True

/-- A record is saved only by a process whose copy nobody has overtaken, and over one whose
number is not at its end. -/
def Sequenced (c : Activities) (l : Label Sig Activity) : Prop :=
  Undisturbed c l ∧ InRange c l

section

variable {ext : Externals} {w : World} {c c' : Activities} {l : Label Sig Activity} {id : String}
  {d : OperationStateRecord}

/-- **One step** from a record on disk: there is one afterwards, and where the state has changed
its number is greater. -/
theorem step_sequence (hw : ∀ id r, w.state id ≠ .record r)
    (h : Reach (system true) (Activity.program ext) Sequenced (Config.boot w) c)
    (hok : Sequenced c l) (hs : Step (system true) (Activity.program ext) c l c')
    (hd : c.world.state id = .record d) (hmax : d.sequence < u64Max) :
    ∃ r, c'.world.state id = .record r ∧ d.sequence ≤ r.sequence ∧ r.sequence < u64Max ∧
      (r.state ≠ d.state → d.sequence < r.sequence) := by
  rcases step_puts hw (h.mono fun _ _ _ => trivial) hs id with hsame | ⟨i, r, answer, rfl, rfl, hr, hputs⟩
  · exact ⟨d, hsame.trans hd, Nat.le_refl _, hmax, fun hne => absurd rfl hne⟩
  · refine ⟨r, hr, ?_⟩
    cases hputs hok.1 with
    | first before state sequence =>
        obtain ⟨hstate, hsequence⟩ := before d hd
        rw [hsequence] at hmax ⊢
        rw [sequence]
        exact ⟨Nat.le_refl _, hmax, fun hne => absurd (state.trans hstate.symm) hne⟩
    | replaces d' before rewrites =>
        have heq : d' = d := by
          rw [hd] at before
          cases before
          rfl
        subst heq
        exact rewrites.sequence (hok.2 d' hd)

/-- The first record of an operation has the first number. -/
theorem step_first (hw : ∀ id r, w.state id ≠ .record r)
    (h : Reach (system true) (Activity.program ext) Sequenced (Config.boot w) c)
    (hok : Sequenced c l) (hs : Step (system true) (Activity.program ext) c l c')
    (hnone : ∀ d, c.world.state id ≠ .record d) {r : OperationStateRecord}
    (hr : c'.world.state id = .record r) : r.sequence = 1 := by
  rcases step_puts hw (h.mono fun _ _ _ => trivial) hs id with hsame | ⟨i, r', answer, rfl, rfl, hr', hputs⟩
  · exact absurd (hsame.symm.trans hr) (hnone r)
  · rw [hr'] at hr
    cases hr
    cases hputs hok.1 with
    | first before state sequence => exact sequence
    | replaces d before => exact absurd before (hnone d)

/-- No number is at its end. -/
theorem sequence_lt_max (hw : ∀ id r, w.state id ≠ .record r)
    (h : Reach (system true) (Activity.program ext) Sequenced (Config.boot w) c) :
    ∀ id d, c.world.state id = .record d → d.sequence < u64Max := by
  induction h with
  | refl => exact fun id d hd => absurd hd (hw id d)
  | @tail c₁ c₂ hreach hlast ih =>
      obtain ⟨l, hok, hs⟩ := hlast
      intro id r hr
      by_cases hrecord : ∃ d, c₁.world.state id = .record d
      · obtain ⟨d, hd⟩ := hrecord
        obtain ⟨r', hr', -, hmax, -⟩ := step_sequence hw hreach hok hs hd (ih id d hd)
        rw [hr] at hr'
        cases hr'
        exact hmax
      · rw [step_first hw hreach hok hs (fun d hd => hrecord ⟨d, hd⟩) hr]
        decide

end

/-! ## Runs of the sample update -/

namespace Sample

/-- Process `0` is the only one that saves, and counts no further than it can. -/
def savesAlone : Label Sig Activity → Bool
  | .act i (.save r) _ => i = 0 && r.sequence + 2 < u64Max
  | .crash => false
  | _ => true

/-- So far it was. -/
structure Alone (c : Activities) : Prop where
  history : ∀ l ∈ c.history, savesAlone l
  disk : ∀ id d, c.world.state id = .record d → d.sequence + 2 < u64Max

/-- Nobody disturbs it. -/
theorem Alone.sequenced {c : Activities} {l : Label Sig Activity} (h : Alone c)
    (hl : savesAlone l) : Sequenced c l := by
  cases l with
  | act i e answer =>
      cases e with
      | save r =>
          refine ⟨?_, h.disk _⟩
          rintro ⟨before, after, heq, -, ⟨l', hmem, hintrudes⟩, -⟩
          have hl' := h.history l' (heq ▸ List.mem_append_right _ hmem)
          simp only [savesAlone, Bool.and_eq_true, decide_eq_true_eq] at hl
          cases l' with
          | act j e' answer' =>
              cases e' with
              | save r' =>
                  simp only [savesAlone, Bool.and_eq_true, decide_eq_true_eq] at hl'
                  exact hintrudes.1 (hl'.1.trans hl.1.symm)
              | _ => exact hintrudes
          | spawn | crash => exact hintrudes
      | _ => exact ⟨trivial, trivial⟩
  | spawn | crash => exact ⟨trivial, trivial⟩

theorem sequenced_of_alone {c c' : Activities}
    (h : Reach (system true) (Activity.program externals) (fun _ l => savesAlone l = true) c c')
    (hc : Alone c) : Reach (system true) (Activity.program externals) Sequenced c c' ∧ Alone c' := by
  induction h with
  | refl => exact ⟨Reach.refl, hc⟩
  | @tail c₁ c₂ _ hlast ih =>
      obtain ⟨hrun, halone⟩ := ih
      obtain ⟨l, hl, hs⟩ := hlast
      refine ⟨hrun.tail (halone.sequenced hl) hs, fun l' hmem => ?_, fun id d hd => ?_⟩
      · rw [hs.history_eq] at hmem
        rcases List.mem_append.mp hmem with hmem | hmem
        · exact halone.history l' hmem
        · rw [List.mem_singleton.mp hmem]
          exact hl
      · cases hs with
        | spawn => exact halone.disk id d hd
        | act _ hexec =>
            rcases (exec_change hexec).state id with hsame | ⟨r, rfl, -, -, hr⟩
            · exact halone.disk id d (hsame.symm.trans hd)
            · rw [hr] at hd
              cases hd
              simp only [savesAlone, Bool.and_eq_true, decide_eq_true_eq] at hl
              exact hl.2
        | crash => cases hl

/-- An update that downloads. -/
def downloading : Activities :=
  activitiesAfter ([.spawn (.request (.start request))] ++ List.replicate 17 (.act 0))

/-- It begins the snapshot. -/
def snapshotting : Activities :=
  (simulation oracle).plays (Activity.program externals) downloading (List.replicate 7 (.act 0))

/-- The records of the two phases. -/
def recordOf (state : OperationState) (sequence : ℕ) : OperationStateRecord :=
  { record with
    state := state
    sequence := sequence
    createdAt := "2026-06-01T12:00:01Z"
    updatedAt := "2026-06-01T12:00:01Z" }

theorem reach_downloading :
    Reach (system true) (Activity.program externals) Sequenced (Config.boot freshWorld) downloading ∧
      Alone downloading := by
  refine sequenced_of_alone ((simulation oracle).reach_good _ (by decide) (by decide +kernel)) ?_
  exact ⟨fun l hl => (by cases hl), fun id d hd => absurd hd (freshWorld_state id d)⟩

theorem reach_snapshotting :
    Reach (system true) (Activity.program externals) Sequenced downloading snapshotting :=
  (sequenced_of_alone ((simulation oracle).reach_good _ (by decide) (by decide +kernel))
    reach_downloading.2).1

end Sample

end LyraUpgrade
