import LyraUpgrade.Service.CancelRace

/-!
# Cancellation is final

A Cancel request that succeeds while the worker is running ends the operation only if
the worker looks at the record once more before it carries the upgrade on.  Where it
does, nothing follows the cancellation but records of failure.
-/

namespace LyraUpgrade

open Interaction

/-! ## The property and its condition -/

/-- A Cancel request was told that it succeeded. -/
def cancelled : Label Sig ℕ → Bool
  | .act i (.save _) (.ok ()) => i ≠ 0
  | _ => false

/-- A step that carries the upgrade on. -/
def pursues : Label Sig ℕ → Bool
  | .act _ e _ => e.pursues
  | _ => false

/-- The record on disk has this state. -/
def World.InState (w : World) (operationId : String) (state : OperationState) : Prop :=
  ∃ r, w.state operationId = .record r ∧ r.state = state

instance (w : World) (operationId : String) (state : OperationState) :
    Decidable (w.InState operationId state) :=
  match h : w.state operationId with
  | .record r => decidable_of_iff (r.state = state)
      ⟨fun hr => ⟨r, h, hr⟩, fun ⟨r', hr', hs⟩ => by rw [h] at hr'; cases hr'; exact hs⟩
  | .absent | .malformed => isFalse fun ⟨r', hr', _⟩ => by rw [h] at hr'; cases hr'

/-- After every successful cancellation nothing carries the upgrade on, and the record is
that of a failure. -/
structure CancelFinal (operationId : String) (c : Race) : Prop where
  later : c.history.Pairwise fun a b => cancelled a → pursues b = false
  disk : c.history.any cancelled → c.world.InState operationId .failed

/-- The program reads the record before it carries the upgrade on. -/
def ReadsFirst (operationId : String) (p : Prog Sig Exit) : Prop :=
  p.Precedes (fun e : Op => e = .load operationId) fun e : Op => e.pursues

/-- Cancel succeeds only where the worker will read the record before it carries the
upgrade on, and what the worker reads is on disk. -/
def CancelsInTime (operationId : String) (c : Race) : Label Sig ℕ → Prop
  | .act 0 (.load id) answer => answer = loadState (c.world.state id) id
  | .act (_ + 1) (.save _) (.ok ()) => ∀ p, c.procs 0 = some p → ReadsFirst operationId p
  | _ => True

/-! ## The worker after a cancellation -/

/-- The worker has seen the cancellation, or has failed and will read the record. -/
def Phase.stops : Phase → Bool
  | .told | .ended => true
  | _ => false

/-- What holds of the worker after a cancellation, with the record `saved` on disk: it
writes no more, or it will find the cancellation before it does. -/
def Stopped (operationId : String) (saved : OperationStateRecord) (phase : Phase)
    (p : Prog Sig Exit) : Prop :=
  (∃ ending, phase = .closed ending) ∨
  (saved.errorCode = some cancelledCode ∧ (phase.stops ∨ ReadsFirst operationId p))

theorem not_pursues_of_quiet {e : Op} (h : e.isQuiet) : e.pursues = false := by
  cases e with
  | run id command =>
      cases command with
      | update mode | transaction mode => cases mode <;> first | rfl | cases h
      | createSnapshot _ => cases h
      | _ => rfl
  | save r => cases h
  | _ => rfl

section

variable {operationId : String} {saved : OperationStateRecord} {s : WorkerState}

/-- A worker that is done writes nothing. -/
theorem WorkerState.Moves.quiet_of_closed {e : Event Sig} {phase : Phase} {r : OperationStateRecord}
    (h : s.Moves operationId e phase r) {ending : Ending} (hclosed : s.phase = .closed ending) :
    Op.isQuiet e.op ∧ phase = s.phase := by
  cases h with
  | quiet hquiet => exact ⟨hquiet, rfl⟩
  | found r hphase | refused answer hphase | poll answer hphase | lock hphase | busy error hphase
  | takeSnapshot description output hphase | apply output hphase | mark answer hphase
  | create answer hphase => rw [hclosed] at hphase; cases hphase
  | look answer hphase => rw [hclosed] at hphase; rcases hphase with hphase | hphase <;> cases hphase
  | unlock hphase => rw [hclosed] at hphase; cases hphase
  | saved hstart may | unsaved error hstart may =>
      cases may with
      | initial hphase | downloading hphase | snapshotting hphase | snapshot _ hphase
      | applying hphase | ready hphase | result hphase | failure hphase =>
          rw [hclosed] at hphase
          cases hphase

/-- A worker that saves a record of a failure is in its failure branch. -/
theorem WorkerState.MaySave.reporting_of_failed {r : OperationStateRecord}
    (may : s.MaySave operationId r) (hsound : s.Sound operationId) (hfailed : r.state = .failed) :
    s.phase = .reporting := by
  have hadvance : ∀ {next}, s.record.transitionTo next = .ok r → r.state = next := by
    intro next hnext
    obtain ⟨-, -, -, rfl⟩ := OperationStateRecord.transitionTo_eq_ok.mp hnext
    rfl
  cases may with
  | initial _ initial => rw [initial.2.1] at hfailed; cases hfailed
  | downloading _ next | snapshotting _ next | applying _ next | ready _ next =>
      rw [hadvance next] at hfailed; cases hfailed
  | snapshot _ phase _ next =>
      subst next
      have := hsound.state .snapshotting (by rw [phase]; rfl)
      rw [show s.record.state = .failed from hfailed] at this
      cases this
  | result _ _ state final next =>
      rw [hadvance next] at hfailed
      rcases final with rfl | rfl <;> cases hfailed
  | failure phase => exact phase

/-- The failure branch is left by its save. -/
theorem WorkerState.next_reporting (h : s.phase = .reporting) (r : OperationStateRecord)
    (answer : Except PersistenceError Unit) :
    ∃ ending, (s.next ⟨.save r, answer⟩).phase = .closed ending := by
  have hstart : s.phase ≠ .start := by rw [h]; decide
  rcases answer with error | ⟨⟩
  · exact ⟨.unreported, by rw [next_unsaved hstart, h]; rfl⟩
  · exact ⟨.reported, by rw [next_saved hstart, h]; rfl⟩

/-- A read of the cancellation stops the worker. -/
theorem WorkerState.Moves.stops_of_load {phase : Phase} {r : OperationStateRecord}
    (h : s.Moves operationId ⟨.load operationId, .ok saved⟩ phase r) (hworker : s.phase.hasWorker)
    (hcode : saved.errorCode = some cancelledCode) :
    phase.stops ∨ ∃ ending, phase = .closed ending := by
  have hcancelled : isCancelled (.ok saved) := isCancelled_iff.mpr ⟨saved, rfl, hcode⟩
  cases h with
  | quiet hquiet => cases hquiet
  | found _ hphase | refused _ hphase => rw [hphase] at hworker; cases hworker
  | poll => rw [if_pos hcancelled]; exact .inl rfl
  | look => rw [if_pos hcancelled]; exact .inr ⟨_, rfl⟩

/-- **A step of a stopped worker** carries nothing on, and leaves it stopped. -/
theorem Stopped.step {i : ℕ} {e : Op} {k : e.Answer → Prog Sig Exit} {answer : e.Answer}
    {w w' : World} (h : Stopped operationId saved s.phase (.op e k)) (hworker : s.phase.hasWorker)
    (hsound : s.Sound operationId) (hallow : s.allows operationId e)
    (hexec : exec true i e w answer w') (hsaved : w.state operationId = .record saved)
    (hfailed : saved.state = .failed)
    (hread : ∀ answer', (⟨e, answer⟩ : Event Sig) = ⟨.load operationId, answer'⟩ →
      answer' = .ok saved) :
    e.pursues = false ∧ ∃ saved', w'.state operationId = .record saved' ∧
      saved'.state = .failed ∧
      Stopped operationId saved' (s.next ⟨e, answer⟩).phase (k answer) := by
  have hmove := WorkerState.moves hallow (validAnswer_of_exec hexec)
  have hkeep : e.isSave = false → ∀ {phase}, Stopped operationId saved phase (k answer) →
      ∃ saved', w'.state operationId = .record saved' ∧ saved'.state = .failed ∧
        Stopped operationId saved' phase (k answer) := fun hsave _ hstopped =>
    ⟨saved, ((exec_change hexec).state_of_not_save hsave _).trans hsaved, hfailed, hstopped⟩
  rcases h with ⟨ending, hclosed⟩ | ⟨hcode, hstops | hreads⟩
  · obtain ⟨hquiet, hphase⟩ := hmove.quiet_of_closed hclosed
    exact ⟨not_pursues_of_quiet hquiet, hkeep (isSave_of_quiet hquiet)
      (.inl ⟨ending, hphase.trans hclosed⟩)⟩
  · -- the worker only gives up the lock and reads the record
    have hphases : s.phase = .told ∨ s.phase = .ended := by
      generalize s.phase = p at hstops
      cases p <;> first | exact .inl rfl | exact .inr rfl | cases hstops
    generalize (s.next ⟨e, answer⟩).phase = phase at hmove
    generalize (s.next ⟨e, answer⟩).record = r at hmove
    cases hmove with
    | quiet hquiet =>
        exact ⟨not_pursues_of_quiet hquiet, hkeep (isSave_of_quiet hquiet)
          (.inr ⟨hcode, .inl hstops⟩)⟩
    | unlock =>
        refine ⟨rfl, hkeep rfl (.inr ⟨hcode, .inl ?_⟩)⟩
        rcases hphases with hphase | hphase <;> rw [hphase] <;> rfl
    | look answer hphase =>
        obtain rfl := hread answer rfl
        refine ⟨rfl, hkeep rfl (.inl ⟨.cancelled, if_pos ?_⟩)⟩
        exact isCancelled_iff.mpr ⟨saved, rfl, hcode⟩
    | found _ hphase | refused _ hphase | poll _ hphase | lock hphase | busy _ hphase
    | takeSnapshot _ _ hphase | apply _ hphase | mark _ hphase | create _ hphase =>
        rw [hphase] at hphases
        rcases hphases with hphases | hphases <;> cases hphases
    | saved hstart may | unsaved _ hstart may =>
        cases may with
        | initial hphase | downloading hphase | snapshotting hphase | snapshot _ hphase
        | applying hphase | ready hphase | result hphase | failure hphase =>
            rw [hphase] at hphases
            rcases hphases with hphases | hphases <;> cases hphases
  · rcases hreads with hload | ⟨hnot, hrest⟩
    · subst hload
      obtain rfl := hread answer rfl
      refine ⟨rfl, hkeep rfl ?_⟩
      rcases hmove.stops_of_load hworker hcode with hphase | hphase
      · exact .inr ⟨hcode, .inl hphase⟩
      · exact .inl hphase
    · refine ⟨by simpa using hnot, ?_⟩
      cases hsave : e.isSave with
      | false => exact hkeep hsave (.inr ⟨hcode, .inr (hrest answer)⟩)
      | true =>
          obtain ⟨r, rfl⟩ : ∃ r, e = .save r := by
            cases e <;> first | exact ⟨_, rfl⟩ | cases hsave
          have hr : r.state = .failed := by simpa [Op.pursues] using hnot
          have may : s.MaySave operationId r := hallow.resolve_left (by simp [Op.isQuiet])
          obtain ⟨ending, hclosed⟩ :=
            WorkerState.next_reporting (may.reporting_of_failed hsound hr) r answer
          rcases (exec_change hexec).state operationId with hsame | ⟨r', hr', -, -, hrecord⟩
          · exact ⟨saved, hsame.trans hsaved, hfailed, .inl ⟨ending, hclosed⟩⟩
          · cases hr'
            exact ⟨r, hrecord, hr, .inl ⟨ending, hclosed⟩⟩

/-! ## Runs -/

/-- One more step. -/
theorem CancelFinal.append {c c' : Race} {l : Label Sig ℕ} (h : CancelFinal operationId c)
    (hhistory : c'.history = c.history ++ [l])
    (hlater : c.history.any cancelled → pursues l = false)
    (hdisk : c.history.any cancelled ∨ cancelled l → c'.world.InState operationId .failed) :
    CancelFinal operationId c' where
  later := by
    rw [hhistory, List.pairwise_append]
    refine ⟨h.later, List.pairwise_singleton _ _, fun a ha b hb hcancelled => ?_⟩
    rw [List.mem_singleton.mp hb]
    exact hlater (List.any_eq_true.mpr ⟨a, ha, hcancelled⟩)
  disk := by
    intro hany
    rw [hhistory, List.any_append, Bool.or_eq_true] at hany
    exact hdisk (hany.imp_right fun hl => by simpa using hl)

/-- The record on disk is a valid one of the operation, and cancellations have been
final so far. -/
def FinalSoFar (operationId : String) (c : Race) : Prop :=
  1 ≤ c.fresh ∧ CancelFinal operationId c ∧ ∃ saved, c.world.state operationId = .record saved ∧
    saved.operationId = operationId ∧ Loadable saved

/-- The worker is stopped by a cancellation, and a Cancel request holds a record of the
operation. -/
def FinalKeeper (operationId : String) (c : Race) (i : ℕ) : (Σ p, Party.State p) → Prop
  | ⟨.worker, s⟩ => i = 0 ∧ s.phase.hasWorker ∧ s.Sound operationId ∧
      (c.history.any cancelled → ∀ saved p, c.world.state operationId = .record saved →
        c.procs 0 = some p → Stopped operationId saved s.phase p)
  | ⟨.cancel, s⟩ => i ≠ 0 ∧ ∀ m, s = .holding m → m.operationId = operationId

/-- A process keeps its invariant when it has not acted, and the record is as before. -/
theorem FinalKeeper.frame {c c' : Race} {j : ℕ} {t : Σ p, Party.State p}
    (h : FinalKeeper operationId c j t)
    (hstate : c'.world.state operationId = c.world.state operationId)
    (hprocs : c'.procs 0 = c.procs 0)
    (hhistory : c'.history.any cancelled → c.history.any cancelled) :
    FinalKeeper operationId c' j t := by
  obtain ⟨_ | _, t⟩ := t
  · obtain ⟨hzero, hworker, hsound, hstopped⟩ := h
    refine ⟨hzero, hworker, hsound, fun hany saved p hsaved hp => ?_⟩
    rw [hstate] at hsaved
    rw [hprocs] at hp
    exact hstopped (hhistory hany) saved p hsaved hp
  · exact h

theorem cancelled_worker (e : Op) (answer : e.Answer) : cancelled (.act 0 e answer) = false := by
  cases e with
  | save r => rcases answer with error | ⟨⟩ <;> rfl
  | _ => rfl

/-- After a step the record on disk is a valid one, and still that of a failure if it was
or if such a record was saved. -/
theorem FinalSoFar.record {c : Race} {i : ℕ} {e : Op} {answer : e.Answer} {w' : World}
    (h : FinalSoFar operationId c) (hexec : exec true i e c.world answer w') :
    ∃ saved, w'.state operationId = .record saved ∧ saved.operationId = operationId ∧
      Loadable saved := by
  obtain ⟨-, -, saved, hsaved, hid, hloadable⟩ := h
  rcases (exec_change hexec).state operationId with hsame | ⟨r, -, hr, hloadable', hrecord⟩
  · exact ⟨saved, hsame.trans hsaved, hid, hloadable⟩
  · exact ⟨r, hrecord, hr, hloadable'⟩

/-- A step of the worker. -/
theorem FinalSoFar.worker {c c' : Race} {e : Op} {answer : e.Answer}
    (h : FinalSoFar operationId c) (hkeeper : FinalKeeper operationId c 0 ⟨.worker, s⟩)
    (hallow : s.allows operationId e) (hok : CancelsInTime operationId c (.act 0 e answer))
    (hs : Step (system true) (fun uid => cancel uid operationId) c (.act 0 e answer) c')
    (hexec : exec true 0 e c.world answer c'.world) :
    FinalSoFar operationId c' ∧
      FinalKeeper operationId c' 0 ⟨.worker, s.next ⟨e, answer⟩⟩ := by
  have hrecord := h.record hexec
  obtain ⟨hfresh, hfinal, saved, hsaved, hid, hloadable⟩ := h
  obtain ⟨-, hworker, hsound, hstopped⟩ := hkeeper
  obtain ⟨k, hk, hprocs⟩ := hs.procs_act
  have hvalid := validAnswer_of_exec hexec
  have hworker' := (WorkerState.moves hallow hvalid).hasWorker hworker
  have hsound' := WorkerState.sound_next hallow hvalid (fun _ => hsound) hworker'
  have hnot := cancelled_worker e answer
  have hany' : c'.history.any cancelled = c.history.any cancelled := by
    rw [hs.history_eq, List.any_append]
    simp [hnot]
  cases hany : c.history.any cancelled with
  | false =>
      have hnone : ∀ {p : Prop}, c.history.any cancelled ∨ cancelled (.act 0 e answer) → p := by
        rintro p (h | h)
        · rw [hany] at h; cases h
        · rw [hnot] at h; cases h
      refine ⟨⟨hfresh.trans hs.fresh_le, hfinal.append hs.history_eq (fun h => hnone (.inl h)) hnone,
        hrecord⟩, rfl, hworker', hsound', fun h => ?_⟩
      rw [hany', hany] at h
      cases h
  | true =>
      have hfailed : saved.state = .failed := by
        obtain ⟨r, hr, hstate⟩ := hfinal.disk hany
        rw [hsaved] at hr
        cases hr
        exact hstate
      have hread : ∀ answer', (⟨e, answer⟩ : Event Sig) = ⟨.load operationId, answer'⟩ →
          answer' = .ok saved := by
        intro answer' heq
        cases heq
        refine Eq.trans (b := loadState (c.world.state operationId) operationId) hok ?_
        rw [hsaved]
        exact loadState_eq_ok.mpr ⟨rfl, hid, hloadable⟩
      obtain ⟨hpursues, saved', hsaved', hfailed', hstopped'⟩ := (hstopped hany saved _ hsaved hk).step
        hworker hsound hallow hexec hsaved hfailed hread
      refine ⟨⟨hfresh.trans hs.fresh_le, hfinal.append hs.history_eq (fun _ => hpursues)
        fun _ => ⟨saved', hsaved', hfailed'⟩, hrecord⟩, rfl, hworker', hsound', ?_⟩
      intro _ r p hr hp
      rw [hsaved'] at hr
      rw [hprocs, Function.update_self] at hp
      cases hr
      cases hp
      exact hstopped'

/-- A stopped worker stays stopped when the record of another cancellation is written. -/
theorem Stopped.overwritten {phase : Phase} {p : Prog Sig Exit}
    (h : Stopped operationId saved phase p) (m : OperationStateRecord) (timestamp : String) :
    Stopped operationId (cancellation.record m timestamp) phase p := by
  rcases h with hclosed | ⟨-, hstops⟩
  · exact .inl hclosed
  · exact .inr ⟨rfl, hstops⟩

/-- A step of a Cancel request that writes nothing. -/
theorem FinalSoFar.look {c c' : Race} {i : ℕ} {e : Op} {answer : e.Answer}
    (h : FinalSoFar operationId c) (hi : i ≠ 0) (hsave : e.isSave = false)
    (hpursues : e.pursues = false)
    (hs : Step (system true) (fun uid => cancel uid operationId) c (.act i e answer) c')
    (hexec : exec true i e c.world answer c'.world) :
    FinalSoFar operationId c' ∧ ∀ j t, FinalKeeper operationId c j t →
      FinalKeeper operationId c' j t := by
  have hrecord := h.record hexec
  obtain ⟨hfresh, hfinal, -⟩ := h
  obtain ⟨k, hk, hprocs⟩ := hs.procs_act
  have hnot : cancelled (.act i e answer) = false := by
    cases e with
    | save r => cases hsave
    | _ => rfl
  have hany : c'.history.any cancelled → c.history.any cancelled := by
    rw [hs.history_eq, List.any_append]
    simp [hnot]
  have hstate := (exec_change hexec).state_of_not_save hsave operationId
  refine ⟨⟨hfresh.trans hs.fresh_le, hfinal.append hs.history_eq (fun _ => hpursues) ?_, hrecord⟩,
    fun j t hj => hj.frame hstate (by rw [hprocs, Function.update_of_ne (Ne.symm hi)]) hany⟩
  rintro (h | h)
  · obtain ⟨r, hr, hfailed⟩ := hfinal.disk h
    exact ⟨r, hstate.trans hr, hfailed⟩
  · rw [hnot] at h
    cases h

/-- A Cancel request writes its record. -/
theorem FinalSoFar.write {c c' : Race} {i : ℕ} {m : OperationStateRecord} {timestamp : String}
    {answer : Except PersistenceError Unit} (h : FinalSoFar operationId c) (hi : i ≠ 0)
    (hm : m.operationId = operationId)
    (hok : CancelsInTime operationId c (.act i (.save (cancellation.record m timestamp)) answer))
    (hs : Step (system true) (fun uid => cancel uid operationId) c
      (.act i (.save (cancellation.record m timestamp)) answer) c')
    (hexec : exec true i (.save (cancellation.record m timestamp)) c.world answer c'.world) :
    FinalSoFar operationId c' ∧ ∀ j t, j ≠ i → FinalKeeper operationId c j t →
      FinalKeeper operationId c' j t := by
  have hrecord := h.record hexec
  obtain ⟨hfresh, hfinal, saved, hsaved, -⟩ := h
  obtain ⟨k, hk, hprocs⟩ := hs.procs_act
  have hprocs₀ : c'.procs 0 = c.procs 0 := by rw [hprocs, Function.update_of_ne (Ne.symm hi)]
  rcases answer with error | ⟨⟩
  · have hany : c'.history.any cancelled = c.history.any cancelled := by
      rw [hs.history_eq, List.any_append]
      simp [cancelled]
    have hdisk : c'.world.state operationId = .record saved ∨
        c'.world.state operationId = .record (cancellation.record m timestamp) := by
      rcases (exec_change hexec).state operationId with hsame | ⟨r, hr, -, -, hw⟩
      · exact .inl (hsame.trans hsaved)
      · cases hr
        exact .inr hw
    refine ⟨⟨hfresh.trans hs.fresh_le, hfinal.append hs.history_eq (fun _ => rfl) ?_, hrecord⟩, ?_⟩
    · rintro (h | h)
      · rcases hdisk with hdisk | hdisk
        · obtain ⟨r, hr, hfailed⟩ := hfinal.disk h
          rw [hsaved] at hr
          cases hr
          exact ⟨saved, hdisk, hfailed⟩
        · exact ⟨_, hdisk, rfl⟩
      · cases h
    · rintro j ⟨_ | _, t⟩ hj hkeeper
      · obtain ⟨hzero, hworker, hsound, hstopped⟩ := hkeeper
        refine ⟨hzero, hworker, hsound, fun hany' r p hr hp => ?_⟩
        rw [hany] at hany'
        rw [hprocs₀] at hp
        have hbefore := hstopped hany' saved p hsaved hp
        rcases hdisk with hdisk | hdisk
        · rw [hdisk] at hr
          cases hr
          exact hbefore
        · rw [hdisk] at hr
          cases hr
          exact hbefore.overwritten m timestamp
      · exact hkeeper
  · have hdisk : c'.world.state operationId = .record (cancellation.record m timestamp) := by
      rw [(exec_save_ok hexec).2, ← hm]
      exact World.state_putState_self (cancellation.record m timestamp)
    refine ⟨⟨hfresh.trans hs.fresh_le, hfinal.append hs.history_eq (fun _ => rfl)
      fun _ => ⟨_, hdisk, rfl⟩, hrecord⟩, ?_⟩
    rintro j ⟨_ | _, t⟩ hj hkeeper
    · obtain ⟨hzero, hworker, hsound, -⟩ := hkeeper
      refine ⟨hzero, hworker, hsound, fun _ r p hr hp => ?_⟩
      rw [hprocs₀] at hp
      rw [hdisk] at hr
      cases hr
      -- the cancellation came in time: the worker still has a read before it
      cases i with
      | zero => exact absurd rfl hi
      | succ i => exact .inr ⟨rfl, .inr (hok p hp)⟩
    · exact hkeeper

theorem preserved_finalSoFar :
    Preserved (system true) (fun uid => cancel uid operationId)
      (Contract.family (Party.contract operationId)) (CancelsInTime operationId)
      (fun _ => ⟨.cancel, .idle⟩)
      fun c φ => FinalSoFar operationId c ∧
        ∀ i s, φ i = some s → FinalKeeper operationId c i s := by
  refine Preserved.of_local ?_ ?_ ?_
  · rintro c c' uid ⟨hfresh, hfinal, hrecord⟩ - - hs hw
    have hprocs : c'.procs 0 = c.procs 0 := by
      rw [hs.procs_spawn, Function.update_of_ne (by omega)]
    have hany : c'.history.any cancelled → c.history.any cancelled := by
      rw [hs.history_eq, List.any_append]
      simp [cancelled]
    have hidle : ∀ m, DecisionState.idle = .holding m → m.operationId = operationId := by
      intro m hm
      cases hm
    refine ⟨⟨hfresh.trans hs.fresh_le, hfinal.append hs.history_eq (fun _ => rfl) ?_,
      by rw [hw]; exact hrecord⟩, ⟨by omega, hidle⟩, fun j t _ hj => ?_⟩
    · rintro (h | h)
      · rw [hw]
        exact hfinal.disk h
      · cases h
    · exact hj.frame (by rw [hw]) hprocs hany
  · rintro c c' φ i e answer ⟨party, s⟩ hfinal hL hφ hpre hok hs hexec
    have hvalid := validAnswer_of_exec hexec
    have hself := hL i _ hφ
    cases party with
    | worker =>
        obtain rfl : i = 0 := hself.1
        obtain ⟨hfinal', hself'⟩ := hfinal.worker hself hpre hok hs hexec
        refine ⟨⟨.worker, s.next ⟨e, answer⟩⟩, ⟨_, ⟨hvalid, rfl⟩, rfl⟩, hfinal', hself', ?_⟩
        rintro j ⟨_ | _, t⟩ hj hφj
        · exact absurd (hL j _ hφj).1 hj
        · exact hL j _ hφj
    | cancel =>
        obtain ⟨hi, hholding⟩ := hself
        refine ⟨⟨.cancel, s.next cancellation ⟨e, answer⟩⟩, ⟨_, ⟨hvalid, rfl⟩, rfl⟩, ?_⟩
        have hmove := DecisionState.moves hpre hvalid
        generalize s.next cancellation ⟨e, answer⟩ = s' at hmove
        have hlook : e.isSave = false → e.pursues = false →
            (∀ m, s' = .holding m → m.operationId = operationId) →
            FinalSoFar operationId c' ∧ FinalKeeper operationId c' i ⟨.cancel, s'⟩ ∧
              ∀ j t, j ≠ i → φ j = some t → FinalKeeper operationId c' j t := by
          intro hsave hpursues hholding'
          obtain ⟨hfinal', hframe⟩ := hfinal.look hi hsave hpursues hs hexec
          exact ⟨hfinal', ⟨hi, hholding'⟩, fun j t _ hj => hframe j t (hL j t hj)⟩
        cases hmove with
        | quiet hquiet => exact hlook (isSave_of_quiet hquiet) (not_pursues_of_quiet hquiet) hholding
        | read m _ _ hid _ => exact hlook rfl rfl fun m' hm' => by cases hm'; exact hid
        | refuse => exact hlook rfl rfl fun m' hm' => by cases hm'
        | look => exact hlook rfl rfl hholding
        | write m timestamp answer hholds =>
            obtain ⟨hfinal', hframe⟩ := hfinal.write hi (hholding m hholds) hok hs hexec
            exact ⟨hfinal', ⟨hi, fun m' hm' => by cases hm'⟩, fun j t hji hj =>
              hframe j t hji (hL j t hj)⟩
  · rintro c c' ⟨hfresh, hfinal, hrecord⟩ - hs ⟨temporary, -, hw⟩
    refine ⟨hfresh.trans hs.fresh_le, hfinal.append hs.history_eq (fun _ => rfl) ?_,
      by rw [hw]; exact hrecord⟩
    rintro (h | h)
    · rw [hw]
      exact hfinal.disk h
    · cases h

end

/-- **Cancellation is final** in every run in which each Cancel request that succeeds finds
the worker with a read of the record ahead of it. -/
theorem cancel_final (ext : Externals) (planned : PendingPlan) {w : World}
    {r : OperationStateRecord} (h : Loadable r) (hawaiting : r.state = .awaitingConfirmation)
    (hw : w.state r.operationId = .record r) {c : Race}
    (hreach : RaceReach r.operationId (CancelsInTime r.operationId) (race ext w r planned) c) :
    CancelFinal r.operationId c := by
  have hinit : FinalSoFar r.operationId (race ext w r planned) ∧
      ∀ i s, raceStates r i = some s → FinalKeeper r.operationId (race ext w r planned) i s := by
    refine ⟨⟨Nat.le_refl _, ⟨List.Pairwise.nil, fun hany => by cases hany⟩, r, hw, rfl, h⟩, ?_⟩
    intro i s hs
    by_cases hi : i = 0
    · subst hi
      cases hs
      exact ⟨rfl, rfl, WorkerState.sound_read h hawaiting, fun hany => by cases hany⟩
    · rw [raceStates, if_neg hi] at hs
      cases hs
  obtain ⟨φ, -, ⟨-, hfinal, -⟩, -⟩ := hreach.tracked (fun uid => wp_cancel uid r.operationId)
    preserved_finalSoFar (tracked_race ext w planned h hawaiting) hinit
  exact hfinal

namespace Sample

/-- The worker is about to look for a cancellation, and Cancel has read the record. -/
def beforePoll : Race := raceAfter ([.spawn user] ++ acts 0 7 ++ acts 1 3)

/-- Cancel has written its record. -/
def afterWrite : Race :=
  (simulation oracle).play (fun uid => cancel uid operationId) beforePoll (.act 1)

/-- The worker has gone on. -/
def afterPoll : Race :=
  (simulation oracle).plays (fun uid => cancel uid operationId) afterWrite (acts 0 5)

/-- Where nothing fails, what the worker reads is on disk. -/
theorem inTime_worker {c : Race} {l : Label Sig ℕ}
    (h : (simulation oracle).label c (.act 0) = some l) : CancelsInTime operationId c l := by
  unfold Strategy.label at h
  rcases hproc : c.procs 0 with _ | _ | ⟨e, k⟩ <;> simp only [hproc] at h
  · cases h
  · cases h
  · cases h
    cases e <;> first | rfl | trivial

/-- A step of another process is in time if it is no cancellation, or if the worker reads
the record first. -/
theorem inTime_cancel {c : Race} {i : ℕ} {l : Label Sig ℕ}
    (hlabel : (simulation oracle).label c (.act (i + 1)) = some l)
    (h : cancelled l = false ∨ ∀ p, c.procs 0 = some p → ReadsFirst operationId p) :
    CancelsInTime operationId c l := by
  unfold Strategy.label at hlabel
  rcases hproc : c.procs (i + 1) with _ | _ | ⟨e, k⟩ <;> simp only [hproc] at hlabel
  · cases hlabel
  · cases hlabel
  · obtain ⟨rfl⟩ := hlabel
    cases e with
    | save r =>
        generalize ((simulation oracle).answer (i + 1) (.save r) c.world).1 = answer at h ⊢
        rcases answer with error | ⟨⟩
        · trivial
        · exact h.resolve_left (by simp [cancelled])
    | _ => trivial

/-- The next operation reads the record. -/
def readsNow : Option (Prog Sig Exit) → Bool
  | some (.op (.load id) _) => id = operationId
  | _ => false

theorem readsFirst_of_readsNow {p : Prog Sig Exit} (h : readsNow (some p)) :
    ReadsFirst operationId p := by
  unfold readsNow at h
  split at h
  · rename_i id k heq
    cases heq
    exact .inl (by rw [of_decide_eq_true h])
  · cases h

theorem reach_beforePoll :
    RaceReach operationId (CancelsInTime operationId) updateRace beforePoll := by
  have hworker : RaceReach operationId (CancelsInTime operationId) updateRace
      (raceAfter ([.spawn user] ++ acts 0 7)) := by
    refine (simulation oracle).reach_if _ (I := fun _ => True) trivial fun choice hchoice c _ =>
      ⟨trivial, fun l hlabel => ?_⟩
    rcases List.mem_append.mp hchoice with hspawn | hact
    · obtain rfl := List.mem_singleton.mp hspawn
      cases hlabel
      trivial
    · obtain rfl := List.eq_of_mem_replicate hact
      exact inTime_worker hlabel
  have hcancel : ∀ n < 3, ((simulation oracle).label
      (raceAfter ([.spawn user] ++ acts 0 7 ++ acts 1 n)) (.act 1)).all (!cancelled ·) := by
    decide +kernel
  have hstep : ∀ n < 3, RaceReach operationId (CancelsInTime operationId)
      (raceAfter ([.spawn user] ++ acts 0 7 ++ acts 1 n))
      (raceAfter ([.spawn user] ++ acts 0 7 ++ acts 1 (n + 1))) := by
    intro n hn
    have hlast : raceAfter ([.spawn user] ++ acts 0 7 ++ acts 1 (n + 1)) =
        (simulation oracle).play (fun uid => cancel uid operationId)
          (raceAfter ([.spawn user] ++ acts 0 7 ++ acts 1 n)) (.act 1) := by
      rw [show acts 1 (n + 1) = acts 1 n ++ [.act 1] from List.replicate_succ', ← List.append_assoc]
      exact Strategy.plays_append ..
    rw [hlast]
    refine (simulation oracle).reach_play _ _ _ fun l hlabel =>
      inTime_cancel (i := 0) hlabel (.inl ?_)
    have := hcancel n hn
    rw [hlabel] at this
    simpa using this
  have h₀ := hstep 0 (by decide)
  exact hworker.trans (h₀.trans ((hstep 1 (by decide)).trans (hstep 2 (by decide))))

theorem reach_afterPoll :
    RaceReach operationId (CancelsInTime operationId) updateRace afterPoll := by
  have hreads : readsNow (beforePoll.procs 0) := by decide +kernel
  have hwrite : RaceReach operationId (CancelsInTime operationId) beforePoll afterWrite :=
    (simulation oracle).reach_play _ _ _ fun l hlabel => inTime_cancel (i := 0) hlabel
      (.inr fun p hp => readsFirst_of_readsNow (by rw [← hp]; exact hreads))
  refine reach_beforePoll.trans (hwrite.trans ?_)
  refine (simulation oracle).reach_if _ (I := fun _ => True) trivial fun choice hchoice c _ =>
    ⟨trivial, fun l hlabel => ?_⟩
  obtain rfl := List.eq_of_mem_replicate hchoice
  exact inTime_worker hlabel

end Sample

theorem cancel_final_sample :
    Sample.afterPoll.history.any cancelled ∧ CancelFinal Sample.operationId Sample.afterPoll :=
  ⟨by decide +kernel, cancel_final Sample.externals ⟨Sample.planned, none⟩ Sample.loadable_record
    rfl (by rfl) Sample.reach_afterPoll⟩

/-- A cancellation before the worker has written its first record is undone by it. -/
theorem cancel_not_final : ¬ ∀ c : Race,
    RaceReach Sample.operationId (fun _ _ => True) Sample.updateRace c →
    CancelFinal Sample.operationId c := by
  intro h
  -- Cancel reads and writes while the record awaits confirmation, and then the worker starts
  let schedule := [.spawn Sample.user] ++ Sample.acts 1 4 ++ Sample.acts 0 5
  have hdisk := (h (Sample.raceAfter schedule) ((simulation Sample.oracle).reach _ _ _)).disk
    (by decide +kernel)
  revert hdisk
  decide +kernel

end LyraUpgrade
