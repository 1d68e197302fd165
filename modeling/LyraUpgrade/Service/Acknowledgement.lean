import LyraUpgrade.Service.Exclusion

/-!
# A scheduled rollback is not forgotten

Any number of AcknowledgeRecovery requests, Rollback and KeepCurrent, of any processes.  A
rollback saves its intent, a record with a recovery goal, before it runs the command that
selects another root; every record it saves afterwards carries the goal on.  KeepCurrent
writes a copy of the record it read, without a lock.  So the goal is lost exactly through a
copy that was read before the intent was saved and is written after it.

* `Launched`, `World.HasGoal` — the command was run, and the record has a goal.
* `Overtaken` — a record with a goal was saved since the process read its record.
* `Remembered` — the invariant.
-/

namespace LyraUpgrade

open Interaction

/-! ## Requests, and what is to be kept -/

/-- `AcknowledgeRecovery`, with its two actions that write. -/
inductive Acknowledgement
  | rollback (uid : ℕ) (operationId : String)
  | keepCurrent (uid : ℕ) (operationId : String)

namespace Acknowledgement

def request : Acknowledgement → ServiceRequest
  | rollback uid operationId => .rollback uid operationId
  | keepCurrent uid operationId => .keepCurrent uid operationId

def program (ext : Externals) (a : Acknowledgement) : Prog Sig Exit := a.request.program ext

def start (a : Acknowledgement) : Σ s, Service.State s := Service.start a.request

end Acknowledgement

abbrev Acknowledgements := Config Sig Acknowledgement World Exit

/-- `snapper rollback` was run for the operation. -/
def Launched (c : Acknowledgements) (operationId : String) : Prop :=
  ∃ j number output, .act j (.run operationId (.rollback number)) output ∈ c.history

/-- The record of the operation has a recovery goal. -/
def World.HasGoal (w : World) (operationId : String) : Prop :=
  ∃ r, w.state operationId = .record r ∧ r.recovery.isSome

/-- Since the process read a record of the operation, one with a recovery goal was saved. -/
def Overtaken (c : Acknowledgements) (i : ℕ) (operationId : String) : Prop :=
  ∃ before after, c.history = before ++ after ∧
    (∃ m, .act i (.load operationId) (.ok m) ∈ before) ∧
    ∃ j r, .act j (.save r) (.ok ()) ∈ after ∧ r.operationId = operationId ∧ r.recovery.isSome

/-- A record without a goal is saved only by a process that has not been overtaken. -/
def Timely (c : Acknowledgements) : Label Sig Acknowledgement → Prop
  | .act i (.save r) _ => r.recovery = none → ¬ Overtaken c i r.operationId
  | _ => True

/-! ## Steps -/

section

variable {c c' : Acknowledgements} {i : ℕ} {operationId : String} {w w' : World}
  {r : OperationStateRecord} {l : Label Sig Acknowledgement}

theorem Launched.mono (h : Launched c operationId) (hs : c'.history = c.history ++ [l]) :
    Launched c' operationId := by
  obtain ⟨j, number, output, hmem⟩ := h
  exact ⟨j, number, output, hs ▸ List.mem_append_left _ hmem⟩

theorem Overtaken.mono (h : Overtaken c i operationId) (hs : c'.history = c.history ++ [l]) :
    Overtaken c' i operationId := by
  obtain ⟨before, after, hsplit, hread, j, r, hsave, hr⟩ := h
  refine ⟨before, after ++ [l], ?_, hread, j, r, List.mem_append_left _ hsave, hr⟩
  rw [hs, hsplit, List.append_assoc]

/-- Whoever has read a record is overtaken by the save of one with a goal. -/
theorem overtaken_of_save {j : ℕ} (hs : c'.history = c.history ++ [.act j (.save r) (.ok ())])
    (hread : ∃ m, .act i (.load operationId) (.ok m) ∈ c.history)
    (hr : r.operationId = operationId) (hgoal : r.recovery.isSome) :
    Overtaken c' i operationId :=
  ⟨c.history, _, hs, hread, j, r, List.mem_singleton_self _, hr, hgoal⟩

/-- What is saved with a goal, or for another operation, leaves the goal there. -/
theorem World.HasGoal.save {answer : Except PersistenceError Unit} (h : w.HasGoal operationId)
    (hexec : exec true i (.save r) w answer w')
    (hr : r.operationId = operationId → r.recovery.isSome) : w'.HasGoal operationId := by
  rcases (exec_change hexec).state operationId with hstate | ⟨s, hs, hid, -, hstate⟩
  · obtain ⟨m, hm, hgoal⟩ := h
    exact ⟨m, hstate.trans hm, hgoal⟩
  · cases hs
    exact ⟨r, hstate, hr hid⟩

theorem World.HasGoal.congr (h : w.HasGoal operationId)
    (hstate : w'.state operationId = w.state operationId) : w'.HasGoal operationId := by
  obtain ⟨m, hm, hgoal⟩ := h
  exact ⟨m, hstate.trans hm, hgoal⟩

end

/-! ## What a rollback carries -/

/-- The record in memory is of the operation, and has a goal once the intent is saved. -/
def RollbackPhase.Carries (operationId : String) : RollbackPhase → Prop
  | .read r => r.operationId = operationId
  | .intended r | .launched r | .unconfirmed r =>
      r.operationId = operationId ∧ r.recovery.isSome
  | _ => True

namespace RollbackState

variable {operationId : String} {s : RollbackState} {r : OperationStateRecord}

/-- **Every record a rollback saves has a goal.** -/
theorem MaySave.goal (may : MaySave s r) (h : s.phase.Carries operationId) :
    r.operationId = operationId ∧ r.recovery.isSome := by
  cases may with
  | intent record number source timestamp hphase =>
      rw [hphase] at h
      exact ⟨h, rfl⟩
  | scheduled record goal boot hphase =>
      rw [hphase] at h
      exact ⟨h.1, rfl⟩
  | failed record error hphase =>
      rcases hphase with hphase | hphase <;>
      · rw [hphase] at h
        exact h

theorem Moves.carries {e : Event Sig} {p : RollbackPhase} (h : Moves operationId s e p)
    (hs : s.phase.Carries operationId) : p.Carries operationId := by
  cases h with
  | quiet | look => exact hs
  | read r hphase hid => exact hid
  | unread | lock | busy | unlock => trivial
  | launch record number source output hphase =>
      rw [hphase] at hs
      exact hs
  | @save r answer may =>
      have hgoal := may.goal hs
      rcases answer with error | ⟨⟩ <;> cases s.phase <;> simp only [nextPhase] <;>
        first | trivial | exact hgoal | (split_ifs; exacts [hgoal, trivial])

/-- The intent is saved at one step. -/
theorem Moves.intended {e : Event Sig} {p : RollbackPhase} (h : Moves operationId s e p)
    (hp : p = .intended r) : s.phase = .intended r ∨ (e = ⟨.save r, .ok ()⟩ ∧ MaySave s r) := by
  cases h with
  | quiet | look => exact .inl hp
  | read | unread | lock | busy | unlock | launch => cases hp
  | @save r' answer may =>
      right
      rcases answer with error | ⟨⟩ <;> cases hphase : s.phase <;> rw [hphase] at hp <;>
        simp only [nextPhase] at hp <;> first | cases hp | skip
      · split_ifs at hp
      · exact ⟨rfl, may⟩

end RollbackState

/-! ## The invariant -/

/-- The command was run, or is about to be. -/
def Committed (c : Acknowledgements) (φ : ℕ → Option (Σ s, Service.State s))
    (operationId : String) : Prop :=
  Launched c operationId ∨ ∃ i s r, φ i = some ⟨.rollback operationId, s⟩ ∧ s.phase = .intended r

/-- What the files, the processes and the history have to do with each other. -/
structure Remembered (c : Acknowledgements) (φ : ℕ → Option (Σ s, Service.State s)) : Prop where
  goal : ∀ id, Committed c φ id → c.world.HasGoal id
  noWorker : ∀ i id s, φ i ≠ some ⟨.worker id, s⟩
  /-- A copy without a goal has been overtaken where one is needed. -/
  holding : ∀ i d id m, φ i = some ⟨.decision d id, DecisionState.holding m⟩ →
    m.operationId = id ∧ (∃ m, .act i (.load id) (.ok m) ∈ c.history) ∧
      (m.recovery = none → Committed c φ id → Overtaken c i id)
  carries : ∀ i id s, φ i = some ⟨.rollback id, s⟩ → s.phase.Carries id

section

variable {c c' : Acknowledgements} {φ : ℕ → Option (Σ s, Service.State s)} {i : ℕ}
  {operationId : String} {e : Op} {answer : e.Answer}

/-- **A step.**  `t'` is where the process gets that the step concerns: a commitment is new
only if an intent was just saved, and then a record with a goal is on disk. -/
theorem Remembered.step {l : Label Sig Acknowledgement} {t' : Σ s, Service.State s}
    (h : Remembered c φ) (hhistory : c'.history = c.history ++ [l])
    (hgoal : ∀ id, c.world.HasGoal id → Committed c φ id → c'.world.HasGoal id)
    (hcommitted : ∀ id, Committed c' (Function.update φ i (some t')) id → Committed c φ id ∨
      ∃ (j : ℕ) (r : OperationStateRecord), l = .act j (.save r) (.ok ()) ∧
        r.operationId = id ∧ r.recovery.isSome ∧ c'.world.HasGoal id)
    (hworker : ∀ id s, t' ≠ ⟨.worker id, s⟩)
    (hholding : ∀ d id m, t' = ⟨.decision d id, DecisionState.holding m⟩ →
      m.operationId = id ∧ (∃ m, .act i (.load id) (.ok m) ∈ c'.history) ∧
        (m.recovery = none → Committed c' (Function.update φ i (some t')) id →
          Overtaken c' i id))
    (hcarries : ∀ id s, t' = ⟨.rollback id, s⟩ → s.phase.Carries id) :
    Remembered c' (Function.update φ i (some t')) := by
  refine ⟨fun id hid => ?_, fun j id s hj => ?_, fun j d id m hj => ?_, fun j id s hj => ?_⟩
  · rcases hcommitted id hid with hold | ⟨j, r, -, -, -, hnew⟩
    · exact hgoal id (h.goal id hold) hold
    · exact hnew
  · by_cases hji : j = i
    · subst hji
      rw [Function.update_self] at hj
      exact hworker id s (Option.some.inj hj)
    · rw [Function.update_of_ne hji] at hj
      exact h.noWorker j id s hj
  · by_cases hji : j = i
    · subst hji
      rw [Function.update_self] at hj
      exact hholding d id m (Option.some.inj hj)
    · rw [Function.update_of_ne hji] at hj
      obtain ⟨hid, ⟨m', hread⟩, hovertaken⟩ := h.holding j d id m hj
      refine ⟨hid, ⟨m', hhistory ▸ List.mem_append_left _ hread⟩, fun hm hc' => ?_⟩
      rcases hcommitted id hc' with hold | ⟨k, r, rfl, hr, hrgoal, -⟩
      · exact (hovertaken hm hold).mono hhistory
      · exact overtaken_of_save hhistory ⟨m', hread⟩ hr hrgoal
  · by_cases hji : j = i
    · subst hji
      rw [Function.update_self] at hj
      exact hcarries id s (Option.some.inj hj)
    · rw [Function.update_of_ne hji] at hj
      exact h.carries j id s hj

/-- A commitment is an old one, unless the step launches or intends. -/
theorem Committed.of_step {l : Label Sig Acknowledgement} {t' : Σ s, Service.State s}
    {id : String} (hhistory : c'.history = c.history ++ [l])
    (hlaunch : ∀ j number output, l = .act j (.run id (.rollback number)) output →
      Committed c φ id)
    (hintended : ∀ s r, t' = ⟨.rollback id, s⟩ → s.phase = .intended r → Committed c φ id)
    (h : Committed c' (Function.update φ i (some t')) id) : Committed c φ id := by
  rcases h with ⟨j, number, output, hmem⟩ | ⟨j, s, r, hj, hs⟩
  · rw [hhistory] at hmem
    rcases List.mem_append.mp hmem with hold | hnew
    · exact .inl ⟨j, number, output, hold⟩
    · exact hlaunch j number output (List.mem_singleton.mp hnew).symm
  · by_cases hji : j = i
    · subst hji
      rw [Function.update_self] at hj
      exact hintended s r (Option.some.inj hj) hs
    · rw [Function.update_of_ne hji] at hj
      exact .inr ⟨j, s, r, hj, hs⟩

/-- KeepCurrent. -/
theorem Remembered.decides {d : Decision} {s : DecisionState} (h : Remembered c φ)
    (hφ : φ i = some ⟨.decision d operationId, s⟩)
    (hpre : e.isQuiet ∨ s.permits d operationId e)
    (hok : Timely c (.act i e answer))
    (hhistory : c'.history = c.history ++ [.act i e answer])
    (hexec : exec true i e c.world answer c'.world) :
    Remembered c' (Function.update φ i
      (some ⟨.decision d operationId, s.next d ⟨e, answer⟩⟩)) := by
  have hmoves := DecisionState.moves hpre (validAnswer_of_exec hexec)
  generalize hnext : s.next d ⟨e, answer⟩ = s' at hmoves ⊢
  have hcommitted : ∀ id, Committed c' (Function.update φ i
      (some ⟨.decision d operationId, s'⟩)) id → Committed c φ id := by
    refine fun id => .of_step hhistory ?_ fun t r ht => by cases ht
    rintro j number output hl
    cases hl
    rcases hpre with hquiet | hpermit
    · cases hquiet
    · exact hpermit.elim
  refine h.step hhistory (fun id hgoal hid => ?_) (fun id hid => .inl (hcommitted id hid))
    (fun id t ht => by cases ht) (fun d' id m ht => ?_) fun id t ht => by cases ht
  · cases hsave : e.isSave with
    | false => exact hgoal.congr ((exec_change hexec).state_of_not_save hsave id)
    | true =>
        cases e with
        | save r =>
            obtain ⟨m, timestamp, rfl, rfl⟩ : s.permits d operationId (.save r) :=
              hpre.resolve_left (by simp [Op.isQuiet])
            obtain ⟨rfl, -, hovertaken⟩ := h.holding i d operationId m hφ
            refine hgoal.save hexec ?_
            rintro rfl
            rw [← Option.ne_none_iff_isSome]
            exact fun hnone => hok hnone (hovertaken hnone hid)
        | _ => cases hsave
  · cases ht
    have hkeep : s = .holding m → m.operationId = operationId ∧
        (∃ m, .act i (.load operationId) (.ok m) ∈ c'.history) ∧ (m.recovery = none →
          Committed c' (Function.update φ i
            (some ⟨.decision d operationId, DecisionState.holding m⟩)) operationId →
          Overtaken c' i operationId) := by
      rintro rfl
      obtain ⟨hid, ⟨m', hread⟩, hovertaken⟩ := h.holding i d operationId m hφ
      exact ⟨hid, ⟨m', hhistory ▸ List.mem_append_left _ hread⟩, fun hm hc' =>
        (hovertaken hm (hcommitted _ hc')).mono hhistory⟩
    cases hmoves with
    | quiet | look => exact hkeep rfl
    | read m hidle happlies hid hloadable =>
        refine ⟨hid, ⟨m, ?_⟩, fun hm hc' => ?_⟩
        · rw [hhistory]
          exact List.mem_append_right _ (List.mem_singleton_self _)
        · -- a goal that is needed is on disk, and was read
          obtain ⟨r, hr, hgoal⟩ := h.goal _ (hcommitted _ hc')
          rw [(exec_load_ok hexec).1] at hr
          cases hr
          rw [hm] at hgoal
          cases hgoal

/-- Rollback. -/
theorem Remembered.rollsBack {s : RollbackState} (h : Remembered c φ)
    (hφ : φ i = some ⟨.rollback operationId, s⟩)
    (hpre : e.isQuiet ∨ s.permits operationId e)
    (hhistory : c'.history = c.history ++ [.act i e answer])
    (hexec : exec true i e c.world answer c'.world) :
    Remembered c' (Function.update φ i (some ⟨.rollback operationId, s.next ⟨e, answer⟩⟩)) := by
  have hmoves := RollbackState.moves hpre (validAnswer_of_exec hexec)
  have hcarries := h.carries i operationId s hφ
  have hcommitted : ∀ id, Committed c' (Function.update φ i
      (some ⟨.rollback operationId, s.next ⟨e, answer⟩⟩)) id → Committed c φ id ∨
      ∃ (j : ℕ) (r : OperationStateRecord),
        (.act i e answer : Label Sig Acknowledgement) = .act j (.save r) (.ok ()) ∧
        r.operationId = id ∧ r.recovery.isSome ∧ c'.world.HasGoal id := by
    intro id hc'
    by_contra hnot
    rw [not_or] at hnot
    refine hnot.1 (.of_step hhistory ?_ ?_ hc')
    · rintro j number output hl
      cases hl
      rcases hpre with hquiet | ⟨rfl, record, source, hphase, -⟩
      · cases hquiet
      · exact .inr ⟨i, s, record, hφ, hphase⟩
    · rintro t r ht hr
      cases ht
      rcases hmoves.intended hr with hphase | ⟨hevent, may⟩
      · exact .inr ⟨i, s, r, hφ, hphase⟩
      · cases hevent
        obtain ⟨hid, hgoal⟩ := may.goal hcarries
        refine absurd ⟨i, r, rfl, hid, hgoal, r, ?_, hgoal⟩ hnot.2
        rw [(exec_save_ok hexec).2, ← hid, World.state_putState_self]
  refine h.step hhistory (fun id hgoal _ => ?_) hcommitted (fun id t ht => by cases ht)
    (fun d id m ht => by cases ht) fun id t ht => ?_
  · cases hsave : e.isSave with
    | false => exact hgoal.congr ((exec_change hexec).state_of_not_save hsave id)
    | true =>
        cases e with
        | save r =>
            have may : s.MaySave r := hpre.resolve_left (by simp [Op.isQuiet])
            exact hgoal.save hexec fun _ => (may.goal hcarries).2
        | _ => cases hsave
  · cases ht
    exact hmoves.carries hcarries

/-- A new request has read nothing. -/
theorem Remembered.spawned {a : Acknowledgement} (h : Remembered c φ)
    (hhistory : c'.history = c.history ++ [.spawn i a]) (hworld : c'.world = c.world) :
    Remembered c' (Function.update φ i (some a.start)) := by
  refine h.step hhistory (fun id hgoal _ => by rwa [hworld]) (fun id hc' => .inl ?_) ?_ ?_ ?_
  · refine .of_step hhistory (fun j number output hl => by cases hl) ?_ hc'
    rintro s r ht hr
    cases a with
    | rollback => cases ht; cases hr
    | keepCurrent => cases ht
  all_goals cases a <;> intro id s
  · exact fun h => by cases h
  · exact fun h => by cases h
  · exact fun m h => by cases h
  · exact fun m h => by cases h
  · exact fun h => by cases h; trivial
  · exact fun h => by cases h

/-- Where no process runs. -/
theorem Remembered.idle (h : ∀ id, Launched c id → c.world.HasGoal id) :
    Remembered c fun _ => none where
  goal := by
    rintro id (hlaunched | ⟨j, s, r, hj, -⟩)
    · exact h id hlaunched
    · cases hj
  noWorker := fun _ _ _ hi => by cases hi
  holding := fun _ _ _ _ hi => by cases hi
  carries := fun _ _ _ hi => by cases hi

/-- A crash ends every process; what was launched stays launched. -/
theorem Remembered.crashed (h : Remembered c φ)
    (hhistory : c'.history = c.history ++ [.crash]) (hleft : crash c.world c'.world) :
    Remembered c' fun _ => none := by
  refine .idle ?_
  rintro id ⟨j, number, output, hmem⟩
  obtain ⟨temporary, -, hw⟩ := hleft
  rw [hhistory] at hmem
  refine (h.goal id (.inl ⟨j, number, output, ?_⟩)).congr (by rw [hw]; rfl)
  exact (List.mem_append.mp hmem).resolve_right fun hlast => nomatch List.mem_singleton.mp hlast

end

/-! ## Runs -/

theorem preserved_remembered (ext : Externals) :
    Preserved (system true) (Acknowledgement.program ext) (Contract.family Service.contract)
      Timely Acknowledgement.start Remembered where
  spawn := fun c c' φ a h _ _ _ hs hw => h.spawned hs.history_eq hw
  act := by
    rintro c c' φ i e answer ⟨kind, s⟩ h hφ hpre hok hs hexec
    have hvalid := validAnswer_of_exec hexec
    cases kind with
    | worker operationId => exact absurd hφ (h.noWorker i operationId s)
    | decision d operationId =>
        exact ⟨_, ⟨_, ⟨hvalid, rfl⟩, rfl⟩, h.decides hφ hpre hok hs.history_eq hexec⟩
    | rollback operationId =>
        exact ⟨_, ⟨_, ⟨hvalid, rfl⟩, rfl⟩, h.rollsBack hφ hpre hs.history_eq hexec⟩
  crash := fun c c' φ h _ hs hleft => h.crashed hs.history_eq hleft

/-- **A scheduled rollback is not forgotten**, in every run in which a KeepCurrent that read
a record without a goal writes it only if no rollback has saved its intent since. -/
theorem rollback_remembered (ext : Externals) {w : World} {c : Acknowledgements}
    (h : Reach (system true) (Acknowledgement.program ext) Timely (Config.boot w) c)
    (operationId : String) (hlaunched : Launched c operationId) : c.world.HasGoal operationId := by
  have hinit : Remembered (Config.boot w : Acknowledgements) fun _ => none := by
    refine .idle ?_
    rintro id ⟨j, number, output, hmem⟩
    cases hmem
  obtain ⟨φ, -, hremembered⟩ := h.tracked (fun a => wp_service ext a.request)
    (preserved_remembered ext) (Tracked.boot w) hinit
  exact hremembered.goal operationId (.inl hlaunched)

namespace Sample

/-- The machine after a schedule, with the failed update of the sample host. -/
def acknowledgedAfter (schedule : List (Choice Acknowledgement)) : Acknowledgements :=
  (simulation rollbackOracle).plays (Acknowledgement.program externals)
    (Config.boot recoverableWorld) schedule

/-- The user asks for the rollback, and nothing else happens. -/
def scheduledAlone : Acknowledgements :=
  acknowledgedAfter (.spawn (.rollback user operationId) :: List.replicate 18 (.act 0))

/-- A second request keeps the current system: it has read the record before the rollback
saved its intent, and writes it after the command was run. -/
def keptMeanwhile : Acknowledgements :=
  acknowledgedAfter (.spawn (.keepCurrent user operationId) :: List.replicate 2 (.act 0) ++
    .spawn (.rollback user operationId) :: List.replicate 11 (.act 1) ++ List.replicate 2 (.act 0))

/-- The step saves no record without a goal. -/
def keepsGoal : Label Sig Acknowledgement → Bool
  | .act _ (.save r) _ => r.recovery.isSome
  | .crash => false
  | _ => true

/-- The step launches the rollback of the sample operation. -/
def launches : Label Sig Acknowledgement → Bool
  | .act _ (.run id (.rollback _)) _ => id = operationId
  | _ => false

theorem launched_of_launches {c : Acknowledgements} (h : c.history.any launches) :
    Launched c operationId := by
  obtain ⟨l, hl, hlaunches⟩ := List.any_eq_true.mp h
  cases l with
  | act j e answer =>
      cases e with
      | run id command =>
          cases command with
          | rollback number =>
              rw [← of_decide_eq_true (p := id = operationId) hlaunches]
              exact ⟨j, number, answer, hl⟩
          | _ => cases hlaunches
      | _ => cases hlaunches
  | spawn | crash => cases hlaunches

/-- What the run of the rollback shows. -/
theorem scheduledAlone_run : scheduledAlone.history.all keepsGoal ∧
    scheduledAlone.history.any launches := by decide +kernel

/-- What the other run shows. -/
theorem keptMeanwhile_run : keptMeanwhile.history.any launches ∧
    keptMeanwhile.world.state operationId =
      .record (recoveryDeclined.record recoverable "2026-06-01T12:00:01Z") := by decide +kernel

theorem reach_scheduledAlone : Reach (system true) (Acknowledgement.program externals) Timely
    (Config.boot recoverableWorld) scheduledAlone := by
  have hgood : ∀ l ∈ scheduledAlone.history, (keepsGoal l : Prop) :=
    List.all_eq_true.mp scheduledAlone_run.1
  refine Reach.mono (fun c l hkeeps => ?_)
    ((simulation rollbackOracle).reach_good _ (by simp [keepsGoal]) hgood)
  cases l with
  | act i e answer =>
      cases e with
      | save r =>
          intro hnone
          have hgoal : r.recovery.isSome := hkeeps
          rw [hnone] at hgoal
          cases hgoal
      | _ => trivial
  | spawn | crash => trivial

end Sample

/-- On the sample host the rollback is scheduled, and remembered. -/
theorem rollback_remembered_sample : Launched Sample.scheduledAlone Sample.operationId ∧
    Sample.scheduledAlone.world.HasGoal Sample.operationId :=
  ⟨Sample.launched_of_launches Sample.scheduledAlone_run.2,
    rollback_remembered Sample.externals Sample.reach_scheduledAlone Sample.operationId
      (Sample.launched_of_launches Sample.scheduledAlone_run.2)⟩

/-- KeepCurrent overwrites the intent of a rollback that was launched meanwhile. -/
theorem rollback_forgotten : ¬ ∀ c : Acknowledgements,
    Reach (system true) (Acknowledgement.program Sample.externals) (fun _ _ => True)
      (Config.boot Sample.recoverableWorld) c →
    ∀ id, Launched c id → c.world.HasGoal id := by
  intro h
  obtain ⟨r, hr, hgoal⟩ := h Sample.keptMeanwhile (Strategy.reach _ _ _ _) Sample.operationId
    (Sample.launched_of_launches Sample.keptMeanwhile_run.1)
  rw [Sample.keptMeanwhile_run.2] at hr
  cases hr
  cases hgoal

end LyraUpgrade
