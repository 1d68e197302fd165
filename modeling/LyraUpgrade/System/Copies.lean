import LyraUpgrade.System.Causes

/-!
# What a program knows of the record it writes over

Every program writes a successor of the record it has in memory, not of the one on disk.  As
long as nobody else has saved a record of the operation in the meantime, the two belong
together, and what a save replaces is known.

* `Disturbed` — somebody else has tried to save a record since a process took its copy.
* `Rewrites` — what a process may put over the record on disk where it was not disturbed.
* `step_puts` — a step of an undisturbed process does so.
-/

namespace LyraUpgrade

open Interaction

/-! ## Copies -/

/-- The operation reads or replaces the record, or asks whether there is one. -/
def Op.looksAt (id : String) : Op → Prop
  | .load id' | .directoryExists id' => id' = id
  | .save r => r.operationId = id
  | _ => False

/-- The programs that read the record again before they save another one: their copy is the
last record they have read.  The others keep the first. -/
def Activity.rereads : Activity → Bool
  | .request (.rollback _ _) | .offline _ => true
  | _ => false

/-- Process `i` looks at the record of the operation. -/
def Looks (i : ℕ) (id : String) : Label Sig Activity → Prop
  | .act j e _ => j = i ∧ e.looksAt id
  | _ => False

/-- A process other than `i` tries to save a record of the operation. -/
def Intrudes (i : ℕ) (id : String) : Label Sig Activity → Prop
  | .act j (.save r) _ => j ≠ i ∧ r.operationId = id
  | _ => False

def HasLooked (c : Activities) (i : ℕ) (id : String) : Prop :=
  ∃ l ∈ c.history, Looks i id l

def Rereads (c : Activities) (i : ℕ) : Prop :=
  ∃ activity, .spawn i activity ∈ c.history ∧ activity.rereads

/-- **Somebody else has tried to save a record of the operation since process `i` took its
copy.** -/
def Disturbed (c : Activities) (i : ℕ) (id : String) : Prop :=
  ∃ before after, c.history = before ++ after ∧ (∃ l ∈ before, Looks i id l) ∧
    (∃ l ∈ after, Intrudes i id l) ∧
    (Rereads c i → ∀ answer, .act i (.load id) answer ∉ after)

/-- The record is saved by a process whose copy nobody has overtaken. -/
def Undisturbed (c : Activities) : Label Sig Activity → Prop
  | .act i (.save r) _ => ¬ Disturbed c i r.operationId
  | _ => True

/-- What the `state.json` of the operation may hold for all that process `i` has heard: before
its first look anything, and the record on disk as long as the process was not disturbed. -/
def Possible (c : Activities) (i : ℕ) (id : String) (f : StateFile) : Prop :=
  ¬ HasLooked c i id ∨ (¬ Disturbed c i id ∧ f = c.world.state id)

section

variable {ext : Externals} {c c' : Activities} {i : ℕ} {id : String} {f : StateFile}
  {l : Label Sig Activity}

theorem hasLooked_step (hs : Step (system true) (Activity.program ext) c l c') :
    HasLooked c' i id ↔ HasLooked c i id ∨ Looks i id l := by
  unfold HasLooked
  rw [hs.history_eq]
  simp only [List.mem_append, List.mem_singleton, or_and_right, exists_or, exists_eq_left]

theorem HasLooked.of_disturbed (h : Disturbed c i id) : HasLooked c i id := by
  obtain ⟨before, after, heq, ⟨l, hl, hlooks⟩, -⟩ := h
  exact ⟨l, heq ▸ List.mem_append_left _ hl, hlooks⟩

/-- A process stays disturbed until it reads the record again. -/
theorem Disturbed.step (h : Disturbed c i id)
    (hs : Step (system true) (Activity.program ext) c l c')
    (hspawn : ∀ activity, l ≠ .spawn i activity)
    (hload : Rereads c i → ∀ answer, l ≠ .act i (.load id) answer) : Disturbed c' i id := by
  obtain ⟨before, after, heq, hlooks, ⟨l', hl', hintrudes⟩, hread⟩ := h
  have hrereads : Rereads c' i → Rereads c i := by
    rintro ⟨activity, hmem, hactivity⟩
    rw [hs.history_eq, List.mem_append, List.mem_singleton] at hmem
    exact ⟨activity, hmem.resolve_right fun heq => hspawn activity heq.symm, hactivity⟩
  refine ⟨before, after ++ [l], by rw [hs.history_eq, heq, List.append_assoc], hlooks,
    ⟨l', List.mem_append_left _ hl', hintrudes⟩, fun hr answer hmem => ?_⟩
  rcases List.mem_append.mp hmem with hmem | hmem
  · exact hread (hrereads hr) answer hmem
  · exact hload (hrereads hr) answer (List.mem_singleton.mp hmem).symm

/-- A save by somebody else disturbs whoever has a copy. -/
theorem disturbed_of_intrudes (h : HasLooked c i id)
    (hs : Step (system true) (Activity.program ext) c l c') (hl : Intrudes i id l) :
    Disturbed c' i id := by
  refine ⟨c.history, [l], hs.history_eq, h, ⟨l, List.mem_singleton_self l, hl⟩, ?_⟩
  rintro - answer hmem
  rw [← List.mem_singleton.mp hmem] at hl
  exact hl

/-- **A step of somebody else**, or one that does not look at the record: what is possible
afterwards was possible before. -/
theorem Possible.frame (h : Possible c' i id f)
    (hs : Step (system true) (Activity.program ext) c l c')
    (hspawn : ∀ activity, l ≠ .spawn i activity) (hlooks : ¬ Looks i id l)
    (hstate : ¬ Intrudes i id l → c'.world.state id = c.world.state id) : Possible c i id f := by
  have hlook : ∀ answer, l ≠ .act i (.load id) answer := by
    rintro answer rfl
    exact hlooks ⟨rfl, rfl⟩
  rcases h with h | ⟨hundisturbed, rfl⟩
  · exact .inl fun hl => h ((hasLooked_step hs).mpr (.inl hl))
  · by_cases hlooked : HasLooked c i id
    · have hquiet : ¬ Intrudes i id l := fun hl =>
        hundisturbed (disturbed_of_intrudes hlooked hs hl)
      exact .inr ⟨fun h => hundisturbed (h.step hs hspawn fun _ => hlook), hstate hquiet⟩
    · exact .inl hlooked

/-- **A look of its own**: afterwards only the record on disk is possible, and before it was
the record on disk, unless the process has read it again. -/
theorem Possible.look (h : Possible c' i id f)
    (hs : Step (system true) (Activity.program ext) c l c') (hlooks : Looks i id l) :
    f = c'.world.state id ∧ ((Rereads c i → ∀ answer, l ≠ .act i (.load id) answer) →
      Possible c i id (c.world.state id)) := by
  have hspawn : ∀ activity, l ≠ .spawn i activity := by
    rintro activity rfl
    exact hlooks
  obtain ⟨hundisturbed, rfl⟩ := h.resolve_left fun h => h ((hasLooked_step hs).mpr (.inr hlooks))
  refine ⟨rfl, fun hload => ?_⟩
  by_cases hlooked : HasLooked c i id
  · exact .inr ⟨fun h => hundisturbed (h.step hs hspawn hload), rfl⟩
  · exact .inl hlooked

end

/-! ## What an operation tells of the record -/

/-- What a process learns of the file `f` from an operation, which leaves `f'` behind. -/
structure Tells (id : String) (e : Event Sig) (f f' : StateFile) : Prop where
  same : (∀ r, e.op = .save r → r.operationId ≠ id) → f' = f
  read : ∀ r, e = ⟨.load id, .ok r⟩ → f = .record r
  absent : e = ⟨.directoryExists id, false⟩ → ∀ d, f ≠ .record d
  saved : ∀ r, e = ⟨.save r, .ok ()⟩ → r.operationId = id → f' = .record r
  unsaved : ∀ r error, e = ⟨.save r, .error error⟩ → r.operationId = id →
    f' = f ∨ f' = .record r

/-- A record is in a directory. -/
def Housed (w : World) : Prop :=
  ∀ id r, w.state id = .record r → (w.operations id).present

section

variable {w w' : World} {i : ℕ} {id : String} {e : Op} {answer : e.Answer}

theorem tells_of_exec (hexec : exec true i e w answer w') (hw : Housed w) :
    Tells id ⟨e, answer⟩ (w.state id) (w'.state id) where
  same := by
    intro hnot
    rcases (exec_change hexec).state id with h | ⟨r, rfl, hid, -⟩
    · exact h
    · exact absurd hid (hnot r rfl)
  read := by
    rintro r ⟨⟩
    exact (exec_load_ok hexec).1
  absent := by
    rintro ⟨⟩ d hd
    have habsent : false = (w.operations id).present := hexec.2
    rw [hw id d hd] at habsent
    cases habsent
  saved := by
    rintro r ⟨⟩ rfl
    rw [(exec_save_ok hexec).2]
    exact World.state_putState_self r
  unsaved := by
    rintro r error ⟨⟩ rfl
    rcases (exec_change hexec).state r.operationId with h | ⟨r', hr', -, -, h⟩
    · exact .inl h
    · cases hr'
      exact .inr h

/-- An operation that does not look at the record tells nothing. -/
theorem tells_of_not_looksAt (h : ¬ e.looksAt id) (f : StateFile) : Tells id ⟨e, answer⟩ f f where
  same := fun _ => rfl
  read := by
    rintro r ⟨⟩
    exact absurd rfl h
  absent := by
    rintro ⟨⟩
    exact absurd rfl h
  saved := by
    rintro r ⟨⟩ hid
    exact absurd hid h
  unsaved := by
    rintro r error ⟨⟩ hid
    exact absurd hid h

theorem housed_of_change (hw : Housed w) (h : Change i w e w') : Housed w' := by
  intro id r hr
  rcases h.state id with hsame | ⟨s, rfl, rfl, -⟩
  · exact h.present (hw id r (hsame.symm.trans hr))
  · cases h with
    | none => exact hw _ _ hr
    | save => simp [World.putState]
    | file hstate =>
        rw [World.state_modify hstate] at hr
        exact World.present_modify (hw _ _ hr) _ _

end

/-! ## What is put over a record -/

/-- The process was told that its save of the record has failed. -/
def Told (events : List (Event Sig)) (r : OperationStateRecord) : Prop :=
  ∃ error, ⟨Op.save r, Except.error error⟩ ∈ events

/-- The record in memory may be one step ahead of the one on disk. -/
def Near (m d : OperationStateRecord) : Prop :=
  m.sequence = d.sequence ∨ m.sequence = saturatingAdd d.sequence 1

/-- What a failed worker has in memory, by what is on disk.  Whether the snapshot is recorded
and begun settles the state that `failure_state` picks. -/
inductive Tied (events : List (Event Sig)) (m d : OperationStateRecord) : Prop
  | early (state : d.state = .awaitingConfirmation ∨ d.state = .downloading)
      (snapshot : m.snapshotNumber = none)
  | snapshotting (state : d.state = .snapshotting) (begun : SnapshotBegun events)
  | applying (state : d.state = .applying) (snapshot : m.snapshotNumber.isSome)
  | told (state : d.state = .readyToReboot ∨ d.state = .awaitingReboot ∨ d.state = .completed)
      (snapshot : m.snapshotNumber.isSome) (told : Told events d)

/-- **What a process that was not disturbed puts over the record `d`.**  `events` are the
operations of the process so far. -/
inductive Rewrites (events : List (Event Sig)) (d : OperationStateRecord) :
    OperationStateRecord → Prop
  | again : Rewrites events d d
  | advanced (next : OperationState) (r : OperationStateRecord)
      (transition : d.transitionTo next = .ok r) : Rewrites events d r
  | applied (r : OperationStateRecord) (step : Option String)
      (transition : d.transitionTo .awaitingReboot = .ok r) :
      Rewrites events d { r with lastCompletedStep := step }
  | numbered (number : ℕ) : Rewrites events d { d with snapshotNumber := some number }
  | failed (m : OperationStateRecord) (error : ExecutionError) (timestamp : String) (near : Near m d)
      (tied : Tied events m d)
      (blocked : (failureRecord error m timestamp).state = .blocked → ¬ SnapshotBegun events) :
      Rewrites events d (failureRecord error m timestamp)
  | decided (decision : Decision) (timestamp : String)
      (known : decision = cancellation ∨ decision = recoveryDeclined)
      (applies : decision.applies d.state) : Rewrites events d (decision.record d timestamp)
  | intended (number : ℕ) (source : SubvolumeIdentity) (timestamp : String)
      (state : d.state = .needsRecovery) :
      Rewrites events d (rollbackIntent d number source timestamp)
  | scheduled (goal : RollbackGoal) (boot : SubvolumeIdentity) (state : d.state = .needsRecovery) :
      Rewrites events d (scheduledRecord d goal boot)
  | unscheduled (m : OperationStateRecord) (error : String) (near : Near m d)
      (state : d.state = .needsRecovery ∨ d.state = .awaitingReboot ∧ Told events d) :
      Rewrites events d (rollbackFailedRecord m error)
  | interrupted (unfinished : (interruptedState d.state).isSome) :
      Rewrites events d (interruptedRecord d)
  | verified (state : d.state = .verifyingBoot) : Rewrites events d (completedRecord d)
  | unverified (code : String) (state : d.state = .verifyingBoot) :
      Rewrites events d (recoveryRecord d code)
  | offlineFailed : Rewrites events d (offlineFailureRecord d)

/-- What such a process makes of the file `f`: the first record of the operation, possibly
written again, or a successor of the record that is there. -/
inductive Puts (events : List (Event Sig)) (f : StateFile) (r : OperationStateRecord) : Prop
  | first (before : ∀ d, f = .record d → d.state = .awaitingConfirmation ∧ d.sequence = 1)
      (state : r.state = .awaitingConfirmation) (sequence : r.sequence = 1)
  | replaces (d : OperationStateRecord) (before : f = .record d) (rewrites : Rewrites events d r)

/-! ## What each program knows -/

section

variable {events : List (Event Sig)} {m d r : OperationStateRecord} {id : String}
  {f f' : StateFile}

theorem Told.mono {events' : List (Event Sig)} (h : Told events d) (hsub : events ⊆ events') :
    Told events' d := by
  obtain ⟨error, he⟩ := h
  exact ⟨error, hsub he⟩

theorem SnapshotBegun.mono {events' : List (Event Sig)} (h : SnapshotBegun events)
    (hsub : events ⊆ events') : SnapshotBegun events' := by
  obtain ⟨r, answer, hmem, hstate⟩ := h
  exact ⟨r, answer, hsub hmem, hstate⟩

theorem Tied.mono {events' : List (Event Sig)} (h : Tied events m d) (hsub : events ⊆ events') :
    Tied events' m d := by
  cases h with
  | early state snapshot => exact .early state snapshot
  | snapshotting state begun => exact .snapshotting state (begun.mono hsub)
  | applying state snapshot => exact .applying state snapshot
  | told state snapshot told => exact .told state snapshot (told.mono hsub)

/-- The copy in memory is the record on disk. -/
def Exact (id : String) (f : StateFile) (m : OperationStateRecord) : Prop :=
  m.operationId = id → f = .record m

/-- The phases in which a worker goes by its copy. -/
def Phase.hasCopy : Phase → Bool
  | .start | .finished | .closed _ => false
  | _ => true

/-- What a worker knows of its record. -/
def WorkerState.Sees (operationId : String) (f : StateFile) (s : WorkerState) : Prop :=
  match s.phase with
  | .start => ¬ HasRead operationId s.events ∧
      (⟨Op.directoryExists operationId, false⟩ ∈ s.events →
        ∀ d, f = .record d → d.state = .awaitingConfirmation ∧ d.sequence = 1)
  | .waiting | .locked | .downloading | .told | .applying => f = .record s.record
  | .snapshotting | .taken | .saved => f = .record s.record ∧ SnapshotBegun s.events
  | .failed | .ended | .reporting =>
      ∃ d, f = .record d ∧ Near s.record d ∧ Tied s.events s.record d
  | .finished | .closed _ => True

/-- What a decision knows of the record it is about. -/
def DecisionState.Sees (decision : Decision) (id : String) (f : StateFile) (s : DecisionState) :
    Prop :=
  ∀ m, s = .holding m → decision.applies m.state ∧ Exact id f m

/-- What a rollback knows of the record it has read under the lock. -/
def RollbackState.Sees (id : String) (f : StateFile) (s : RollbackState) : Prop :=
  match s.phase with
  | .read m => Exact id f m
  | .intended m | .launched m => m.state = .needsRecovery ∧ Exact id f m
  | .unconfirmed m => m.operationId = id → ∃ d, f = .record d ∧ Near m d ∧
      (d.state = .needsRecovery ∨ d.state = .awaitingReboot ∧ Told s.events d)
  | _ => True

/-- What the offline executor knows of the record it has read. -/
def OfflineState.Sees (id : String) (f : StateFile) (s : OfflineState) : Prop :=
  ∀ m, s.phase.record? = some m → Exact id f m

/-- What the verifier knows of the records it has read. -/
def VerifierState.Sees (id : String) (f : StateFile) (s : VerifierState) : Prop :=
  match s.phase with
  | .start => ∀ m, ¬ Scanned s m
  | .scanning | .closing => ∀ m, Scanned s m → m.operationId = id →
      f = .record m ∨ ((interruptedState m.state).isSome ∧ f = .record (interruptedRecord m))
  | .entered m | .checking m _ | .replacing m _ | .unconsumed m =>
      m.state = .verifyingBoot ∧ Exact id f m
  | .finished | .released => True

end

/-! ## A worker -/

section

variable {operationId : String} {f f' : StateFile} {s : WorkerState} {r : OperationStateRecord}

theorem near_self (m : OperationStateRecord) : Near m m := .inl rfl

theorem near_advance (m : OperationStateRecord) (next : OperationState) : Near (m.advance next) m :=
  .inr rfl

namespace WorkerState

/-- Where a worker has an exact copy before the snapshot, it has none recorded. -/
theorem tied_early {events : List (Event Sig)} {m : OperationStateRecord} (hcoherent : Coherent m)
    (hstate : m.state = .awaitingConfirmation ∨ m.state = .downloading) : Tied events m m :=
  .early hstate (hcoherent.snapshot hstate)

/-- A worker that gives up has a copy that is tied to the record on disk. -/
theorem Sees.tied (h : s.Sees operationId f)
    (hsound : s.phase.hasWorker → s.Sound operationId ∧ Coherent s.record) (hcopy : s.phase.hasCopy) :
    ∃ d, f = .record d ∧ Near s.record d ∧ Tied s.events s.record d := by
  have hmemory : ∀ {p : Phase} {state}, s.phase = p → p.hasWorker → p.recordState = some state →
      s.record.state = state ∧ Loadable s.record ∧ Coherent s.record := by
    rintro p state rfl hworker hstate
    obtain ⟨hs, hcoherent⟩ := hsound hworker
    exact ⟨hs.state state hstate, hs.loadable, hcoherent⟩
  unfold Sees at h
  cases hphase : s.phase with
  | start | finished | closed =>
      rw [hphase] at hcopy
      cases hcopy
  | waiting | locked =>
      rw [hphase] at h
      obtain ⟨hstate, -, hcoherent⟩ := hmemory hphase rfl rfl
      exact ⟨_, h, near_self _, tied_early hcoherent (.inl hstate)⟩
  | downloading | told =>
      rw [hphase] at h
      obtain ⟨hstate, -, hcoherent⟩ := hmemory hphase rfl rfl
      exact ⟨_, h, near_self _, tied_early hcoherent (.inr hstate)⟩
  | snapshotting | taken | saved =>
      rw [hphase] at h
      obtain ⟨hstate, -, -⟩ := hmemory hphase rfl rfl
      exact ⟨_, h.1, near_self _, .snapshotting hstate h.2⟩
  | applying =>
      rw [hphase] at h
      obtain ⟨hstate, hloadable, -⟩ := hmemory hphase rfl rfl
      refine ⟨_, h, near_self _, .applying hstate (hloadable.valid.snapshot_isSome ?_)⟩
      rw [hstate]
      rfl
  | failed | ended | reporting =>
      rw [hphase] at h
      exact h

/-- **What a worker that was not disturbed writes.** -/
theorem MaySave.puts (may : s.MaySave operationId r) (h : s.Sees operationId f)
    (hreports : Reports operationId (.save r) s.events) : Puts s.events f r := by
  unfold Sees at h
  cases may with
  | initial hphase hinitial habsent =>
      rw [hphase] at h
      exact .first (h.2 habsent) hinitial.2.1 (hreports.2.resolve_left h.1)
  | downloading hphase next | snapshotting hphase next | result hphase _ _ _ next =>
      rw [hphase] at h
      exact .replaces _ h (.advanced _ _ next)
  | snapshot number hphase _ next =>
      rw [hphase] at h
      subst next
      exact .replaces _ h.1 (.numbered number)
  | applying hphase next | ready hphase next =>
      rw [hphase] at h
      exact .replaces _ h.1 (.advanced _ _ next)
  | failure hphase error timestamp next =>
      rw [hphase] at h
      subst next
      obtain ⟨d, hf, hnear, htied⟩ := h
      exact .replaces d hf (.failed s.record error timestamp hnear htied hreports.1)

/-- A failed save leaves the copy near the record on disk. -/
theorem MaySave.tied_unsaved (may : s.MaySave operationId r) (h : s.Sees operationId f)
    (hsound : s.phase.hasWorker → s.Sound operationId ∧ Coherent s.record)
    (hstart : s.phase ≠ .start) (hreporting : s.phase ≠ .reporting) {error : PersistenceError}
    (hf : f' = f ∨ f' = .record r) :
    ∃ d, f' = .record d ∧ Near r d ∧ Tied (s.events ++ [⟨.save r, .error error⟩]) r d := by
  have hnew : ⟨.save r, .error error⟩ ∈ s.events ++ [⟨Op.save r, Except.error error⟩] :=
    List.mem_append_right _ (List.mem_singleton_self _)
  -- the record before a state change, and the one after it
  have hadvance : ∀ {next}, s.record.transitionTo next = .ok r → f = .record s.record →
      (∀ d, d = s.record ∨ d = r → Tied (s.events ++ [⟨.save r, .error error⟩]) r d) →
      ∃ d, f' = .record d ∧ Near r d ∧ Tied (s.events ++ [⟨.save r, .error error⟩]) r d := by
    intro next hnext hdisk htied
    obtain ⟨-, -, -, rfl⟩ := OperationStateRecord.transitionTo_eq_ok.mp hnext
    rcases hf with rfl | rfl
    · exact ⟨_, hdisk, near_advance _ _, htied _ (.inl rfl)⟩
    · exact ⟨_, rfl, near_self _, htied _ (.inr rfl)⟩
  have hmemory : ∀ {p : Phase} {state}, s.phase = p → p.hasWorker → p.recordState = some state →
      s.record.state = state ∧ Loadable s.record ∧ Coherent s.record := by
    rintro p state rfl hworker hstate
    obtain ⟨hs, hcoherent⟩ := hsound hworker
    exact ⟨hs.state state hstate, hs.loadable, hcoherent⟩
  unfold Sees at h
  cases may with
  | initial hphase => exact absurd hphase hstart
  | failure hphase => exact absurd hphase hreporting
  | downloading hphase next =>
      rw [hphase] at h
      obtain ⟨hstate, -, hcoherent⟩ := hmemory hphase rfl rfl
      have hnone := hcoherent.snapshot (.inl hstate)
      refine hadvance next h fun d hd => ?_
      obtain ⟨-, -, -, rfl⟩ := OperationStateRecord.transitionTo_eq_ok.mp next
      rcases hd with rfl | rfl
      · exact .early (.inl hstate) hnone
      · exact .early (.inr rfl) hnone
  | snapshotting hphase next =>
      rw [hphase] at h
      obtain ⟨hstate, -, hcoherent⟩ := hmemory hphase rfl rfl
      have hnone := hcoherent.snapshot (.inr hstate)
      refine hadvance next h fun d hd => ?_
      obtain ⟨-, -, -, rfl⟩ := OperationStateRecord.transitionTo_eq_ok.mp next
      rcases hd with rfl | rfl
      · exact .early (.inr hstate) hnone
      · exact .snapshotting rfl ⟨_, _, hnew, rfl⟩
  | snapshot number hphase _ next =>
      rw [hphase] at h
      obtain ⟨hstate, -, -⟩ := hmemory hphase rfl rfl
      have hbegun := h.2.mono (List.subset_append_left _ [⟨.save r, .error error⟩])
      subst next
      rcases hf with rfl | rfl
      · exact ⟨_, h.1, .inl rfl, .snapshotting hstate hbegun⟩
      · exact ⟨_, rfl, near_self _, .snapshotting hstate hbegun⟩
  | applying hphase next | ready hphase next =>
      rw [hphase] at h
      obtain ⟨hstate, -, -⟩ := hmemory hphase rfl rfl
      have hbegun := h.2.mono (List.subset_append_left _ [⟨.save r, .error error⟩])
      refine hadvance next h.1 fun d hd => ?_
      obtain ⟨-, hsnapshot, -, rfl⟩ := OperationStateRecord.transitionTo_eq_ok.mp next
      rcases hd with rfl | rfl
      · exact .snapshotting hstate hbegun
      · first
          | exact .applying rfl (hsnapshot rfl)
          | exact .told (.inl rfl) (hsnapshot rfl) ⟨error, hnew⟩
  | result hphase _ state final next =>
      rw [hphase] at h
      obtain ⟨hstate, hloadable, -⟩ := hmemory hphase rfl rfl
      have hsnapshot : s.record.snapshotNumber.isSome :=
        hloadable.valid.snapshot_isSome (by rw [hstate]; rfl)
      refine hadvance next h fun d hd => ?_
      obtain ⟨-, -, -, rfl⟩ := OperationStateRecord.transitionTo_eq_ok.mp next
      rcases hd with rfl | rfl
      · exact .applying hstate hsnapshot
      · exact .told (.inr final) hsnapshot ⟨error, hnew⟩

/-- **Every step of a worker keeps track of its record.** -/
theorem Moves.sees {e : Event Sig} {phase : Phase} {r : OperationStateRecord}
    (hmove : s.Moves operationId e phase r) (h : s.Sees operationId f)
    (htells : Tells operationId e f f')
    (hsound : s.phase.hasWorker → s.Sound operationId ∧ Coherent s.record)
    (hreports : Reports operationId e.op s.events) :
    Sees operationId f' ⟨phase, r, s.events ++ [e]⟩ := by
  have hsub : s.events ⊆ s.events ++ [e] := List.subset_append_left _ _
  have hgiven : s.phase.hasCopy →
      ∃ d, f = .record d ∧ Near s.record d ∧ Tied (s.events ++ [e]) s.record d := by
    intro hcopy
    obtain ⟨d, hd, hnear, htied⟩ := h.tied hsound hcopy
    exact ⟨d, hd, hnear, htied.mono hsub⟩
  cases hmove with
  | quiet hquiet =>
      have hsame : f' = f := htells.same fun r hr => by rw [hr] at hquiet; cases hquiet
      subst hsame
      unfold Sees at h ⊢
      dsimp only
      cases hphase : s.phase with
      | start =>
          rw [hphase] at h
          refine ⟨?_, fun habsent d hd => ?_⟩
          · rintro ⟨r, hr⟩
            rcases List.mem_append.mp hr with hr | hr
            · exact h.1 ⟨r, hr⟩
            · rw [← List.mem_singleton.mp hr] at hquiet
              cases hquiet
          · rcases List.mem_append.mp habsent with habsent | habsent
            · exact h.2 habsent d hd
            · exact absurd hd (htells.absent (List.mem_singleton.mp habsent).symm d)
      | waiting | locked | downloading | told | applying =>
          rw [hphase] at h
          exact h
      | snapshotting | taken | saved =>
          rw [hphase] at h
          exact ⟨h.1, h.2.mono hsub⟩
      | failed | ended | reporting => exact hgiven (by rw [hphase]; rfl)
      | finished | closed => trivial
  | found r hphase =>
      rw [htells.same fun r' hr => by cases hr]
      exact htells.read r rfl
  | refused => trivial
  | poll answer hphase =>
      rw [htells.same fun r hr => by cases hr]
      unfold Sees at h
      rw [hphase] at h
      show Sees operationId f ⟨if isCancelled answer then .told else .downloading, _, _⟩
      split_ifs <;> exact h
  | look answer hphase =>
      rw [htells.same fun r hr => by cases hr]
      show Sees operationId f ⟨if isCancelled answer then .closed .cancelled else .reporting, _, _⟩
      split_ifs
      · trivial
      · exact hgiven (by rcases hphase with hphase | hphase <;> rw [hphase] <;> rfl)
  | lock hphase =>
      rw [htells.same fun r hr => by cases hr]
      unfold Sees at h
      rw [hphase] at h
      exact h
  | busy error hphase =>
      rw [htells.same fun r hr => by cases hr]
      exact hgiven (by rw [hphase]; rfl)
  | unlock hphase =>
      rw [htells.same fun r hr => by cases hr]
      show Sees operationId f ⟨if s.phase = .finished then .closed .succeeded else .ended, _, _⟩
      split_ifs with hfinished
      · trivial
      · refine hgiven ?_
        generalize s.phase = p at hphase hfinished
        cases p <;> first | rfl | exact absurd rfl hfinished | cases hphase
  | takeSnapshot description output hphase =>
      rw [htells.same fun r hr => by cases hr]
      unfold Sees at h
      rw [hphase] at h
      exact ⟨h.1, h.2.mono hsub⟩
  | apply output hphase =>
      rw [htells.same fun r hr => by cases hr]
      unfold Sees at h
      rw [hphase] at h
      exact h
  | mark answer hphase =>
      rw [htells.same fun r hr => by cases hr]
      unfold Sees at h
      rw [hphase] at h
      exact ⟨h.1, h.2.mono hsub⟩
  | @create r answer hphase hinitial habsent =>
      unfold Sees at h
      rw [hphase] at h
      refine ⟨?_, fun _ d hd => ?_⟩
      · rintro ⟨r', hr'⟩
        rcases List.mem_append.mp hr' with hr' | hr'
        · exact h.1 ⟨r', hr'⟩
        · cases List.mem_singleton.mp hr'
      · have hnew : f' = .record r → d.state = .awaitingConfirmation ∧ d.sequence = 1 := by
          rintro rfl
          cases hd
          exact ⟨hinitial.2.1, hreports.2.resolve_left h.1⟩
        cases answer with
        | ok => exact hnew (htells.saved r rfl hinitial.1)
        | error error =>
            rcases htells.unsaved r error rfl hinitial.1 with rfl | hf
            · exact h.2 habsent d hd
            · exact hnew hf
  | @saved r hphase may =>
      have hid : r.operationId = operationId :=
        (may.keeps hphase (hsound (may.hasWorker hphase)).1).1
      have hdisk : f' = .record r := htells.saved r rfl hid
      unfold Sees at h
      cases may with
      | initial hp => exact absurd hp hphase
      | downloading hp => rw [hp]; exact hdisk
      | snapshotting hp next =>
          obtain ⟨-, -, -, rfl⟩ := OperationStateRecord.transitionTo_eq_ok.mp next
          rw [hp]
          exact ⟨hdisk, _, _, List.mem_append_right _ (List.mem_singleton_self _), rfl⟩
      | snapshot number hp =>
          rw [hp] at h ⊢
          exact ⟨hdisk, h.2.mono hsub⟩
      | applying hp next | ready hp next =>
          obtain ⟨-, -, -, rfl⟩ := OperationStateRecord.transitionTo_eq_ok.mp next
          rw [hp]
          first | exact hdisk | trivial
      | result hp => rw [hp]; trivial
      | failure hp => rw [hp]; trivial
  | @unsaved r error hphase may =>
      have hid : r.operationId = operationId :=
        (may.keeps hphase (hsound (may.hasWorker hphase)).1).1
      by_cases hreporting : s.phase = .reporting
      · rw [hreporting]
        trivial
      · have hfailed : phaseAfterFailure s.phase = .failed := by
          generalize s.phase = p at hphase hreporting
          cases p <;> first | rfl | exact absurd rfl hphase | exact absurd rfl hreporting
        rw [hfailed]
        exact may.tied_unsaved h hsound hphase hreporting (htells.unsaved r error rfl hid)

end WorkerState

end

/-! ## The other programs -/

section

variable {operationId id : String} {f f' : StateFile} {r m : OperationStateRecord}

/-- Nothing was saved. -/
theorem Tells.same_of_quiet {e : Event Sig} (h : Tells id e f f') (hquiet : Op.isQuiet e.op) :
    f' = f :=
  h.same fun r hr => by rw [hr] at hquiet; cases hquiet

/-- A copy that was saved is the record on disk. -/
theorem Tells.exact_saved (h : Tells id ⟨.save r, .ok ()⟩ f f') : Exact id f' r :=
  h.saved r rfl

/-- A copy that was read is the record on disk. -/
theorem Tells.exact_read (h : Tells id ⟨.load r.operationId, .ok r⟩ f f') : Exact id f' r := by
  rintro rfl
  rw [h.same fun _ hr => by cases hr]
  exact h.read r rfl

namespace DecisionState

variable {decision : Decision} {s s' : DecisionState}

theorem Sees.puts {events : List (Event Sig)} (h : s.Sees decision id f)
    (hdecision : decision = cancellation ∨ decision = recoveryDeclined) {timestamp : String}
    (hholds : s = .holding m) (hid : m.operationId = id) :
    Puts events f (decision.record m timestamp) := by
  obtain ⟨happlies, hexact⟩ := h m hholds
  exact .replaces m (hexact hid) (.decided decision timestamp hdecision happlies)

theorem Moves.sees {e : Event Sig} (hmove : s.Moves decision operationId e s')
    (h : s.Sees decision id f) (htells : Tells id e f f') : s'.Sees decision id f' := by
  cases hmove with
  | quiet hquiet =>
      rw [htells.same_of_quiet hquiet]
      exact h
  | read m _ happlies hid =>
      subst hid
      rintro m' ⟨⟩
      exact ⟨happlies, htells.exact_read⟩
  | refuse | write =>
      intro m hm
      cases hm
  | look answer =>
      rw [htells.same fun r hr => by cases hr]
      exact h

end DecisionState

namespace RollbackState

variable {s : RollbackState}

theorem MaySave.puts (may : s.MaySave r) (h : s.Sees id f) (hid : r.operationId = id) :
    Puts s.events f r := by
  unfold Sees at h
  cases may with
  | intent record number source timestamp hphase hstate =>
      rw [hphase] at h
      exact .replaces record (h hid) (.intended number source timestamp hstate)
  | scheduled record goal boot hphase =>
      rw [hphase] at h
      exact .replaces record (h.2 hid) (.scheduled goal boot h.1)
  | failed record error hphase =>
      rcases hphase with hphase | hphase <;> rw [hphase] at h
      · exact .replaces record (h.2 hid) (.unscheduled record error (near_self _) (.inl h.1))
      · obtain ⟨d, hd, hnear, hstate⟩ := h hid
        exact .replaces d hd (.unscheduled record error hnear hstate)

/-- A rollback reads its copy under the lock, whatever it knew before. -/
theorem Moves.sees_read {answer : Except PersistenceError OperationStateRecord}
    {phase : RollbackPhase} (hmove : s.Moves operationId ⟨.load operationId, answer⟩ phase)
    (htells : Tells id ⟨.load operationId, answer⟩ f f') :
    Sees id f' ⟨phase, s.events ++ [⟨.load operationId, answer⟩]⟩ := by
  cases hmove with
  | quiet hquiet => cases hquiet
  | look _ hphase => rcases hphase with hphase | hphase <;> rw [hphase] <;> trivial
  | read r hphase hr =>
      subst hr
      exact htells.exact_read
  | unread => trivial

theorem Moves.sees {e : Event Sig} {phase : RollbackPhase} (hmove : s.Moves operationId e phase)
    (h : s.Sees id f) (htells : Tells id e f f') : Sees id f' ⟨phase, s.events ++ [e]⟩ := by
  cases hmove with
  | quiet hquiet =>
      rw [htells.same_of_quiet hquiet]
      unfold Sees at h ⊢
      dsimp only
      cases hphase : s.phase with
      | read m | intended m | launched m =>
          rw [hphase] at h
          exact h
      | unconfirmed m =>
          rw [hphase] at h
          intro hid
          obtain ⟨d, hd, hnear, hstate⟩ := h hid
          exact ⟨d, hd, hnear, hstate.imp_right fun hs =>
            ⟨hs.1, hs.2.mono (List.subset_append_left _ _)⟩⟩
      | start | locked | finished | released => trivial
  | look answer hphase => exact sees_read (.look answer hphase) htells
  | read r hphase hr hloadable => exact sees_read (.read r hphase hr hloadable) htells
  | unread error hphase => exact sees_read (.unread error hphase) htells
  | lock | unlock => trivial
  | busy error hphase => trivial
  | launch record number source output hphase intent =>
      rw [htells.same fun r hr => by cases hr]
      unfold Sees at h
      rw [hphase] at h
      exact h
  | @save r answer may =>
      unfold Sees at h
      cases may with
      | intent record number source timestamp hphase hstate =>
          rw [hphase]
          rcases answer with error | ⟨⟩
          · trivial
          · exact ⟨hstate, htells.exact_saved⟩
      | scheduled record goal boot hphase =>
          rw [hphase] at h ⊢
          rcases answer with error | ⟨⟩
          · intro hid
            rcases htells.unsaved _ error rfl hid with rfl | hf
            · exact ⟨record, h.2 hid, .inr rfl, .inl h.1⟩
            · exact ⟨_, hf, near_self _,
                .inr ⟨rfl, error, List.mem_append_right _ (List.mem_singleton_self _)⟩⟩
          · trivial
      | failed record error hphase =>
          rcases hphase with hphase | hphase <;> rw [hphase] <;>
            rcases answer with error | ⟨⟩ <;> trivial

end RollbackState

namespace OfflineState

variable {ext : Externals} {s : OfflineState}

theorem MaySave.puts {events : List (Event Sig)} (may : s.MaySave ext r) (h : s.Sees id f)
    (hid : r.operationId = id) : Puts events f r := by
  have hexact : ∀ m, s.phase.record? = some m → m.operationId = id → f = .record m := fun m => h m
  cases may with
  | enter m r hphase _ _ next =>
      obtain ⟨-, -, -, rfl⟩ := OperationStateRecord.transitionTo_eq_ok.mp next
      exact .replaces m (hexact m (by rw [hphase]; rfl) hid) (.advanced _ _ next)
  | result m r hphase _ next =>
      have hm : m.operationId = id := by
        obtain ⟨-, -, -, rfl⟩ := OperationStateRecord.transitionTo_eq_ok.mp next
        exact hid
      exact .replaces m (hexact m (by rw [hphase]; rfl) hm) (.applied r _ next)
  | failed m hphase =>
      exact .replaces m (hexact m (by rcases hphase with hphase | hphase <;> rw [hphase] <;> rfl) hid)
        .offlineFailed

/-- The offline executor takes a new copy with every read. -/
theorem Moves.sees_read {answer : Except PersistenceError OperationStateRecord}
    {phase : OfflinePhase} (hmove : s.Moves ext ⟨.load operationId, answer⟩ phase)
    (htells : Tells id ⟨.load operationId, answer⟩ f f') :
    Sees id f' ⟨phase, s.events ++ [⟨.load operationId, answer⟩]⟩ := by
  intro m hm
  cases hmove with
  | quiet hquiet => cases hquiet
  | read r | readAgain r =>
      cases hm
      exact htells.exact_read
  | unread => cases hm

theorem Moves.sees {e : Event Sig} {phase : OfflinePhase} (hmove : s.Moves ext e phase)
    (h : s.Sees id f) (htells : Tells id e f f') : Sees id f' ⟨phase, s.events ++ [e]⟩ := by
  intro m hm
  cases hmove with
  | quiet hquiet =>
      rw [htells.same_of_quiet hquiet]
      exact h m hm
  | lock | busy | unlock | unread => cases hm
  | unlink answer hphase =>
      rw [htells.same fun r hr => by cases hr]
      exact h m hm
  | read r hphase hloadable =>
      have hread : s.Moves ext ⟨.load r.operationId, .ok r⟩ (.read r) := .read r hphase hloadable
      exact hread.sees_read htells m hm
  | readAgain r hphase hloadable =>
      have hread : s.Moves ext ⟨.load r.operationId, .ok r⟩ (.marking r) :=
        .readAgain r hphase hloadable
      exact hread.sees_read htells m hm
  | launch r arguments output manifest plan hphase =>
      rw [htells.same fun r hr => by cases hr]
      cases hm
      exact h m (by rw [hphase]; rfl)
  | save answer may =>
      have hsaved : ∀ {r : OperationStateRecord},
          (if r.state = .applyingOffline then OfflinePhase.entered r else .finished).record? =
            some m → m = r := by
        intro r hm
        split_ifs at hm <;> cases hm
        rfl
      cases may with
      | enter m' r hphase | result m' r hphase =>
          change (phaseAfterSave _ answer s.phase).record? = some m at hm
          rw [hphase] at hm
          rcases answer with error | ⟨⟩
          · cases hm
          · cases hsaved hm
            exact htells.exact_saved
      | failed m' hphase =>
          change (phaseAfterSave _ answer s.phase).record? = some m at hm
          rcases hphase with hphase | hphase <;> rw [hphase] at hm
          · rcases answer with error | ⟨⟩ <;> cases hm
          · cases hm

end OfflineState

namespace VerifierState

variable {s : VerifierState}

/-- A record that waits for the check of this boot was not closed as interrupted. -/
theorem Sees.pending (h : ∀ m, Scanned s m → m.operationId = id →
      f = .record m ∨ ((interruptedState m.state).isSome ∧ f = .record (interruptedRecord m)))
    (hm : Scanned s m) (hpending : isPending m) : Exact id f m := by
  intro hid
  refine (h m hm hid).resolve_right fun hinterrupted => ?_
  rw [interruptedState_of_pending hpending] at hinterrupted
  cases hinterrupted.1

theorem MaySave.puts {events : List (Event Sig)} (may : s.MaySave r) (h : s.Sees id f)
    (hid : r.operationId = id) : Puts events f r := by
  unfold Sees at h
  have hchecked : ∀ {m : OperationStateRecord}, s.phase.selected = some m → m.state = .verifyingBoot ∧ Exact id f m := by
    intro m hm
    cases hphase : s.phase with
    | entered | checking | replacing | unconsumed =>
        rw [hphase] at h hm
        cases hm
        exact h
    | start | scanning | closing | finished | released =>
        rw [hphase] at hm
        cases hm
  cases may with
  | interrupted m hphase hscanned hunfinished =>
      have hfound : f = .record m ∨
          ((interruptedState m.state).isSome ∧ f = .record (interruptedRecord m)) := by
        rcases hphase with hphase | hphase <;> rw [hphase] at h <;> exact h m hscanned hid
      rcases hfound with hf | ⟨-, hf⟩
      · exact .replaces m hf (.interrupted hunfinished)
      · exact .replaces _ hf .again
  | enter m r hphase hscanned hpending henter =>
      have hm : m.operationId = id := (enterVerification_eq hpending henter).1.symm.trans hid
      have hf : f = .record m := by
        rcases hphase with hphase | hphase <;> rw [hphase] at h <;>
          exact Sees.pending h hscanned hpending hm
      unfold enterVerification at henter
      split_ifs at henter
      · cases htransition : m.transitionTo .verifyingBoot with
        | error e => rw [htransition] at henter; cases henter
        | ok r' =>
            rw [htransition] at henter
            cases henter
            exact .replaces m hf (.advanced _ _ htransition)
      · cases henter
        exact .replaces _ hf .again
  | verified record checked hphase =>
      have hselected : s.phase.selected = some record := by rw [hphase]; rfl
      obtain ⟨hstate, hexact⟩ := hchecked hselected
      exact .replaces record (hexact hid) (.verified hstate)
  | consumed record n hphase =>
      have hselected : s.phase.selected = some record := by rw [hphase]; rfl
      obtain ⟨hstate, hexact⟩ := hchecked hselected
      exact .replaces record (hexact hid) (.verified hstate)
  | failed record code hselected =>
      obtain ⟨hstate, hexact⟩ := hchecked hselected
      exact .replaces record (hexact hid) (.unverified code hstate)

/-- While the records are read, a failed save ends the run. -/
theorem phaseAfterSave_error {p : VerifierPhase} (hp : p = .scanning ∨ p = .closing)
    (error : PersistenceError) : phaseAfterSave r (.error error) p = .finished := by
  rcases hp with rfl | rfl <;> rfl

theorem phaseAfterSave_interrupted {p : VerifierPhase} (hp : p = .scanning ∨ p = .closing)
    (hunfinished : (interruptedState m.state).isSome) :
    phaseAfterSave (interruptedRecord m) (.ok ()) p = .closing := by
  have hpending : ¬ isPending (interruptedRecord m) := by
    unfold isPending
    rcases interruptedRecord_state hunfinished with hstate | hstate <;> rw [hstate] <;> decide
  rcases hp with rfl | rfl <;> exact if_neg hpending

theorem phaseAfterSave_entered {p : VerifierPhase} (hp : p = .scanning ∨ p = .closing)
    (hstate : r.state = .verifyingBoot) : phaseAfterSave r (.ok ()) p = .entered r := by
  have hpending : isPending r := by
    unfold isPending
    rw [hstate]
    rfl
  rcases hp with rfl | rfl <;> exact if_pos hpending

/-- What the verifier has read stays found as it goes on. -/
theorem Moves.sees {e : Event Sig} {phase : VerifierPhase} (hmove : s.Moves e phase)
    (h : s.Sees id f) (htells : Tells id e f f') : Sees id f' ⟨phase, s.events ++ [e]⟩ := by
  have hscanned : ∀ {p : VerifierPhase} {m}, Scanned ⟨p, s.events ++ [e]⟩ m →
      (∀ r, e ≠ ⟨.load r.operationId, .ok r⟩) → Scanned s m := by
    intro p m hm hne
    rcases List.mem_append.mp hm with hm | hm
    · exact hm
    · exact absurd (List.mem_singleton.mp hm).symm (hne m)
  -- an operation that neither reads nor saves a record
  have hkeep : (∀ r, e ≠ ⟨.load r.operationId, .ok r⟩) → f' = f →
      Sees id f' ⟨s.phase, s.events ++ [e]⟩ := by
    rintro hne rfl
    unfold Sees at h ⊢
    dsimp only
    cases hphase : s.phase with
    | start =>
        rw [hphase] at h
        exact fun m hm => h m (hscanned hm hne)
    | scanning | closing =>
        rw [hphase] at h
        exact fun m hm => h m (hscanned hm hne)
    | entered | checking | replacing | unconsumed =>
        rw [hphase] at h
        exact h
    | finished | released => trivial
  have hreplaced : ∀ {record step} {answer : Io Unit}, f' = f →
      record.state = .verifyingBoot ∧ Exact id f record →
      Sees id f' ⟨replaced record step answer, s.events ++ [e]⟩ := by
    rintro record step answer rfl hrecord
    rcases answer with error | ⟨⟩ <;> exact hrecord
  cases hmove with
  | detached hdetached =>
      refine hkeep ?_ (htells.same_of_quiet (isQuiet_of_isDetached hdetached))
      rintro r rfl
      cases hdetached
  | lock hphase =>
      unfold Sees at h
      rw [hphase] at h
      exact fun m hm => absurd (hscanned hm fun r hr => by cases hr) (h m)
  | busy | unlock => trivial
  | read r hphase =>
      rw [htells.same fun r hr => by cases hr]
      unfold Sees at h
      rw [hphase] at h
      intro m hm hid
      rcases List.mem_append.mp hm with hm | hm
      · exact h m hm hid
      · cases load_injective (List.mem_singleton.mp hm)
        subst hid
        exact .inl (htells.read _ rfl)
  | unread id' error =>
      exact hkeep (fun r hr => by cases hr) (htells.same fun r hr => by cases hr)
  | check record r hphase =>
      rw [htells.same fun r hr => by cases hr]
      unfold Sees at h
      rw [hphase] at h
      exact h
  | @save r answer may =>
      unfold Sees at h
      cases may with
      | interrupted m hphase hread hunfinished =>
          have hfound : ∀ m, Scanned s m → m.operationId = id → f = .record m ∨
              ((interruptedState m.state).isSome ∧ f = .record (interruptedRecord m)) := by
            rcases hphase with hphase | hphase <;> rw [hphase] at h <;> exact h
          rcases answer with error | ⟨⟩
          · rw [phaseAfterSave_error hphase]
            trivial
          rw [phaseAfterSave_interrupted hphase hunfinished]
          intro m' hm' hid
          have hm' := hscanned hm' fun r hr => by cases hr
          by_cases hmid : m.operationId = id
          · rw [htells.saved _ rfl hmid]
            exact found_closed (hfound m' hm' hid) (hfound m hread hmid) hunfinished
          · rw [htells.same fun r hr => by cases hr; exact hmid]
            exact hfound m' hm' hid
      | enter m r hphase hread hpending henter =>
          have hstate := (enterVerification_eq hpending henter).2.2.2
          rcases answer with error | ⟨⟩
          · rw [phaseAfterSave_error hphase]
            trivial
          rw [phaseAfterSave_entered hphase hstate]
          exact ⟨hstate, htells.exact_saved⟩
      | verified record checked hphase | consumed record n hphase =>
          show Sees id f' ⟨phaseAfterSave _ _ s.phase, _⟩
          rw [hphase]
          trivial
      | failed record code hselected =>
          have hafter : phaseAfterSave (recoveryRecord record code) answer s.phase = .finished := by
            cases hphase : s.phase with
            | entered | checking | replacing | unconsumed => rfl
            | start | scanning | closing | finished | released =>
                rw [hphase] at hselected
                cases hselected
          rw [hafter]
          trivial
  | readSequence record checked answer hphase =>
      exact hkeep (fun r hr => by cases hr) (htells.same fun r hr => by cases hr)
  | create record checked n answer hphase | write record n answer hphase
  | sync record text answer hphase | rename record text answer hphase
  | finish record text answer hphase =>
      unfold Sees at h
      rw [hphase] at h
      exact hreplaced (htells.same fun r hr => by cases hr) h

end VerifierState

end

/-! ## All of them together -/

namespace Writer

/-- What a process knows of the record. -/
def Sees (id : String) (f : StateFile) : (Σ w, State w) → Prop
  | ⟨worker operationId, s⟩ => operationId = id → WorkerState.Sees operationId f s
  | ⟨decision d _, s⟩ => (d = cancellation ∨ d = recoveryDeclined) ∧ DecisionState.Sees d id f s
  | ⟨rollback _, s⟩ => RollbackState.Sees id f s
  | ⟨offline, s⟩ => OfflineState.Sees id f s
  | ⟨verifier, s⟩ => VerifierState.Sees id f s

/-- The process reads the record again before it saves another one. -/
def rereads : (Σ w, State w) → Bool
  | ⟨rollback _, _⟩ | ⟨offline, _⟩ => true
  | _ => false

/-- The process has noted its operations. -/
def Noted (events : List (Event Sig)) : (Σ w, State w) → Prop
  | ⟨worker _, s⟩ => WorkerState.events s = events
  | ⟨rollback _, s⟩ => RollbackState.events s = events
  | _ => True

variable {ext : Externals} {id : String} {f f' : StateFile} {t : Σ w, State w}
  {events : List (Event Sig)} {e : Op} {answer : e.Answer}

theorem sees_start (activity : Activity) (id : String) (f : StateFile) : Sees id f (start activity) := by
  rcases activity with (_ | _ | _ | _) | _ | _
  · rintro -
    refine ⟨?_, fun h => by cases h⟩
    rintro ⟨r, hr⟩
    cases hr
  · exact ⟨.inl rfl, fun m hm => by cases hm⟩
  · exact ⟨.inr rfl, fun m hm => by cases hm⟩
  · trivial
  · exact fun m hm => by cases hm
  · exact fun m hm => by cases hm

theorem noted_start (activity : Activity) : Noted [] (start activity) := by
  rcases activity with (_ | _ | _ | _) | _ | _ <;> first | rfl | trivial

theorem rereads_start (activity : Activity) : rereads (start activity) = activity.rereads := by
  rcases activity with (_ | _ | _ | _) | _ | _ <;> rfl

theorem rereads_next (e : Event Sig) (t : Σ w, State w) : rereads (next e t) = rereads t := by
  obtain ⟨_ | _ | _ | _ | _, s⟩ := t <;> rfl

theorem noted_next (h : Noted events t) (e : Event Sig) : Noted (events ++ [e]) (next e t) := by
  obtain ⟨_ | _ | _ | _ | _, s⟩ := t
  · show WorkerState.events s ++ [e] = _
    rw [show WorkerState.events s = events from h]
  · trivial
  · show RollbackState.events s ++ [e] = _
    rw [show RollbackState.events s = events from h]
  · trivial
  · trivial

/-- **What a process that sees the file puts over it.** -/
theorem puts {r : OperationStateRecord} (hpre : (Contract.family (contract ext)).pre (.save r) t)
    (hremembers : Remembers t) (hnoted : Noted events t) (h : Sees r.operationId f t) :
    Puts events f r := by
  obtain ⟨operationId | _ | _ | _ | _, s⟩ := t
  · have may := hpre.1.resolve_left (by simp [Op.isQuiet])
    have hid : r.operationId = operationId := by
      by_cases hstart : WorkerState.phase s = .start
      · cases may with
        | initial _ hinitial => exact hinitial.1
        | downloading hphase | snapshotting hphase | snapshot _ hphase | applying hphase
        | ready hphase | result hphase | failure hphase =>
            rw [hstart] at hphase
            cases hphase
      · exact (may.keeps hstart (hremembers (may.hasWorker hstart)).1).1
    have heq : WorkerState.events s = events := hnoted
    subst heq
    refine may.puts (h hid.symm) ?_
    exact hpre.2
  · obtain ⟨m, timestamp, hholds, rfl⟩ := hpre.resolve_left (by simp [Op.isQuiet])
    exact h.2.puts h.1 hholds rfl
  · have heq : RollbackState.events s = events := hnoted
    subst heq
    exact RollbackState.MaySave.puts (hpre.resolve_left (by simp [Op.isQuiet])) h rfl
  · exact OfflineState.MaySave.puts (hpre.resolve_left (by simp [Op.isQuiet])) h rfl
  · exact VerifierState.MaySave.puts (hpre.resolve_left (by simp [Op.isDetached, Op.isQuiet])) h rfl

/-- **Every step keeps track of the record.** -/
theorem sees_next (hpre : (Contract.family (contract ext)).pre e t) {i : ℕ} {w w' : World}
    (hexec : exec true i e w answer w') (hremembers : Remembers t) (h : Sees id f t)
    (htells : Tells id ⟨e, answer⟩ f f') : Sees id f' (next ⟨e, answer⟩ t) := by
  obtain ⟨_ | _ | _ | _ | _, s⟩ := t
  · rintro rfl
    exact (WorkerState.moves hpre.1 (validAnswer_of_exec hexec)).sees (h rfl) htells hremembers
      hpre.2
  · exact ⟨h.1, (DecisionState.moves hpre (validAnswer_of_exec hexec)).sees h.2 htells⟩
  · exact (RollbackState.moves hpre (validAnswer_of_exec hexec)).sees h htells
  · exact (OfflineState.moves hpre (validAnswer_of_exec hexec)).sees h htells
  · exact (VerifierState.moves hpre (validReport_of_exec hexec)).sees h htells

/-- A process that reads the record again knows it. -/
theorem sees_reread {answer : Except PersistenceError OperationStateRecord}
    (hpre : (Contract.family (contract ext)).pre (.load id) t) {i : ℕ} {w w' : World}
    (hexec : exec true i (.load id) w answer w') (hrereads : rereads t)
    (htells : Tells id ⟨.load id, answer⟩ f f') : Sees id f' (next ⟨.load id, answer⟩ t) := by
  obtain ⟨_ | _ | _ | _ | _, s⟩ := t
  · cases hrereads
  · cases hrereads
  · obtain ⟨rfl, -⟩ := hpre.resolve_left (by simp [Op.isQuiet])
    exact (RollbackState.moves hpre (validAnswer_of_exec hexec)).sees_read htells
  · exact (OfflineState.moves hpre (validAnswer_of_exec hexec)).sees_read htells
  · cases hrereads

end Writer

/-- A process knows what is possible for all that it has heard. -/
structure Aware (c : Activities) (i : ℕ) (t : Σ w, Writer.State w) : Prop where
  sees : ∀ id f, Possible c i id f → Writer.Sees id f t
  noted : Writer.Noted (c.events i) t
  rereads : Rereads c i → Writer.rereads t

section

variable {ext : Externals} {c c' : Activities} {i j : ℕ} {t : Σ w, Writer.State w}
  {l : Label Sig Activity}

/-- A step that is not of process `j`, and does not start it. -/
theorem Aware.frame (h : Aware c j t)
    (hs : Step (system true) (Activity.program ext) c l c')
    (hspawn : ∀ activity, l ≠ .spawn j activity) (hact : ∀ e answer, l ≠ .act j e answer)
    (hstate : ∀ id, ¬ Intrudes j id l → c'.world.state id = c.world.state id) : Aware c' j t where
  sees := by
    intro id f hpossible
    refine h.sees id f (hpossible.frame hs hspawn ?_ (hstate id))
    cases l with
    | act k e answer =>
        rintro ⟨rfl, -⟩
        exact hact e answer rfl
    | spawn | crash => exact fun h => h
  noted := by
    have hnone : l.eventOf j = none := by
      cases l with
      | act k e answer =>
          refine if_neg ?_
          rintro rfl
          exact hact e answer rfl
      | spawn | crash => rfl
    rw [hs.events_eq, hnone, Option.toList_none, List.append_nil]
    exact h.noted
  rereads := by
    rintro ⟨activity, hmem, hactivity⟩
    rw [hs.history_eq, List.mem_append, List.mem_singleton] at hmem
    exact h.rereads ⟨activity, hmem.resolve_right fun heq => hspawn activity heq.symm, hactivity⟩

/-- A process that was just started. -/
theorem Aware.spawned {activity : Activity} (huntouched : Untouched c)
    (hs : Step (system true) (Activity.program ext) c (.spawn c.fresh activity) c') :
    Aware c' c.fresh (Writer.start activity) where
  sees := fun id f _ => Writer.sees_start activity id f
  noted := by
    rw [hs.events_eq, (huntouched c.fresh (Nat.le_refl _)).2.1]
    exact Writer.noted_start activity
  rereads := by
    rintro ⟨activity', hmem, hactivity⟩
    rw [hs.history_eq, List.mem_append, List.mem_singleton] at hmem
    cases hmem.resolve_left ((huntouched c.fresh (Nat.le_refl _)).2.2 activity')
    rw [Writer.rereads_start]
    exact hactivity

/-- **A step of its own.** -/
theorem Aware.step {e : Op} {answer : e.Answer} (h : Aware c i t) (hhoused : Housed c.world)
    (hremembers : Writer.Remembers t) (hpre : (Contract.family (Writer.contract ext)).pre e t)
    (hs : Step (system true) (Activity.program ext) c (.act i e answer) c')
    (hexec : exec true i e c.world answer c'.world) : Aware c' i (Writer.next ⟨e, answer⟩ t) where
  sees := by
    intro id f hpossible
    by_cases hlooks : e.looksAt id
    · obtain ⟨rfl, hbefore⟩ := hpossible.look hs ⟨rfl, hlooks⟩
      have htells : Tells id ⟨e, answer⟩ (c.world.state id) (c'.world.state id) :=
        tells_of_exec hexec hhoused
      by_cases hread : e = .load id ∧ Rereads c i
      · obtain ⟨rfl, hrereads⟩ := hread
        exact Writer.sees_reread hpre hexec (h.rereads hrereads) htells
      · refine Writer.sees_next hpre hexec hremembers (h.sees id _ (hbefore ?_)) htells
        rintro hrereads answer' heq
        cases heq
        exact hread ⟨rfl, hrereads⟩
    · refine Writer.sees_next hpre hexec hremembers (h.sees id f (hpossible.frame hs ?_ ?_ ?_))
        (tells_of_not_looksAt hlooks f)
      · intro activity heq
        cases heq
      · rintro ⟨-, h⟩
        exact hlooks h
      · intro _
        rcases (exec_change hexec).state id with hsame | ⟨r, rfl, hid, -⟩
        · exact hsame
        · exact absurd hid hlooks
  noted := by
    rw [hs.events_eq, Label.eventOf, if_pos rfl]
    exact Writer.noted_next h.noted ⟨e, answer⟩
  rereads := by
    rintro ⟨activity, hmem, hactivity⟩
    rw [hs.history_eq, List.mem_append, List.mem_singleton] at hmem
    rw [Writer.rereads_next]
    refine h.rereads ⟨activity, hmem.resolve_right ?_, hactivity⟩
    intro heq
    cases heq

theorem preserved_aware (ext : Externals) {ok : Activities → Label Sig Activity → Prop} :
    Preserved (system true) (Activity.program ext) (Contract.family (Writer.contract ext)) ok
      Writer.start fun c φ => ((∀ id r, c.world.state id = .record r → Coherent r) ∧
        ∀ i t, φ i = some t → Writer.Remembers t) ∧ (Housed c.world ∧ Untouched c) ∧
        ∀ i t, φ i = some t → Aware c i t := by
  refine (preserved_coherent ext).extend_local ?_ ?_ ?_
  · rintro c c' activity ⟨hhoused, huntouched⟩ hs hw
    refine ⟨⟨by rw [hw]; exact hhoused, huntouched.step hs⟩, .spawned huntouched hs, ?_⟩
    intro j t hj h
    refine h.frame hs ?_ (fun e answer heq => by cases heq) fun id _ => by rw [hw]
    rintro activity' heq
    cases heq
    exact hj rfl
  · rintro c c' φ i e answer t t' ⟨-, hmemory⟩ ⟨hhoused, huntouched⟩ haware hφ hpre hs hexec hnext
    cases Writer.eq_next hnext
    refine ⟨⟨housed_of_change hhoused (exec_change hexec), huntouched.step hs⟩,
      haware.step hhoused (hmemory i t hφ) hpre hs hexec, fun j u hj h => ?_⟩
    refine h.frame hs (fun activity heq => by cases heq) ?_ fun id hintrudes => ?_
    · rintro e' answer' heq
      cases heq
      exact hj rfl
    · rcases (exec_change hexec).state id with hsame | ⟨r, rfl, hid, -⟩
      · exact hsame
      · exact absurd ⟨Ne.symm hj, hid⟩ hintrudes
  · rintro c c' ⟨hhoused, huntouched⟩ hs ⟨temporary, -, hw⟩
    refine ⟨?_, huntouched.step hs⟩
    rw [hw]
    exact hhoused

/-- **What a step does to the record of an operation.**  From a store without records: it
leaves the record alone, or it is a save, and of the process that saves it is known, if it was
not disturbed, what it makes of the record on disk. -/
theorem step_puts {w : World} (hw : ∀ id r, w.state id ≠ .record r)
    (h : Reach (system true) (Activity.program ext) (fun _ _ => True) (Config.boot w) c)
    (hs : Step (system true) (Activity.program ext) c l c') (id : String) :
    c'.world.state id = c.world.state id ∨ ∃ i r answer, l = .act i (.save r) answer ∧
      r.operationId = id ∧ c'.world.state id = .record r ∧
      (¬ Disturbed c i id → Puts (c.events i) (c.world.state id) r) := by
  obtain ⟨φ, htracked, ⟨hdisk, hmemory⟩, -, haware⟩ := h.tracked (wp_activity ext)
    (preserved_aware ext) (Tracked.boot w)
    ⟨⟨fun id r hr => absurd hr (hw id r), fun i t hi => by cases hi⟩,
      ⟨fun id r hr => absurd hr (hw id r), .boot w⟩, fun i t hi => by cases hi⟩
  cases hs with
  | spawn activity => exact .inl rfl
  | @act i e k answer w' hrun hexec =>
      rcases (exec_change hexec).state id with hsame | ⟨r, rfl, hid, -, hr⟩
      · exact .inl hsame
      · obtain ⟨t, hφ, hwp⟩ := htracked.wp_of_some i _ hrun
        refine .inr ⟨i, r, answer, rfl, hid, hr, fun hundisturbed => ?_⟩
        subst hid
        exact Writer.puts hwp.1 (hmemory i t hφ) (haware i t hφ).noted
          ((haware i t hφ).sees _ _ (.inr ⟨hundisturbed, rfl⟩))
  | crash hleft =>
      obtain ⟨temporary, -, rfl⟩ := hleft
      exact .inl rfl

end

end LyraUpgrade
