import LyraUpgrade.Offline.Cleanup
import LyraUpgrade.System.Copies

/-!
# The offline transaction is launched once

The service runs in an ordinary boot, the offline executor in the boot that `/system-update`
asks for.  Between two crashes there is only one of the two, with any number of processes; the
verifier may run beside either.  Every boot ends in a crash, at any point.

* `BootsApart` — requests and offline executors are not started in the same boot.
* `Applying` — what an offline executor knows of the record on disk.
* `Past` — the operation waits for nobody any more.
* `offline_launched_once` — the result.
-/

namespace LyraUpgrade

open Interaction

/-! ## Boots -/

def Activity.isRequest : Activity → Bool
  | .request _ => true
  | _ => false

def Activity.isOffline : Activity → Bool
  | .offline _ => true
  | _ => false

/-- An activity of the kind was started since the machine was switched on. -/
def started (kind : Activity → Bool) (history : List (Label Sig Activity)) : Bool :=
  history.foldl (fun found l =>
    match l with
    | .spawn _ activity => found || kind activity
    | .crash => false
    | .act _ _ _ => found) false

/-- Requests and offline executors belong to different boots. -/
def BootsApart (c : Activities) : Label Sig Activity → Prop
  | .spawn _ activity => (activity.isOffline → started Activity.isRequest c.history = false) ∧
      (activity.isRequest → started Activity.isOffline c.history = false)
  | _ => True

/-- Only one of the two runs in this boot. -/
def OneKind (c : Activities) : Prop :=
  started Activity.isRequest c.history = false ∨ started Activity.isOffline c.history = false

section

variable {ext : Externals} {c c' : Activities} {kind : Activity → Bool} {i : ℕ}

theorem started_spawn {activity : Activity}
    (hs : Step (system true) (Activity.program ext) c (.spawn i activity) c') :
    started kind c'.history = (started kind c.history || kind activity) := by
  rw [hs.history_eq, started, List.foldl_append]
  rfl

theorem started_act {e : Op} {answer : e.Answer}
    (hs : Step (system true) (Activity.program ext) c (.act i e answer) c') :
    started kind c'.history = started kind c.history := by
  rw [hs.history_eq, started, List.foldl_append]
  rfl

theorem started_crash (hs : Step (system true) (Activity.program ext) c .crash c') :
    started kind c'.history = false := by
  rw [hs.history_eq, started, List.foldl_append]
  rfl

theorem OneKind.spawn {activity : Activity} (h : OneKind c)
    (hok : BootsApart c (.spawn i activity))
    (hs : Step (system true) (Activity.program ext) c (.spawn i activity) c') : OneKind c' := by
  unfold OneKind
  rw [started_spawn hs, started_spawn hs]
  cases activity with
  | request => exact .inr (by rw [hok.2 rfl]; rfl)
  | offline => exact .inl (by rw [hok.1 rfl]; rfl)
  | boot =>
      unfold OneKind at h
      simpa [Activity.isRequest, Activity.isOffline] using h

theorem OneKind.act {e : Op} {answer : e.Answer} (h : OneKind c)
    (hs : Step (system true) (Activity.program ext) c (.act i e answer) c') : OneKind c' := by
  unfold OneKind
  rw [started_act hs, started_act hs]
  exact h

end

/-! ## The offline executor and the record -/

/-- The beginning of the application is on disk: saved, from a record that was ready for it. -/
structure Entered (w : World) (events : List (Event Sig)) (r : OperationStateRecord) : Prop where
  stored : w.state r.operationId = .record r
  saved : ⟨Op.save r, Except.ok ()⟩ ∈ events
  prepared : ∃ m : OperationStateRecord, ⟨Op.load m.operationId, Except.ok m⟩ ∈ events ∧
    m.state = .readyToReboot ∧ m.snapshotNumber.isSome ∧ m.transitionTo .applyingOffline = .ok r

/-- The phase of an offline executor and the record on disk.  While the lock is held nobody else
writes in its boot. -/
def OfflinePhase.Agrees (w : World) (events : List (Event Sig)) : OfflinePhase → Prop
  | .read m => w.state m.operationId = .record m ∧
      ⟨Op.load m.operationId, Except.ok m⟩ ∈ events
  | .entered r => Entered w events r
  | _ => True

section

variable {ext : Externals} {w w' : World} {events events' : List (Event Sig)}
  {r : OperationStateRecord} {p : OfflinePhase} {i : ℕ}

theorem OfflinePhase.Agrees.mono (h : p.Agrees w events)
    (hstate : p.holdsLock → ∀ id, w'.state id = w.state id) (hsub : events ⊆ events') :
    p.Agrees w' events' := by
  cases p with
  | read m => exact ⟨(hstate rfl _).trans h.1, hsub h.2⟩
  | entered r =>
      obtain ⟨hstored, hsaved, m, hload, hready⟩ := h
      exact ⟨(hstate rfl _).trans hstored, hsub hsaved, m, hsub hload, hready⟩
  | start | locked | applied | marking | failed | finished | released => trivial

namespace OfflineState

variable {s : OfflineState} {e : Op} {answer : e.Answer}

/-- Who saves holds the lock. -/
theorem MaySave.holdsLock (may : s.MaySave ext r) : s.phase.holdsLock := by
  cases may with
  | enter _ _ hphase | result _ _ hphase => rw [hphase]; rfl
  | failed _ hphase => rcases hphase with hphase | hphase <;> rw [hphase] <;> rfl

theorem Moves.holdsLock {e : Event Sig} (h : s.Moves ext e p) (hlock : p.holdsLock) :
    e = ⟨.acquireLock, .ok ()⟩ ∨ (s.phase.holdsLock ∧ e.op ≠ .releaseLock) := by
  cases h with
  | quiet hquiet =>
      refine .inr ⟨hlock, fun he => ?_⟩
      rw [he] at hquiet
      cases hquiet
  | lock => exact .inl rfl
  | busy | unlock => cases hlock
  | unlink => exact .inr ⟨hlock, by simp⟩
  | read _ hphase => exact .inr ⟨by rw [hphase]; rfl, by simp⟩
  | readAgain _ hphase | unread _ _ hphase => exact .inr ⟨hphase, by simp⟩
  | launch _ _ _ _ _ hphase => exact .inr ⟨by rw [hphase]; rfl, by simp⟩
  | save _ may => exact .inr ⟨may.holdsLock, by simp⟩

/-- **The application begins** only from the record that is on disk. -/
theorem agrees_next (h : s.phase.Agrees w s.events) (hallow : e.isQuiet ∨ s.permits ext e)
    (hexec : exec true i e w answer w') :
    (s.next ⟨e, answer⟩).phase.Agrees w' (s.next ⟨e, answer⟩).events := by
  have hmove := moves hallow (validAnswer_of_exec hexec)
  have hsub : s.events ⊆ (s.next ⟨e, answer⟩).events := List.subset_append_left _ _
  have hlast := mem_next s ⟨e, answer⟩
  have hkeep : e.isSave = false → s.phase.Agrees w' (s.next ⟨e, answer⟩).events := fun hsave =>
    h.mono (fun _ id => (exec_change hexec).state_of_not_save hsave id) hsub
  generalize (s.next ⟨e, answer⟩).events = events' at hsub hlast hkeep ⊢
  generalize (s.next ⟨e, answer⟩).phase = p at hmove ⊢
  cases hmove with
  | quiet hquiet => exact hkeep (isSave_of_quiet hquiet)
  | lock | readAgain | unread | launch | unlock => trivial
  | busy _ hphase => trivial
  | unlink => exact hkeep rfl
  | read m hphase =>
      refine ⟨?_, hlast⟩
      rw [(exec_change hexec).state_of_not_save rfl]
      exact (exec_load_ok hexec).1
  | @save r saved may =>
      cases may with
      | enter m _ hphase hready hsnapshot hnext =>
          rw [hphase] at h ⊢
          rcases saved with error | ⟨⟩
          · trivial
          · have hstate : r.state = .applyingOffline := by
              obtain ⟨-, -, -, rfl⟩ := OperationStateRecord.transitionTo_eq_ok.mp hnext
              rfl
            have hentered : phaseAfterSave r (.ok ()) (.read m) = .entered r := if_pos hstate
            rw [hentered]
            refine ⟨?_, hlast, m, hsub h.2, hready, hsnapshot, hnext⟩
            rw [(exec_save_ok hexec).2]
            exact World.state_putState_self _
      | result m r hphase _ hnext =>
          have hstate : r.state = .awaitingReboot := by
            obtain ⟨-, -, -, rfl⟩ := OperationStateRecord.transitionTo_eq_ok.mp hnext
            rfl
          rw [hphase]
          rcases saved with error | ⟨⟩
          · trivial
          · simp [phaseAfterSave, hstate, OfflinePhase.Agrees]
      | failed m hphase =>
          rcases hphase with hphase | hphase <;> rw [hphase] <;> rcases saved with error | ⟨⟩ <;>
            trivial

end OfflineState

end

/-! ## Every process -/

/-- The invariant of an offline executor. -/
structure Applying (c : Activities) (i : ℕ) (s : OfflineState) : Prop where
  boot : started Activity.isOffline c.history
  lock : s.phase.holdsLock → c.world.lock = some i
  events : s.events = c.events i
  agrees : s.phase.Agrees c.world s.events

/-- The invariant of a worker. -/
structure Serving (c : Activities) (operationId : String) (s : WorkerState) : Prop where
  boot : started Activity.isRequest c.history
  sound : s.phase.hasWorker → s.Sound operationId

namespace Writer

/-- The invariant of a process. -/
def Attends (c : Activities) (i : ℕ) : (Σ w, State w) → Prop
  | ⟨worker operationId, s⟩ => Serving c operationId s
  | ⟨offline, s⟩ => Applying c i s
  | ⟨verifier, s⟩ => VerifierPhase.holdsLock (VerifierState.phase s) → c.world.lock = some i
  | _ => started Activity.isRequest c.history

variable {ext : Externals} {c c' : Activities} {i j : ℕ} {t u : Σ w, State w} {e : Op}
  {answer : e.Answer}

/-- Beside an offline executor only lock holders save. -/
theorem lock_of_save {r : OperationStateRecord}
    (hpre : (Contract.family (contract ext)).pre (.save r) t) (h : Attends c i t)
    (hboot : started Activity.isRequest c.history = false) : c.world.lock = some i := by
  obtain ⟨_ | _ | _ | _ | _, s⟩ := t
  · cases hboot.symm.trans (Serving.boot h)
  · cases hboot.symm.trans h
  · cases hboot.symm.trans h
  · have may : OfflineState.MaySave ext s r := hpre.resolve_left (by simp [Op.isQuiet])
    exact Applying.lock h may.holdsLock
  · have may : VerifierState.MaySave s r := hpre.resolve_left (by simp [Op.isDetached, Op.isQuiet])
    exact h may.holdsLock

/-- A process that was started. -/
theorem attends_start {activity : Activity} (huntouched : Untouched c)
    (hs : Step (system true) (Activity.program ext) c (.spawn c.fresh activity) c') :
    Attends c' c.fresh (start activity) := by
  have hnone : c'.events c.fresh = [] := by
    rw [hs.events_eq, (huntouched c.fresh (Nat.le_refl _)).2.1]
    rfl
  have hstarted : ∀ kind : Activity → Bool, kind activity → started kind c'.history := by
    intro kind hkind
    rw [started_spawn hs, hkind, Bool.or_true]
  rcases activity with (_ | _ | _ | _) | _ | _
  · exact ⟨hstarted _ rfl, fun h => by cases h⟩
  · exact hstarted Activity.isRequest rfl
  · exact hstarted Activity.isRequest rfl
  · exact hstarted Activity.isRequest rfl
  · exact ⟨hstarted _ rfl, fun h => (by cases h), hnone.symm, trivial⟩
  · exact fun h => by cases h

/-- The others when a process is started. -/
theorem attends_spawn {activity : Activity} (h : Attends c j t)
    (hs : Step (system true) (Activity.program ext) c (.spawn i activity) c')
    (hw : c'.world = c.world) : Attends c' j t := by
  have hstarted : ∀ kind : Activity → Bool, started kind c.history → started kind c'.history := by
    intro kind hkind
    rw [started_spawn hs, hkind, Bool.true_or]
  have hevents : c'.events j = c.events j := by
    rw [hs.events_eq]
    exact List.append_nil _
  obtain ⟨_ | _ | _ | _ | _, s⟩ := t
  · exact ⟨hstarted _ (Serving.boot h), Serving.sound h⟩
  · exact hstarted Activity.isRequest h
  · exact hstarted Activity.isRequest h
  · obtain ⟨hboot, hlock, hown, hagrees⟩ : Applying c j s := h
    refine ⟨hstarted _ hboot, ?_, hown.trans hevents.symm, ?_⟩ <;> rw [hw]
    · exact hlock
    · exact hagrees
  · intro hlock
    rw [hw]
    exact h hlock

/-- The process that acts. -/
theorem attends_next (hpre : (Contract.family (contract ext)).pre e t) (h : Attends c i t)
    (hs : Step (system true) (Activity.program ext) c (.act i e answer) c')
    (hexec : exec true i e c.world answer c'.world) : Attends c' i (next ⟨e, answer⟩ t) := by
  have hstarted : ∀ kind : Activity → Bool, started kind c'.history = started kind c.history :=
    fun kind => started_act hs
  have hheld : ∀ {held : Bool}, (held → c.world.lock = some i) →
      (⟨e, answer⟩ : Event Sig) = ⟨.acquireLock, .ok ()⟩ ∨ (held ∧ e ≠ .releaseLock) →
      c'.world.lock = some i := by
    rintro held hlock (heq | ⟨hheld, hkeep⟩)
    · cases heq
      exact (exec_acquire_ok hexec).2
    · exact exec_lock_held hexec (hlock hheld) (.inr hkeep)
  obtain ⟨_ | _ | _ | _ | _, s⟩ := t
  · have h : Serving c _ s := h
    refine ⟨(hstarted _).trans h.boot, ?_⟩
    exact WorkerState.sound_next hpre.1 (validAnswer_of_exec hexec) h.sound
  · exact (hstarted Activity.isRequest).trans h
  · exact (hstarted Activity.isRequest).trans h
  · have h : Applying c i s := h
    refine ⟨(hstarted _).trans h.boot, fun hlock => ?_, ?_,
      OfflineState.agrees_next h.agrees hpre hexec⟩
    · exact hheld h.lock ((OfflineState.moves hpre (validAnswer_of_exec hexec)).holdsLock hlock)
    · rw [hs.events_eq, Label.eventOf, if_pos rfl, ← h.events]
      rfl
  · intro hlock
    exact hheld h ((VerifierState.moves hpre (validReport_of_exec hexec)).holdsLock hlock)

/-- The others when it acts. -/
theorem attends_frame (hkind : OneKind c) (hpre : (Contract.family (contract ext)).pre e t)
    (h : Attends c i t) (hs : Step (system true) (Activity.program ext) c (.act i e answer) c')
    (hexec : exec true i e c.world answer c'.world) (hji : j ≠ i) (hu : Attends c j u) :
    Attends c' j u := by
  have hstarted : ∀ kind : Activity → Bool, started kind c'.history = started kind c.history :=
    fun kind => started_act hs
  have hevents : c'.events j = c.events j := by
    rw [hs.events_eq, Label.eventOf, if_neg (Ne.symm hji)]
    exact List.append_nil _
  obtain ⟨_ | _ | _ | _ | _, s⟩ := u
  · exact ⟨(hstarted _).trans (Serving.boot hu), Serving.sound hu⟩
  · exact (hstarted Activity.isRequest).trans hu
  · exact (hstarted Activity.isRequest).trans hu
  · have hu : Applying c j s := hu
    refine ⟨(hstarted _).trans hu.boot,
      fun hlock => exec_lock_held hexec (hu.lock hlock) (.inl hji), hu.events.trans hevents.symm,
      hu.agrees.mono (fun hlock id => ?_) fun _ he => he⟩
    rcases (exec_change hexec).state id with hsame | ⟨r, rfl, -⟩
    · exact hsame
    · -- two processes cannot both hold the lock
      have hown := lock_of_save hpre h (hkind.resolve_right (by simp [hu.boot]))
      rw [hu.lock hlock] at hown
      cases hown
      exact absurd rfl hji
  · exact fun hlock => exec_lock_held hexec (hu hlock) (.inl hji)

end Writer

theorem preserved_attends (ext : Externals) :
    Preserved (system true) (Activity.program ext) (Contract.family (Writer.contract ext))
      BootsApart Writer.start fun c φ => (OneKind c ∧ Housed c.world ∧ Untouched c) ∧
        ∀ i t, φ i = some t → Writer.Attends c i t := by
  refine Preserved.of_local ?_ ?_ ?_
  · rintro c c' activity ⟨hkind, hhoused, huntouched⟩ - hok hs hw
    refine ⟨⟨hkind.spawn hok hs, by rw [hw]; exact hhoused, huntouched.step hs⟩,
      Writer.attends_start huntouched hs, fun j t _ h => Writer.attends_spawn h hs hw⟩
  · rintro c c' φ i e answer t ⟨hkind, hhoused, huntouched⟩ hattends hφ hpre - hs hexec
    refine ⟨Writer.next ⟨e, answer⟩ t, Writer.contract_next hexec,
      ⟨hkind.act hs, housed_of_change hhoused (exec_change hexec), huntouched.step hs⟩,
      Writer.attends_next hpre (hattends i t hφ) hs hexec, fun j u hji hj => ?_⟩
    exact Writer.attends_frame hkind hpre (hattends i t hφ) hs hexec hji (hattends j u hj)
  · rintro c c' ⟨-, hhoused, huntouched⟩ - hs ⟨temporary, -, hw⟩
    refine ⟨.inl (started_crash hs), ?_, huntouched.step hs⟩
    rw [hw]
    exact hhoused

/-! ## After the launch -/

/-- The operation waits neither for a worker nor for the offline executor. -/
def OperationState.isPast : OperationState → Bool
  | .awaitingConfirmation | .readyToReboot => false
  | _ => true

def World.Past (w : World) (operationId : String) : Prop :=
  ∃ r, w.state operationId = .record r ∧ r.state.isPast

namespace Writer

/-- The process does not bring the operation back, and is not about to launch it. -/
def Inert (operationId : String) : (Σ w, State w) → Prop
  | ⟨worker id, s⟩ => id = operationId →
      (WorkerState.phase s = .start ∧
        ⟨Op.directoryExists operationId, false⟩ ∉ WorkerState.events s) ∨
      ∃ ending, WorkerState.phase s = .closed ending
  | ⟨offline, s⟩ => ∀ r, OfflineState.phase s = .entered r → r.operationId ≠ operationId
  | _ => True

variable {ext : Externals} {c c' : Activities} {i : ℕ} {t : Σ w, State w} {e : Op}
  {answer : e.Answer} {r : OperationStateRecord} {operationId : String}

theorem inert_start (activity : Activity) (operationId : String) :
    Inert operationId (start activity) := by
  rcases activity with (_ | _ | _ | _) | _ | _
  · exact fun _ => .inl ⟨rfl, fun h => by cases h⟩
  · trivial
  · trivial
  · trivial
  · exact fun r h => by cases h
  · trivial

/-- A worker that does not go on saves nothing. -/
theorem not_maySave_of_inert {s : WorkerState} (h : Inert operationId ⟨worker operationId, s⟩) :
    ¬ WorkerState.MaySave operationId s r := by
  intro may
  rcases h rfl with ⟨hstart, habsent⟩ | ⟨ending, hclosed⟩
  · cases may with
    | initial _ _ hmem => exact habsent hmem
    | downloading hphase | snapshotting hphase | snapshot _ hphase | applying hphase
    | ready hphase | result hphase | failure hphase => cases hstart.symm.trans hphase
  · cases may with
    | initial hphase | downloading hphase | snapshotting hphase | snapshot _ hphase
    | applying hphase | ready hphase | result hphase | failure hphase =>
        cases hclosed.symm.trans hphase

/-- **What is saved** does not bring an operation back either. -/
theorem past_of_save (hpre : (Contract.family (contract ext)).pre (.save r) t)
    (h : Attends c i t) (hinert : Inert r.operationId t) : r.state.isPast := by
  obtain ⟨id | _ | _ | _ | _, s⟩ := t
  · have hallow : WorkerState.allows _ s (.save r) := hpre.1
    have may := hallow.resolve_left (by simp [Op.isQuiet])
    by_cases hid : id = r.operationId
    · subst hid
      exact absurd may (not_maySave_of_inert hinert)
    · -- a worker saves records of its own operation only
      exfalso
      by_cases hstart : WorkerState.phase s = .start
      · cases may with
        | initial _ hinitial => exact hid hinitial.1.symm
        | downloading hphase | snapshotting hphase | snapshot _ hphase | applying hphase
        | ready hphase | result hphase | failure hphase => cases hstart.symm.trans hphase
      · exact hid (may.keeps hstart (Serving.sound h (may.hasWorker hstart))).1.symm
  · obtain ⟨m, timestamp, -, rfl⟩ := hpre.resolve_left (by simp [Op.isQuiet])
    rfl
  · have may : RollbackState.MaySave s r := hpre.resolve_left (by simp [Op.isQuiet])
    cases may with
    | intent record _ _ _ _ hrecovery =>
        show record.state.isPast
        rw [hrecovery]
        rfl
    | scheduled | failed => rfl
  · have may : OfflineState.MaySave ext s r := hpre.resolve_left (by simp [Op.isQuiet])
    cases may with
    | enter m _ _ _ _ hnext | result m _ _ _ hnext =>
        obtain ⟨-, -, -, rfl⟩ := OperationStateRecord.transitionTo_eq_ok.mp hnext
        rfl
    | failed => rfl
  · have may : VerifierState.MaySave s r := hpre.resolve_left (by simp [Op.isDetached, Op.isQuiet])
    cases may with
    | interrupted m _ _ hunfinished =>
        rcases interruptedRecord_state hunfinished with h | h <;> rw [h] <;> rfl
    | enter m _ _ _ hpending henter =>
        rw [(enterVerification_eq hpending henter).2.2.2]
        rfl
    | verified | consumed | failed => rfl

/-- **Nobody takes the operation up again**: its directory is there, and its record does not
wait for anybody. -/
theorem inert_next (hpre : (Contract.family (contract ext)).pre e t) (h : Attends c i t)
    (hhoused : Housed c.world) (hpast : c.world.Past operationId)
    (hexec : exec true i e c.world answer c'.world) (hinert : Inert operationId t) :
    Inert operationId (next ⟨e, answer⟩ t) := by
  obtain ⟨d, hd, hpast⟩ := hpast
  obtain ⟨id | _ | _ | _ | _, s⟩ := t
  · rintro rfl
    have hmove := WorkerState.moves hpre.1 (validAnswer_of_exec hexec)
    rcases hinert rfl with ⟨hstart, habsent⟩ | ⟨ending, hclosed⟩
    · have hlast : ∀ e' ∈ (WorkerState.next s ⟨e, answer⟩).events,
          e' ∈ WorkerState.events s ∨ e' = ⟨e, answer⟩ := fun e' he' =>
        (List.mem_append.mp he').imp_right List.mem_singleton.mp
      change ((WorkerState.next s ⟨e, answer⟩).phase = _ ∧
        _ ∉ (WorkerState.next s ⟨e, answer⟩).events) ∨
        ∃ ending, (WorkerState.next s ⟨e, answer⟩).phase = .closed ending
      generalize (WorkerState.next s ⟨e, answer⟩).record = record at hmove
      generalize (WorkerState.next s ⟨e, answer⟩).events = events at hlast ⊢
      generalize (WorkerState.next s ⟨e, answer⟩).phase = p at hmove ⊢
      cases hmove with
      | quiet =>
          refine .inl ⟨hstart, fun hmem => ?_⟩
          rcases hlast _ hmem with hmem | heq
          · exact habsent hmem
          · -- the directory is there
            cases heq
            have hpresent := hhoused id d hd
            rw [← hexec.2] at hpresent
            cases hpresent
      | found r _ hfound =>
          rw [(exec_load_ok hexec).1] at hd
          cases hd
          rw [hfound] at hpast
          cases hpast
      | refused => exact .inr ⟨_, rfl⟩
      | create _ _ _ hmem => exact absurd hmem habsent
      | saved hphase | unsaved _ hphase => exact absurd hstart hphase
      | poll _ hphase | lock hphase | busy _ hphase | takeSnapshot _ _ hphase | apply _ hphase
      | mark _ hphase => cases hstart.symm.trans hphase
      | look _ hphase => rcases hphase with hphase | hphase <;> cases hstart.symm.trans hphase
      | unlock hphase => rw [hstart] at hphase; cases hphase
    · have may : ∀ r, ¬ WorkerState.MaySave id s r := fun r => not_maySave_of_inert hinert
      change (_ ∨ ∃ ending, (WorkerState.next s ⟨e, answer⟩).phase = .closed ending)
      generalize (WorkerState.next s ⟨e, answer⟩).record = record at hmove
      generalize (WorkerState.next s ⟨e, answer⟩).phase = p at hmove ⊢
      right
      cases hmove with
      | quiet => exact ⟨ending, hclosed⟩
      | saved _ hmay | unsaved _ _ hmay => exact absurd hmay (may _)
      | create _ hphase | found _ hphase | refused _ hphase | poll _ hphase | lock hphase
      | busy _ hphase | takeSnapshot _ _ hphase | apply _ hphase | mark _ hphase =>
          cases hclosed.symm.trans hphase
      | look _ hphase => rcases hphase with hphase | hphase <;> cases hclosed.symm.trans hphase
      | unlock hphase => rw [hclosed] at hphase; cases hphase
  · trivial
  · trivial
  · have h : Applying c i s := h
    have hmove := OfflineState.moves hpre (validAnswer_of_exec hexec)
    intro r hr
    change (OfflineState.next s ⟨e, answer⟩).phase = .entered r at hr
    generalize (OfflineState.next s ⟨e, answer⟩).phase = p at hmove hr
    cases hmove with
    | quiet | unlink => exact hinert r hr
    | lock | busy | unlock | read | readAgain | unread | launch => cases hr
    | save saved may =>
        cases may with
        | enter m _ hphase hm _ hnext =>
            have hagrees := h.agrees
            rw [hphase] at hagrees hr
            rcases saved with error | ⟨⟩
            · cases hr
            have hid : ∀ {r' : OperationStateRecord}, m.transitionTo .applyingOffline = .ok r' →
                r'.operationId = m.operationId := by
              intro r' hnext
              obtain ⟨-, -, -, rfl⟩ := OperationStateRecord.transitionTo_eq_ok.mp hnext
              rfl
            simp only [OfflineState.phaseAfterSave] at hr
            split_ifs at hr
            cases hr
            rintro rfl
            -- the record on disk is the one that was found ready
            rw [hid hnext, hagrees.1] at hd
            cases hd
            rw [hm] at hpast
            cases hpast
        | result m _ hphase _ hnext =>
            obtain ⟨-, -, -, rfl⟩ := OperationStateRecord.transitionTo_eq_ok.mp hnext
            rw [hphase] at hr
            rcases saved with error | ⟨⟩ <;> cases hr
        | failed m hphase =>
            rcases hphase with hphase | hphase <;> rw [hphase] at hr <;>
              rcases saved with error | ⟨⟩ <;> cases hr
  · trivial

end Writer

theorem preserved_past (ext : Externals) (operationId : String) :
    Preserved (system true) (Activity.program ext) (Contract.family (Writer.contract ext))
      BootsApart Writer.start fun c φ => ((OneKind c ∧ Housed c.world ∧ Untouched c) ∧
        ∀ i t, φ i = some t → Writer.Attends c i t) ∧ c.world.Past operationId ∧
          ∀ i t, φ i = some t → Writer.Inert operationId t := by
  refine (preserved_attends ext).extend_local (L := fun _ _ t => Writer.Inert operationId t)
    ?_ ?_ ?_
  · rintro c c' activity hpast hs hw
    exact ⟨by rw [hw]; exact hpast, Writer.inert_start activity operationId, fun _ _ _ h => h⟩
  · rintro c c' φ i e answer t t' ⟨⟨-, hhoused, -⟩, hattends⟩ hpast hinert hφ hpre hs hexec hnext
    cases Writer.eq_next hnext
    refine ⟨?_, Writer.inert_next hpre (hattends i t hφ) hhoused hpast hexec hinert,
      fun _ _ _ h => h⟩
    rcases (exec_change hexec).state operationId with hsame | ⟨r, rfl, rfl, -, hr⟩
    · obtain ⟨d, hd, hstate⟩ := hpast
      exact ⟨d, hsame.trans hd, hstate⟩
    · exact ⟨r, hr, Writer.past_of_save hpre (hattends i t hφ) hinert⟩
  · rintro c c' hpast hs ⟨temporary, -, hw⟩
    rw [hw]
    exact hpast

/-! ## The launch -/

/-- The transaction of the operation is launched by an offline executor. -/
def Applies (ext : Externals) (c : Activities) (i : ℕ) (operationId : String) (c' : Activities) :
    Prop :=
  ∃ arguments output, Step (system true) (Activity.program ext) c
    (.act i (.run operationId (.transaction .apply arguments)) output) c'

/-- What a launch rests on: the record on disk, and all that was found out about the plan, the
manifest and the packages. -/
structure Cleared (ext : Externals) (c : Activities) (i : ℕ) (operationId : String)
    (r : OperationStateRecord) (manifest : ReleaseManifest) (plan : UpgradePlan) : Prop where
  id : r.operationId = operationId
  lock : c.world.lock = some i
  entered : Entered c.world (c.events i) r
  launchable : Launchable ext (c.events i) manifest plan r

section

variable {ext : Externals} {c : Activities} {i : ℕ} {t : Σ w, Writer.State w}
  {operationId : String} {arguments : List String}

theorem Writer.offline_of_apply (hpre : (Contract.family (contract ext)).pre
    (.run operationId (.transaction .apply arguments)) t) :
    ∃ s r manifest plan, t = ⟨offline, s⟩ ∧ OfflineState.phase s = .entered r ∧
      operationId = r.operationId ∧ Launchable ext (OfflineState.events s) manifest plan r := by
  have hloud : ¬ Op.isQuiet (.run operationId (.transaction .apply arguments)) := by
    simp [Op.isQuiet, Command.isCritical]
  obtain ⟨_ | _ | _ | _ | _, s⟩ := t
  · have hallow : WorkerState.allows _ s _ := hpre.1
    exact (hallow.resolve_left hloud).elim
  · exact (hpre.resolve_left hloud).elim
  · exact (hpre.resolve_left hloud).elim
  · obtain ⟨r, manifest, plan, hphase, hid, hlaunchable⟩ := hpre.resolve_left hloud
    exact ⟨s, r, manifest, plan, rfl, hphase, hid, hlaunchable⟩
  · exact (hpre.resolve_left hloud).elim

/-- The launch finds everything that authorizes it, and nobody else about to launch. -/
theorem Writer.authorized {φ : ℕ → Option (Σ w, Writer.State w)}
    (hattends : ∀ j u, φ j = some u → Attends c j u) (hkind : OneKind c) (hφ : φ i = some t)
    (hpre : (Contract.family (contract ext)).pre
      (.run operationId (.transaction .apply arguments)) t) :
    (∃ r manifest plan, Cleared ext c i operationId r manifest plan) ∧
      c.world.Past operationId ∧ ∀ j u, j ≠ i → φ j = some u → Inert operationId u := by
  obtain ⟨s, r, manifest, plan, rfl, hphase, rfl, hlaunchable⟩ := offline_of_apply hpre
  have h : Applying c i s := hattends i _ hφ
  have hheld := h.lock (by rw [hphase]; rfl)
  have hentered := h.agrees
  rw [hphase, h.events] at hentered
  rw [h.events] at hlaunchable
  refine ⟨⟨r, manifest, plan, rfl, hheld, hentered, hlaunchable⟩, ⟨r, hentered.stored, ?_⟩, ?_⟩
  · obtain ⟨m, -, -, -, hnext⟩ := hentered.prepared
    obtain ⟨-, -, -, hr⟩ := OperationStateRecord.transitionTo_eq_ok.mp hnext
    rw [hr]
    rfl
  · intro j u hji hj
    have hu := hattends j u hj
    have hrequest := hkind.resolve_right (by simp [h.boot])
    obtain ⟨_ | _ | _ | _ | _, s'⟩ := u
    · cases hrequest.symm.trans (Serving.boot hu)
    · trivial
    · trivial
    · intro r' hr'
      -- both of them would hold the lock
      have hother := Applying.lock hu (by
        show OfflinePhase.holdsLock (OfflineState.phase s')
        rw [hr']
        rfl)
      rw [hheld] at hother
      cases hother
      exact absurd rfl hji
    · trivial

end

namespace Sample

/-- The digests of plan and manifest, told apart by their schema versions, and a time at which the
manifest is valid. -/
def releaseExternals : Externals where
  sha256 := fun text => if (text.drop 18).head? = some '3' then planSha256 else manifestSha256
  acceptsUrl := fun _ => true
  parseManifest := fun _ => some manifest
  parseTime := fun text => some (if text = manifest.validFrom then 0 else 1)

/-- The solver finds the confirmed plan again. -/
def releaseOracle : Oracle :=
  { oracle with
    query := fun q =>
      match q with
      | .stagedSolver _ _ _ => .ok (facts, solver)
      | q => oracle.query q }

/-- A release upgrade that waits for its reboot. -/
def readyRecord : OperationStateRecord :=
  { cancelledRecord (some 7) with
    planSha256 := planSha256
    manifestSha256 := some manifestSha256
    state := .readyToReboot
    errorCode := none }

/-- What its worker has staged. -/
def readyWorld : World :=
  { markedWorld readyRecord with
    operations := fun id =>
      { (markedWorld readyRecord).operations id with
        plan := some plan
        manifest := .manifest manifest
        signed := some ⟨[], []⟩ } }

/-- The offline executor is about to launch. -/
def staged : Activities :=
  (simulation releaseOracle).plays (Activity.program releaseExternals) (Config.boot readyWorld)
    (.spawn (.offline true) :: List.replicate 16 (.act 0))

/-- The transaction is launched. -/
def launched : Activities :=
  (simulation releaseOracle).play (Activity.program releaseExternals) staged (.act 0)

theorem housed_readyWorld : Housed readyWorld := by
  intro id r hr
  unfold World.state readyWorld markedWorld at hr
  dsimp only at hr
  split_ifs at hr with hid
  unfold readyWorld markedWorld
  dsimp only
  rw [if_pos hid]
  rfl

/-- The step starts no request. -/
def startsNoRequest : Label Sig Activity → Bool
  | .spawn _ activity => !activity.isRequest
  | .act _ _ _ => true
  | .crash => false

/-- A run without requests keeps the boots apart. -/
theorem bootsApart_of_startsNoRequest {ext : Externals} {c c' : Activities}
    (h : Reach (system true) (Activity.program ext) (fun _ l => startsNoRequest l = true) c c')
    (hc : started Activity.isRequest c.history = false) :
    Reach (system true) (Activity.program ext) BootsApart c c' ∧
      started Activity.isRequest c'.history = false := by
  induction h with
  | refl => exact ⟨Reach.refl, hc⟩
  | @tail c₁ c₂ _ hlast ih =>
      obtain ⟨hrun, hnone⟩ := ih
      obtain ⟨l, hl, hs⟩ := hlast
      cases l with
      | spawn i activity =>
          have hkind : activity.isRequest = false := by simpa [startsNoRequest] using hl
          have hok : BootsApart c₁ (.spawn i activity) :=
            ⟨fun _ => hnone, fun h => by rw [hkind] at h; cases h⟩
          refine ⟨hrun.tail hok hs, ?_⟩
          rw [started_spawn hs, hnone, hkind]
          rfl
      | act i e answer =>
          have hok : BootsApart c₁ (.act i e answer) := trivial
          refine ⟨hrun.tail hok hs, ?_⟩
          rw [started_act hs]
          exact hnone
      | crash => cases hl

theorem reach_staged : Reach (system true) (Activity.program releaseExternals) BootsApart
    (Config.boot readyWorld) staged :=
  (bootsApart_of_startsNoRequest
    ((simulation releaseOracle).reach_good _ (by decide) (by decide +kernel)) rfl).1

/-- Process `0` launches the transaction of the operation. -/
def launchesFirst : Label Sig Activity → Bool
  | .act i (.run id (.transaction .apply _)) _ => i = 0 && id = operationId
  | _ => false

theorem applies_staged : Applies releaseExternals staged 0 operationId launched := by
  have hlabel : ((simulation releaseOracle).label staged (.act 0)).any launchesFirst := by
    decide +kernel
  obtain ⟨l, hl, hfirst⟩ := (Option.any_eq_true _ _).mp hlabel
  have hs := (simulation releaseOracle).step_play (Activity.program releaseExternals) hl
  unfold launchesFirst at hfirst
  split at hfirst
  · simp only [Bool.and_eq_true, decide_eq_true_eq] at hfirst
    obtain ⟨rfl, rfl⟩ := hfirst
    exact ⟨_, _, hs⟩
  · cases hfirst

end Sample

end LyraUpgrade
