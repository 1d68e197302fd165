import LyraUpgrade.Service.CancelFinal

/-!
# One worker for an operation

Any number of Start requests for one operation, whose directory is there.  Start looks
at the state of the record before its worker takes the lock, so two requests can both
be accepted; the one that gets the lock late still writes what it had read.  Where no
other accepted request is left when a worker begins to download, nobody else writes a
record from then on.
-/

namespace LyraUpgrade

open Interaction

/-! ## The property and its condition -/

abbrev Starts := Config Sig StartRequest World Exit

/-- Requests for the operation. -/
def startFor (ext : Externals) (operationId : String) (request : StartRequest) : Prog Sig Exit :=
  start ext { request with operationId := operationId }

/-- The process that has persisted the beginning of the download. -/
def downloader : Label Sig StartRequest → Option ℕ
  | .act i (.save r) (.ok ()) => if r.state = .downloading then some i else none
  | _ => none

/-- The process that writes a record, whether or not it succeeds. -/
def writer : Label Sig StartRequest → Option ℕ
  | .act i (.save _) _ => some i
  | _ => none

/-- Once a process has persisted the beginning of the download, no other process writes
a record. -/
def OneWorker (c : Starts) : Prop :=
  c.history.Pairwise fun a b => ∀ i ∈ downloader a, ∀ j ∈ writer b, j = i

instance (c : Starts) : Decidable (OneWorker c) := inferInstanceAs (Decidable (List.Pairwise _ _))

/-- The request has read the record awaiting confirmation. -/
def Accepted (operationId : String) (c : Starts) (i : ℕ) : Prop :=
  ∃ r, ⟨Op.load operationId, Except.ok r⟩ ∈ c.events i ∧ r.state = .awaitingConfirmation

/-- The process is not running, or has ended. -/
def Ended (p : Option (Prog Sig Exit)) : Prop := ∀ q, p = some q → ∃ exit, q = .pure exit

/-- A worker begins to download only when every other accepted request has ended. -/
def DownloadsAlone (operationId : String) (c : Starts) : Label Sig StartRequest → Prop
  | .act i (.save r) (.ok ()) => r.state = .downloading →
      ∀ j, j ≠ i → Accepted operationId c j → Ended (c.procs j)
  | _ => True

/-! ## What a step preserves -/

/-- The worker cannot write. -/
def Phase.isIdle : Phase → Bool
  | .start | .closed _ => true
  | _ => false

theorem Phase.isIdle_of_holdsLock {p : Phase} (h : p.holdsLock) : p.isIdle = false := by
  cases p <;> first | rfl | cases h

section

variable {operationId : String} {s : WorkerState}

/-- After the first record a worker never writes one that awaits confirmation. -/
theorem WorkerState.MaySave.not_awaiting {r : OperationStateRecord}
    (may : s.MaySave operationId r) (hstart : s.phase ≠ .start) (hsound : s.Sound operationId) :
    r.state ≠ .awaitingConfirmation := by
  have hadvance : ∀ {next}, s.record.transitionTo next = .ok r → r.state = next := by
    intro next hnext
    obtain ⟨-, -, -, rfl⟩ := OperationStateRecord.transitionTo_eq_ok.mp hnext
    rfl
  cases may with
  | initial phase => exact absurd phase hstart
  | downloading _ next | snapshotting _ next | applying _ next | ready _ next =>
      rw [hadvance next]; decide
  | snapshot number phase _ next =>
      subst next
      rw [show ({ s.record with snapshotNumber := some number } : OperationStateRecord).state =
        .snapshotting from hsound.state _ (by rw [phase]; rfl)]
      decide
  | result _ _ state final next =>
      rw [hadvance next]
      rcases final with rfl | rfl <;> decide
  | failure _ error timestamp next =>
      subst next
      change failureState error _ ≠ _
      unfold failureState
      split_ifs <;> decide

/-- The invariant of the configuration. -/
structure Exclusive (operationId : String) (c : Starts) : Prop where
  present : (c.world.operations operationId).present
  oneWorker : OneWorker c
  /-- A request that starts now finds no record awaiting confirmation. -/
  state : (∃ a ∈ c.history, (downloader a).isSome) → ∀ r, c.world.state operationId = .record r →
    r.state ≠ .awaitingConfirmation

/-- The invariant of each process: it has seen the directory, what it has in memory was
read awaiting confirmation, and where another worker downloads it cannot write. -/
structure Excluded (operationId : String) (c : Starts) (i : ℕ) (s : WorkerState) : Prop where
  events : s.events = c.events i
  present : ⟨Op.directoryExists operationId, false⟩ ∉ s.events
  sound : s.phase.hasWorker → s.Sound operationId
  idle : ∀ a ∈ c.history, ∀ j, downloader a = some j → i ≠ j → s.phase.isIdle ∨ Ended (c.procs i)

/-- A process that has not acted keeps its invariant. -/
theorem Excluded.frame {c c' : Starts} {i : ℕ} {l : Label Sig StartRequest}
    (h : Excluded operationId c i s) (hhistory : c'.history = c.history ++ [l])
    (hevents : c'.events i = c.events i) (hprocs : c'.procs i = c.procs i)
    (hlast : ∀ j, downloader l = some j → i ≠ j → s.phase.isIdle ∨ Ended (c.procs i)) :
    Excluded operationId c' i s where
  events := h.events.trans hevents.symm
  present := h.present
  sound := h.sound
  idle := by
    intro a ha j hj hij
    rw [hprocs]
    rw [hhistory, List.mem_append, List.mem_singleton] at ha
    rcases ha with ha | rfl
    · exact h.idle a ha j hj hij
    · exact hlast j hj hij

/-- One more step. -/
theorem OneWorker.append {c c' : Starts} {l : Label Sig StartRequest} (h : OneWorker c)
    (hhistory : c'.history = c.history ++ [l])
    (hlast : ∀ a ∈ c.history, ∀ i j, downloader a = some i → writer l = some j → j = i) :
    OneWorker c' := by
  unfold OneWorker
  rw [hhistory, List.pairwise_append]
  refine ⟨h, List.pairwise_singleton _ _, fun a ha b hb => ?_⟩
  rw [List.mem_singleton.mp hb]
  exact fun i hi j hj => hlast a ha i j hi hj

/-- An idle process with the directory in sight writes nothing. -/
theorem WorkerState.Moves.not_save_of_idle {e : Op} {answer : e.Answer} {phase : Phase}
    {r : OperationStateRecord} (h : s.Moves operationId ⟨e, answer⟩ phase r)
    (hidle : s.phase.isIdle) (hpresent : ⟨Op.directoryExists operationId, false⟩ ∉ s.events) :
    e.isSave = false := by
  cases h with
  | quiet hquiet => exact isSave_of_quiet hquiet
  | found | refused | poll | look | lock | busy | unlock | takeSnapshot | apply | mark => rfl
  | create _ _ _ absent => exact absurd absent hpresent
  | saved hstart may | unsaved _ hstart may =>
      cases may with
      | initial hphase => exact absurd hphase hstart
      | downloading hphase | snapshotting hphase | snapshot _ hphase
      | applying hphase | ready hphase | result hphase | failure hphase =>
          rw [hphase] at hidle
          cases hidle

/-- An idle process stays idle where no record awaits confirmation. -/
theorem WorkerState.Moves.idle {e : Event Sig} {phase : Phase} {r : OperationStateRecord}
    (h : s.Moves operationId e phase r) (hidle : s.phase.isIdle)
    (hread : ∀ m, e = ⟨.load operationId, .ok m⟩ → m.state ≠ .awaitingConfirmation) :
    phase.isIdle := by
  cases h with
  | quiet => exact hidle
  | found _ _ awaiting => exact absurd awaiting (hread r rfl)
  | refused | create => rfl
  | poll _ hphase | lock hphase | busy _ hphase | takeSnapshot _ _ hphase | apply _ hphase
  | mark _ hphase => rw [hphase] at hidle; cases hidle
  | look _ hphase => rcases hphase with hphase | hphase <;> rw [hphase] at hidle <;> cases hidle
  | unlock hphase => rw [Phase.isIdle_of_holdsLock hphase] at hidle; cases hidle
  | saved hstart may | unsaved _ hstart may =>
      cases may with
      | initial hphase => exact absurd hphase hstart
      | downloading hphase | snapshotting hphase | snapshot _ hphase
      | applying hphase | ready hphase | result hphase | failure hphase =>
          rw [hphase] at hidle
          cases hidle

/-! ## Runs -/

/-- A step of process `i` writes a record only if nobody else has begun to download. -/
theorem Excluded.not_save {c : Starts} {i : ℕ} {e : Op} {answer : e.Answer}
    {k : e.Answer → Prog Sig Exit} (h : Excluded operationId c i s)
    (hallow : s.allows operationId e) (hvalid : validAnswer ⟨e, answer⟩)
    (hrunning : c.procs i = some (.op e k)) {a : Label Sig StartRequest} (ha : a ∈ c.history)
    {j : ℕ} (hj : downloader a = some j) (hij : i ≠ j) :
    s.phase.isIdle ∧ e.isSave = false := by
  have hidle : s.phase.isIdle := by
    refine (h.idle a ha j hj hij).resolve_right fun hended => ?_
    obtain ⟨exit, hexit⟩ := hended _ hrunning
    cases hexit
  exact ⟨hidle, (WorkerState.moves hallow hvalid).not_save_of_idle hidle h.present⟩

/-- What process `i` saves does not await confirmation. -/
theorem Excluded.not_awaiting {c : Starts} {i : ℕ} {r : OperationStateRecord}
    (h : Excluded operationId c i s) (hallow : s.allows operationId (.save r)) :
    r.operationId = operationId ∧ r.state ≠ .awaitingConfirmation := by
  have may : s.MaySave operationId r := hallow.resolve_left (by simp [Op.isQuiet])
  have hstart : s.phase ≠ .start := by
    intro hstart
    cases may with
    | initial _ _ absent => exact h.present absent
    | downloading hphase | snapshotting hphase | snapshot _ hphase | applying hphase
    | ready hphase | result hphase | failure hphase => rw [hstart] at hphase; cases hphase
  have hsound := h.sound (may.hasWorker hstart)
  exact ⟨(may.keeps hstart hsound).1, may.not_awaiting hstart hsound⟩

/-- A process that acts keeps its invariant. -/
theorem Excluded.act {c c' : Starts} {i : ℕ} {e : Op} {answer : e.Answer} {ext : Externals}
    (h : Excluded operationId c i s) (hconfig : Exclusive operationId c)
    (hallow : s.allows operationId e)
    (hs : Step (system true) (startFor ext operationId) c (.act i e answer) c')
    (hexec : exec true i e c.world answer c'.world) :
    Excluded operationId c' i (s.next ⟨e, answer⟩) where
  events := by
    rw [hs.events_eq, Label.eventOf, if_pos rfl, ← h.events]
    rfl
  present := by
    change _ ∉ s.events ++ [⟨e, answer⟩]
    rw [List.mem_append, not_or, List.mem_singleton]
    refine ⟨h.present, fun heq => ?_⟩
    cases heq
    have hanswer : false = (c.world.operations operationId).present := hexec.2
    rw [hconfig.present] at hanswer
    cases hanswer
  sound := WorkerState.sound_next hallow (validAnswer_of_exec hexec) h.sound
  idle := by
    intro a ha j hj hij
    have hmove := WorkerState.moves hallow (validAnswer_of_exec hexec)
    obtain ⟨k, hk, -⟩ := hs.procs_act
    rw [hs.history_eq, List.mem_append, List.mem_singleton] at ha
    rcases ha with ha | rfl
    · refine .inl (hmove.idle (h.not_save hallow (validAnswer_of_exec hexec) hk ha hj hij).1 ?_)
      intro m heq
      cases heq
      exact hconfig.state ⟨a, ha, by rw [hj]; rfl⟩ m (exec_load_ok hexec).1
    · cases e with
      | save r =>
          rcases answer with error | ⟨⟩
          · cases hj
          · change (if r.state = .downloading then some i else none) = some j at hj
            split_ifs at hj
            cases hj
            exact absurd rfl hij
      | _ => cases hj

/-- The other requests have ended when a worker begins to download. -/
theorem Excluded.ended {c : Starts} {i j : ℕ} {e : Op} {answer : e.Answer} {t : WorkerState}
    (h : Excluded operationId c j t) (hok : DownloadsAlone operationId c (.act i e answer))
    (hji : j ≠ i) (hdownload : (downloader (.act i e answer)).isSome) :
    t.phase.isIdle ∨ Ended (c.procs j) := by
  cases e with
  | save r =>
      rcases answer with error | ⟨⟩
      · cases hdownload
      · change (if r.state = .downloading then some i else none).isSome at hdownload
        split_ifs at hdownload with hstate
        · cases hidle : t.phase.isIdle with
          | true => exact .inl rfl
          | false =>
              have hworker : t.phase.hasWorker := by
                generalize t.phase = p at hidle
                cases p <;> first | rfl | cases hidle
              obtain ⟨r₀, hr₀, hawaiting⟩ := (h.sound hworker).loaded
              rw [h.events] at hr₀
              exact .inr (hok hstate j hji ⟨r₀, hr₀, hawaiting⟩)
        · cases hdownload
  | _ => cases hdownload

theorem preserved_exclusive (ext : Externals) :
    Preserved (system true) (startFor ext operationId) (workerContract operationId)
      (DownloadsAlone operationId)
      (fun request => ⟨.start, initialRecord request request.submitted "", []⟩)
      fun c φ => Exclusive operationId c ∧ ∀ i s, φ i = some s → Excluded operationId c i s := by
  refine Preserved.of_local ?_ ?_ ?_
  · rintro c c' request ⟨hpresent, hone, hstate⟩ hsilent - hs hw
    have hevents : ∀ j, c'.events j = c.events j := fun j => by
      rw [hs.events_eq]
      exact List.append_nil _
    have hhistory := hs.history_eq
    refine ⟨⟨by rw [hw]; exact hpresent, ?_, ?_⟩, ⟨?_, List.not_mem_nil, ?_, ?_⟩, ?_⟩
    · exact hone.append hhistory fun _ _ _ _ _ h => by cases h
    · rintro ⟨a, ha, hdownloads⟩
      rw [hhistory, List.mem_append, List.mem_singleton] at ha
      rcases ha with ha | rfl
      · rw [hw]
        exact hstate ⟨a, ha, hdownloads⟩
      · cases hdownloads
    · exact (hevents _).trans hsilent |>.symm
    · intro h
      cases h
    · exact fun _ _ _ _ _ => .inl rfl
    · intro j t hj h
      refine h.frame hhistory (hevents j) ?_ fun _ h => by cases h
      rw [hs.procs_spawn, Function.update_of_ne hj]
  · rintro c c' φ i e answer s ⟨hpresent, hone, hstate⟩ hL hφ hpre hok hs hexec
    have hself := hL i s hφ
    have hvalid := validAnswer_of_exec hexec
    have hmove := WorkerState.moves hpre hvalid
    have hchange := exec_change hexec
    obtain ⟨k, hk, hprocs⟩ := hs.procs_act
    have hhistory := hs.history_eq
    have hnot : ∀ a ∈ c.history, ∀ j, downloader a = some j → i ≠ j →
        s.phase.isIdle ∧ e.isSave = false :=
      fun a ha j hj hij => hself.not_save hpre hvalid hk ha hj hij
    refine ⟨s.next ⟨e, answer⟩, ⟨hvalid, rfl⟩, ⟨hchange.present hpresent, ?_, ?_⟩, ?_, ?_⟩
    · refine hone.append hhistory fun a ha i' j hdownload hwrite => ?_
      by_contra hne
      cases e with
      | save r =>
          cases hwrite
          cases (hnot a ha i' hdownload hne).2
      | _ => cases hwrite
    · rintro ⟨a, ha, hdownload⟩ r hr
      rcases hchange.state operationId with hsame | ⟨r', rfl, -, -, hrecord⟩
      · rw [hhistory, List.mem_append, List.mem_singleton] at ha
        rcases ha with ha | rfl
        · exact hstate ⟨a, ha, hdownload⟩ r (hsame.symm.trans hr)
        · cases e with
          | save r' =>
              rcases answer with error | ⟨⟩
              · cases hdownload
              · obtain ⟨hid, hawaiting⟩ := hself.not_awaiting hpre
                have hput : c'.world = c.world.putState r' := (exec_save_ok (i := i) hexec).2
                rw [hput, ← hid, World.state_putState_self] at hr
                cases hr
                exact hawaiting
          | _ => cases hdownload
      · rw [hrecord] at hr
        cases hr
        exact (hself.not_awaiting hpre).2
    · exact hself.act ⟨hpresent, hone, hstate⟩ hpre hs hexec
    · intro j t hji hj
      refine (hL j t hj).frame hhistory ?_ (by rw [hprocs, Function.update_of_ne hji]) ?_
      · rw [hs.events_eq, Label.eventOf, if_neg (Ne.symm hji)]
        exact List.append_nil _
      · intro i' hdownload _
        exact (hL j t hj).ended hok hji (by rw [hdownload]; rfl)
  · rintro c c' ⟨hpresent, hone, hstate⟩ - hs ⟨temporary, -, hw⟩
    have hhistory := hs.history_eq
    refine ⟨by rw [hw]; exact hpresent, hone.append hhistory (fun _ _ _ _ _ h => by cases h), ?_⟩
    rintro ⟨a, ha, hdownloads⟩
    rw [hhistory, List.mem_append, List.mem_singleton] at ha
    rcases ha with ha | rfl
    · rw [hw]
      exact hstate ⟨a, ha, hdownloads⟩
    · cases hdownloads

end

namespace Sample

/-- The request that starts the sample update. -/
def request : StartRequest where
  uid := user
  operationId := operationId
  planSha256 := updateSha256
  confirmed := true
  submitted := planned
  cached := none

/-- The machine after a schedule. -/
def startsAfter (schedule : List (Choice StartRequest)) : Starts :=
  (simulation oracle).plays (startFor externals operationId) (Config.boot world) schedule

/-- One request, until its worker has begun to download. -/
def oneStart : Starts :=
  (simulation oracle).plays (startFor externals operationId) (startsAfter [.spawn request])
    (List.replicate 11 (.act 0))

theorem reach_oneStart : Reach (system true) (startFor externals operationId)
    (DownloadsAlone operationId) (Config.boot world) oneStart := by
  have hspawn : Reach (system true) (startFor externals operationId) (DownloadsAlone operationId)
      (Config.boot world) (startsAfter [.spawn request]) :=
    (simulation oracle).reach_play _ _ (.spawn request) fun l hlabel => by cases hlabel; trivial
  refine hspawn.trans ((simulation oracle).reach_if _ (I := fun c => ∀ j, j ≠ 0 →
    c.procs j = none) ?_ ?_)
  · intro j hj
    exact Function.update_of_ne hj ..
  · intro choice hchoice c hothers
    obtain rfl := List.eq_of_mem_replicate hchoice
    refine ⟨fun j hj => ?_, fun l hlabel => ?_⟩
    · rw [Strategy.procs_act_of_ne _ _ _ hj]
      exact hothers j hj
    · unfold Strategy.label at hlabel
      rcases hproc : c.procs 0 with _ | _ | ⟨e, k⟩ <;> simp only [hproc] at hlabel
      · cases hlabel
      · cases hlabel
      · obtain ⟨rfl⟩ := hlabel
        cases e with
        | save r =>
            generalize ((simulation oracle).answer 0 (.save r) c.world).1 = answer
            rcases answer with error | ⟨⟩
            · trivial
            · intro _ j hj _ q hq
              rw [hothers j hj] at hq
              cases hq
        | _ => trivial

end Sample

end LyraUpgrade
