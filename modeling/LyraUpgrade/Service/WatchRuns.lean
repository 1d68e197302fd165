import LyraUpgrade.Service.EventWindow
import LyraUpgrade.Service.TornHistory
import LyraUpgrade.System.Simulation

/-!
# What the window shows

Any reports of a worker and polls of a window, in any order, with writes that fail, files that
are torn, markers that cannot be left, services that end and are started again, and windows that
are opened again.  The window never shows a state change that was not reported, or one twice; and
when an answer carries no diagnostic it shows all of them.

There are two ways out of that, and the code has no third: a marker that could not be written
either, and a log that a panic has poisoned, to which later state changes are lost without a word.

* `Watch.Sound` — no write has failed, as far as anyone can know.
* `Watch.Inv` — the invariant.
* `watch_complete` — the result.
-/

namespace LyraUpgrade

open Encoding

variable {fromSlice : List UInt8 → Option OperationEvent} {id : String}

/-! ## One report -/

/-- What a report makes of the log. -/
structure Makes (id : String) (report : Report) (observer : Observer) (event : OperationEvent)
    (log : EventLog) : Prop where
  keeps : ∀ given, Fed.Keeps ⟨observer.log, given⟩ → Fed.Keeps ⟨log, given ++ [event]⟩
  last : observer.log.lastSequence ≤ log.lastSequence
  sequence : event.sequence = observer.nextSequence
  changes : (if event.isNormative then [event.state] else []) = report.state?.toList

theorem makes_stateChanged (observer : Observer) (state : OperationState) (now : String) :
    Makes id (.stateChanged state) observer (observer.stateEvent id state now)
      (observer.log.pushNormative (observer.stateEvent id state now)) where
  keeps := fun _ h => @Fed.Keeps.call _ h (.pushNormative _) rfl
  last := Nat.le_max_left _ _
  sequence := rfl
  changes := rfl

theorem makes_commandLine {observer : Observer} {program line now : String} {stream : OutputStream}
    {log : EventLog} {event : OperationEvent}
    (h : observer.log.pushTechnical
      (technicalEvent id observer.nextSequence now observer.currentState) stream.source
      (program ++ ": " ++ line) = some (log, event)) :
    Makes id (.commandLine program stream line) observer event log := by
  have hpush := h
  rw [EventLog.pushTechnical] at h
  cases hsanitized : sanitizeTechnicalLine (program ++ ": " ++ line) with
  | none => rw [hsanitized] at h; cases h
  | some sanitized =>
      rw [hsanitized] at h
      obtain ⟨rfl, rfl⟩ : _ ∧ _ := Prod.mk.inj (Option.some.inj h)
      refine ⟨fun given hkeeps => ?_, ?_, rfl, rfl⟩
      · have hcall := @Fed.Keeps.call _ hkeeps (.pushTechnical
          (technicalEvent id observer.nextSequence now observer.currentState) stream.source
          (program ++ ": " ++ line)) trivial
        rw [Fed.call, hpush] at hcall
        exact hcall
      · rw [EventLog.trimTechnical_lastSequence]
        exact Nat.le_max_left _ _

/-- Appending, and what a failure leaves. -/
theorem persist_cases (call : ObserverCall) (observer : Observer) (files : EventFiles)
    (event : OperationEvent) :
    (∃ file, appendWriting fromSlice id call files.events event = (.ok (), file) ∧
      observer.persist fromSlice id call event files = (observer, { files with events := file })) ∨
    ∃ e file, appendWriting fromSlice id call files.events event = (.error e, file) ∧
      observer.persist fromSlice id call event files = ({ observer with persistenceFailed := true },
        ⟨file, files.failure || (!observer.persistenceFailed && call.marking)⟩) := by
  unfold Observer.persist
  rcases appendWriting fromSlice id call files.events event with ⟨_ | _, file⟩
  · exact Or.inr ⟨_, file, rfl, rfl⟩
  · exact Or.inl ⟨file, rfl, rfl⟩

/-- A report that is lost leaves a poisoned log. -/
theorem reporting_lost {call : ObserverCall} {report : Report} {observer : Observer}
    (h : Watch.madeOf id call report observer = none) (files : EventFiles) :
    ∃ observer', Watch.reporting fromSlice id call report observer files = (observer', files) ∧
      observer'.log = observer.log ∧ observer'.persistenceFailed = observer.persistenceFailed ∧
      observer'.poisoned = true := by
  unfold Watch.madeOf at h
  cases hpoisoned : observer.poisoned with
  | true =>
      cases report with
      | stateChanged state => exact ⟨_, if_pos hpoisoned, rfl, rfl, hpoisoned⟩
      | commandLine program stream line => exact ⟨_, if_pos hpoisoned, rfl, rfl, hpoisoned⟩
  | false =>
      rw [hpoisoned, if_neg Bool.false_ne_true] at h
      cases report with
      | stateChanged state => cases h
      | commandLine program stream line =>
          refine ⟨{ observer with poisoned := true }, ?_, rfl, rfl, rfl⟩
          show Observer.commandLine .. = _
          unfold Observer.commandLine
          rw [if_neg (by rw [hpoisoned]; exact Bool.false_ne_true)]
          dsimp only
          rw [Option.map_eq_none_iff.mp h]

/-- Any other is in the log, and on disk if nothing fails. -/
theorem reporting_made {call : ObserverCall} {report : Report} {observer : Observer}
    {event : OperationEvent} (h : Watch.madeOf id call report observer = some event)
    (files : EventFiles) :
    ∃ observer', Makes id report observer event observer'.log ∧ observer'.poisoned = false ∧
      ((∃ file, appendWriting fromSlice id call files.events event = (.ok (), file) ∧
        observer'.persistenceFailed = observer.persistenceFailed ∧
        Watch.reporting fromSlice id call report observer files =
          (observer', { files with events := file })) ∨
      ∃ e file, appendWriting fromSlice id call files.events event = (.error e, file) ∧
        observer'.persistenceFailed = true ∧
        Watch.reporting fromSlice id call report observer files =
          (observer', ⟨file, files.failure || (!observer.persistenceFailed && call.marking)⟩)) := by
  unfold Watch.madeOf at h
  cases hpoisoned : observer.poisoned with
  | true => rw [hpoisoned, if_pos rfl] at h; cases h
  | false =>
      rw [hpoisoned, if_neg Bool.false_ne_true] at h
      cases report with
      | stateChanged state =>
          obtain rfl := Option.some.inj h
          have hreporting : Watch.reporting fromSlice id call (.stateChanged state) observer files =
              _ := if_neg (by rw [hpoisoned]; exact Bool.false_ne_true)
          rw [hreporting]
          rcases @persist_cases fromSlice id call
            { observer with currentState := state } files
            (observer.stateEvent id state call.now) with
            ⟨file, happend, heq⟩ | ⟨e, file, happend, heq⟩ <;> rw [heq]
          · refine ⟨_, ?_, ?_, Or.inl ⟨file, happend, ?_, rfl⟩⟩
            · exact makes_stateChanged observer state call.now
            · exact hpoisoned
            · rfl
          · refine ⟨_, ?_, ?_, Or.inr ⟨e, file, happend, ?_, rfl⟩⟩
            · exact makes_stateChanged observer state call.now
            · exact hpoisoned
            · rfl
      | commandLine program stream line =>
          obtain ⟨⟨log, event'⟩, hpush, rfl⟩ := Option.map_eq_some_iff.mp h
          have hreporting : Watch.reporting fromSlice id call (.commandLine program stream line)
              observer files =
              Observer.persist fromSlice id call event' { observer with log := log } files := by
            show Observer.commandLine .. = _
            unfold Observer.commandLine
            rw [if_neg (by rw [hpoisoned]; exact Bool.false_ne_true)]
            dsimp only
            rw [hpush]
          rw [hreporting]
          rcases @persist_cases fromSlice id call
            { observer with log := log } files event' with
            ⟨file, happend, heq⟩ | ⟨e, file, happend, heq⟩ <;> rw [heq]
          · refine ⟨_, ?_, ?_, Or.inl ⟨file, happend, ?_, rfl⟩⟩
            · exact makes_commandLine hpush
            · exact hpoisoned
            · rfl
          · refine ⟨_, ?_, ?_, Or.inr ⟨e, file, happend, ?_, rfl⟩⟩
            · exact makes_commandLine hpush
            · exact hpoisoned
            · rfl

/-! ## The invariant -/

/-- No write has failed, as far as anyone can know, and no log is poisoned. -/
structure Watch.Sound (watch : Watch) : Prop where
  failure : watch.files.failure = false
  unmarked : watch.account.unmarked = false
  poisoned : watch.account.poisoned = false

/-- The window shows the state changes up to some time, and nothing later. -/
def Caught (ui : Ui) (emitted : List OperationEvent) : Prop :=
  ∃ known, known <+: emitted ∧ changesOf ui.events = known.filter OperationEvent.isNormative ∧
    ∀ event ∈ numbered ui.events, event ∈ known

theorem Caught.mono {ui : Ui} {emitted later : List OperationEvent} (h : Caught ui emitted)
    (hlater : emitted <+: later) : Caught ui later := by
  obtain ⟨known, hknown, h⟩ := h
  exact ⟨known, hknown.trans hlater, h⟩

/-- **An answer catches up**: with the events above the cursor, the window shows all. -/
theorem Caught.add {ui : Ui} {emitted items : List OperationEvent} (h : Caught ui emitted)
    (hui : ui.Orderly) (hsorted : ui.events.Pairwise StatusReads.NotAfter)
    (hincreasing : emitted.Pairwise (·.sequence < ·.sequence))
    (hpositive : ∀ event ∈ emitted, event.sequence ≠ 0)
    (hitems : (numbered items).Pairwise (·.sequence < ·.sequence))
    (hnew : ∀ item ∈ numbered items, ui.lastSequence < item.sequence)
    (hmem : ∀ item ∈ numbered items, item ∈ emitted)
    (hchanges : changesOf items = (emitted.filter OperationEvent.isNormative).filter
      fun event => ui.lastSequence < event.sequence) :
    changesOf (ui.addEvents items).events = emitted.filter OperationEvent.isNormative ∧
      Caught (ui.addEvents items) emitted := by
  have hnumbered := Ui.addEvents_new hui hsorted hitems hnew
  obtain ⟨known, ⟨later, rfl⟩, hknown, hshown⟩ := h
  have hall : changesOf (ui.addEvents items).events =
      (known ++ later).filter OperationEvent.isNormative := by
    have hold : (known.filter OperationEvent.isNormative).filter
        (fun event => decide (ui.lastSequence < event.sequence)) = [] := by
      rw [← hknown, List.filter_eq_nil_iff]
      intro event hevent
      rw [decide_eq_true_eq, UInt64.not_lt]
      exact hui.cursor event (mem_changesOf.mp hevent).1
    have hrest : (later.filter OperationEvent.isNormative).filter
        (fun event => decide (ui.lastSequence < event.sequence)) =
        later.filter OperationEvent.isNormative := by
      refine List.filter_eq_self.mpr fun event hevent => decide_eq_true ?_
      have hlater := List.mem_of_mem_filter hevent
      rcases hui.reached with hzero | ⟨last, hlast, heq⟩
      · rw [hzero, UInt64.pos_iff_ne_zero]
        exact hpositive event (List.mem_append_right _ hlater)
      · rw [← heq]
        exact (List.pairwise_append.mp hincreasing).2.2 last (hshown last hlast) event hlater
    rw [changesOf, hnumbered, List.filter_append]
    show changesOf ui.events ++ changesOf items = _
    rw [hknown, hchanges, List.filter_append, List.filter_append, hold, hrest, List.nil_append]
  refine ⟨hall, known ++ later, List.prefix_refl _, hall, fun event hevent => ?_⟩
  rw [hnumbered, List.mem_append] at hevent
  rcases hevent with hevent | hevent
  · exact List.mem_append_left _ (hshown event hevent)
  · exact hmem event hevent

/-- What a history that was read says of the events there were. -/
structure HistoryRead (ui : Ui) (account : Account) (after : UInt64)
    (history : Except EventLogError EventHistory) (emitted : List OperationEvent) : Prop where
  prefix_emitted : emitted <+: account.emitted
  increasing : emitted.Pairwise (·.sequence < ·.sequence)
  positive : ∀ event ∈ emitted, event.sequence ≠ 0
  reported : account.reportedThen =
    (emitted.filter OperationEvent.isNormative).map OperationEvent.state
  caught : Caught ui emitted
  whole : ∀ read, history = .ok read → read.incomplete = false
  ordered : ∀ read, history = .ok read → (numbered read.events).Pairwise (·.sequence < ·.sequence)
  above : ∀ read, history = .ok read →
    ∀ event ∈ numbered read.events, after < event.sequence ∧ event ∈ emitted
  changes : ∀ read, history = .ok read → changesOf read.events =
    (emitted.filter OperationEvent.isNormative).filter fun event => after < event.sequence

/-- It stays true. -/
theorem HistoryRead.mono {ui : Ui} {account account' : Account} {after : UInt64}
    {history : Except EventLogError EventHistory} {emitted : List OperationEvent}
    (h : HistoryRead ui account after history emitted)
    (hemitted : account.emitted <+: account'.emitted)
    (hreported : account'.reportedThen = account.reportedThen) :
    HistoryRead ui account' after history emitted :=
  { h with
    prefix_emitted := h.prefix_emitted.trans hemitted
    reported := hreported.trans h.reported }

namespace Watch

/-- The files, and what was written. -/
structure Recorded (id : String) (watch : Watch) (written : List OperationEvent)
    (torn : List UInt8) (segment : Segment) : Prop where
  disk : DiskHolds id watch.files.events written torn segment
  emitted : ∀ event ∈ written, event ∈ watch.account.emitted
  whole : watch.Sound → torn = []
  all : watch.Sound → written = watch.account.emitted
  reported : watch.Sound → watch.account.reported =
    (watch.account.emitted.filter OperationEvent.isNormative).map OperationEvent.state

/-- The log of a process that runs a worker. -/
structure Live (watch : Watch) (written : List OperationEvent) (observer : Observer) : Prop where
  keeps : Fed.Keeps ⟨observer.log, watch.account.given⟩
  last : ∀ event ∈ written, event.sequence.toNat ≤ observer.log.lastSequence
  /-- Below the last sequence there is, a sequence is of one event. -/
  agree : ∀ other, other ∈ written ∨ other ∈ watch.account.given →
    ∀ event ∈ numbered watch.account.given, other.sequence = event.sequence →
      event.sequence.toNat < u64Max → other = event
  saved : observer.persistenceFailed = false →
    ∀ event ∈ numbered watch.account.given, event.isNormative = true → event ∈ written
  emitted : ∀ event ∈ numbered watch.account.given, event ∈ watch.account.emitted
  ordered : watch.Sound → (numbered watch.account.given).Pairwise (·.sequence < ·.sequence)
  changes : watch.Sound →
    changesOf watch.account.given = watch.account.emitted.filter OperationEvent.isNormative
  failed : observer.persistenceFailed = true →
    watch.files.failure = true ∨ watch.account.unmarked = true
  poisoned : observer.poisoned = true → watch.account.poisoned = true

/-- The window. -/
structure Shown (watch : Watch) : Prop where
  orderly : watch.ui.Orderly
  sorted : watch.ui.events.Pairwise StatusReads.NotAfter
  emitted : ∀ event ∈ numbered watch.ui.events, event ∈ watch.account.emitted
  caught : watch.Sound → Caught watch.ui watch.account.emitted

/-- A poll that the process of the worker answers, once it has read the history. -/
structure Owned (watch : Watch) (after : UInt64) (history : Except EventLogError EventHistory) :
    Prop where
  alone : watch.observer = none → watch.account.givenThen = []
  given : ∀ observer, watch.observer = some observer →
    ∀ event ∈ watch.account.givenThen, event ∈ watch.account.given
  saved : ∀ observer, watch.observer = some observer → observer.persistenceFailed = false →
    ∀ read, history = .ok read → read.incomplete = false →
      ∀ event ∈ changesOf watch.account.givenThen, after < event.sequence → event ∈ read.events

/-- A poll that has read the history. -/
structure Polled (watch : Watch) (written : List OperationEvent) (own : Bool) (after : UInt64)
    (history : Except EventLogError EventHistory) : Prop where
  cursor : after = watch.ui.lastSequence
  written : ∀ read, history = .ok read → ∀ event ∈ numbered read.events, event ∈ written
  owned : own = true → watch.Owned after history

/-- The poll under way. -/
def Polls (watch : Watch) (written : List OperationEvent) : Poll → Prop
  | .idle => True
  | .asked _ after => after = watch.ui.lastSequence
  | .history own after history => watch.Polled written own after history ∧
      (watch.Sound → ∃ emitted, HistoryRead watch.ui watch.account after history emitted)
  | .failure own after history failure => watch.Polled written own after history ∧
      (failure = true → watch.files.failure = true) ∧
      (failure = false → watch.account.unmarked = false → watch.account.poisoned = false →
        ∃ emitted, HistoryRead watch.ui watch.account after history emitted)

end Watch

/-- The answer names something that is wrong with the history. -/
def StatusReply.Warns (reply : StatusReply) : Prop :=
  ∃ event ∈ reply.events, event.sequence = 0 ∧ (event.messageId = "error_EVENT_LOG_READ_FAILED" ∨
    event.messageId = "error_EVENT_LOG_WRITE_FAILED")

/-- What the last answer promises. -/
structure StatusTold.Keeps (watch : Watch) (told : StatusTold) : Prop where
  /-- Without a warning, every change reported before the history was read is shown, in order. -/
  shown : ¬ told.reply.Warns → watch.account.unmarked = false → watch.account.poisoned = false →
    (changesOf watch.ui.events).map OperationEvent.state = told.reported
  /-- A service that runs the worker answers with every change that its log was given by then,
  whatever has failed. -/
  complete : told.own = true → watch.account.poisoned = false →
    ∀ event ∈ changesOf told.given, told.after < event.sequence →
      event.sequence.toNat < u64Max → event ∈ told.reply.events

/-- The invariant. -/
structure Watch.Inv (id : String) (watch : Watch) (written : List OperationEvent)
    (torn : List UInt8) (segment : Segment) : Prop where
  recorded : watch.Recorded id written torn segment
  live : ∀ observer, watch.observer = some observer → watch.Live written observer
  dead : watch.observer = none → watch.account.given = []
  shown : watch.Shown
  polls : watch.Polls written watch.poll
  told : ∀ told, watch.account.told = some told → told.Keeps watch

/-! ## Steps that leave the window alone -/

/-- The window, and what it has been told. -/
structure Watch.Later (watch watch' : Watch) : Prop where
  ui : watch'.ui = watch.ui
  reportedThen : watch'.account.reportedThen = watch.account.reportedThen
  told : watch'.account.told = watch.account.told
  emitted : watch.account.emitted <+: watch'.account.emitted
  failure : watch.files.failure = true → watch'.files.failure = true
  unmarked : watch.account.unmarked = true → watch'.account.unmarked = true
  poisoned : watch.account.poisoned = true → watch'.account.poisoned = true

section

variable {watch watch' : Watch} {written written' : List OperationEvent}

private theorem false_of_imp {a b : Bool} (h : a = true → b = true) (hb : b = false) :
    a = false := by
  cases a with
  | false => rfl
  | true => rw [h rfl] at hb; cases hb

theorem Watch.Later.sound (h : watch.Later watch') (hsound : watch'.Sound) : watch.Sound where
  failure := false_of_imp h.failure hsound.failure
  unmarked := false_of_imp h.unmarked hsound.unmarked
  poisoned := false_of_imp h.poisoned hsound.poisoned

theorem Watch.Shown.later (hshown : watch.Shown) (h : watch.Later watch') : watch'.Shown where
  orderly := h.ui ▸ hshown.orderly
  sorted := h.ui ▸ hshown.sorted
  emitted := fun event hevent => h.emitted.subset (hshown.emitted event (h.ui ▸ hevent))
  caught := fun hs => h.ui ▸ (hshown.caught (h.sound hs)).mono h.emitted

theorem StatusTold.Keeps.later {told : StatusTold} (hkeeps : told.Keeps watch)
    (h : watch.Later watch') : told.Keeps watch' where
  shown := fun hwarns hunmarked hpoisoned => by
    rw [h.ui]
    exact hkeeps.shown hwarns (false_of_imp h.unmarked hunmarked)
      (false_of_imp h.poisoned hpoisoned)
  complete := fun hown hpoisoned =>
    hkeeps.complete hown (false_of_imp h.poisoned hpoisoned)

theorem Watch.Polls.later {poll : Poll} (hpolls : watch.Polls written poll)
    (h : watch.Later watch') (hwritten : ∀ event ∈ written, event ∈ written')
    (howned : poll.own = true → ∀ after history, watch.Owned after history →
      watch'.Owned after history) : watch'.Polls written' poll := by
  have hread : ∀ {after history},
      (∃ emitted, HistoryRead watch.ui watch.account after history emitted) →
      ∃ emitted, HistoryRead watch'.ui watch'.account after history emitted := by
    rintro after history ⟨emitted, hr⟩
    rw [h.ui]
    exact ⟨emitted, hr.mono h.emitted h.reportedThen⟩
  have hpolled : ∀ {own after history}, (own = true → poll.own = true) →
      watch.Polled written own after history → watch'.Polled written' own after history :=
    fun hown hp =>
      { cursor := h.ui ▸ hp.cursor
        written := fun read heq event hevent => hwritten event (hp.written read heq event hevent)
        owned := fun htrue => howned (hown htrue) _ _ (hp.owned htrue) }
  cases poll with
  | idle => trivial
  | asked own after =>
      show after = watch'.ui.lastSequence
      rw [h.ui]
      exact hpolls
  | history own after history =>
      exact ⟨hpolled id hpolls.1, fun hs => hread (hpolls.2 (h.sound hs))⟩
  | failure own after history failure =>
      exact ⟨hpolled id hpolls.1, fun hf => h.failure (hpolls.2.1 hf), fun hf hu hp =>
        hread (hpolls.2.2 hf (false_of_imp h.unmarked hu) (false_of_imp h.poisoned hp))⟩

end

namespace Watch.Inv

variable {watch : Watch} {written : List OperationEvent} {torn : List UInt8} {segment : Segment}

theorem new (id : String) : Watch.start.Inv id [] [] ⟨none, []⟩ where
  recorded :=
    { disk := DiskHolds.new id
      emitted := fun _ h => by cases h
      whole := fun _ => rfl
      all := fun _ => rfl
      reported := fun _ => rfl }
  live := fun _ h => by cases h
  dead := fun _ => rfl
  shown :=
    { orderly := Ui.orderly_empty
      sorted := List.Pairwise.nil
      emitted := fun _ h => by cases h
      caught := fun _ => ⟨[], List.nil_prefix, rfl, fun _ h => by cases h⟩ }
  polls := trivial
  told := fun _ h => by cases h

/-! ### Start and stop -/

/-- Start restores the log from a whole history. -/
theorem restored (h : watch.Inv id written torn segment) (hreads : ReadsEvents fromSlice)
    {opening : Except EventLogError Unit} {events : List OperationEvent}
    (hrestored : watch.restored fromSlice id opening = some events) :
    torn = [] ∧ events = segment.events := by
  unfold Watch.restored at hrestored
  split_ifs at hrestored with hfailure
  rcases h.recorded.disk.load hreads opening 0 with ⟨e, heq⟩ | heq
  · rw [heq] at hrestored
    cases hrestored
  · have hall : (segment.events.filter fun event =>
        decide (event.sequence = 0) || decide (0 < event.sequence)) = segment.events := by
      refine List.filter_eq_self.mpr fun event _ => ?_
      rw [Bool.or_eq_true, decide_eq_true_eq, decide_eq_true_eq, UInt64.pos_iff_ne_zero]
      exact em _
    rw [heq, hall] at hrestored
    by_cases htorn : torn = []
    · rw [decide_eq_false (not_not.mpr htorn)] at hrestored
      exact ⟨htorn, (Option.some.inj hrestored).symm⟩
    · rw [decide_eq_true htorn] at hrestored
      cases hrestored

/-- A restored log knows what was written. -/
theorem live_restored (h : watch.Inv id written torn segment) (state : OperationState) :
    Watch.Live { watch with
      observer := some ⟨EventLog.restore segment.events, false, false, state⟩
      account := { watch.account with given := segment.events } } written
      ⟨EventLog.restore segment.events, false, false, state⟩ := by
  have hholds := h.recorded.disk.holds
  have hwritten : ∀ event ∈ numbered segment.events, event ∈ written := by
    intro event hevent
    obtain ⟨hevent, hpositive⟩ := mem_numbered.mp hevent
    exact (hholds.zero_or_accepted hevent).resolve_left hpositive
  have hkept : numbered segment.events = segment.kept := by
    have hmarker : numbered segment.marker.toList = [] := by
      refine List.filter_eq_nil_iff.mpr fun marker hmarker hpositive => ?_
      obtain ⟨discarded, -, hmarks⟩ := hholds.technical
      rw [Segment.Marks, Option.mem_toList.mp hmarker] at hmarks
      obtain ⟨-, incoming, rfl⟩ := hmarks
      exact of_decide_eq_true hpositive markerOf_sequence
    rw [Segment.events, numbered_append, hmarker, List.nil_append,
      numbered_eq_self hholds.positive]
  exact
    { keeps := @Fed.Keeps.call _ Fed.keeps_start (.restore segment.events) trivial
      last := hholds.le_lastSequence
      agree := by
        intro other hother event hevent heq _
        have hmem : other ∈ written := by
          rcases hother with hother | hother
          · exact hother
          · refine hwritten other (mem_numbered.mpr ⟨hother, ?_⟩)
            rw [heq]
            exact (mem_numbered.mp hevent).2
        exact eq_of_increasing hholds.acceptedIncreasing hmem (hwritten event hevent) heq
      saved := fun _ event hevent _ => hwritten event hevent
      emitted := fun event hevent => h.recorded.emitted event (hwritten event hevent)
      ordered := fun _ => by
        show (numbered segment.events).Pairwise _
        rw [hkept]
        exact hholds.increasing
      changes := by
        rintro ⟨hfailure, hunmarked, hpoisoned⟩
        show changesOf segment.events = watch.account.emitted.filter _
        rw [← h.recorded.all ⟨hfailure, hunmarked, hpoisoned⟩, ← hholds.normative, ← hkept]
        rfl
      failed := fun h => by cases h
      poisoned := fun h => by cases h }

/-- **Start** -/
theorem start (h : watch.Inv id written torn segment) (hreads : ReadsEvents fromSlice)
    (opening : Except EventLogError Unit) (state : OperationState) :
    (watch.startTurn fromSlice id opening state).Inv id written torn segment := by
  unfold Watch.startTurn
  cases hobserver : watch.observer with
  | some observer => exact h
  | none =>
      cases hrestored : watch.restored fromSlice id opening with
      | none => exact h
      | some events =>
          obtain ⟨-, rfl⟩ := h.restored hreads hrestored
          have hlater : watch.Later { watch with
              observer := some ⟨EventLog.restore segment.events, false, false, state⟩
              account := { watch.account with given := segment.events } } :=
            ⟨rfl, rfl, rfl, List.prefix_refl _, fun h => h, fun h => h, fun h => h⟩
          exact
            { recorded := ⟨h.recorded.disk, h.recorded.emitted,
                fun hs => h.recorded.whole (hlater.sound hs),
                fun hs => h.recorded.all (hlater.sound hs),
                fun hs => h.recorded.reported (hlater.sound hs)⟩
              live := fun observer heq => by
                cases heq
                exact h.live_restored state
              dead := fun hnone => by cases hnone
              shown := h.shown.later hlater
              polls := h.polls.later hlater (fun _ h => h) fun _ after history howned => by
                -- nothing had been given to a log when the history was read
                have hnil : watch.account.givenThen = [] := howned.alone hobserver
                constructor
                · intro hnone
                  cases hnone
                · intro _ _ event hevent
                  rw [show watch.account.givenThen = [] from hnil] at hevent
                  cases hevent
                · intro _ _ _ _ _ _ event hevent
                  rw [show watch.account.givenThen = [] from hnil] at hevent
                  cases hevent
              told := fun told heq => (h.told told heq).later hlater }

/-- **The end of a service** -/
theorem stop (h : watch.Inv id written torn segment) :
    watch.stopTurn.Inv id written torn segment := by
  have hlater : watch.Later watch.stopTurn :=
    ⟨rfl, rfl, rfl, List.prefix_refl _, fun h => h, fun h => h, fun h => h⟩
  exact
    { recorded := ⟨h.recorded.disk, h.recorded.emitted,
        fun hs => h.recorded.whole (hlater.sound hs),
        fun hs => h.recorded.all (hlater.sound hs),
        fun hs => h.recorded.reported (hlater.sound hs)⟩
      live := fun _ heq => by cases heq
      dead := fun _ => rfl
      shown := h.shown.later hlater
      polls := by
        show watch.stopTurn.Polls written (if watch.poll.own then .idle else watch.poll)
        split_ifs with hown
        · trivial
        · exact h.polls.later hlater (fun _ h => h) fun htrue => absurd htrue hown
      told := fun told heq => (h.told told heq).later hlater }

/-! ### Reports -/

/-- The next sequence. -/
theorem nextSequence_toNat (observer : Observer) :
    observer.nextSequence.toNat = min (observer.log.lastSequence + 1) u64Max := by
  have hlt : min (observer.log.lastSequence + 1) u64Max < 2 ^ 64 :=
    Nat.lt_of_le_of_lt (Nat.min_le_right _ _) (by decide)
  exact UInt64.toNat_ofNat_of_lt' hlt

/-- A log knows what it makes of a report. -/
theorem live_made (h : watch.Inv id written torn segment) {observer observer' : Observer}
    (hobserver : watch.observer = some observer) {report : Report} {event : OperationEvent}
    (hmakes : Makes id report observer event observer'.log) (hpoisoned : observer'.poisoned = false)
    {watch' : Watch} (hlater : watch.Later watch') {written' : List OperationEvent}
    (hwritten : written' = written ∨ written' = written ++ [event])
    (hgiven : watch'.account.given = watch.account.given ++ [event])
    (hemitted : watch'.account.emitted = watch.account.emitted ++ [event])
    (hsaved : observer'.persistenceFailed = false →
      observer.persistenceFailed = false ∧ written' = written ++ [event])
    (hincreasing : watch'.Sound → written' = watch'.account.emitted ∧
      written'.Pairwise (·.sequence < ·.sequence) ∧ ∀ event ∈ written', event.sequence ≠ 0)
    (hfailed : observer'.persistenceFailed = true →
      watch'.files.failure = true ∨ watch'.account.unmarked = true) :
    watch'.Live written' observer' := by
  have hlive := h.live observer hobserver
  have hkeeps : Fed.Keeps ⟨observer'.log, watch'.account.given⟩ := by
    rw [hgiven]
    exact hmakes.keeps _ hlive.keeps
  have hmem : event ∈ watch'.account.given := by
    rw [hgiven]
    exact List.mem_append_right _ (List.mem_singleton_self _)
  have hsubset : ∀ old ∈ written', old ∈ written ∨ old = event := by
    intro old hold
    rcases hwritten with rfl | rfl
    · exact Or.inl hold
    · exact (List.mem_append.mp hold).imp_right List.mem_singleton.mp
  -- the new event is above everything, as long as there is a sequence left
  have hfresh : event.sequence.toNat < u64Max →
      observer.log.lastSequence < event.sequence.toNat := by
    intro hlt
    rw [hmakes.sequence, nextSequence_toNat] at hlt ⊢
    omega
  have hnumbered : ∀ old, old ∈ numbered watch'.account.given →
      old ∈ numbered watch.account.given ∨ old = event := by
    intro old hold
    rw [hgiven, numbered_append, List.mem_append] at hold
    exact hold.imp_right fun hold => List.mem_singleton.mp (mem_numbered.mp hold).1
  constructor
  case keeps => exact hkeeps
  case last =>
    intro old hold
    rcases hsubset old hold with hold | rfl
    · exact (hlive.last old hold).trans hmakes.last
    · exact hkeeps.last old hmem
  case agree =>
    intro other hother last hlast heq hbelow
    have hcases : (other ∈ written ∨ other ∈ watch.account.given) ∨ other = event := by
      rcases hother with hother | hother
      · exact (hsubset other hother).imp_left Or.inl
      · rw [hgiven, List.mem_append] at hother
        exact hother.imp Or.inr List.mem_singleton.mp
    have hold : ∀ old, old ∈ written ∨ old ∈ watch.account.given →
        old.sequence.toNat ≤ observer.log.lastSequence := by
      rintro old (hold | hold)
      · exact hlive.last old hold
      · exact hlive.keeps.last old hold
    rcases hcases with hcases | rfl <;> rcases hnumbered last hlast with hlast | rfl
    · exact hlive.agree other hcases last hlast heq hbelow
    · have := hold other hcases
      have := hfresh hbelow
      rw [heq] at *
      omega
    · have := hold last (Or.inr (mem_numbered.mp hlast).1)
      have := hfresh (heq ▸ hbelow)
      rw [heq] at *
      omega
    · rfl
  case saved =>
    intro hfalse old hold hnormative
    obtain ⟨hbefore, rfl⟩ := hsaved hfalse
    rcases hnumbered old hold with hold | rfl
    · exact List.mem_append_left _ (hlive.saved hbefore old hold hnormative)
    · exact List.mem_append_right _ (List.mem_singleton_self _)
  case emitted =>
    intro old hold
    rw [hemitted]
    rcases hnumbered old hold with hold | rfl
    · exact List.mem_append_left _ (hlive.emitted old hold)
    · exact List.mem_append_right _ (List.mem_singleton_self _)
  case ordered =>
    intro hsound
    obtain ⟨hall, hordered, -⟩ := hincreasing hsound
    rw [hall, hemitted, List.pairwise_append] at hordered
    rw [hgiven, numbered_append, List.pairwise_append]
    refine ⟨hlive.ordered (hlater.sound hsound), (List.pairwise_singleton _ event).filter _, ?_⟩
    intro old hold new hnew
    rw [List.mem_singleton.mp (mem_numbered.mp hnew).1]
    exact hordered.2.2 old (hlive.emitted old hold) event (List.mem_singleton_self _)
  case changes =>
    intro hsound
    obtain ⟨hall, -, hpositive⟩ := hincreasing hsound
    have hne : event.sequence ≠ 0 := by
      refine hpositive event ?_
      rw [hall, hemitted]
      exact List.mem_append_right _ (List.mem_singleton_self _)
    rw [hgiven, hemitted, changesOf_append, List.filter_append, hlive.changes (hlater.sound hsound)]
    show _ ++ (numbered [event]).filter _ = _
    rw [numbered_cons hne]
    rfl
  case failed => exact hfailed
  case poisoned => exact fun htrue => by rw [hpoisoned] at htrue; cases htrue

/-- What a report leaves of a poll that the process answers. -/
theorem owned_report {observer observer' : Observer} (hobserver : watch.observer = some observer)
    (watch' : Watch) (hobserver' : watch'.observer = some observer')
    (hthen : watch'.account.givenThen = watch.account.givenThen)
    (hgiven : ∀ event ∈ watch.account.given, event ∈ watch'.account.given)
    (hfailed : observer'.persistenceFailed = false → observer.persistenceFailed = false)
    {after : UInt64} {history : Except EventLogError EventHistory}
    (howned : watch.Owned after history) : watch'.Owned after history where
  alone := fun hnone => by rw [hobserver'] at hnone; cases hnone
  given := fun _ _ event hevent =>
    hgiven event (howned.given observer hobserver event (hthen ▸ hevent))
  saved := fun other hother hfalse => by
    rw [hobserver', Option.some.injEq] at hother
    rw [hthen]
    exact howned.saved observer hobserver (hfailed (hother ▸ hfalse))

/-- **A report** -/
theorem report (h : watch.Inv id written torn segment) (hreads : ReadsEvents fromSlice)
    (call : ObserverCall) (report : Report) {observer : Observer}
    (hobserver : watch.observer = some observer) :
    ∃ written' torn' segment',
      (watch.reportTurn fromSlice id call report observer).Inv id written' torn' segment' := by
  have hlive := h.live observer hobserver
  unfold Watch.reportTurn
  cases hmade : Watch.madeOf id call report observer with
  | none =>
      obtain ⟨observer', hreporting, hlog, hsame, hpoisoned⟩ :=
        @reporting_lost fromSlice _ _ _ _ hmade watch.files
      rw [hreporting]
      simp only [Option.toList_none, List.append_nil, hpoisoned, Bool.or_true]
      refine ⟨written, torn, segment, ?_⟩
      set watch' : Watch := { watch with
        observer := some observer'
        account := { watch.account with
          reported := watch.account.reported ++ report.state?.toList
          unmarked := watch.account.unmarked ||
            (observer'.persistenceFailed && !watch.files.failure)
          poisoned := true } } with hwatch'
      have hlater : watch.Later watch' :=
        ⟨rfl, rfl, rfl, List.prefix_refl _, fun h => h,
          fun h => by show (_ || _) = true; rw [h]; rfl, fun _ => rfl⟩
      have hnot : ¬ watch'.Sound := fun hs => Bool.noConfusion hs.poisoned
      exact
        { recorded := ⟨h.recorded.disk, h.recorded.emitted, fun hs => absurd hs hnot,
            fun hs => absurd hs hnot, fun hs => absurd hs hnot⟩
          live := fun other hother => by
            obtain rfl := Option.some.inj hother
            exact
              { keeps := by rw [hlog]; exact hlive.keeps
                last := by rw [hlog]; exact hlive.last
                agree := hlive.agree
                saved := fun hfalse => hlive.saved (hsame ▸ hfalse)
                emitted := hlive.emitted
                ordered := fun hs => absurd hs hnot
                changes := fun hs => absurd hs hnot
                failed := fun htrue => (hlive.failed (hsame ▸ htrue)).imp_right hlater.unmarked
                poisoned := fun _ => rfl }
          dead := fun hnone => by cases hnone
          shown := h.shown.later hlater
          polls := h.polls.later hlater (fun _ h => h) fun _ _ _ howned =>
            owned_report hobserver watch' rfl rfl (fun _ h => h) (fun hfalse => hsame ▸ hfalse)
              howned
          told := fun told heq => (h.told told heq).later hlater }
  | some event =>
      obtain ⟨observer', hmakes, hpoisoned, hreporting⟩ :=
        @reporting_made fromSlice _ _ _ _ _ hmade watch.files
      -- what the call leaves on disk, and what it says of a failure
      have hdisk : ∃ files' written' torn' segment',
          Watch.reporting fromSlice id call report observer watch.files = (observer', files') ∧
          DiskHolds id files'.events written' torn' segment' ∧
          (written' = written ∨ written' = written ++ [event]) ∧
          (watch.files.failure = true → files'.failure = true) ∧
          (observer'.persistenceFailed = false → observer.persistenceFailed = false ∧
            written' = written ++ [event] ∧ torn' = []) := by
        rcases hreporting with ⟨file, happend, hsame, heq⟩ | ⟨e, file, happend, hfailed, heq⟩ <;>
          rcases h.recorded.disk.append hreads call event with
            ⟨file', segment', happend', hholds, -⟩ |
            ⟨e', file', written', torn', segment', happend', hholds, hwritten⟩ <;>
          rw [happend] at happend'
        · obtain rfl := (Prod.mk.inj happend').2
          exact ⟨_, _, _, segment', heq, hholds, Or.inr rfl, fun h => h,
            fun hfalse => ⟨hsame ▸ hfalse, rfl, rfl⟩⟩
        · cases (Prod.mk.inj happend').1
        · cases (Prod.mk.inj happend').1
        · obtain rfl := (Prod.mk.inj happend').2
          refine ⟨_, written', torn', segment', heq, hholds, hwritten, fun h => ?_,
            fun hfalse => ?_⟩
          · show (_ || _) = true
            rw [h]
            rfl
          · rw [hfailed] at hfalse
            cases hfalse
      obtain ⟨files', written', torn', segment', heq, hholds, hwritten, hfailure, hsaved⟩ := hdisk
      rw [heq]
      simp only [Option.toList_some, hpoisoned, Bool.or_false]
      refine ⟨written', torn', segment', ?_⟩
      set watch' : Watch := { watch with
        files := files'
        observer := some observer'
        account := { watch.account with
          reported := watch.account.reported ++ report.state?.toList
          emitted := watch.account.emitted ++ [event]
          given := watch.account.given ++ [event]
          unmarked := watch.account.unmarked || (observer'.persistenceFailed && !files'.failure) } }
        with hwatch'
      have hlater : watch.Later watch' :=
        ⟨rfl, rfl, rfl, List.prefix_append _ _, hfailure,
          fun h => by show (_ || _) = true; rw [h]; rfl, fun h => h⟩
      have hfailed : observer'.persistenceFailed = true →
          watch'.files.failure = true ∨ watch'.account.unmarked = true := by
        intro htrue
        show files'.failure = true ∨ (_ || (observer'.persistenceFailed && _)) = true
        rw [htrue]
        cases files'.failure with
        | true => exact Or.inl rfl
        | false => exact Or.inr (by rw [Bool.not_false, Bool.and_true, Bool.or_true])
      -- where nothing has failed, the event is on disk
      have hsound : watch'.Sound → observer'.persistenceFailed = false := by
        intro hs
        by_contra htrue
        rcases hfailed (Bool.eq_true_of_not_eq_false htrue) with hf | hu
        · rw [hs.failure] at hf
          cases hf
        · rw [hs.unmarked] at hu
          cases hu
      have hall : watch'.Sound → written' = watch'.account.emitted := by
        intro hs
        rw [(hsaved (hsound hs)).2.1, h.recorded.all (hlater.sound hs)]
      exact
        { recorded :=
            { disk := hholds
              emitted := by
                intro old hold
                show old ∈ watch.account.emitted ++ [event]
                rcases hwritten with rfl | rfl
                · exact List.mem_append_left _ (h.recorded.emitted old hold)
                · exact (List.mem_append.mp hold).elim
                    (fun hold => List.mem_append_left _ (h.recorded.emitted old hold))
                    (List.mem_append_right _)
              whole := fun hs => (hsaved (hsound hs)).2.2
              all := hall
              reported := fun hs => by
                show watch.account.reported ++ _ =
                  ((watch.account.emitted ++ [event]).filter _).map _
                rw [h.recorded.reported (hlater.sound hs), List.filter_append, List.map_append,
                  ← hmakes.changes, List.filter_singleton]
                cases event.isNormative <;> rfl }
          live := fun other hother => by
            obtain rfl := Option.some.inj hother
            exact h.live_made hobserver hmakes hpoisoned hlater hwritten rfl rfl
              (fun hfalse => ⟨(hsaved hfalse).1, (hsaved hfalse).2.1⟩)
              (fun hs => ⟨hall hs, hholds.holds.acceptedIncreasing, hholds.holds.acceptedPositive⟩)
              hfailed
          dead := fun hnone => by cases hnone
          shown := h.shown.later hlater
          polls := h.polls.later hlater
            (fun old hold => by
              rcases hwritten with rfl | rfl
              · exact hold
              · exact List.mem_append_left _ hold)
            fun _ _ _ howned => owned_report hobserver watch' rfl rfl
              (fun _ => List.mem_append_left _) (fun hfalse => (hsaved hfalse).1) howned
          told := fun told heq => (h.told told heq).later hlater }

/-! ### Polls -/

/-- A step that only moves the poll. -/
theorem move (h : watch.Inv id written torn segment) (reported : List OperationState)
    (given : List OperationEvent) {poll : Poll}
    (hpolls : Watch.Polls { watch with
      poll
      account := { watch.account with reportedThen := reported, givenThen := given } }
      written poll) :
    Watch.Inv id { watch with
      poll
      account := { watch.account with reportedThen := reported, givenThen := given } }
      written torn segment where
  recorded := ⟨h.recorded.disk, h.recorded.emitted, fun hs => h.recorded.whole ⟨hs.1, hs.2, hs.3⟩,
    fun hs => h.recorded.all ⟨hs.1, hs.2, hs.3⟩, fun hs => h.recorded.reported ⟨hs.1, hs.2, hs.3⟩⟩
  live := fun observer hobserver =>
    have hlive := h.live observer hobserver
    ⟨hlive.keeps, hlive.last, hlive.agree, hlive.saved, hlive.emitted,
      fun hs => hlive.ordered ⟨hs.1, hs.2, hs.3⟩, fun hs => hlive.changes ⟨hs.1, hs.2, hs.3⟩,
      hlive.failed, hlive.poisoned⟩
  dead := h.dead
  shown := ⟨h.shown.orderly, h.shown.sorted, h.shown.emitted,
    fun hs => h.shown.caught ⟨hs.1, hs.2, hs.3⟩⟩
  polls := hpolls
  told := fun told heq => ⟨(h.told told heq).shown, (h.told told heq).complete⟩

/-- **A poll begins** -/
theorem ask (h : watch.Inv id written torn segment) (own : Bool) :
    (watch.askTurn own).Inv id written torn segment := by
  unfold Watch.askTurn
  cases watch.poll with
  | idle =>
      exact h.move watch.account.reportedThen watch.account.givenThen rfl
  | asked | history | failure => exact h

/-- What a history that was read says, where nothing has failed. -/
theorem reads_all (h : watch.Inv id written torn segment) (hsound : watch.Sound)
    {after : UInt64} {history : Except EventLogError EventHistory}
    (hhistory : ∀ read, history = .ok read →
      read = ⟨segment.events.filter fun event => event.sequence = 0 || after < event.sequence,
        decide (torn ≠ [])⟩) :
    HistoryRead watch.ui { watch.account with reportedThen := watch.account.reported } after history
      watch.account.emitted := by
  have hholds := h.recorded.disk.holds
  have hall := h.recorded.all hsound
  have hkept : ∀ events : List OperationEvent, (events = segment.events.filter fun event =>
      event.sequence = 0 || after < event.sequence) → ∀ event ∈ numbered events,
        after < event.sequence ∧ event ∈ segment.kept := by
    rintro events rfl event hevent
    obtain ⟨hevent, hpositive⟩ := mem_numbered.mp hevent
    obtain ⟨hevent, hafter⟩ := List.mem_filter.mp hevent
    rw [Bool.or_eq_true, decide_eq_true_eq, decide_eq_true_eq] at hafter
    refine ⟨hafter.resolve_left hpositive, ?_⟩
    rcases List.mem_append.mp hevent with hmarker | hkept
    · obtain ⟨discarded, -, hmarks⟩ := hholds.technical
      rw [Segment.Marks, Option.mem_toList.mp hmarker] at hmarks
      obtain ⟨-, incoming, rfl⟩ := hmarks
      exact absurd markerOf_sequence hpositive
    · exact hkept
  constructor
  case prefix_emitted => exact List.prefix_refl _
  case increasing => rw [← hall]; exact hholds.acceptedIncreasing
  case positive => rw [← hall]; exact hholds.acceptedPositive
  case reported => exact h.recorded.reported hsound
  case caught => exact h.shown.caught hsound
  case whole =>
    intro read heq
    rw [hhistory read heq, h.recorded.whole hsound]
    rfl
  case ordered =>
    intro read heq
    have hsub : (numbered read.events).Sublist (numbered segment.events) := by
      rw [hhistory read heq]
      exact (List.filter_sublist).filter _
    refine List.Pairwise.sublist hsub ?_
    rw [Segment.events, numbered_append, numbered_eq_self hholds.positive]
    refine List.pairwise_append.mpr ⟨?_, hholds.increasing, fun marker hmarker => ?_⟩
    · cases segment.marker with
      | none => exact List.Pairwise.nil
      | some marker => exact (List.pairwise_singleton _ marker).filter _
    · obtain ⟨hmarker, hpositive⟩ := mem_numbered.mp hmarker
      obtain ⟨discarded, -, hmarks⟩ := hholds.technical
      rw [Segment.Marks, Option.mem_toList.mp hmarker] at hmarks
      obtain ⟨-, incoming, rfl⟩ := hmarks
      exact absurd markerOf_sequence hpositive
  case above =>
    intro read heq event hevent
    obtain ⟨hafter, hevent⟩ := hkept read.events (by rw [hhistory read heq]) event hevent
    exact ⟨hafter, h.recorded.emitted event (hholds.mem_accepted hevent)⟩
  case changes =>
    intro read heq
    rw [hhistory read heq, ← hall, ← hholds.normative_after after, changesOf, numbered,
      List.filter_filter]
    refine List.filter_congr fun event _ => ?_
    simp only [UInt64.pos_iff_ne_zero]

/-- **The history is read** -/
theorem readHistory (h : watch.Inv id written torn segment) (hreads : ReadsEvents fromSlice)
    (opening : Except EventLogError Unit) :
    (watch.readHistoryTurn fromSlice id opening).Inv id written torn segment := by
  unfold Watch.readHistoryTurn
  have hpolls := h.polls
  cases hpoll : watch.poll with
  | idle | history | failure => exact h
  | asked own after =>
      rw [hpoll] at hpolls
      have hholds := h.recorded.disk.holds
      have hhistory : ∀ read, loadEvents fromSlice id opening watch.files.events after = .ok read →
          read = ⟨segment.events.filter fun event => event.sequence = 0 || after < event.sequence,
            decide (torn ≠ [])⟩ := by
        intro read heq
        rcases h.recorded.disk.load hreads opening after with ⟨e, heq'⟩ | heq' <;> rw [heq] at heq'
        · cases heq'
        · exact Except.ok.inj heq'
      refine h.move _ _ ⟨⟨hpolls, ?_, fun _ => ⟨h.dead, fun _ _ _ h => h, ?_⟩⟩, fun hs => ?_⟩
      · intro read heq event hevent
        rw [hhistory read heq] at hevent
        obtain ⟨hevent, hpositive⟩ := mem_numbered.mp hevent
        exact (hholds.zero_or_accepted (List.mem_of_mem_filter hevent)).resolve_left hpositive
      · intro observer hobserver hfalse read heq _ event hevent hafter
        obtain ⟨hgiven, hpositive, hnormative⟩ := mem_changesOf.mp hevent
        have hwritten := (h.live observer hobserver).saved hfalse event
          (mem_numbered.mpr ⟨hgiven, hpositive⟩) hnormative
        -- a state change that was written is kept
        have hkept : event ∈ segment.kept.filter OperationEvent.isNormative := by
          rw [hholds.normative]
          exact List.mem_filter.mpr ⟨hwritten, hnormative⟩
        rw [hhistory read heq]
        refine List.mem_filter.mpr ⟨List.mem_append_right _ (List.mem_of_mem_filter hkept), ?_⟩
        rw [decide_eq_true hafter, Bool.or_true]
      · exact ⟨_, (h.reads_all ⟨hs.1, hs.2, hs.3⟩ hhistory).mono (List.prefix_refl _) rfl⟩

/-- **The marker is looked for** -/
theorem readFailure (h : watch.Inv id written torn segment) :
    watch.readFailureTurn.Inv id written torn segment := by
  unfold Watch.readFailureTurn
  have hpolls := h.polls
  cases hpoll : watch.poll with
  | idle | asked | failure => exact h
  | history own after history =>
      rw [hpoll] at hpolls
      exact h.move watch.account.reportedThen watch.account.givenThen
        ⟨⟨hpolls.1.1, hpolls.1.2, fun hown =>
          ⟨(hpolls.1.3 hown).1, (hpolls.1.3 hown).2, (hpolls.1.3 hown).3⟩⟩, fun h => h,
          fun hf hu hp => hpolls.2 ⟨hf, hu, hp⟩⟩

/-! ### The answer -/

section

variable {own failure : Bool} {after : UInt64} {history : Except EventLogError EventHistory}
  (requestId : String) (state : OperationStateRecord) (report : Option InventoryReport)

/-- What the status of a poll has read. -/
def readsOf (watch : Watch) (own : Bool) (history : Except EventLogError EventHistory)
    (failure : Bool) : StatusReads :=
  ⟨history, failure, if own then watch.observer else none⟩

theorem observer_readsOf {observer : Observer}
    (h : (readsOf watch own history failure).observer = some observer) :
    own = true ∧ watch.observer = some observer := by
  cases own with
  | true => exact ⟨rfl, h⟩
  | false => cases h

/-- The diagnostic has no sequence. -/
theorem numbered_reply (reads : StatusReads) :
    numbered (statusReply requestId id state report reads after).events =
      numbered (reads.collect after).1 := by
  show numbered ((reads.collect after).1 ++ ((reads.collect after).2.map _).toList) = _
  rw [numbered_append]
  cases (reads.collect after).2 with
  | none => exact List.append_nil _
  | some code =>
      show _ ++ numbered [historyDiagnostic id state code] = _
      rw [numbered_cons_zero rfl]
      exact List.append_nil _

theorem collect_error (reads : StatusReads) {code : String}
    (h : (reads.collect after).2 = some code) :
    code = StatusReads.readFailed ∨ code = StatusReads.writeFailed := by
  have hdisk : ∀ code, reads.onDisk.2 = some code →
      code = StatusReads.readFailed ∨ code = StatusReads.writeFailed := by
    intro code h
    obtain ⟨history, failure, observer⟩ := reads
    cases failure with
    | true => exact Or.inr (Option.some.inj h).symm
    | false =>
        rcases history with e | ⟨events, _ | _⟩
        · exact Or.inl (Option.some.inj h).symm
        · cases h
        · exact Or.inl (Option.some.inj h).symm
  rw [StatusReads.collect] at h
  cases hobserver : reads.observer with
  | none => rw [hobserver] at h; exact hdisk code h
  | some observer =>
      rw [hobserver] at h
      dsimp only at h
      split_ifs at h with hpoisoned hfailed hsome hsome
      · exact Or.inl (Option.some.inj h).symm
      · exact Or.inr (Option.some.inj h).symm
      · exact hdisk code h

/-- Without a warning nothing was wrong. -/
theorem collect_of_not_warns {reads : StatusReads}
    (h : ¬ (statusReply requestId id state report reads after).Warns) :
    (reads.collect after).2 = none := by
  by_contra hne
  obtain ⟨code, hcode⟩ := Option.ne_none_iff_exists'.mp hne
  refine h ⟨historyDiagnostic id state code, ?_, rfl, ?_⟩
  · show _ ∈ (reads.collect after).1 ++ ((reads.collect after).2.map _).toList
    rw [hcode]
    exact List.mem_append_right _ (List.mem_singleton_self _)
  · rcases collect_error reads hcode with rfl | rfl
    · exact Or.inl rfl
    · exact Or.inr rfl

variable {requestId state report}

/-- An answer without a diagnostic shows everything there was when its history was read. -/
theorem shows_all (h : watch.Inv id written torn segment) {reads : StatusReads}
    (hcursor : after = watch.ui.lastSequence) {emitted : List OperationEvent}
    (hreads : HistoryRead watch.ui watch.account after reads.history emitted)
    (hnone : (reads.collect after).2 = none) :
    let ui := watch.ui.addEvents (statusReply requestId id state report reads after).events
    changesOf ui.events = emitted.filter OperationEvent.isNormative ∧ Caught ui emitted := by
  obtain ⟨-, hhistory, -⟩ := StatusReads.collect_quiet hnone
  have hchanges := hreads.changes _ hhistory
  have hordered := hreads.ordered _ hhistory
  have habove := hreads.above _ hhistory
  subst hcursor
  refine hreads.caught.add h.shown.orderly h.shown.sorted hreads.increasing hreads.positive
    ?_ ?_ ?_ ?_
  · rw [numbered_reply]
    exact hordered
  · rw [numbered_reply]
    exact fun item hitem => (habove item hitem).1
  · rw [numbered_reply]
    exact fun item hitem => (habove item hitem).2
  · rw [changesOf, numbered_reply]
    exact hchanges

/-- Where nothing has failed, and the history could not be read all the same, the log in memory
stands in for it, and without one nothing is added. -/
theorem shows_log (h : watch.Inv id written torn segment) (hsound : watch.Sound)
    (hcursor : after = watch.ui.lastSequence) {e : EventLogError} :
    Caught (watch.ui.addEvents (statusReply requestId id state report
      (readsOf watch own (.error e) failure) after).events) watch.account.emitted := by
  have hcaught := h.shown.caught hsound
  cases hobserver : (readsOf watch own (.error e) failure).observer with
  | none =>
      have hnil : numbered (statusReply requestId id state report
          (readsOf watch own (.error e) failure) after).events = [] := by
        rw [numbered_reply, StatusReads.collect, hobserver]
        rfl
      have hsame := Ui.addEvents_new h.shown.orderly h.shown.sorted
        (hnil ▸ List.Pairwise.nil) (by rw [hnil]; exact fun _ h => by cases h)
      rw [hnil, List.append_nil] at hsame
      obtain ⟨known, hknown, hchanges, hshown⟩ := hcaught
      exact ⟨known, hknown, by rw [changesOf, hsame]; exact hchanges, by rw [hsame]; exact hshown⟩
  | some observer =>
      obtain ⟨-, hlivesome⟩ := observer_readsOf hobserver
      have hlive := h.live observer hlivesome
      have hpoisoned : observer.poisoned = false := by
        cases hp : observer.poisoned with
        | false => rfl
        | true => exact absurd (hlive.poisoned hp) (by rw [hsound.poisoned]; decide)
      have hholds := h.recorded.disk.holds
      have hall := h.recorded.all hsound
      obtain ⟨discarded, hretained⟩ := hlive.keeps.retained
      -- the log above the cursor
      set items := StatusReads.after observer.log after with hitems
      have hnumbered : ∀ event ∈ items, event.sequence ≠ 0 := by
        intro event hevent
        have hafter := of_decide_eq_true (List.mem_filter.mp hevent).2
        rintro hzero
        rw [hzero] at hafter
        exact absurd hafter (UInt64.not_lt.mpr UInt64.zero_le)
      have hself : numbered items = items := numbered_eq_self hnumbered
      have hincreasing : items.Pairwise (·.sequence < ·.sequence) := by
        rw [← hself]
        refine (hlive.ordered hsound).sublist ?_
        exact (List.filter_sublist.trans hretained.sublist).filter _
      have hcollect :
          (StatusReads.collect (readsOf watch own (.error e) failure) after).1 = items := by
        rw [StatusReads.collect_unread hobserver hpoisoned rfl,
          StatusReads.merge_eq_self hincreasing]
      subst hcursor
      refine (hcaught.add h.shown.orderly h.shown.sorted (by rw [← hall]; exact
        hholds.acceptedIncreasing) (by rw [← hall]; exact hholds.acceptedPositive) ?_ ?_ ?_ ?_).2
      · rw [numbered_reply, hcollect, hself]
        exact hincreasing
      · rw [numbered_reply, hcollect, hself]
        exact fun item hitem => of_decide_eq_true (List.mem_filter.mp hitem).2
      · rw [numbered_reply, hcollect]
        intro item hitem
        obtain ⟨hitem, hpositive⟩ := mem_numbered.mp hitem
        exact hlive.emitted item (mem_numbered.mpr
          ⟨hretained.sublist.subset (List.mem_of_mem_filter hitem), hpositive⟩)
      · rw [changesOf, numbered_reply, hcollect, ← hlive.changes hsound]
        show (numbered (List.filter _ _)).filter _ = ((numbered _).filter _).filter _
        rw [numbered, numbered, List.filter_comm _ _ watch.account.given, ← hretained.normative]
        simp only [List.filter_filter]
        refine List.filter_congr fun event _ => ?_
        ac_rfl

/-- The process of the worker answers with every change its log was given. -/
theorem answers_given (h : watch.Inv id written torn segment)
    (hpolled : watch.Polled written own after history) (hown : own = true)
    (hpoisoned : watch.account.poisoned = false) {event : OperationEvent}
    (hevent : event ∈ changesOf watch.account.givenThen) (hafter : after < event.sequence)
    (hbelow : event.sequence.toNat < u64Max) :
    event ∈ ((readsOf watch own history failure).collect after).1 := by
  have howned := hpolled.owned hown
  subst hown
  cases hobserver : watch.observer with
  | none =>
      rw [howned.alone hobserver] at hevent
      cases hevent
  | some observer =>
      have hlive := h.live observer hobserver
      have hreads : (readsOf watch true history failure).observer = some observer := hobserver
      obtain ⟨hthen, hpositive, hnormative⟩ := mem_changesOf.mp hevent
      have hgiven := howned.given observer hobserver event hthen
      by_cases hnone : ((readsOf watch true history failure).collect after).2 = none
      · -- nothing was wrong: it is on disk
        obtain ⟨-, hhistory, hfailed⟩ := StatusReads.collect_quiet hnone
        exact howned.saved observer hobserver (hfailed observer hreads) _ hhistory rfl event hevent
          hafter
      · -- something was: it is in the log, and no other event has its sequence
        obtain ⟨discarded, hretained⟩ := hlive.keeps.retained
        have hlog : event ∈ observer.log.events.filter OperationEvent.isNormative := by
          rw [hretained.normative]
          exact List.mem_filter.mpr ⟨hgiven, hnormative⟩
        have hunpoisoned : observer.poisoned = false :=
          false_of_imp hlive.poisoned hpoisoned
        obtain ⟨same, hsame, heq⟩ := StatusReads.collect_covers hreads hunpoisoned hnone
          (List.mem_of_mem_filter hlog) hafter
        have hknown : same ∈ written ∨ same ∈ watch.account.given := by
          rcases StatusReads.mem_collect hsame with ⟨read, hread, hmem⟩ | ⟨other, hother, hmem⟩
          · exact Or.inl (hpolled.written read hread same
              (mem_numbered.mpr ⟨hmem, heq ▸ hpositive⟩))
          · rw [hreads, Option.mem_def, Option.some.injEq] at hother
            exact Or.inr (hretained.sublist.subset (hother ▸ hmem))
        obtain rfl :=
          hlive.agree same hknown event (mem_numbered.mpr ⟨hgiven, hpositive⟩) heq hbelow
        exact hsame

/-- **The answer** -/
theorem answer (h : watch.Inv id written torn segment) :
    (watch.answerTurn id requestId state report).Inv id written torn segment := by
  unfold Watch.answerTurn
  have hpolls := h.polls
  cases hpoll : watch.poll with
  | idle | asked | history => exact h
  | failure own after history failure =>
      rw [hpoll] at hpolls
      obtain ⟨hpolled, hmarked, hread⟩ := hpolls
      set reply := statusReply requestId id state report (readsOf watch own history failure) after
        with hreply
      show (watch.receive own after reply).Inv id written torn segment
      have hmem : ∀ event ∈ numbered reply.events, event ∈ watch.account.emitted := by
        intro event hevent
        rw [hreply, numbered_reply] at hevent
        obtain ⟨hevent, hpositive⟩ := mem_numbered.mp hevent
        rcases StatusReads.mem_collect hevent with ⟨read, hread, hmem⟩ | ⟨observer, hobserver, hmem⟩
        · exact h.recorded.emitted event
            (hpolled.written read hread event (mem_numbered.mpr ⟨hmem, hpositive⟩))
        · have hlive := h.live observer (observer_readsOf hobserver).2
          obtain ⟨discarded, hretained⟩ := hlive.keeps.retained
          exact hlive.emitted event
            (mem_numbered.mpr ⟨hretained.sublist.subset hmem, hpositive⟩)
      have hcaught : watch.Sound →
          Caught (watch.ui.addEvents reply.events) watch.account.emitted := by
        intro hs
        have hfailure : failure = false := false_of_imp hmarked hs.failure
        obtain ⟨emitted, hreads⟩ := hread hfailure hs.unmarked hs.poisoned
        cases history with
        | error e => exact h.shows_log hs hpolled.cursor
        | ok read =>
            -- a history that was read is whole, so there is no diagnostic
            have hnone : ((readsOf watch own (.ok read) failure).collect after).2 = none := by
              have hdisk : (readsOf watch own (.ok read) failure).onDisk = (read.events, none) := by
                rw [StatusReads.onDisk]
                simp only [readsOf, hreads.whole read rfl, hfailure, Bool.false_eq_true, if_false]
              cases hobserver : (readsOf watch own (.ok read) failure).observer with
              | none => rw [StatusReads.collect, hobserver, hdisk]
              | some observer =>
                  have hlive := h.live observer (observer_readsOf hobserver).2
                  have hunpoisoned := false_of_imp hlive.poisoned hs.poisoned
                  have hsaved : observer.persistenceFailed = false := by
                    by_contra htrue
                    rcases hlive.failed (Bool.eq_true_of_not_eq_false htrue) with hf | hu
                    · rw [hs.failure] at hf
                      cases hf
                    · rw [hs.unmarked] at hu
                      cases hu
                  rw [StatusReads.collect, hobserver]
                  simp only [hunpoisoned, hsaved, hdisk, Bool.false_eq_true, if_false,
                    Option.isSome_none]
            exact (h.shows_all hpolled.cursor hreads hnone).2.mono hreads.prefix_emitted
      exact
        { recorded := ⟨h.recorded.disk, h.recorded.emitted,
            fun hs => h.recorded.whole ⟨hs.1, hs.2, hs.3⟩,
            fun hs => h.recorded.all ⟨hs.1, hs.2, hs.3⟩,
            fun hs => h.recorded.reported ⟨hs.1, hs.2, hs.3⟩⟩
          live := fun observer hobserver =>
            have hlive := h.live observer hobserver
            ⟨hlive.keeps, hlive.last, hlive.agree, hlive.saved, hlive.emitted,
              fun hs => hlive.ordered ⟨hs.1, hs.2, hs.3⟩,
              fun hs => hlive.changes ⟨hs.1, hs.2, hs.3⟩, hlive.failed, hlive.poisoned⟩
          dead := h.dead
          shown :=
            { orderly := h.shown.orderly.addEvents _
              sorted := Ui.sorted_addEvents _ _
              emitted := fun event hevent => by
                rcases Ui.mem_addEvents hevent with hold | hnew
                · exact h.shown.emitted event hold
                · exact hmem event (mem_numbered.mpr ⟨hnew, (mem_numbered.mp hevent).2⟩)
              caught := fun hs => hcaught ⟨hs.1, hs.2, hs.3⟩ }
          polls := trivial
          told := by
            intro told heq
            obtain rfl := Option.some.inj heq
            constructor
            case shown =>
              intro hwarns hunmarked hpoisoned
              have hnone := collect_of_not_warns requestId state report hwarns
              obtain ⟨hfailure, -, -⟩ := StatusReads.collect_quiet hnone
              obtain ⟨emitted, hreads⟩ := hread hfailure hunmarked hpoisoned
              show (changesOf (watch.ui.addEvents reply.events).events).map _ =
                watch.account.reportedThen
              rw [(h.shows_all hpolled.cursor hreads hnone).1, hreads.reported]
            case complete =>
              intro hown hpoisoned event hevent hafter hbelow
              exact List.mem_append_left _
                (h.answers_given hpolled hown hpoisoned hevent hafter hbelow) }

end

/-! ### Runs -/

/-- **One step** keeps the invariant. -/
theorem turn (h : watch.Inv id written torn segment) (hreads : ReadsEvents fromSlice)
    (turn : WatchTurn) : ∃ written' torn' segment',
      (watch.turn fromSlice id turn).Inv id written' torn' segment' := by
  cases turn with
  | start opening state => exact ⟨_, _, _, h.start hreads opening state⟩
  | stop => exact ⟨_, _, _, h.stop⟩
  | report call report =>
      unfold Watch.turn
      cases hobserver : watch.observer with
      | none => exact ⟨_, _, _, h⟩
      | some observer => exact h.report hreads call report hobserver
  | ask own => exact ⟨_, _, _, h.ask own⟩
  | readHistory opening => exact ⟨_, _, _, h.readHistory hreads opening⟩
  | readFailure => exact ⟨_, _, _, h.readFailure⟩
  | answer requestId state report => exact ⟨_, _, _, h.answer⟩
  | noAnswer =>
      exact ⟨_, _, _, @move id watch written torn segment h watch.account.reportedThen
        watch.account.givenThen .idle trivial⟩
  | reopen =>
      refine ⟨written, torn, segment, ⟨⟨h.recorded.disk, h.recorded.emitted,
        fun hs => h.recorded.whole ⟨hs.1, hs.2, hs.3⟩, fun hs => h.recorded.all ⟨hs.1, hs.2, hs.3⟩,
        fun hs => h.recorded.reported ⟨hs.1, hs.2, hs.3⟩⟩, fun observer hobserver => ?_, h.dead,
        ⟨Ui.orderly_empty, List.Pairwise.nil, fun _ h => absurd h List.not_mem_nil,
          fun _ => ⟨[], List.nil_prefix, rfl, fun _ h => absurd h List.not_mem_nil⟩⟩, trivial,
        fun told heq => absurd heq (Option.some_ne_none told).symm⟩⟩
      have hlive := h.live observer hobserver
      exact ⟨hlive.keeps, hlive.last, hlive.agree, hlive.saved, hlive.emitted,
        fun hs => hlive.ordered ⟨hs.1, hs.2, hs.3⟩, fun hs => hlive.changes ⟨hs.1, hs.2, hs.3⟩,
        hlive.failed, hlive.poisoned⟩

/-- Any steps keep it. -/
theorem run (h : watch.Inv id written torn segment) (hreads : ReadsEvents fromSlice)
    (turns : List WatchTurn) : ∃ written' torn' segment',
      (watch.run fromSlice id turns).Inv id written' torn' segment' := by
  induction turns generalizing watch written torn segment with
  | nil => exact ⟨written, torn, segment, h⟩
  | cons turn turns ih =>
      obtain ⟨written', torn', segment', h'⟩ := h.turn hreads turn
      exact ih h'

end Watch.Inv

/-- **The window tells all of it, or that something is wrong.**  After any steps of worker,
services and window:

* what the window shows has increasing sequences, and was reported;
* after an answer without a warning the state changes it shows are exactly those reported before
  the history was read, in their order — unless a marker could not be left, or a log is poisoned;
* a service that runs the worker answers with every state change above the cursor that its log
  had been given, whatever has failed — unless the log is poisoned, or at the last sequence. -/
theorem watch_complete (hreads : ReadsEvents fromSlice) (id : String) (turns : List WatchTurn) :
    let watch := Watch.start.run fromSlice id turns
    (numbered watch.ui.events).Pairwise (·.sequence < ·.sequence) ∧
    (∀ event ∈ numbered watch.ui.events, event ∈ watch.account.emitted) ∧
    ∀ told, watch.account.told = some told → told.Keeps watch := by
  intro watch
  obtain ⟨written, torn, segment, h⟩ := (Watch.Inv.new id).run hreads turns
  refine ⟨?_, h.shown.emitted, h.told⟩
  have hsorted : (numbered watch.ui.events).Pairwise StatusReads.NotAfter := h.shown.sorted.filter _
  exact (hsorted.and h.shown.orderly.distinct).imp fun hboth =>
    UInt64.lt_of_le_of_ne hboth.1 hboth.2

/-- A worker reports a state, and the window polls. -/
def Sample.watched : List WatchTurn :=
  [.start (.ok ()) .awaitingConfirmation,
    .report ⟨⟨.ok (), .ok ()⟩, .done, true, "2026-01-01T00:00:00Z"⟩ (.stateChanged .applying),
    .ask false, .readHistory (.ok ()), .readFailure, .answer "poll" Sample.record none]

theorem watch_complete_sample :
    let watch := Watch.start.run readBack sampleLogId Sample.watched
    ∃ told, watch.account.told = some told ∧ told.reported = [.applying] ∧ told.Keeps watch :=
  ⟨_, rfl, rfl, (watch_complete readsEvents_readBack sampleLogId Sample.watched).2.2 _ rfl⟩

end LyraUpgrade
