import LyraUpgrade.Service.EventHistory

/-!
# Incremental readers

A client that polls `load_events` with the greatest sequence it was given so far, between
any calls of `append_event`.  Between two polls the file may grow, and it may be rewritten
without events that the reader has seen, or has not.

The lock on `.events.lock` makes each call one step.  A poll that fails gives the reader
nothing and leaves its cursor where it is.

## Main definitions

* `Reading`: the journal, and what one reader was given.
* `Reading.Follows`: the invariant.

## Main results

* `reading_complete`: no normative event is missed or given twice.
-/

namespace LyraUpgrade

open Encoding

/-- What an event log does next: a call of the writer, or a poll, with what the system
says to opening and locking the file. -/
inductive LogTurn
  | append (access : Access) (event : OperationEvent)
  | poll (opening : Except EventLogError Unit)

/-- A reader of a journal. -/
structure Reading where
  journal : Journal
  /-- Everything the polls returned, in order. -/
  returned : List OperationEvent
  /-- What had been accepted at the last poll that returned a history. -/
  known : List OperationEvent

namespace Reading

variable (fromSlice : List UInt8 → Option OperationEvent) (id : String)

/-- The greatest sequence returned so far, 0 at first. -/
def after (reading : Reading) : UInt64 :=
  reading.returned.foldr
    (fun event high => if high < event.sequence then event.sequence else high) 0

/-- One turn. -/
def turn (reading : Reading) : LogTurn → Reading
  | .append access event =>
      { reading with journal := reading.journal.step fromSlice id (access, event) }
  | .poll opening =>
      match loadEvents fromSlice id opening reading.journal.file reading.after with
      | .error _ => reading
      | .ok history =>
          { reading with
            returned := reading.returned ++ history.events
            known := reading.journal.accepted }

/-- Any turns, one after the other. -/
def run (reading : Reading) (turns : List LogTurn) : Reading :=
  turns.foldl (turn fromSlice id) reading

/-- A reader that has not polled yet. -/
def start (journal : Journal) : Reading := ⟨journal, [], []⟩

end Reading

/-! ## The cursor -/

namespace Reading

variable {reading : Reading}

private theorem le_greatest (events : List OperationEvent) :
    ∀ event ∈ events, event.sequence ≤ events.foldr
      (fun event high => if high < event.sequence then event.sequence else high) 0 := by
  induction events with
  | nil => exact fun _ h => absurd h List.not_mem_nil
  | cons first events ih =>
      intro event hevent
      rw [List.foldr_cons]
      split_ifs with hlt
      · rcases List.mem_cons.mp hevent with rfl | hevent
        · exact UInt64.le_refl _
        · exact UInt64.le_trans (ih event hevent) (UInt64.le_of_lt hlt)
      · rcases List.mem_cons.mp hevent with rfl | hevent
        · exact UInt64.not_lt.mp hlt
        · exact ih event hevent

private theorem greatest_cases (events : List OperationEvent) :
    let greatest := events.foldr
      (fun event high => if high < event.sequence then event.sequence else high) 0
    greatest = 0 ∨ ∃ event ∈ events, event.sequence = greatest := by
  induction events with
  | nil => exact Or.inl rfl
  | cons first events ih =>
      intro greatest
      simp only [greatest, List.foldr_cons]
      split_ifs with hlt
      · exact Or.inr ⟨first, List.mem_cons_self .., rfl⟩
      · rcases ih with hzero | ⟨event, hevent, heq⟩
        · exact Or.inl hzero
        · exact Or.inr ⟨event, List.mem_cons_of_mem _ hevent, heq⟩

/-- Nothing returned so far is above the cursor. -/
theorem le_after {event : OperationEvent} (h : event ∈ reading.returned) :
    event.sequence ≤ reading.after :=
  le_greatest _ event h

/-- The cursor is the sequence of an event that was returned. -/
theorem after_cases : reading.after = 0 ∨
    ∃ event ∈ reading.returned, event.sequence = reading.after :=
  greatest_cases _

end Reading

/-! ## One poll -/

variable {fromSlice : List UInt8 → Option OperationEvent} {id : String}
variable {accepted : List OperationEvent} {segment : Segment}

/-- A poll fails, or returns the events above the cursor. -/
theorem loadEvents_cases (h : segment.Holds id accepted) (hreads : ReadsEvents fromSlice)
    (opening : Except EventLogError Unit) {file : Option (List UInt8)}
    (hfile : file.getD [] = segment.bytes) (after : UInt64) :
    (∃ e, loadEvents fromSlice id opening file after = .error e) ∨
    loadEvents fromSlice id opening file after =
      .ok ⟨segment.events.filter fun event => event.sequence = 0 || after < event.sequence,
        false⟩ := by
  cases hid : validUuid id with
  | false =>
      left
      refine ⟨.unsafePath, ?_⟩
      unfold loadEvents
      rw [hid]
      rfl
  | true =>
      cases opening with
      | error e =>
          left
          refine ⟨e, ?_⟩
          unfold loadEvents
          rw [hid]
          rfl
      | ok _ => exact Or.inr (loadEvents_after h hreads hid hfile after)

/-- What a poll returns of the normative events: those accepted above the cursor. -/
theorem Segment.Holds.normative_after (h : segment.Holds id accepted) (after : UInt64) :
    (segment.events.filter fun event => event.sequence = 0 || after < event.sequence).filter
        (fun event => event.isNormative && decide (0 < event.sequence)) =
      (accepted.filter OperationEvent.isNormative).filter fun event => after < event.sequence := by
  rw [List.filter_filter, ← h.filter_normative, List.filter_filter]
  refine List.filter_congr fun event _ => ?_
  by_cases hzero : event.sequence = 0
  · rw [hzero]
    simp
  · have hpositive := UInt64.pos_iff_ne_zero.mpr hzero
    simp [hzero, hpositive, Bool.and_comm]

/-- What it returns of the technical ones, in order. -/
theorem Segment.Holds.technical_after (h : segment.Holds id accepted) (after : UInt64) :
    let technical :=
      (segment.events.filter fun event => event.sequence = 0 || after < event.sequence).filter
        OperationEvent.isTechnical
    technical.Pairwise (·.sequence < ·.sequence) ∧ ∀ event ∈ technical, after < event.sequence := by
  intro technical
  have heq : technical = (segment.kept.filter OperationEvent.isTechnical).filter
      fun event => event.sequence = 0 || after < event.sequence := by
    show List.filter _ (List.filter _ _) = _
    rw [← h.filter_technical, List.filter_comm]
  rw [heq]
  refine ⟨(h.increasing.filter _).filter _, fun event hevent => ?_⟩
  rw [List.mem_filter, List.mem_filter, Bool.or_eq_true, decide_eq_true_eq,
    decide_eq_true_eq] at hevent
  obtain ⟨⟨hkept, -⟩, hzero | hafter⟩ := hevent
  · exact absurd hzero (h.positive event hkept)
  · exact hafter

/-- Everything in the file is the marker, or was accepted. -/
theorem Segment.Holds.zero_or_accepted (h : segment.Holds id accepted) {event : OperationEvent}
    (hevent : event ∈ segment.events) : event.sequence = 0 ∨ event ∈ accepted := by
  rcases List.mem_append.mp hevent with hmarker | hkept
  · left
    obtain ⟨discarded, -, hmarks⟩ := h.technical
    rw [Segment.Marks, Option.mem_def.mp (Option.mem_toList.mp hmarker)] at hmarks
    obtain ⟨-, incoming, rfl⟩ := hmarks
    exact markerOf_sequence
  · exact Or.inr (h.mem_accepted hkept)

/-! ## The invariant -/

namespace Reading

/-- What the reader has is what was accepted up to its last poll. -/
structure Follows (id : String) (reading : Reading) : Prop where
  accounted : reading.journal.Accounted id
  known : reading.known <+: reading.journal.accepted
  normative : reading.returned.filter
      (fun event => event.isNormative && decide (0 < event.sequence)) =
    reading.known.filter OperationEvent.isNormative
  technical : (reading.returned.filter OperationEvent.isTechnical).Pairwise
    (·.sequence < ·.sequence)
  accepted : ∀ event ∈ reading.returned, event.sequence = 0 ∨ event ∈ reading.known

theorem follows_start {journal : Journal} (h : journal.Accounted id) :
    (start journal).Follows id where
  accounted := h
  known := List.nil_prefix
  normative := rfl
  technical := List.Pairwise.nil
  accepted := fun _ h => absurd h List.not_mem_nil

/-- A call of the writer adds at most an event that the reader does not know. -/
theorem Follows.append {reading : Reading} (h : reading.Follows id)
    (hreads : ReadsEvents fromSlice) (access : Access) (event : OperationEvent) :
    (reading.turn fromSlice id (.append access event)).Follows id := by
  have hgrows : reading.journal.accepted <+:
      (reading.journal.step fromSlice id (access, event)).accepted := by
    rw [Journal.step]
    rcases appendEvent fromSlice id access reading.journal.file event with ⟨_ | _, file⟩
    · exact List.prefix_refl _
    · exact List.prefix_append _ _
  exact
    { accounted := Journal.accounted_step hreads h.accounted (access, event)
      known := h.known.trans hgrows
      normative := h.normative
      technical := h.technical
      accepted := h.accepted }

/-- The cursor separates what the reader knows from what was accepted since. -/
theorem Follows.after_lt {reading : Reading} (h : reading.Follows id)
    {later : List OperationEvent} (hlater : reading.journal.accepted = reading.known ++ later) :
    ∀ event ∈ later, reading.after < event.sequence := by
  obtain ⟨segment, -, hsegment⟩ := h.accounted
  have hincreasing := hsegment.acceptedIncreasing
  have hpositive := hsegment.acceptedPositive
  rw [hlater] at hincreasing hpositive
  intro event hevent
  rcases reading.after_cases with hzero | ⟨last, hlast, heq⟩
  · rw [hzero, UInt64.pos_iff_ne_zero]
    exact hpositive event (List.mem_append_right _ hevent)
  · rcases h.accepted last hlast with hzero | hknown
    · rw [← heq, hzero, UInt64.pos_iff_ne_zero]
      exact hpositive event (List.mem_append_right _ hevent)
    · rw [← heq]
      exact (List.pairwise_append.mp hincreasing).2.2 last hknown event hevent

/-- Of the normative events, those above the cursor are the ones accepted since. -/
theorem Follows.normative_new {reading : Reading} (h : reading.Follows id)
    {later : List OperationEvent} (hlater : reading.journal.accepted = reading.known ++ later) :
    (reading.journal.accepted.filter OperationEvent.isNormative).filter
        (fun event => reading.after < event.sequence) =
      later.filter OperationEvent.isNormative := by
  have hold : (reading.known.filter OperationEvent.isNormative).filter
      (fun event => decide (reading.after < event.sequence)) = [] := by
    rw [← h.normative, List.filter_eq_nil_iff]
    intro event hevent
    rw [decide_eq_true_eq, UInt64.not_lt]
    exact le_after (List.mem_of_mem_filter hevent)
  have hnew : (later.filter OperationEvent.isNormative).filter
      (fun event => decide (reading.after < event.sequence)) =
        later.filter OperationEvent.isNormative := by
    refine List.filter_eq_self.mpr fun event hevent => ?_
    rw [decide_eq_true_eq]
    exact h.after_lt hlater event (List.mem_of_mem_filter hevent)
  rw [hlater, List.filter_append, List.filter_append, hold, hnew, List.nil_append]

/-- A poll catches up with the writer. -/
theorem Follows.poll {reading : Reading} (h : reading.Follows id)
    (hreads : ReadsEvents fromSlice) (opening : Except EventLogError Unit) :
    (reading.turn fromSlice id (.poll opening)).Follows id := by
  obtain ⟨segment, hfile, hsegment⟩ := h.accounted
  obtain ⟨later, hlater⟩ := h.known
  rw [turn]
  rcases loadEvents_cases hsegment hreads opening hfile reading.after with ⟨e, heq⟩ | heq
  · rw [heq]
    exact h
  rw [heq]
  obtain ⟨hordered, habove⟩ := hsegment.technical_after reading.after
  constructor
  case accounted => exact ⟨segment, hfile, hsegment⟩
  case known => exact List.prefix_refl _
  case normative =>
      dsimp only
      rw [List.filter_append, h.normative, hsegment.normative_after, h.normative_new hlater.symm,
        ← List.filter_append, hlater]
  case technical =>
      dsimp only
      rw [List.filter_append, List.pairwise_append]
      refine ⟨h.technical, hordered, fun old hold new hnew => ?_⟩
      exact UInt64.lt_of_le_of_lt (le_after (List.mem_of_mem_filter hold)) (habove new hnew)
  case accepted =>
      intro event hevent
      rcases List.mem_append.mp hevent with hold | hnew
      · refine (h.accepted event hold).imp_right fun hknown => ?_
        rw [← hlater]
        exact List.mem_append_left _ hknown
      · exact hsegment.zero_or_accepted (List.mem_of_mem_filter hnew)

/-- Any turns keep it. -/
theorem Follows.run {reading : Reading} (h : reading.Follows id) (hreads : ReadsEvents fromSlice)
    (turns : List LogTurn) : (reading.run fromSlice id turns).Follows id := by
  induction turns generalizing reading with
  | nil => exact h
  | cons turn turns ih =>
      cases turn with
      | append access event => exact ih (h.append hreads access event)
      | poll opening => exact ih (h.poll hreads opening)

end Reading

/-- **Incremental readers miss no state change.**  After any calls of the writer and any
polls, whatever was compacted in between: the normative events the reader was given are
those accepted before its last poll, in order and each once, and no technical event was
given to it twice. -/
theorem reading_complete (hreads : ReadsEvents fromSlice) {journal : Journal}
    (hempty : journal.IsEmpty) (turns : List LogTurn) :
    let reading := (Reading.start journal).run fromSlice id turns
    reading.returned.filter (fun event => event.isNormative && decide (0 < event.sequence)) =
      reading.known.filter OperationEvent.isNormative ∧
    (reading.returned.filter OperationEvent.isTechnical).Nodup := by
  intro reading
  have h : reading.Follows id :=
    (Reading.follows_start (Journal.accounted_of_isEmpty hempty)).run hreads turns
  refine ⟨h.normative, h.technical.imp fun hlt heq => ?_⟩
  rw [heq] at hlt
  exact UInt64.lt_irrefl _ hlt

/-- Two polls, one before the sample event and one after it. -/
theorem reading_complete_sample :
    let reading := (Reading.start ⟨none, []⟩).run readBack sampleLogId
      [.poll (.ok ()), .append ⟨.ok (), .ok ()⟩ sampleEvent, .poll (.ok ())]
    reading.returned.filter (fun event => event.isNormative && decide (0 < event.sequence)) =
      reading.known.filter OperationEvent.isNormative ∧
    (reading.returned.filter OperationEvent.isTechnical).Nodup :=
  reading_complete readsEvents_readBack ⟨rfl, rfl⟩ _

end LyraUpgrade
