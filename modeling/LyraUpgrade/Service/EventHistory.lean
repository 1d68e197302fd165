import LyraUpgrade.Service.Retention

/-!
# What the event history says

The account that `Segment.Holds` keeps, in the terms of `read_history`, and what it means
for a service that starts again: the sequence it goes on with.

## Main results

* `history_accounts` — every normative event is in the history, and every technical one is
  there or counted.
* `sequences_never_reused` — an event is only accepted above every sequence accepted before,
  and the log restored from the file goes on above all of them.
* `restore_within` — the restored log keeps within the limits of the log in memory.
-/

namespace LyraUpgrade

open Encoding

variable {fromSlice : List UInt8 → Option OperationEvent} {id : String}

/-! ## The account -/

/-- The retention marker of a history. -/
def leadingMarker (events : List OperationEvent) : Option OperationEvent :=
  events.head?.filter fun event => event.sequence = 0

/-- The marker says that so many events are missing; without a marker none are. -/
def CountsMissing (events : List OperationEvent) (missing : ℕ) : Prop :=
  match leadingMarker events with
  | none => missing = 0
  | some marker => marker.lines? = some missing

/-- What a file says of the events accepted into it. -/
structure Accounts (fromSlice : List UInt8 → Option OperationEvent) (id : String)
    (file : List UInt8) (accepted : List OperationEvent) : Prop where
  complete : (readHistory fromSlice id file).incomplete = false
  size : file.length ≤ maxPersistedEventBytes
  records : file = (readHistory fromSlice id file).events.flatMap OperationEvent.line ∧
    ∀ event ∈ (readHistory fromSlice id file).events, event.line.length ≤ maxRecordBytes
  normative : (readHistory fromSlice id file).events.filter
      (fun event => event.isNormative && decide (0 < event.sequence)) =
    accepted.filter OperationEvent.isNormative
  technical : (readHistory fromSlice id file).events.filter OperationEvent.isTechnical <:+
    accepted.filter OperationEvent.isTechnical
  missing : ∃ missing, CountsMissing (readHistory fromSlice id file).events missing ∧
    missing + ((readHistory fromSlice id file).events.filter OperationEvent.isTechnical).length =
      (accepted.filter OperationEvent.isTechnical).length

namespace Segment.Holds

variable {accepted : List OperationEvent} {segment : Segment}

/-- The marker is neither a technical event nor one with a sequence. -/
theorem filter_events (h : segment.Holds id accepted) {p : OperationEvent → Bool}
    (hp : ∀ incoming missing, p (markerOf incoming missing) = false) :
    segment.events.filter p = segment.kept.filter p := by
  obtain ⟨discarded, -, hmarks⟩ := h.technical
  rw [Segment.events, List.filter_append]
  cases hmarker : segment.marker with
  | none => rfl
  | some marker =>
      rw [Segment.Marks, hmarker] at hmarks
      obtain ⟨-, incoming, rfl⟩ := hmarks
      rw [Option.toList_some, List.filter_cons_of_neg (by rw [hp]; decide)]
      rfl

theorem filter_technical (h : segment.Holds id accepted) :
    segment.events.filter OperationEvent.isTechnical =
      segment.kept.filter OperationEvent.isTechnical :=
  h.filter_events fun _ _ => rfl

theorem filter_normative (h : segment.Holds id accepted) :
    segment.events.filter (fun event => event.isNormative && decide (0 < event.sequence)) =
      accepted.filter OperationEvent.isNormative := by
  rw [h.filter_events fun _ _ => rfl, ← h.normative]
  refine List.filter_congr fun event hevent => ?_
  have hpositive := UInt64.pos_iff_ne_zero.mpr (h.positive event hevent)
  rw [decide_eq_true hpositive, Bool.and_true]

theorem countsMissing (h : segment.Holds id accepted) {discarded : List OperationEvent}
    (heq : accepted.filter OperationEvent.isTechnical =
      discarded ++ segment.kept.filter OperationEvent.isTechnical)
    (hmarks : segment.Marks discarded.length) : CountsMissing segment.events discarded.length := by
  rw [CountsMissing, leadingMarker, Segment.events]
  cases hmarker : segment.marker with
  | none =>
      rw [Segment.Marks, hmarker] at hmarks
      rw [Option.toList_none, List.nil_append]
      cases hkept : segment.kept with
      | nil => exact hmarks
      | cons first kept =>
          have hpositive := h.positive first (hkept ▸ List.mem_cons_self ..)
          have hnone : (some first).filter (fun event => decide (event.sequence = 0)) = none := by
            simp [hpositive]
          rw [List.head?_cons, hnone]
          exact hmarks
  | some marker =>
      rw [Segment.Marks, hmarker] at hmarks
      obtain ⟨-, incoming, rfl⟩ := hmarks
      exact markerOf_lines (h.discarded_le heq)

theorem accounts (h : segment.Holds id accepted) (hreads : ReadsEvents fromSlice) :
    Accounts fromSlice id segment.bytes accepted := by
  have hread := h.read hreads
  obtain ⟨discarded, heq, hmarks⟩ := h.technical
  constructor
  case size => exact h.size
  all_goals rw [hread]
  case records => exact ⟨rfl, h.record⟩
  case normative => exact h.filter_normative
  case technical =>
      rw [h.filter_technical, heq]
      exact List.suffix_append _ _
  case missing =>
      refine ⟨discarded.length, h.countsMissing heq hmarks, ?_⟩
      rw [h.filter_technical, heq, List.length_append]

end Segment.Holds

/-- **The history accounts for every event**, after any calls on an empty one: it is
complete, within its limits, holds all the normative events and the newest of the technical
ones, and its marker counts the others. -/
theorem history_accounts (hreads : ReadsEvents fromSlice) {journal : Journal}
    (hempty : journal.IsEmpty) (calls : List (Access × OperationEvent)) :
    Accounts fromSlice id ((journal.run fromSlice id calls).file.getD [])
      (journal.run fromSlice id calls).accepted := by
  obtain ⟨segment, hfile, h⟩ :=
    Journal.accounted_run hreads (Journal.accounted_of_isEmpty hempty) calls
  rw [hfile]
  exact h.accounts hreads

/-! ### A sample -/

section

/-- The reader that accepts exactly the records that are written. -/
noncomputable def readBack (bytes : List UInt8) : Option OperationEvent :=
  open Classical in
  if h : ∃ event : OperationEvent, bytes = event.toVec ∨ bytes = event.line then some h.choose
  else none

theorem eq_of_record {event event' : OperationEvent}
    (h : event.toVec = event'.toVec ∨ event.toVec = event'.line) : event = event' := by
  rcases h with h | h
  · exact OperationEvent.toVec_injective h
  · have hmem : lineFeed ∈ event.toVec := by
      rw [h]
      exact List.mem_concat_self
    exact absurd hmem event.lineFeed_notMem_toVec

theorem readsEvents_readBack : ReadsEvents readBack := by
  constructor
  · intro event
    have h : ∃ event' : OperationEvent, event.toVec = event'.toVec ∨ event.toVec = event'.line :=
      ⟨event, Or.inl rfl⟩
    rw [readBack, dif_pos h, ← eq_of_record h.choose_spec]
  · intro event
    have h : ∃ event' : OperationEvent, event.line = event'.toVec ∨ event.line = event'.line :=
      ⟨event, Or.inr rfl⟩
    rw [readBack, dif_pos h]
    rcases h.choose_spec with heq | heq
    · have hmem : lineFeed ∈ h.choose.toVec := by
        rw [← heq]
        exact List.mem_concat_self
      exact absurd hmem h.choose.lineFeed_notMem_toVec
    · rw [← OperationEvent.toVec_injective (List.append_cancel_right heq)]

def sampleLogId : String := "12345678-1234-1234-1234-123456789abc"

/-- A technical line of the package manager. -/
def sampleEvent : OperationEvent where
  operationId := sampleLogId
  sequence := 7
  occurredAt := "2026-01-01T00:00:00Z"
  state := .applying
  level := .info
  messageId := "technical-line"
  fields := FactMap.empty
  technical := some ⟨.zypperStdout, "(1/2) Installing", false⟩

/-- The first event of a history. -/
theorem run_first {event : OperationEvent} (howner : event.operationId = id)
    (hpositive : event.sequence ≠ 0) (hrecord : event.line.length ≤ maxRecordBytes)
    (hid : validUuid id) :
    Journal.run fromSlice id ⟨none, []⟩ [(⟨.ok (), .ok ()⟩, event)] =
      ⟨some event.line, [event]⟩ := by
  have hfits : saturatingAdd 0 event.line.length ≤ maxPersistedEventBytes := by
    have hmax : maxRecordBytes ≤ maxPersistedEventBytes := by decide
    exact le_trans (Nat.min_le_left _ _) (by omega)
  have happend : appendEvent fromSlice id ⟨.ok (), .ok ()⟩ none event =
      (.ok (), some event.line) := by
    unfold appendEvent
    rw [if_neg (by simp [howner, hpositive]), encode_eq_ok.mpr ⟨hrecord, rfl⟩, hid]
    dsimp only [Option.getD_none, List.length_nil, List.nil_append]
    rw [if_neg (by decide), checkContents, if_neg (by decide)]
    exact if_pos hfits
  show Journal.step fromSlice id ⟨none, []⟩ (⟨.ok (), .ok ()⟩, event) = _
  rw [Journal.step, happend]
  rfl

theorem sampleRun : Journal.run readBack sampleLogId ⟨none, []⟩
    [(⟨.ok (), .ok ()⟩, sampleEvent)] = ⟨some sampleEvent.line, [sampleEvent]⟩ :=
  run_first rfl (by decide) (by decide +kernel) (by decide +kernel)

theorem history_accounts_sample :
    Accounts readBack sampleLogId sampleEvent.line [sampleEvent] := by
  have hempty : Journal.IsEmpty ⟨none, []⟩ := ⟨rfl, rfl⟩
  have h : Accounts readBack sampleLogId _ _ :=
    history_accounts readsEvents_readBack hempty [(⟨.ok (), .ok ()⟩, sampleEvent)]
  rw [sampleRun] at h
  exact h

end

/-! ## The restored log -/

namespace EventLog

/-- The sequence an event accounts for. -/
def mark (event : OperationEvent) : ℕ :=
  if event.sequence = 0 then event.highSequence?.getD 0 else event.sequence.toNat

theorem restoreEvent_lastSequence (log : EventLog) (event : OperationEvent) :
    (restoreEvent log event).lastSequence = max log.lastSequence (mark event) := by
  unfold restoreEvent mark
  by_cases hzero : event.sequence = 0
  · have hnone : event.sequence.toNat = 0 := by rw [hzero]; rfl
    cases event.technical <;> simp [hzero]
  · cases event.technical <;> simp [hzero]

/-- The restored counter is at least every mark. -/
theorem mark_le_foldl (events : List OperationEvent) (log : EventLog) :
    log.lastSequence ≤ (events.foldl restoreEvent log).lastSequence ∧
      ∀ event ∈ events, mark event ≤ (events.foldl restoreEvent log).lastSequence := by
  induction events generalizing log with
  | nil => exact ⟨Nat.le_refl _, fun _ h => by cases h⟩
  | cons event events ih =>
      obtain ⟨hlog, hevents⟩ := ih (restoreEvent log event)
      rw [restoreEvent_lastSequence] at hlog
      rw [List.foldl_cons, List.forall_mem_cons]
      exact ⟨by omega, by omega, hevents⟩

/-- And it is none but one of them. -/
theorem foldl_lt {n : ℕ} (events : List OperationEvent) (log : EventLog)
    (hlog : log.lastSequence < n) (hevents : ∀ event ∈ events, mark event < n) :
    (events.foldl restoreEvent log).lastSequence < n := by
  induction events generalizing log with
  | nil => exact hlog
  | cons event events ih =>
      rw [List.forall_mem_cons] at hevents
      refine ih (restoreEvent log event) ?_ hevents.2
      rw [restoreEvent_lastSequence]
      exact max_lt hlog hevents.1

theorem dropTechnical_lastSequence (log : EventLog) :
    log.dropTechnical.lastSequence = log.lastSequence := by
  unfold dropTechnical
  split <;> rfl

theorem trimTechnical_lastSequence (turns : ℕ) (log : EventLog) :
    (trimTechnical turns log).lastSequence = log.lastSequence := by
  induction turns generalizing log with
  | zero => rfl
  | succ turns ih =>
      rw [trimTechnical]
      split_ifs
      · rw [ih, dropTechnical_lastSequence]
      · rfl

theorem restore_lastSequence (events : List OperationEvent) :
    (restore events).lastSequence = (events.foldl restoreEvent empty).lastSequence :=
  trimTechnical_lastSequence _ _

/-- The log in memory is within its limits. -/
def Within (log : EventLog) : Prop :=
  log.technicalLines ≤ maxTechnicalLines ∧ log.technicalBytes ≤ maxTechnicalBytes

/-- A turn removes an event, or is the last. -/
theorem dropTechnical_cases (log : EventLog) :
    log.dropTechnical.events.length < log.events.length ∨ log.dropTechnical.Within := by
  unfold dropTechnical
  cases hfind : log.events.find? fun event => event.technical.isSome with
  | none => exact Or.inr ⟨Nat.zero_le _, Nat.zero_le _⟩
  | some event =>
      refine Or.inl ?_
      show (log.events.eraseP fun event => event.technical.isSome).length < log.events.length
      have hmem := List.mem_of_find?_eq_some hfind
      have htechnical := List.find?_some hfind
      rw [List.length_eraseP_of_mem hmem htechnical]
      exact Nat.sub_lt (List.length_pos_of_mem hmem) Nat.one_pos

theorem trimTechnical_within (turns : ℕ) (log : EventLog)
    (h : log.events.length < turns ∨ log.Within) : (trimTechnical turns log).Within := by
  induction turns generalizing log with
  | zero => exact h.resolve_left (Nat.not_lt_zero _)
  | succ turns ih =>
      rw [trimTechnical]
      split_ifs with hover
      · refine ih _ ?_
        rcases dropTechnical_cases log with hshorter | hwithin
        · rcases h with hturns | hwithin
          · exact Or.inl (by omega)
          · simp only [Bool.or_eq_true, decide_eq_true_eq] at hover
            obtain ⟨hlines, hbytes⟩ := hwithin
            omega
        · exact Or.inr hwithin
      · simp only [Bool.or_eq_true, decide_eq_true_eq, not_or, Nat.not_lt] at hover
        exact hover

theorem foldl_events (events : List OperationEvent) (log : EventLog) :
    (events.foldl restoreEvent log).events = log.events ++ events := by
  induction events generalizing log with
  | nil => exact (List.append_nil _).symm
  | cons event events ih =>
      have hevent : (restoreEvent log event).events = log.events ++ [event] := by
        unfold restoreEvent
        cases event.technical <;> rfl
      rw [List.foldl_cons, ih, hevent, List.append_assoc, List.singleton_append]

/-- The restored log keeps within the limits of the log in memory. -/
theorem restore_within (events : List OperationEvent) : (restore events).Within := by
  refine trimTechnical_within _ _ (Or.inl ?_)
  rw [foldl_events]
  exact Nat.lt_succ_self _

end EventLog

/-! ## Going on after a restart -/

namespace Segment.Holds

open EventLog

variable {accepted : List OperationEvent} {segment : Segment}

/-- Every mark in the file is the sequence of an accepted event. -/
theorem mark_accepted (h : segment.Holds id accepted) :
    ∀ event ∈ segment.events, ∃ original ∈ accepted, mark event = original.sequence.toNat := by
  rw [Segment.events, List.forall_mem_append]
  refine ⟨fun marker hmarker => ?_, fun event hevent => ?_⟩
  · rw [Option.mem_toList] at hmarker
    obtain ⟨original, horiginal, hhigh⟩ := h.high marker hmarker
    obtain ⟨discarded, -, hmarks⟩ := h.technical
    rw [Segment.Marks, Option.mem_def.mp hmarker] at hmarks
    obtain ⟨-, incoming, rfl⟩ := hmarks
    refine ⟨original, horiginal, ?_⟩
    rw [mark, if_pos markerOf_sequence, hhigh]
    rfl
  · refine ⟨event, h.mem_accepted hevent, ?_⟩
    rw [mark, if_neg (h.positive event hevent)]

/-- The restored counter is not below any accepted sequence. -/
theorem le_lastSequence (h : segment.Holds id accepted) :
    ∀ event ∈ accepted, event.sequence.toNat ≤ (restore segment.events).lastSequence := by
  have hmarks := (mark_le_foldl segment.events EventLog.empty).2
  rw [← restore_lastSequence] at hmarks
  intro event hevent
  rcases h.covered event hevent with ⟨marker, hmem, high, hhigh, hle⟩ | ⟨last, hmem, hle⟩
  · have hmarker := hmarks marker (List.mem_append_left _ (Option.mem_toList.mpr hmem))
    obtain ⟨discarded, -, hcount⟩ := h.technical
    rw [Segment.Marks, Option.mem_def.mp hmem] at hcount
    obtain ⟨-, incoming, rfl⟩ := hcount
    rw [mark, if_pos markerOf_sequence, Option.mem_def.mp hhigh] at hmarker
    exact Nat.le_trans hle hmarker
  · have hkept := List.mem_of_getLast? hmem
    have hlast := hmarks last (List.mem_append_right _ hkept)
    rw [mark, if_neg (h.positive last hkept)] at hlast
    exact Nat.le_trans (UInt64.le_iff_toNat_le.mp hle) hlast

/-- Below `u64::MAX` the next sequence is one more. -/
theorem nextSequence_eq (h : segment.Holds id accepted)
    (hbelow : ∀ event ∈ accepted, event.sequence.toNat < u64Max) :
    (restore segment.events).nextSequence = (restore segment.events).lastSequence + 1 := by
  have hlast : (restore segment.events).lastSequence < u64Max := by
    rw [restore_lastSequence]
    refine foldl_lt _ _ (by decide) fun event hevent => ?_
    obtain ⟨original, horiginal, heq⟩ := h.mark_accepted event hevent
    rw [heq]
    exact hbelow original horiginal
  exact saturatingAdd_eq hlast

/-- An event at the next sequence passes the checks of the file. -/
theorem checkContents_next (h : segment.Holds id accepted) (hreads : ReadsEvents fromSlice)
    (hbelow : ∀ event ∈ accepted, event.sequence.toNat < u64Max) {event : OperationEvent}
    (hnext : event.sequence.toNat = (restore segment.events).nextSequence) :
    event.sequence ≠ 0 ∧ checkContents fromSlice id segment.bytes event = .ok () := by
  rw [h.nextSequence_eq hbelow] at hnext
  have hpositive : event.sequence ≠ 0 := by
    intro hzero
    rw [hzero] at hnext
    cases hnext
  refine ⟨hpositive, (h.checkContents_iff hreads hpositive).mpr ⟨?_, ?_⟩⟩
  · intro marker hmarker high hhigh
    obtain ⟨original, horiginal, heq⟩ := h.high marker hmarker
    rw [Option.mem_def, heq, Option.some.injEq] at hhigh
    have := h.le_lastSequence original horiginal
    omega
  · intro last hlast
    have := h.le_lastSequence last (h.mem_accepted (List.mem_of_getLast? hlast))
    rw [UInt64.lt_iff_toNat_lt]
    omega

end Segment.Holds

/-- What a reader gets: the events above its cursor, and the marker. -/
theorem loadEvents_after {accepted : List OperationEvent} {segment : Segment}
    (h : segment.Holds id accepted) (hreads : ReadsEvents fromSlice) (hid : validUuid id)
    {file : Option (List UInt8)} (hfile : file.getD [] = segment.bytes) (after : UInt64) :
    loadEvents fromSlice id (.ok ()) file after =
      .ok ⟨segment.events.filter fun event => event.sequence = 0 || after < event.sequence,
        false⟩ := by
  unfold loadEvents
  rw [hid, if_neg (by decide)]
  cases file with
  | none =>
      have hevents : segment.events = [] := by
        by_contra hne
        exact length_bytes_pos hne (congrArg List.length hfile).symm
      rw [hevents]
      rfl
  | some contents =>
      obtain rfl : contents = segment.bytes := hfile
      dsimp only
      rw [h.read hreads]

/-- What a reader of the whole history gets. -/
theorem loadEvents_file {accepted : List OperationEvent} {segment : Segment}
    (h : segment.Holds id accepted) (hreads : ReadsEvents fromSlice) (hid : validUuid id)
    {file : Option (List UInt8)} (hfile : file.getD [] = segment.bytes) :
    loadEvents fromSlice id (.ok ()) file 0 = .ok ⟨segment.events, false⟩ := by
  have hall : segment.events.filter
      (fun event => decide (event.sequence = 0) || decide (0 < event.sequence)) =
        segment.events := by
    refine List.filter_eq_self.mpr fun event _ => ?_
    rw [Bool.or_eq_true, decide_eq_true_eq, decide_eq_true_eq, UInt64.pos_iff_ne_zero]
    exact em _
  rw [loadEvents_after h hreads hid hfile, hall]

/-- **Sequences are never reused.**  After any calls on an empty history, another event is
only accepted above every sequence that was accepted before, discarded or not.  The log that
is restored from the file goes on above all of them, below `u64::MAX`, and an event at that
sequence passes every check of the sequences. -/
theorem sequences_never_reused (hreads : ReadsEvents fromSlice) (hid : validUuid id)
    {journal : Journal} (hempty : journal.IsEmpty) (calls : List (Access × OperationEvent)) :
    let now := journal.run fromSlice id calls
    (∀ access later, (appendEvent fromSlice id access now.file later).1 = .ok () →
      ∀ event ∈ now.accepted, event.sequence < later.sequence) ∧
    ∃ history, loadEvents fromSlice id (.ok ()) now.file 0 = .ok history ∧
      ((∀ event ∈ now.accepted, event.sequence.toNat < u64Max) →
        (∀ event ∈ now.accepted,
          event.sequence.toNat < (EventLog.restore history.events).nextSequence) ∧
        ∀ next : OperationEvent,
          next.sequence.toNat = (EventLog.restore history.events).nextSequence →
          next.sequence ≠ 0 ∧ checkContents fromSlice id (now.file.getD []) next = .ok ()) := by
  intro now
  obtain ⟨segment, hfile, h⟩ :=
    Journal.accounted_run hreads (Journal.accounted_of_isEmpty hempty) calls
  refine ⟨fun access later hok => ?_, ⟨segment.events, false⟩, ?_, fun hbelow => ⟨?_, ?_⟩⟩
  · rcases appendEvent_cases access now.file later with
      ⟨e, file, heq, -⟩ | ⟨output, -, hpasses, -⟩
    · rw [heq] at hok
      cases hok
    · rw [hfile] at hpasses
      exact (hpasses.acceptable h hreads).newer
  · exact loadEvents_file h hreads hid hfile
  · intro event hevent
    rw [h.nextSequence_eq hbelow]
    exact Nat.lt_succ_of_le (h.le_lastSequence event hevent)
  · intro next hnext
    rw [hfile]
    exact h.checkContents_next hreads hbelow hnext

/-- After the sample event, a later one is above its sequence, and a restarted service goes
on above it. -/
theorem sequences_never_reused_sample :
    (∀ access later, (appendEvent readBack sampleLogId access (some sampleEvent.line) later).1 =
      .ok () → 7 < later.sequence) ∧
    ∃ history, loadEvents readBack sampleLogId (.ok ()) (some sampleEvent.line) 0 = .ok history ∧
      7 < (EventLog.restore history.events).nextSequence := by
  have hempty : Journal.IsEmpty ⟨none, []⟩ := ⟨rfl, rfl⟩
  have hid : validUuid sampleLogId := by decide +kernel
  have h := sequences_never_reused readsEvents_readBack hid hempty
    [(⟨.ok (), .ok ()⟩, sampleEvent)]
  rw [sampleRun] at h
  obtain ⟨hlater, history, hload, hnext⟩ := h
  refine ⟨fun access later hok => hlater access later hok sampleEvent (List.mem_singleton_self _),
    history, hload, ?_⟩
  refine (hnext ?_).1 sampleEvent (List.mem_singleton_self _)
  rw [List.forall_mem_singleton]
  decide

end LyraUpgrade
