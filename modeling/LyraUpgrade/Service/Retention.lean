import LyraUpgrade.Service.EventLog
import Mathlib.Data.List.Pairwise

/-!
# Retention in the event log

What `events.jsonl` holds after any calls of `append_event`.

A file is the bytes of a segment: a retention marker, or none, and the events that are kept
behind it.  `Segment.Holds` is the invariant, a relation between the segment and everything
that was ever accepted: the normative events are all there, the technical ones are there
but for as many of the oldest as the marker says, and nothing accepted is newer than the
marker's high-water mark or the last event.

Both ways of accepting an event keep it, appending (`holds_append`) and compaction
(`holds_compact`), because an event is only accepted when it is newer than everything
before (`newer_of_checkContents`).

## Main results

* `journal_accounts` — the whole account of the events accepted so far.
* `journal_newer` — an event is only accepted above every sequence accepted so far.
* `restore_next` — after a restart, the next sequence is accepted.
-/

namespace LyraUpgrade

open Encoding

def OperationEvent.isNormative (self : OperationEvent) : Bool := self.technical.isNone

def OperationEvent.isTechnical (self : OperationEvent) : Bool := self.technical.isSome

/-! ## Segments -/

/-- What a file holds. -/
structure Segment where
  marker : Option OperationEvent
  kept : List OperationEvent

namespace Segment

def events (self : Segment) : List OperationEvent := self.marker.toList ++ self.kept

def bytes (self : Segment) : List UInt8 := self.events.flatMap OperationEvent.line

/-- The marker says that this many events are missing. -/
def Marks (self : Segment) (missing : ℕ) : Prop :=
  match self.marker with
  | none => missing = 0
  | some marker => 0 < missing ∧ ∃ incoming, marker = markerOf incoming missing

/-- Nothing at this sequence is newer than the segment. -/
def Covers (self : Segment) (sequence : UInt64) : Prop :=
  (∃ marker ∈ self.marker, ∃ high ∈ marker.highSequence?, sequence.toNat ≤ high) ∨
  ∃ last ∈ self.kept.getLast?, sequence ≤ last.sequence

/-- The invariant. -/
structure Holds (id : String) (accepted : List OperationEvent) (segment : Segment) : Prop where
  size : segment.bytes.length ≤ maxPersistedEventBytes
  record : ∀ event ∈ segment.events, event.line.length ≤ maxRecordBytes
  owner : ∀ event ∈ segment.events, event.operationId = id
  positive : ∀ event ∈ segment.kept, event.sequence ≠ 0
  increasing : segment.kept.Pairwise (·.sequence < ·.sequence)
  normative : segment.kept.filter OperationEvent.isNormative =
    accepted.filter OperationEvent.isNormative
  technical : ∃ discarded, accepted.filter OperationEvent.isTechnical =
    discarded ++ segment.kept.filter OperationEvent.isTechnical ∧ segment.Marks discarded.length
  covered : ∀ event ∈ accepted, segment.Covers event.sequence
  high : ∀ marker ∈ segment.marker, ∃ event ∈ accepted,
    marker.highSequence? = some event.sequence.toNat
  acceptedPositive : ∀ event ∈ accepted, event.sequence ≠ 0
  acceptedIncreasing : accepted.Pairwise (·.sequence < ·.sequence)

end Segment

/-! ## The marker -/

section

variable {incoming event : OperationEvent} {dropped : ℕ}

@[simp] theorem markerOf_sequence : (markerOf incoming dropped).sequence = 0 := rfl

@[simp] theorem markerOf_technical : (markerOf incoming dropped).technical = none := rfl

@[simp] theorem markerOf_operationId :
    (markerOf incoming dropped).operationId = incoming.operationId := rfl

@[simp] theorem markerOf_messageId : (markerOf incoming dropped).messageId = truncatedMessage := rfl

theorem markerOf_lines (h : dropped ≤ u64Max) : (markerOf incoming dropped).lines? = some dropped := by
  have hlookup : (markerFields dropped incoming.sequence).get? "lines" =
      some (String.ofList (decimal dropped)) := rfl
  show ((markerFields dropped incoming.sequence).get? "lines").bind _ = _
  rw [hlookup, Option.bind_some, String.toList_ofList, parseU64_decimal h]

theorem toNat_le_u64Max (n : UInt64) : n.toNat ≤ u64Max := by
  have h := n.toNat_lt
  show n.toNat ≤ 2 ^ 64 - 1
  omega

theorem markerOf_highSequence :
    (markerOf incoming dropped).highSequence? = some incoming.sequence.toNat := by
  have hlookup : (markerFields dropped incoming.sequence).get? "high_sequence" =
      some (String.ofList (decimal incoming.sequence.toNat)) := rfl
  show ((markerFields dropped incoming.sequence).get? "high_sequence").bind _ = _
  rw [hlookup, Option.bind_some, String.toList_ofList, parseU64_decimal (toNat_le_u64Max _)]

theorem isMarker_markerOf (h : dropped ≤ u64Max) : isMarker (markerOf incoming dropped) [] = true := by
  simp [isMarker, markerOf_lines h, markerOf_highSequence]

end

/-! ## How many events there can be -/

/-- Sequences above zero that increase are at most `u64::MAX` many. -/
theorem length_le_u64Max {events : List OperationEvent}
    (hpositive : ∀ event ∈ events, event.sequence ≠ 0)
    (hincreasing : events.Pairwise (·.sequence < ·.sequence)) : events.length ≤ u64Max := by
  have hbound : ∀ events : List OperationEvent, events.Pairwise (·.sequence < ·.sequence) →
      ∀ n, (∀ event ∈ events, n < event.sequence.toNat) → events ≠ [] →
      n + events.length ≤ u64Max := by
    intro events hevents
    induction hevents with
    | nil => exact fun _ _ h => absurd rfl h
    | @cons event events hlt _ ih =>
        intro n hn _
        have hevent := hn event (List.mem_cons_self ..)
        rcases events.eq_nil_or_concat with rfl | hne
        · have := toNat_le_u64Max event.sequence
          rw [List.length_singleton]
          omega
        · have hrest := ih event.sequence.toNat
            (fun event' h => UInt64.lt_iff_toNat_lt.mp (hlt event' h))
            (by rintro rfl; simp at hne)
          rw [List.length_cons]
          omega
  by_cases hne : events = []
  · subst hne
    exact Nat.zero_le _
  · have := hbound events hincreasing 0 (fun event h => ?_) hne
    · omega
    · have hsequence := hpositive event h
      rw [Ne, ← UInt64.toNat_inj] at hsequence
      exact Nat.pos_of_ne_zero hsequence

/-! ## Reading a segment -/

section

variable {fromSlice : List UInt8 → Option OperationEvent} {id : String}

/-- One turn of the loop, on a whole record that passes the checks. -/
theorem readRecords_line (hreads : ReadsEvents fromSlice) {event : OperationEvent}
    {rest : List UInt8} {total : ℕ} {events : List OperationEvent} {previous : UInt64}
    (hrecord : event.line.length ≤ maxRecordBytes)
    (htotal : total + event.line.length ≤ maxLegacyBytes) (howner : event.operationId = id)
    (hsequence : isMarker event events = true ∨ (event.sequence ≠ 0 ∧ previous < event.sequence)) :
    readRecords fromSlice id (event.line ++ rest) total events previous =
      readRecords fromSlice id rest (total + event.line.length) (events ++ [event])
        event.sequence := by
  have hpiece : readUntil lineFeed (maxRecordBytes + 1) (event.line ++ rest) = (event.line, rest) := by
    rw [event.length_line] at hrecord
    show readUntil lineFeed (maxRecordBytes + 1) (event.toVec ++ [lineFeed] ++ rest) = _
    rw [List.append_assoc, List.singleton_append,
      readUntil_line rest event.lineFeed_notMem_toVec (by omega)]
    rfl
  have hempty : ¬ event.line.length = 0 := by
    rw [event.length_line]
    omega
  have hwhole : event.line.getLast? = some lineFeed := List.getLast?_concat
  have hsize : (decide (event.line.length > maxRecordBytes) ||
      decide (total + event.line.length > maxLegacyBytes) ||
      decide (event.line.getLast? ≠ some lineFeed)) = false := by
    simp [hwhole, hrecord, htotal]
  have hcheck : (decide (event.operationId ≠ id) || (!isMarker event events &&
      (decide (event.sequence = 0) || decide (event.sequence ≤ previous)))) = false := by
    rcases hsequence with h | ⟨hzero, hlt⟩
    · simp [howner, h]
    · simp [howner, hzero, UInt64.not_le.mpr hlt]
  rw [readRecords]
  simp only [hpiece, hreads.line]
  rw [dif_neg hempty, if_neg (by simpa using hsize), if_neg (by simpa using hcheck)]

/-- Events in the order of their sequences are read one after the other. -/
theorem readRecords_kept (hreads : ReadsEvents fromSlice) {kept : List OperationEvent}
    {total : ℕ} {events : List OperationEvent} {previous : UInt64}
    (hrecord : ∀ event ∈ kept, event.line.length ≤ maxRecordBytes)
    (htotal : total + (kept.flatMap OperationEvent.line).length ≤ maxLegacyBytes)
    (howner : ∀ event ∈ kept, event.operationId = id)
    (hpositive : ∀ event ∈ kept, event.sequence ≠ 0)
    (hprevious : ∀ event ∈ kept, previous < event.sequence)
    (hincreasing : kept.Pairwise (·.sequence < ·.sequence)) :
    readRecords fromSlice id (kept.flatMap OperationEvent.line) total events previous =
      ⟨events ++ kept, false⟩ := by
  induction kept generalizing total events previous with
  | nil =>
      rw [List.flatMap_nil, readRecords, List.append_nil]
      simp only [readUntil_nil, List.length_nil, dite_true]
  | cons event kept ih =>
      rw [List.forall_mem_cons] at hrecord howner hpositive hprevious
      rw [List.flatMap_cons, List.length_append] at htotal
      rw [List.pairwise_cons] at hincreasing
      rw [List.flatMap_cons, readRecords_line hreads hrecord.1 (by omega) howner.1
        (Or.inr ⟨hpositive.1, hprevious.1⟩), ih hrecord.2 (by omega) howner.2 hpositive.2
        hincreasing.1 hincreasing.2, List.append_assoc, List.singleton_append]

variable {accepted : List OperationEvent} {segment : Segment}

namespace Segment.Holds

theorem discarded_le (h : segment.Holds id accepted) {discarded : List OperationEvent}
    (heq : accepted.filter OperationEvent.isTechnical =
      discarded ++ segment.kept.filter OperationEvent.isTechnical) :
    discarded.length ≤ u64Max := by
  have hall := length_le_u64Max h.acceptedPositive h.acceptedIncreasing
  have hfilter := List.length_filter_le OperationEvent.isTechnical accepted
  rw [heq, List.length_append] at hfilter
  omega

theorem read (h : segment.Holds id accepted) (hreads : ReadsEvents fromSlice) :
    readHistory fromSlice id segment.bytes = ⟨segment.events, false⟩ := by
  have hsize := h.size
  have hlegacy : maxPersistedEventBytes ≤ maxLegacyBytes := Nat.le_add_right _ _
  rw [readHistory, List.take_of_length_le (by omega)]
  obtain ⟨discarded, heq, hmarks⟩ := h.technical
  have hrecord := h.record
  have howner := h.owner
  unfold Segment.bytes Segment.events at *
  cases hmarker : segment.marker with
  | none =>
      rw [hmarker] at hrecord howner hsize
      exact readRecords_kept hreads hrecord (by simpa using le_trans hsize hlegacy) howner
        h.positive (fun event hevent => UInt64.pos_iff_ne_zero.mpr (h.positive event hevent))
        h.increasing
  | some marker =>
      rw [hmarker] at hrecord howner hsize
      rw [Segment.Marks, hmarker] at hmarks
      obtain ⟨-, incoming, rfl⟩ := hmarks
      have hcount := h.discarded_le heq
      simp only [Option.toList_some, List.singleton_append, List.forall_mem_cons,
        List.flatMap_cons, List.length_append] at hrecord howner hsize
      simp only [Option.toList_some, List.singleton_append, List.flatMap_cons]
      rw [readRecords_line hreads hrecord.1 (by omega) howner.1 (Or.inl (isMarker_markerOf hcount)),
        markerOf_sequence]
      refine (readRecords_kept hreads hrecord.2 ?_ howner.2 h.positive
        (fun event hevent => UInt64.pos_iff_ne_zero.mpr (h.positive event hevent)) h.increasing)
      omega

/-- The segment is empty only before anything is accepted. -/
theorem eq_nil (h : segment.Holds id accepted) (hempty : segment.events = []) :
    accepted = [] := by
  rw [Segment.events, List.append_eq_nil_iff] at hempty
  obtain ⟨hmarker, hkept⟩ := hempty
  refine List.eq_nil_iff_forall_not_mem.mpr fun event hevent => ?_
  rcases h.covered event hevent with ⟨marker, hmem, -⟩ | ⟨last, hmem, -⟩
  · rw [Option.mem_def.mp hmem] at hmarker
    cases hmarker
  · rw [hkept] at hmem
    cases hmem

end Segment.Holds

/-! ## The checks of an append -/

theorem length_bytes_pos {segment : Segment} (h : segment.events ≠ []) :
    segment.bytes.length ≠ 0 := by
  obtain ⟨first, events, heq⟩ := List.exists_cons_of_ne_nil h
  rw [Segment.bytes, heq, List.flatMap_cons, List.length_append, first.length_line]
  omega

/-- The first record of the file is the first event of the segment. -/
theorem readUntil_bytes {first : OperationEvent} {events : List OperationEvent}
    (heq : segment.events = first :: events) (hrecord : first.line.length ≤ maxRecordBytes) :
    (readUntil lineFeed maxRecordBytes segment.bytes).1 = first.line := by
  rw [first.length_line] at hrecord
  rw [Segment.bytes, heq, List.flatMap_cons]
  show (readUntil lineFeed maxRecordBytes (first.toVec ++ [lineFeed] ++ _)).1 = _
  rw [List.append_assoc, List.singleton_append,
    readUntil_line _ first.lineFeed_notMem_toVec (by omega)]
  rfl

/-- A file of whole records is empty or ends with a line feed. -/
theorem getLast?_flatMap_line (events : List OperationEvent) :
    ∀ byte ∈ (events.flatMap OperationEvent.line).getLast?, byte = lineFeed := by
  rcases events.eq_nil_or_concat with rfl | ⟨events, event, rfl⟩
  · intro byte hbyte
    cases hbyte
  · intro byte hbyte
    rw [List.concat_eq_append, List.flatMap_append, List.flatMap_singleton, OperationEvent.line,
      ← List.append_assoc, List.getLast?_concat] at hbyte
    exact (Option.some.inj hbyte).symm

/-- The last record of the file is the last event of the segment. -/
theorem lastPiece_bytes {last : OperationEvent} {events : List OperationEvent}
    (heq : segment.events = events ++ [last]) (hrecord : last.line.length ≤ maxRecordBytes) :
    let tail := segment.bytes.drop (segment.bytes.length - maxRecordBytes)
    tail.getLast? = some lineFeed ∧ lastPiece lineFeed tail.dropLast = last.toVec := by
  intro tail
  set before := events.flatMap OperationEvent.line with hbefore
  have hbytes : segment.bytes = before ++ last.line := by
    rw [Segment.bytes, heq, List.flatMap_append, List.flatMap_singleton]
  have htail : tail = before.drop (segment.bytes.length - maxRecordBytes) ++ last.line := by
    show segment.bytes.drop _ = _
    rw [hbytes, List.length_append, List.drop_append_of_le_length (by omega)]
  have hclosed : ∀ byte ∈ (before.drop (segment.bytes.length - maxRecordBytes)).getLast?,
      byte = lineFeed := by
    intro byte hbyte
    rw [List.getLast?_drop] at hbyte
    split_ifs at hbyte with hlength
    · cases hbyte
    · exact getLast?_flatMap_line events byte hbyte
  rw [htail, OperationEvent.line, ← List.append_assoc]
  refine ⟨List.getLast?_concat, ?_⟩
  rw [List.dropLast_concat]
  exact lastPiece_append last.lineFeed_notMem_toVec hclosed

theorem checkHead_iff (hreads : ReadsEvents fromSlice) {first event : OperationEvent}
    {events : List OperationEvent} (heq : segment.events = first :: events)
    (hrecord : first.line.length ≤ maxRecordBytes) :
    checkHead fromSlice segment.bytes event = .ok () ↔ (first.sequence = 0 →
      first.messageId = truncatedMessage ∧
      ∃ high ∈ first.highSequence?, high < event.sequence.toNat) := by
  rw [checkHead, readUntil_bytes heq hrecord, hreads.line]
  dsimp only
  by_cases hzero : first.sequence = 0
  · by_cases hmessage : first.messageId = truncatedMessage
    · cases hhigh : first.highSequence? with
      | none => simp [hzero, hmessage]
      | some high => simp [hzero, hmessage]
    · simp [hzero, hmessage]
  · simp [hzero]

theorem checkTail_iff (hreads : ReadsEvents fromSlice) {last event : OperationEvent}
    {events : List OperationEvent} (heq : segment.events = events ++ [last])
    (hrecord : last.line.length ≤ maxRecordBytes) (howner : last.operationId = id) :
    checkTail fromSlice id segment.bytes event = .ok () ↔ last.sequence < event.sequence := by
  obtain ⟨hclosed, hpiece⟩ := lastPiece_bytes heq hrecord
  simp only [checkTail]
  rw [if_neg (not_not.mpr hclosed), hpiece, hreads.toVec]
  by_cases hlt : last.sequence < event.sequence
  · simp [howner, hlt]
  · simp [howner, hlt, UInt64.not_lt.mp hlt]

namespace Segment.Holds

/-- The first record only speaks when it is a marker. -/
theorem checkHead_iff (h : segment.Holds id accepted) (hreads : ReadsEvents fromSlice)
    {event : OperationEvent} (hne : segment.events ≠ []) :
    checkHead fromSlice segment.bytes event = .ok () ↔
      ∀ marker ∈ segment.marker, ∀ high ∈ marker.highSequence?, high < event.sequence.toNat := by
  obtain ⟨first, events, heq⟩ := List.exists_cons_of_ne_nil hne
  have hfirst : first ∈ segment.events := heq ▸ List.mem_cons_self ..
  rw [LyraUpgrade.checkHead_iff hreads heq (h.record first hfirst)]
  obtain ⟨discarded, -, hmarks⟩ := h.technical
  rw [Segment.events] at heq
  cases hmarker : segment.marker with
  | none =>
      rw [hmarker, Option.toList_none, List.nil_append] at heq
      have hpositive := h.positive first (heq ▸ List.mem_cons_self ..)
      simp [hpositive]
  | some marker =>
      rw [Segment.Marks, hmarker] at hmarks
      obtain ⟨-, incoming, rfl⟩ := hmarks
      rw [hmarker, Option.toList_some, List.singleton_append, List.cons.injEq] at heq
      obtain ⟨rfl, -⟩ := heq
      simp [markerOf_highSequence]

/-- The last record is the last event, or the marker of a file that holds nothing else. -/
theorem checkTail_iff (h : segment.Holds id accepted) (hreads : ReadsEvents fromSlice)
    {event : OperationEvent} (hne : segment.events ≠ []) (hevent : event.sequence ≠ 0) :
    checkTail fromSlice id segment.bytes event = .ok () ↔
      ∀ last ∈ segment.kept.getLast?, last.sequence < event.sequence := by
  obtain ⟨discarded, -, hmarks⟩ := h.technical
  rcases segment.kept.eq_nil_or_concat with hkept | ⟨init, last, hkept⟩
  · cases hmarker : segment.marker with
    | none => exact absurd (by rw [Segment.events, hmarker, hkept]; rfl) hne
    | some marker =>
        have heq : segment.events = [] ++ [marker] := by
          rw [Segment.events, hmarker, hkept]
          rfl
        have hmem : marker ∈ segment.events := heq ▸ List.mem_singleton_self _
        rw [LyraUpgrade.checkTail_iff hreads heq (h.record marker hmem) (h.owner marker hmem)]
        rw [Segment.Marks, hmarker] at hmarks
        obtain ⟨-, incoming, rfl⟩ := hmarks
        simp [hkept, UInt64.pos_iff_ne_zero, hevent]
  · have heq : segment.events = (segment.marker.toList ++ init) ++ [last] := by
      rw [Segment.events, hkept, List.concat_eq_append, List.append_assoc]
    have hmem : last ∈ segment.events := heq ▸ List.mem_concat_self
    rw [LyraUpgrade.checkTail_iff hreads heq (h.record last hmem) (h.owner last hmem), hkept,
      List.concat_eq_append, List.getLast?_concat]
    simp

/-- **What the checks say**: the event is above the marker's high-water mark and above the
last event. -/
theorem checkContents_iff (h : segment.Holds id accepted) (hreads : ReadsEvents fromSlice)
    {event : OperationEvent} (hevent : event.sequence ≠ 0) :
    checkContents fromSlice id segment.bytes event = .ok () ↔
      (∀ marker ∈ segment.marker, ∀ high ∈ marker.highSequence?, high < event.sequence.toNat) ∧
      ∀ last ∈ segment.kept.getLast?, last.sequence < event.sequence := by
  rw [checkContents]
  by_cases hne : segment.events = []
  · have hempty : ¬ segment.bytes.length ≠ 0 := by
      rw [Segment.bytes, hne]
      simp
    rw [if_neg hempty]
    rw [Segment.events, List.append_eq_nil_iff, Option.toList_eq_nil_iff] at hne
    simp [hne.1, hne.2]
  · rw [if_pos (length_bytes_pos hne)]
    constructor
    · intro hok
      obtain ⟨_, hhead, htail⟩ := bind_eq_ok.mp hok
      exact ⟨(h.checkHead_iff hreads hne).mp hhead, (h.checkTail_iff hreads hne hevent).mp htail⟩
    · rintro ⟨hhead, htail⟩
      exact bind_eq_ok.mpr ⟨(), (h.checkHead_iff hreads hne).mpr hhead,
        (h.checkTail_iff hreads hne hevent).mpr htail⟩

/-- An event that passes the checks is newer than everything accepted before. -/
theorem newer (h : segment.Holds id accepted) (hreads : ReadsEvents fromSlice)
    {event : OperationEvent} (hevent : event.sequence ≠ 0)
    (hok : checkContents fromSlice id segment.bytes event = .ok ()) :
    ∀ earlier ∈ accepted, earlier.sequence < event.sequence := by
  obtain ⟨hmarker, hlast⟩ := (h.checkContents_iff hreads hevent).mp hok
  intro earlier hearlier
  rcases h.covered earlier hearlier with ⟨marker, hmem, high, hhigh, hle⟩ | ⟨last, hmem, hle⟩
  · exact UInt64.lt_iff_toNat_lt.mpr (Nat.lt_of_le_of_lt hle (hmarker marker hmem high hhigh))
  · exact UInt64.lt_of_le_of_lt hle (hlast last hmem)

/-- Nothing is kept that was not accepted. -/
theorem mem_accepted (h : segment.Holds id accepted) {event : OperationEvent}
    (hevent : event ∈ segment.kept) : event ∈ accepted := by
  cases htechnical : event.isTechnical with
  | true =>
      obtain ⟨discarded, heq, -⟩ := h.technical
      have hmem : event ∈ accepted.filter OperationEvent.isTechnical := by
        rw [heq]
        exact List.mem_append_right _ (List.mem_filter.mpr ⟨hevent, htechnical⟩)
      exact (List.mem_filter.mp hmem).1
  | false =>
      have hnormative : event.isNormative = true := by
        simpa [OperationEvent.isNormative, OperationEvent.isTechnical] using htechnical
      have hmem : event ∈ accepted.filter OperationEvent.isNormative :=
        h.normative ▸ List.mem_filter.mpr ⟨hevent, hnormative⟩
      exact (List.mem_filter.mp hmem).1

end Segment.Holds

/-! ## Appending -/

/-- An event that may be accepted: a record of this operation, newer than the others. -/
structure Acceptable (id : String) (accepted : List OperationEvent) (event : OperationEvent) :
    Prop where
  owner : event.operationId = id
  positive : event.sequence ≠ 0
  record : event.line.length ≤ maxRecordBytes
  newer : ∀ earlier ∈ accepted, earlier.sequence < event.sequence

namespace Acceptable

variable {event : OperationEvent}

theorem accepted_positive (he : Acceptable id accepted event) (h : segment.Holds id accepted) :
    ∀ earlier ∈ accepted ++ [event], earlier.sequence ≠ 0 := by
  rw [List.forall_mem_append, List.forall_mem_singleton]
  exact ⟨h.acceptedPositive, he.positive⟩

theorem accepted_increasing (he : Acceptable id accepted event) (h : segment.Holds id accepted) :
    (accepted ++ [event]).Pairwise (·.sequence < ·.sequence) := by
  rw [List.pairwise_append]
  refine ⟨h.acceptedIncreasing, List.pairwise_singleton _ _, fun earlier hearlier => ?_⟩
  rw [List.forall_mem_singleton]
  exact he.newer earlier hearlier

theorem kept_increasing (he : Acceptable id accepted event) (h : segment.Holds id accepted) :
    (segment.kept ++ [event]).Pairwise (·.sequence < ·.sequence) := by
  rw [List.pairwise_append]
  refine ⟨h.increasing, List.pairwise_singleton _ _, fun earlier hearlier => ?_⟩
  rw [List.forall_mem_singleton]
  exact he.newer earlier (h.mem_accepted hearlier)

theorem le_of_mem (he : Acceptable id accepted event) :
    ∀ earlier ∈ accepted ++ [event], earlier.sequence ≤ event.sequence := by
  rw [List.forall_mem_append, List.forall_mem_singleton]
  exact ⟨fun earlier h => UInt64.le_of_lt (he.newer earlier h), UInt64.le_refl _⟩

end Acceptable

/-- The event is appended to the file. -/
theorem holds_append (h : segment.Holds id accepted) {event : OperationEvent}
    (he : Acceptable id accepted event)
    (hsize : segment.bytes.length + event.line.length ≤ maxPersistedEventBytes) :
    ∃ segment' : Segment, segment'.bytes = segment.bytes ++ event.line ∧
      segment'.Holds id (accepted ++ [event]) := by
  have hevents : ∀ marker : Option OperationEvent,
      marker.toList ++ (segment.kept ++ [event]) = (marker.toList ++ segment.kept) ++ [event] :=
    fun _ => (List.append_assoc _ _ _).symm
  refine ⟨⟨segment.marker, segment.kept ++ [event]⟩, ?_, ?_⟩
  · rw [Segment.bytes, Segment.events, hevents, List.flatMap_append, List.flatMap_singleton]
    rfl
  · obtain ⟨discarded, heq, hmarks⟩ := h.technical
    refine ⟨?_, ?_, ?_, ?_, he.kept_increasing h, ?_, ⟨discarded, ?_, hmarks⟩, ?_, ?_,
      he.accepted_positive h, he.accepted_increasing h⟩
    · rw [Segment.bytes, Segment.events, hevents, List.flatMap_append, List.flatMap_singleton,
        List.length_append]
      exact hsize
    · rw [Segment.events, hevents, List.forall_mem_append, List.forall_mem_singleton]
      exact ⟨h.record, he.record⟩
    · rw [Segment.events, hevents, List.forall_mem_append, List.forall_mem_singleton]
      exact ⟨h.owner, he.owner⟩
    · rw [List.forall_mem_append, List.forall_mem_singleton]
      exact ⟨h.positive, he.positive⟩
    · rw [List.filter_append, List.filter_append, h.normative]
    · rw [List.filter_append, List.filter_append, heq, List.append_assoc]
    · intro earlier hearlier
      exact Or.inr ⟨event, List.getLast?_concat, he.le_of_mem earlier hearlier⟩
    · intro marker hmarker
      obtain ⟨incoming, hincoming, hhigh⟩ := h.high marker hmarker
      exact ⟨incoming, List.mem_append_left _ hincoming, hhigh⟩

/-! ## Compaction -/

theorem encode_eq_ok {event : OperationEvent} {bytes : List UInt8} :
    encode event = .ok bytes ↔ event.line.length ≤ maxRecordBytes ∧ bytes = event.line := by
  unfold encode
  split_ifs with hlarge
  · simp [Nat.not_le.mpr hlarge]
  · simp [Nat.not_lt.mp hlarge, eq_comm]

/-- An event with its bytes. -/
def withLine (event : OperationEvent) : OperationEvent × List UInt8 := (event, event.line)

/-- The records of all events, when none is too large. -/
theorem mapM_encode_ok {events : List OperationEvent} {records : List (OperationEvent × List UInt8)}
    (h : (events.mapM fun event => (encode event).map fun bytes => (event, bytes)) = .ok records) :
    records = events.map withLine := by
  induction events generalizing records with
  | nil =>
      cases h
      rfl
  | cons event events ih =>
      rw [List.mapM_cons] at h
      obtain ⟨record, hrecord, h⟩ := bind_eq_ok.mp h
      obtain ⟨rest, hrest, h⟩ := bind_eq_ok.mp h
      cases h
      obtain ⟨bytes, hbytes, rfl⟩ := map_eq_ok.mp hrecord
      rw [(encode_eq_ok.mp hbytes).2, ih hrest]
      rfl

/-- None of them is too large. -/
theorem mapM_encode_record {events : List OperationEvent}
    {records : List (OperationEvent × List UInt8)}
    (h : (events.mapM fun event => (encode event).map fun bytes => (event, bytes)) = .ok records) :
    ∀ event ∈ events, event.line.length ≤ maxRecordBytes := by
  induction events generalizing records with
  | nil => exact fun _ h => absurd h List.not_mem_nil
  | cons event events ih =>
      rw [List.mapM_cons] at h
      obtain ⟨record, hrecord, h⟩ := bind_eq_ok.mp h
      obtain ⟨rest, hrest, -⟩ := bind_eq_ok.mp h
      obtain ⟨bytes, hbytes, -⟩ := map_eq_ok.mp hrecord
      rw [List.forall_mem_cons]
      exact ⟨(encode_eq_ok.mp hbytes).1, ih hrest⟩

theorem flatMap_withLine (events : List OperationEvent) :
    ((events.map withLine).flatMap fun record => record.2) =
      events.flatMap OperationEvent.line := by
  rw [List.flatMap_map]
  rfl

/-- What is dropped are the oldest technical events. -/
structure Retained (events kept discarded : List OperationEvent) : Prop where
  sublist : kept.Sublist events
  technical : events.filter OperationEvent.isTechnical =
    discarded ++ kept.filter OperationEvent.isTechnical
  normative : kept.filter OperationEvent.isNormative = events.filter OperationEvent.isNormative
  length : kept.length + discarded.length = events.length

theorem Retained.refl (events : List OperationEvent) : Retained events events [] :=
  ⟨List.Sublist.refl _, rfl, rfl, rfl⟩

section

variable {event : OperationEvent} {events kept discarded : List OperationEvent}

theorem Retained.drop (h : Retained events kept discarded) (hevent : event.isTechnical = true) :
    Retained (event :: events) kept (event :: discarded) := by
  refine ⟨h.sublist.cons _, ?_, ?_, ?_⟩
  · rw [List.filter_cons_of_pos hevent, h.technical]
    rfl
  · rw [List.filter_cons_of_neg, h.normative]
    simpa [OperationEvent.isNormative, OperationEvent.isTechnical] using
      Option.isSome_iff_ne_none.mp hevent
  · rw [List.length_cons, List.length_cons, ← h.length]
    omega

theorem Retained.keep (h : Retained events kept discarded) (hevent : event.isTechnical = false) :
    Retained (event :: events) (event :: kept) discarded := by
  have hnormative : event.isNormative = true := by
    simpa [OperationEvent.isNormative, OperationEvent.isTechnical] using hevent
  refine ⟨h.sublist.cons_cons _, ?_, ?_, ?_⟩
  · rw [List.filter_cons_of_neg (by simp [hevent]), List.filter_cons_of_neg (by simp [hevent]),
      h.technical]
  · rw [List.filter_cons_of_pos hnormative, List.filter_cons_of_pos hnormative, h.normative]
  · rw [List.length_cons, List.length_cons, ← h.length]
    omega

end

/-- Below the target nothing is dropped. -/
theorem retain_within {target size dropped : ℕ} {records : List (OperationEvent × List UInt8)}
    (h : size ≤ target) : retain target records size dropped = (records, dropped) := by
  induction records with
  | nil => rfl
  | cons record records ih =>
      have hkeep : ¬ (decide (size > target) && record.1.technical.isSome) = true := by
        simp [Nat.not_lt.mpr h]
      rw [retain, if_neg hkeep, ih]

/-- The technical events are dropped from the oldest on, and counted up to `u64::MAX`. -/
theorem retain_min (target size dropped : ℕ) (events : List OperationEvent)
    (h : dropped ≤ u64Max) :
    ∃ kept discarded, Retained events kept discarded ∧
      retain target (events.map withLine) size dropped =
        (kept.map withLine, min (dropped + discarded.length) u64Max) := by
  induction events generalizing size dropped with
  | nil => exact ⟨[], [], .refl [], by rw [List.length_nil, Nat.add_zero, Nat.min_eq_left h]; rfl⟩
  | cons event events ih =>
      rw [List.map_cons, retain]
      cases htechnical : event.isTechnical with
      | true =>
          by_cases hsize : size ≤ target
          · refine ⟨event :: events, [], .refl _, ?_⟩
            rw [← retain, retain_within hsize, List.length_nil, Nat.add_zero, Nat.min_eq_left h]
            rfl
          · -- an old technical record goes, as long as the size is above the target
            have hdrop : (decide (size > target) && (withLine event).1.technical.isSome) = true := by
              rw [Bool.and_eq_true, decide_eq_true_eq]
              exact ⟨Nat.not_le.mp hsize, htechnical⟩
            rw [if_pos hdrop]
            obtain ⟨kept, discarded, hkept, heq⟩ :=
              ih (size - (withLine event).2.length) (saturatingAdd dropped 1) (saturatingAdd_le _ _)
            refine ⟨kept, event :: discarded, hkept.drop htechnical, ?_⟩
            have hcount : min (saturatingAdd dropped 1 + discarded.length) u64Max =
                min (dropped + (discarded.length + 1)) u64Max := by
              unfold saturatingAdd
              omega
            rw [heq, List.length_cons, hcount]
      | false =>
          have hkeep : ¬ (decide (size > target) && (withLine event).1.technical.isSome) = true := by
            rw [Bool.and_eq_true, not_and]
            intro _ hsome
            exact absurd (htechnical.symm.trans hsome) (by decide)
          rw [if_neg hkeep]
          obtain ⟨kept, discarded, hkept, heq⟩ := ih size dropped h
          refine ⟨event :: kept, discarded, hkept.keep htechnical, ?_⟩
          rw [heq]
          rfl

/-- Where the count fits, each of them is counted. -/
theorem retain_spec (target size dropped : ℕ) (events : List OperationEvent)
    (h : dropped + events.length ≤ u64Max) :
    ∃ kept discarded, Retained events kept discarded ∧
      retain target (events.map withLine) size dropped =
        (kept.map withLine, dropped + discarded.length) := by
  obtain ⟨kept, discarded, hkept, heq⟩ := retain_min target size dropped events (by omega)
  have hlength := hkept.length
  rw [Nat.min_eq_left (by omega)] at heq
  exact ⟨kept, discarded, hkept, heq⟩

/-- The old marker gives its count. -/
theorem removeMarker_events {segment : Segment} {missing : ℕ} (hmarks : segment.Marks missing)
    (hmissing : missing ≤ u64Max) (hpositive : ∀ event ∈ segment.kept, event.sequence ≠ 0) :
    removeMarker segment.events = .ok (missing, segment.kept) := by
  rw [Segment.events]
  cases hmarker : segment.marker with
  | none =>
      rw [Segment.Marks, hmarker] at hmarks
      obtain rfl : missing = 0 := hmarks
      rw [Option.toList_none, List.nil_append]
      cases hkept : segment.kept with
      | nil => rfl
      | cons first kept =>
          rw [removeMarker, if_neg (hpositive first (hkept ▸ List.mem_cons_self ..))]
  | some marker =>
      rw [Segment.Marks, hmarker] at hmarks
      obtain ⟨-, incoming, rfl⟩ := hmarks
      show removeMarker (markerOf incoming missing :: segment.kept) = _
      rw [removeMarker, if_pos markerOf_sequence, markerOf_lines hmissing]

/-- The marker for a count. -/
def markerFor (incoming : OperationEvent) (missing : ℕ) : Option OperationEvent :=
  if missing ≠ 0 then some (markerOf incoming missing) else none

theorem encodeMarker_eq_ok {incoming : OperationEvent} {missing : ℕ} {bytes : List UInt8}
    (h : encodeMarker incoming missing = .ok bytes) :
    bytes = (markerFor incoming missing).toList.flatMap OperationEvent.line ∧
      ∀ marker ∈ markerFor incoming missing, marker.line.length ≤ maxRecordBytes := by
  unfold encodeMarker at h
  unfold markerFor
  split_ifs at h ⊢ with hmissing
  · obtain ⟨hrecord, rfl⟩ := encode_eq_ok.mp h
    refine ⟨?_, ?_⟩
    · rw [Option.toList_some, List.flatMap_singleton]
    · rintro marker ⟨⟩
      exact hrecord
  · cases h
    exact ⟨rfl, fun marker hmarker => by cases hmarker⟩

/-- Every accepted event is kept or counted. -/
theorem Segment.Holds.length_eq (h : segment.Holds id accepted) {discarded : List OperationEvent}
    (heq : accepted.filter OperationEvent.isTechnical =
      discarded ++ segment.kept.filter OperationEvent.isTechnical) :
    discarded.length + segment.kept.length = accepted.length := by
  have hnot : OperationEvent.isNormative = fun event => !event.isTechnical := by
    funext event
    simp [OperationEvent.isNormative, OperationEvent.isTechnical]
  have hkept := List.length_eq_length_filter_add (l := segment.kept) OperationEvent.isTechnical
  have haccepted := List.length_eq_length_filter_add (l := accepted) OperationEvent.isTechnical
  have hnormative := congrArg List.length h.normative
  rw [hnot] at hnormative
  rw [heq, List.length_append] at haccepted
  omega

theorem eq_markerOf {incoming marker : OperationEvent} {missing : ℕ}
    (h : marker ∈ markerFor incoming missing) : marker = markerOf incoming missing := by
  unfold markerFor at h
  split_ifs at h
  · cases h
    rfl
  · cases h

theorem marks_markerFor (incoming : OperationEvent) (missing : ℕ) (kept : List OperationEvent) :
    Segment.Marks ⟨markerFor incoming missing, kept⟩ missing := by
  unfold markerFor
  split_ifs with hmissing
  · exact ⟨Nat.pos_of_ne_zero hmissing, incoming, rfl⟩
  · exact not_not.mp hmissing

theorem forall_markerFor {P : OperationEvent → Prop} {incoming : OperationEvent} {missing : ℕ}
    {kept : List OperationEvent} (hmarker : ∀ marker ∈ markerFor incoming missing, P marker)
    (hkept : ∀ event ∈ kept, P event) :
    ∀ event ∈ Segment.events ⟨markerFor incoming missing, kept⟩, P event := by
  rw [Segment.events, List.forall_mem_append]
  exact ⟨fun event hevent => hmarker event (Option.mem_toList.mp hevent), hkept⟩

/-- Nothing is newer than the incoming event, which is last or in the marker. -/
theorem covers_markerFor {incoming : OperationEvent} {missing : ℕ} {kept : List OperationEvent}
    (hkept : missing = 0 → incoming ∈ kept.getLast?) {sequence : UInt64}
    (hle : sequence ≤ incoming.sequence) :
    Segment.Covers ⟨markerFor incoming missing, kept⟩ sequence := by
  unfold markerFor
  split_ifs with hmissing
  · exact Or.inl ⟨_, rfl, _, markerOf_highSequence, UInt64.le_iff_toNat_le.mp hle⟩
  · exact Or.inr ⟨incoming, hkept (not_not.mp hmissing), hle⟩

/-- What a compaction that succeeds writes. -/
theorem compact_cases {missing : ℕ} {event : OperationEvent} {output : List UInt8}
    (hmarks : segment.Marks missing) (hpositive : ∀ event ∈ segment.kept, event.sequence ≠ 0)
    (hcount : missing + (segment.kept.length + 1) ≤ u64Max)
    (hok : compact segment.events event = .ok output) :
    ∃ kept discarded, Retained (segment.kept ++ [event]) kept discarded ∧
      output = Segment.bytes ⟨markerFor event (missing + discarded.length), kept⟩ ∧
      (∀ marker ∈ markerFor event (missing + discarded.length),
        marker.line.length ≤ maxRecordBytes) ∧ output.length ≤ maxPersistedEventBytes := by
  obtain ⟨old, hold, hok⟩ := bind_eq_ok.mp hok
  rw [removeMarker_events hmarks (by omega) hpositive] at hold
  cases hold
  obtain ⟨records, hrecords, hok⟩ := bind_eq_ok.mp hok
  obtain rfl := mapM_encode_ok hrecords
  obtain ⟨marker, hmarker, hok⟩ := bind_eq_ok.mp hok
  dsimp only at hmarker hok
  obtain ⟨kept, discarded, hkept, heq⟩ := retain_spec (maxPersistedEventBytes / 2)
    (((segment.kept ++ [event]).map withLine).foldl
      (fun size record => size + record.2.length) 0) missing
    (segment.kept ++ [event]) (by rw [List.length_append, List.length_singleton]; exact hcount)
  rw [heq] at hmarker hok
  obtain ⟨rfl, hrecord⟩ := encodeMarker_eq_ok hmarker
  split_ifs at hok with hlarge
  cases hok
  refine ⟨kept, discarded, hkept, ?_, hrecord, Nat.not_lt.mp hlarge⟩
  rw [flatMap_withLine, Segment.bytes, Segment.events, List.flatMap_append]

/-- **Compaction keeps the account**: the events that are dropped are the oldest technical
ones, and the new marker counts them together with those that were missing before. -/
theorem holds_compact (h : segment.Holds id accepted) {event : OperationEvent}
    (he : Acceptable id accepted event) {output : List UInt8}
    (hok : compact segment.events event = .ok output) :
    ∃ segment' : Segment, segment'.bytes = output ∧ segment'.Holds id (accepted ++ [event]) := by
  obtain ⟨missing, heq, hmarks⟩ := h.technical
  have hcount := h.length_eq heq
  have hall := length_le_u64Max (he.accepted_positive h) (he.accepted_increasing h)
  rw [List.length_append, List.length_singleton] at hall
  obtain ⟨kept, discarded, hkept, rfl, hmarker, hsize⟩ :=
    compact_cases hmarks h.positive (by omega) hok
  refine ⟨_, rfl, ?_⟩
  have hmem : ∀ kept' ∈ kept, kept' ∈ segment.kept ∨ kept' = event := by
    intro kept' hkept'
    simpa using hkept.sublist.subset hkept'
  have hkeptAll : ∀ P : OperationEvent → Prop, (∀ old ∈ segment.events, P old) → P event →
      ∀ kept' ∈ kept, P kept' := by
    intro P hold hnew kept' hkept'
    rcases hmem kept' hkept' with h | rfl
    · exact hold kept' (List.mem_append_right _ h)
    · exact hnew
  constructor
  case size => exact hsize
  case record => exact forall_markerFor hmarker (hkeptAll _ h.record he.record)
  case owner =>
      refine forall_markerFor (fun marker hmarker => ?_) (hkeptAll _ h.owner he.owner)
      rw [eq_markerOf hmarker]
      exact he.owner
  case positive =>
      intro kept' hkept'
      rcases hmem kept' hkept' with h' | rfl
      · exact h.positive kept' h'
      · exact he.positive
  case increasing => exact (he.kept_increasing h).sublist hkept.sublist
  case normative =>
      rw [hkept.normative, List.filter_append, List.filter_append, h.normative]
  case technical =>
      refine ⟨missing ++ discarded, ?_, ?_⟩
      · rw [List.append_assoc, ← hkept.technical, List.filter_append, List.filter_append, heq,
          List.append_assoc]
      · rw [List.length_append]
        exact marks_markerFor _ _ _
  case covered =>
      intro earlier hearlier
      refine covers_markerFor (fun hzero => ?_) (he.le_of_mem earlier hearlier)
      have hlength := hkept.length
      rw [hkept.sublist.eq_of_length (by omega), List.getLast?_concat]
      rfl
  case high =>
      intro marker hmarker
      rw [eq_markerOf hmarker]
      exact ⟨event, List.mem_concat_self, markerOf_highSequence⟩
  case acceptedPositive => exact he.accepted_positive h
  case acceptedIncreasing => exact he.accepted_increasing h

/-! ## Runs -/

/-- An event that passes all the checks that come before the write. -/
structure Passes (fromSlice : List UInt8 → Option OperationEvent) (id : String)
    (contents : List UInt8) (event : OperationEvent) : Prop where
  owner : event.operationId = id
  positive : event.sequence ≠ 0
  record : event.line.length ≤ maxRecordBytes
  valid : validUuid id
  contents : checkContents fromSlice id contents event = .ok ()

/-- The file after an accepted event: longer, or compacted. -/
def Written (fromSlice : List UInt8 → Option OperationEvent) (id : String) (contents : List UInt8)
    (event : OperationEvent) (output : List UInt8) : Prop :=
  (contents.length + event.line.length ≤ maxPersistedEventBytes ∧
    output = contents ++ event.line) ∨ rewrite fromSlice id contents event = .ok output

theorem le_of_saturatingAdd_le {a b : ℕ} (h : saturatingAdd a b ≤ maxPersistedEventBytes) :
    a + b ≤ maxPersistedEventBytes := by
  have hmax : maxPersistedEventBytes < u64Max := by decide
  unfold saturatingAdd at h
  omega

/-- Everything `append_event` can do. -/
theorem appendEvent_cases (access : Access) (file : Option (List UInt8)) (event : OperationEvent) :
    (∃ e file', appendEvent fromSlice id access file event = (.error e, file') ∧
      file'.getD [] = file.getD []) ∨
    ∃ output, appendEvent fromSlice id access file event = (.ok (), some output) ∧
      Passes fromSlice id (file.getD []) event ∧
      Written fromSlice id (file.getD []) event output := by
  unfold appendEvent
  by_cases hfirst : event.operationId ≠ id ∨ event.sequence = 0
  · rw [if_pos (by simpa using hfirst)]
    exact Or.inl ⟨_, _, rfl, rfl⟩
  rw [if_neg (by simpa using hfirst)]
  rw [not_or, not_not] at hfirst
  cases hencode : encode event with
  | error e => exact Or.inl ⟨e, _, rfl, rfl⟩
  | ok bytes =>
      obtain ⟨hrecord, rfl⟩ := encode_eq_ok.mp hencode
      dsimp only
      cases hid : validUuid id with
      | false => exact Or.inl ⟨.unsafePath, _, rfl, rfl⟩
      | true =>
          rw [if_neg (by decide)]
          cases hopening : access.opening with
          | error e => exact Or.inl ⟨e, _, rfl, rfl⟩
          | ok _ =>
              dsimp only
              cases hcheck : checkContents fromSlice id (file.getD []) event with
              | error e => exact Or.inl ⟨e, _, rfl, rfl⟩
              | ok _ =>
                  have hpasses : Passes fromSlice id (file.getD []) event :=
                    ⟨hfirst.1, hfirst.2, hrecord, hid, hcheck⟩
                  dsimp only
                  split_ifs with hfits
                  · exact Or.inr ⟨_, rfl, hpasses, Or.inl ⟨le_of_saturatingAdd_le hfits, rfl⟩⟩
                  · cases hrewrite : rewrite fromSlice id (file.getD []) event with
                    | error e => exact Or.inl ⟨e, _, rfl, rfl⟩
                    | ok output =>
                        dsimp only
                        cases hreplacing : access.replacing with
                        | error e => exact Or.inl ⟨e, _, rfl, rfl⟩
                        | ok _ => exact Or.inr ⟨output, rfl, hpasses, Or.inr hrewrite⟩

theorem Passes.acceptable {event : OperationEvent} (hpasses : Passes fromSlice id segment.bytes event)
    (h : segment.Holds id accepted) (hreads : ReadsEvents fromSlice) :
    Acceptable id accepted event :=
  ⟨hpasses.owner, hpasses.positive, hpasses.record, h.newer hreads hpasses.positive hpasses.contents⟩

namespace Journal

/-- The file holds a segment that accounts for the accepted events. -/
def Accounted (id : String) (journal : Journal) : Prop :=
  ∃ segment : Segment, journal.file.getD [] = segment.bytes ∧ segment.Holds id journal.accepted

theorem accounted_of_isEmpty {journal : Journal} (h : journal.IsEmpty) : journal.Accounted id := by
  refine ⟨⟨none, []⟩, h.file, ?_⟩
  rw [h.accepted]
  constructor
  case size => exact Nat.zero_le _
  case technical => exact ⟨[], rfl, rfl⟩
  case normative => rfl
  all_goals simp [Segment.events]

/-- One call keeps the account, whether the event is accepted or not. -/
theorem accounted_step (hreads : ReadsEvents fromSlice) {journal : Journal}
    (h : journal.Accounted id) (call : Access × OperationEvent) :
    (journal.step fromSlice id call).Accounted id := by
  obtain ⟨segment, hfile, h⟩ := h
  rw [step]
  rcases appendEvent_cases call.1 journal.file call.2 with
    ⟨e, file, heq, hsame⟩ | ⟨output, heq, hpasses, hwritten⟩
  · rw [heq]
    exact ⟨segment, hsame.trans hfile, h⟩
  · rw [heq]
    rw [hfile] at hpasses hwritten
    have he := hpasses.acceptable h hreads
    rcases hwritten with ⟨hsize, rfl⟩ | hrewrite
    · obtain ⟨segment', hbytes, h'⟩ := holds_append h he hsize
      exact ⟨segment', hbytes.symm, h'⟩
    · rw [rewrite, h.read hreads, if_neg Bool.false_ne_true] at hrewrite
      obtain ⟨segment', hbytes, h'⟩ := holds_compact h he hrewrite
      exact ⟨segment', hbytes.symm, h'⟩

/-- Any calls keep it. -/
theorem accounted_run (hreads : ReadsEvents fromSlice) {journal : Journal}
    (h : journal.Accounted id) (calls : List (Access × OperationEvent)) :
    (journal.run fromSlice id calls).Accounted id := by
  induction calls generalizing journal with
  | nil => exact h
  | cons call calls ih => exact ih (accounted_step hreads h call)

end Journal

end

end LyraUpgrade
