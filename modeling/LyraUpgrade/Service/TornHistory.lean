import LyraUpgrade.Service.EventReader
import LyraUpgrade.Service.Watch

/-!
# Histories with a torn end

Where a write fails the file may end with a part of a record.  Such a file is never written
again, because the last byte is not a line feed, and a reader gets the whole records and is told
that the history is incomplete.

* `DiskHolds` — what the file holds.
* `appendWriting_cases` — what one call leaves.
* `loadEvents_torn` — what a reader gets.
-/

namespace LyraUpgrade

open Encoding

variable {fromSlice : List UInt8 → Option OperationEvent} {id : String}

/-! ## Reading -/

/-- Without a stop everything up to the limit is read. -/
theorem readUntil_of_notMem {stop : UInt8} {limit : ℕ} {xs : List UInt8} (hxs : stop ∉ xs)
    (hlimit : xs.length ≤ limit) : readUntil stop limit xs = (xs, []) := by
  induction xs generalizing limit with
  | nil => exact readUntil_nil stop limit
  | cons x xs ih =>
      obtain ⟨limit, rfl⟩ : ∃ n, limit = n + 1 :=
        Nat.exists_eq_succ_of_ne_zero (by rw [List.length_cons] at hlimit; omega)
      rw [List.mem_cons, not_or] at hxs
      rw [List.length_cons, Nat.succ_le_succ_iff] at hlimit
      rw [readUntil, if_neg (Ne.symm hxs.1), ih hxs.2 hlimit]

/-- The loop ends at a part of a record. -/
theorem readRecords_torn {torn : List UInt8} (hne : torn ≠ []) (hopen : lineFeed ∉ torn)
    (hshort : torn.length ≤ maxRecordBytes) (total : ℕ) (events : List OperationEvent)
    (previous : UInt64) :
    readRecords fromSlice id torn total events previous = ⟨events, true⟩ := by
  have hpiece : readUntil lineFeed (maxRecordBytes + 1) torn = (torn, []) :=
    readUntil_of_notMem hopen (by omega)
  have hlast : torn.getLast? ≠ some lineFeed := fun h => hopen (List.mem_of_getLast? h)
  rw [readRecords]
  simp only [hpiece]
  rw [dif_neg (by simpa using hne), if_pos (by simp [hlast])]

/-- Events in the order of their sequences are read, and then the rest. -/
theorem readRecords_kept_append (hreads : ReadsEvents fromSlice) {kept : List OperationEvent}
    (rest : List UInt8) {total : ℕ} (events : List OperationEvent) {previous : UInt64}
    (hrecord : ∀ event ∈ kept, event.line.length ≤ maxRecordBytes)
    (htotal : total + (kept.flatMap OperationEvent.line).length ≤ maxLegacyBytes)
    (howner : ∀ event ∈ kept, event.operationId = id)
    (hpositive : ∀ event ∈ kept, event.sequence ≠ 0)
    (hprevious : ∀ event ∈ kept, previous < event.sequence)
    (hincreasing : kept.Pairwise (·.sequence < ·.sequence)) :
    ∃ total' previous', readRecords fromSlice id (kept.flatMap OperationEvent.line ++ rest) total
        events previous = readRecords fromSlice id rest total' (events ++ kept) previous' := by
  induction kept generalizing total events previous with
  | nil => exact ⟨total, previous, by rw [List.flatMap_nil, List.nil_append, List.append_nil]⟩
  | cons event kept ih =>
      rw [List.forall_mem_cons] at hrecord howner hpositive hprevious
      rw [List.flatMap_cons, List.length_append] at htotal
      rw [List.pairwise_cons] at hincreasing
      obtain ⟨total', previous', heq⟩ :=
        ih (events ++ [event]) hrecord.2 (show total + event.line.length + _ ≤ _ by omega)
          howner.2 hpositive.2 hincreasing.1 hincreasing.2
      refine ⟨total', previous', ?_⟩
      rw [List.flatMap_cons, List.append_assoc, readRecords_line hreads hrecord.1 (by omega)
        howner.1 (Or.inr ⟨hpositive.1, hprevious.1⟩), heq, List.append_assoc,
        List.singleton_append]

variable {written : List OperationEvent} {segment : Segment} {torn : List UInt8}

/-- A part of a record behind a segment. -/
theorem Segment.Holds.read_torn (h : segment.Holds id written) (hreads : ReadsEvents fromSlice)
    (hne : torn ≠ []) (hopen : lineFeed ∉ torn) (hshort : torn.length ≤ maxRecordBytes) :
    readHistory fromSlice id (segment.bytes ++ torn) = ⟨segment.events, true⟩ := by
  have hsize := h.size
  have hlegacy : maxLegacyBytes = maxPersistedEventBytes + maxRecordBytes := rfl
  rw [readHistory, List.take_of_length_le (by rw [List.length_append]; omega)]
  obtain ⟨discarded, heq, hmarks⟩ := h.technical
  have hrecord := h.record
  have howner := h.owner
  have hprevious : ∀ event ∈ segment.kept, (0 : UInt64) < event.sequence :=
    fun event hevent => UInt64.pos_iff_ne_zero.mpr (h.positive event hevent)
  unfold Segment.bytes Segment.events at *
  cases hmarker : segment.marker with
  | none =>
      rw [hmarker] at hrecord howner hsize
      obtain ⟨total, previous, hkept⟩ := readRecords_kept_append hreads torn [] hrecord
        (show 0 + _ ≤ _ by omega) howner h.positive hprevious h.increasing
      exact hkept.trans (readRecords_torn hne hopen hshort _ _ _)
  | some marker =>
      rw [hmarker] at hrecord howner hsize
      rw [Segment.Marks, hmarker] at hmarks
      obtain ⟨-, incoming, rfl⟩ := hmarks
      have hcount := h.discarded_le heq
      simp only [Option.toList_some, List.singleton_append, List.forall_mem_cons,
        List.flatMap_cons, List.length_append] at hrecord howner hsize
      simp only [Option.toList_some, List.singleton_append, List.flatMap_cons]
      rw [List.append_assoc, readRecords_line hreads hrecord.1 (by omega) howner.1
        (Or.inl (isMarker_markerOf hcount)), markerOf_sequence]
      obtain ⟨total, previous, hkept⟩ := readRecords_kept_append hreads torn
        ([] ++ [markerOf incoming discarded.length]) hrecord.2
        (show 0 + (markerOf incoming discarded.length).line.length + _ ≤ _ by omega) howner.2
        h.positive hprevious h.increasing
      exact hkept.trans (readRecords_torn hne hopen hshort _ _ _)

/-! ## What a file holds -/

/-- Whole records of the events that were written, and perhaps a part of one more. -/
structure DiskHolds (id : String) (file : Option (List UInt8)) (written : List OperationEvent)
    (torn : List UInt8) (segment : Segment) : Prop where
  file : file.getD [] = segment.bytes ++ torn
  holds : segment.Holds id written
  unfinished : lineFeed ∉ torn
  short : torn.length ≤ maxRecordBytes

namespace DiskHolds

variable {file : Option (List UInt8)}

/-- There is no file at first. -/
theorem new (id : String) : DiskHolds id none [] [] ⟨none, []⟩ where
  file := rfl
  holds := by
    obtain ⟨segment, hfile, h⟩ :=
      (Journal.accounted_of_isEmpty ⟨rfl, rfl⟩ : (⟨none, []⟩ : Journal).Accounted id)
    have hevents : segment.events = [] := by
      by_contra hne
      exact length_bytes_pos hne (congrArg List.length hfile).symm
    obtain ⟨marker, kept⟩ := segment
    obtain ⟨hmarker, rfl⟩ := List.append_eq_nil_iff.mp hevents
    obtain rfl := Option.toList_eq_nil_iff.mp hmarker
    exact h
  unfinished := List.not_mem_nil
  short := Nat.zero_le _

/-- A torn file is not written. -/
theorem torn_eq_nil (h : DiskHolds id file written torn segment) {event : OperationEvent}
    (hok : checkContents fromSlice id (file.getD []) event = .ok ()) : torn = [] := by
  by_contra hne
  have hlength : (segment.bytes ++ torn).length ≠ 0 := by
    rw [List.length_append]
    have := List.length_pos_iff.mpr hne
    omega
  have hlast : (segment.bytes ++ torn).getLast? ≠ some lineFeed := by
    rw [List.getLast?_append_of_ne_nil _ hne]
    exact fun hfeed => h.unfinished (List.mem_of_getLast? hfeed)
  rw [h.file, checkContents, if_pos hlength] at hok
  cases hhead : checkHead fromSlice (segment.bytes ++ torn) event with
  | error e => rw [hhead] at hok; cases hok
  | ok _ =>
      have htail : checkTail fromSlice id (segment.bytes ++ torn) event =
          .error .invalidHistory := by
        have hpositive : 0 < maxRecordBytes := by
          unfold maxRecordBytes
          omega
        rw [checkTail, if_pos]
        rw [List.getLast?_drop, if_neg (by omega)]
        exact hlast
      simp only [hhead, htail, bind, Except.bind] at hok
      cases hok

/-- **What a call leaves.**  Where it succeeds, the event is on disk and the file is whole;
where it fails, the event is on disk or it is not. -/
theorem append (h : DiskHolds id file written torn segment) (hreads : ReadsEvents fromSlice)
    (call : ObserverCall) (event : OperationEvent) :
    (∃ file' segment', appendWriting fromSlice id call file event = (.ok (), file') ∧
      DiskHolds id file' (written ++ [event]) [] segment' ∧ torn = []) ∨
    ∃ e file' written' torn' segment',
      appendWriting fromSlice id call file event = (.error e, file') ∧
      DiskHolds id file' written' torn' segment' ∧
      (written' = written ∨ written' = written ++ [event]) := by
  unfold appendWriting
  have hcases := @appendEvent_cases fromSlice id call.access file event
  rcases hcases with
    ⟨e, file', heq, hsame⟩ | ⟨output, heq, hpasses, hwritten⟩
  · rw [heq]
    exact Or.inr ⟨e, file', written, torn, segment, rfl,
      ⟨hsame.trans h.file, h.holds, h.unfinished, h.short⟩, Or.inl rfl⟩
  obtain rfl := h.torn_eq_nil hpasses.contents
  have hfile : file.getD [] = segment.bytes := h.file.trans (List.append_nil _)
  rw [heq]
  rw [hfile] at hpasses hwritten
  have he := hpasses.acceptable h.holds hreads
  have hwhole : ∃ segment' : Segment, segment'.bytes = output ∧
      segment'.Holds id (written ++ [event]) := by
    rcases hwritten with ⟨hsize, rfl⟩ | hrewrite
    · exact holds_append h.holds he hsize
    · rw [rewrite, h.holds.read hreads, if_neg Bool.false_ne_true] at hrewrite
      exact holds_compact h.holds he hrewrite
  have hdisk : ∀ {segment' : Segment} {bytes : List UInt8}, segment'.bytes = bytes →
      segment'.Holds id (written ++ [event]) →
      DiskHolds id (some bytes) (written ++ [event]) [] segment' := fun hbytes h' =>
    ⟨by rw [List.append_nil, hbytes]; rfl, h', List.not_mem_nil, Nat.zero_le _⟩
  obtain ⟨segment', hbytes, h'⟩ := hwhole
  cases call.writing with
  | done => exact Or.inl ⟨_, segment', rfl, hdisk hbytes h', rfl⟩
  | failed n =>
      right
      dsimp only
      split_ifs with hfits
      · rw [hfile] at hfits ⊢
        rcases Nat.lt_or_ge n event.line.length with hn | hn
        · -- the record is torn
          rw [event.length_line, Nat.lt_succ_iff] at hn
          have htake : event.line.take n = event.toVec.take n :=
            List.take_append_of_le_length hn
          refine ⟨_, _, written, event.line.take n, segment, rfl, ⟨rfl, h.holds, ?_, ?_⟩,
            Or.inl rfl⟩
          · rw [htake]
            exact fun hmem => event.lineFeed_notMem_toVec (List.mem_of_mem_take hmem)
          · exact (List.length_take_le' ..).trans he.record
        · rw [List.take_of_length_le hn]
          obtain ⟨segment', hbytes, h'⟩ := holds_append h.holds he (le_of_saturatingAdd_le hfits)
          exact ⟨_, _, _, _, segment', rfl, hdisk hbytes h', Or.inr rfl⟩
      · exact ⟨_, _, _, _, segment', rfl, hdisk hbytes h', Or.inr rfl⟩

/-- **What a reader gets**: the whole records above its cursor, and the marker. -/
theorem load (h : DiskHolds id file written torn segment) (hreads : ReadsEvents fromSlice)
    (opening : Except EventLogError Unit) (after : UInt64) :
    (∃ e, loadEvents fromSlice id opening file after = .error e) ∨
    loadEvents fromSlice id opening file after =
      .ok ⟨segment.events.filter fun event => event.sequence = 0 || after < event.sequence,
        decide (torn ≠ [])⟩ := by
  by_cases hne : torn = []
  · subst hne
    simpa using loadEvents_cases h.holds hreads opening
      (h.file.trans (List.append_nil _)) after
  unfold loadEvents
  cases hid : validUuid id with
  | false => exact Or.inl ⟨.unsafePath, rfl⟩
  | true =>
      cases opening with
      | error e => exact Or.inl ⟨e, rfl⟩
      | ok _ =>
          right
          cases file with
          | none => exact absurd (List.append_eq_nil_iff.mp h.file.symm).2 hne
          | some contents =>
              obtain rfl : contents = segment.bytes ++ torn := h.file
              simp only [Bool.not_true, Bool.false_eq_true, if_false,
                h.holds.read_torn hreads hne h.unfinished h.short, hne, ne_eq, not_false_eq_true,
                decide_true]

end DiskHolds

end LyraUpgrade
