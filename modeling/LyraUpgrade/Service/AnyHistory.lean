import LyraUpgrade.Service.EventHistory

/-!
# Appending to any file

`append_event` on an `events.jsonl` that holds anything: corrupt or foreign records, a partial
one, more than the limit.  It looks at the first record, at the last one in the last 16 KiB and
at the size, and `read_history` goes record by record from the front; here is what the two
have to do with each other.

A file that ends with a line feed is read up to its end as if nothing were behind it
(`readRecords_append`), so appending keeps what can be read of it.  And a complete history is a
sequence of records (`records_of_complete`), so its last record is the one that was looked at.

## Main results

* `append_keeps_history`: no call damages what is in the file.
-/

namespace LyraUpgrade

open Encoding

variable {fromSlice : List UInt8 → Option OperationEvent} {id : String}

/-! ## Bytes that end with a line feed -/

/-- Nothing, or whole lines. -/
def Closed (bytes : List UInt8) : Prop := ∀ byte ∈ bytes.getLast?, byte = lineFeed

theorem Closed.tail {byte : UInt8} {bytes : List UInt8} (h : Closed (byte :: bytes)) :
    Closed bytes := by
  intro last hlast
  refine h last ?_
  rw [Option.mem_def] at hlast ⊢
  rw [List.getLast?_cons, hlast, Option.getD_some]

/-- What stands behind does not change what is read next. -/
theorem readUntil_append_of_closed (limit : ℕ) {bytes : List UInt8} (h : Closed bytes)
    (hne : bytes ≠ []) (extra : List UInt8) :
    readUntil lineFeed limit (bytes ++ extra) =
      ((readUntil lineFeed limit bytes).1, (readUntil lineFeed limit bytes).2 ++ extra) := by
  induction limit generalizing bytes with
  | zero => rfl
  | succ limit ih =>
      obtain ⟨byte, bytes, rfl⟩ := List.exists_cons_of_ne_nil hne
      rw [List.cons_append, readUntil, readUntil]
      split_ifs with hstop
      · rfl
      · have hrest : bytes ≠ [] := by
          rintro rfl
          exact hstop (h byte rfl)
        rw [ih h.tail hrest]

theorem closed_readUntil (limit : ℕ) {bytes : List UInt8} (h : Closed bytes) :
    Closed (readUntil lineFeed limit bytes).2 := by
  induction limit generalizing bytes with
  | zero => exact h
  | succ limit ih =>
      cases bytes with
      | nil => exact h
      | cons byte bytes =>
          rw [readUntil]
          split_ifs
          · exact h.tail
          · exact ih h.tail

/-- A piece that ends with a line feed is one line. -/
theorem line_of_readUntil {limit : ℕ} {bytes : List UInt8}
    (h : (readUntil lineFeed limit bytes).1.getLast? = some lineFeed) :
    ∃ body, lineFeed ∉ body ∧ (readUntil lineFeed limit bytes).1 = body ++ [lineFeed] := by
  induction limit generalizing bytes with
  | zero => cases h
  | succ limit ih =>
      cases bytes with
      | nil => cases h
      | cons byte bytes =>
          rw [readUntil] at h ⊢
          split_ifs at h ⊢ with hstop
          · exact ⟨[], List.not_mem_nil, by rw [hstop]; rfl⟩
          · have hrest : (readUntil lineFeed limit bytes).1.getLast? = some lineFeed := by
              rw [List.getLast?_cons] at h
              cases hlast : (readUntil lineFeed limit bytes).1.getLast? with
              | none =>
                  rw [hlast] at h
                  exact absurd (Option.some.inj h) hstop
              | some last =>
                  rw [hlast] at h
                  exact h
            obtain ⟨body, hbody, heq⟩ := ih hrest
            refine ⟨byte :: body, ?_, ?_⟩
            · rw [List.mem_cons, not_or]
              exact ⟨Ne.symm hstop, hbody⟩
            · rw [heq]
              rfl

/-! ## One record -/

/-- A line, and the event it is read as. -/
structure IsRecord (fromSlice : List UInt8 → Option OperationEvent) (id : String)
    (record : List UInt8 × OperationEvent) : Prop where
  whole : lineFeed ∉ record.1
  fits : record.1.length + 1 ≤ maxRecordBytes
  reads : fromSlice (record.1 ++ [lineFeed]) = some record.2
  owner : record.2.operationId = id

/-- The event may stand behind the others. -/
def MayFollow (events : List OperationEvent) (previous : UInt64) (event : OperationEvent) : Prop :=
  isMarker event events = true ∨ (event.sequence ≠ 0 ∧ previous < event.sequence)

/-- What the loop makes of a piece: nothing when it stops. -/
def accept (fromSlice : List UInt8 → Option OperationEvent) (id : String) (record : List UInt8)
    (total : ℕ) (events : List OperationEvent) (previous : UInt64) : Option OperationEvent :=
  if record.length > maxRecordBytes || total + record.length > maxLegacyBytes ||
      record.getLast? ≠ some lineFeed then none
  else match fromSlice record with
    | none => none
    | some event =>
        if event.operationId ≠ id ||
            (!isMarker event events && (event.sequence = 0 || event.sequence ≤ previous)) then none
        else some event

section

variable {bytes : List UInt8} {total : ℕ} {events : List OperationEvent} {previous : UInt64}

/-- One turn of the loop. -/
theorem readRecords_turn : readRecords fromSlice id bytes total events previous =
    if (readUntil lineFeed (maxRecordBytes + 1) bytes).1.length = 0 then ⟨events, false⟩
    else match accept fromSlice id (readUntil lineFeed (maxRecordBytes + 1) bytes).1 total events
        previous with
      | none => ⟨events, true⟩
      | some event =>
          readRecords fromSlice id (readUntil lineFeed (maxRecordBytes + 1) bytes).2
            (total + (readUntil lineFeed (maxRecordBytes + 1) bytes).1.length) (events ++ [event])
            event.sequence := by
  rw [readRecords]
  unfold accept
  split_ifs with hempty hstop
  · rfl
  · rfl
  · cases fromSlice (readUntil lineFeed (maxRecordBytes + 1) bytes).1 with
    | none => rfl
    | some event =>
        dsimp only
        split_ifs <;> rfl

/-- A piece that is accepted is a record. -/
theorem accept_eq_some {event : OperationEvent}
    (h : accept fromSlice id (readUntil lineFeed (maxRecordBytes + 1) bytes).1 total events
      previous = some event) :
    ∃ body, (readUntil lineFeed (maxRecordBytes + 1) bytes).1 = body ++ [lineFeed] ∧
      IsRecord fromSlice id (body, event) ∧ total + (body.length + 1) ≤ maxLegacyBytes ∧
      MayFollow events previous event := by
  unfold accept at h
  split_ifs at h with hstop
  simp only [Bool.or_eq_true, decide_eq_true_eq, not_or, not_lt, ne_eq, not_not] at hstop
  obtain ⟨⟨hfits, htotal⟩, hlast⟩ := hstop
  obtain ⟨body, hbody, heq⟩ := line_of_readUntil hlast
  rw [heq] at h hfits htotal
  rw [List.length_append, List.length_singleton] at hfits htotal
  cases hreads : fromSlice (body ++ [lineFeed]) with
  | none =>
      rw [hreads] at h
      cases h
  | some read =>
      rw [hreads] at h
      dsimp only at h
      split_ifs at h with hcheck
      cases h
      rw [Bool.or_eq_true, not_or, Bool.and_eq_true, not_and_or] at hcheck
      obtain ⟨howner, horder⟩ := hcheck
      refine ⟨body, heq, ⟨hbody, hfits, hreads, ?_⟩, htotal, ?_⟩
      · simpa using howner
      · refine horder.imp (fun hmarker => ?_) (fun hsequence => ?_)
        · simpa using hmarker
        · simpa using hsequence

theorem length_piece_pos (hne : bytes ≠ []) :
    (readUntil lineFeed (maxRecordBytes + 1) bytes).1.length ≠ 0 := by
  obtain ⟨byte, bytes, rfl⟩ := List.exists_cons_of_ne_nil hne
  rw [readUntil]
  split_ifs
  · exact Nat.succ_ne_zero _
  · exact Nat.succ_ne_zero _

/-- The sequence of the last event, with one before the others. -/
theorem last_cons (event : OperationEvent) (read : List OperationEvent) :
    (((event :: read).getLast?).map OperationEvent.sequence).getD previous =
      ((read.getLast?).map OperationEvent.sequence).getD event.sequence := by
  rw [List.getLast?_cons]
  cases read.getLast? <;> rfl

/-- **Nothing behind whole lines changes how they are read.**  Where the loop stops in them, it
stops there; else it goes on behind them. -/
theorem readRecords_append (hclosed : Closed bytes) (extra : List UInt8) :
    let old := readRecords fromSlice id bytes total events previous
    (old.incomplete = true →
      readRecords fromSlice id (bytes ++ extra) total events previous = old) ∧
    (old.incomplete = false → ∃ read, old.events = events ++ read ∧
      readRecords fromSlice id (bytes ++ extra) total events previous =
        readRecords fromSlice id extra (total + bytes.length) old.events
          ((read.getLast?.map OperationEvent.sequence).getD previous)) := by
  induction hlength : bytes.length using Nat.strongRecOn generalizing bytes total events previous with
  | _ length ih =>
  intro old
  by_cases hne : bytes = []
  · subst hne
    have hold : old = ⟨events, false⟩ := by
      show readRecords fromSlice id [] total events previous = _
      rw [readRecords_turn, readUntil_nil]
      rfl
    rw [hold]
    refine ⟨fun h => ?_, fun _ => ⟨[], (List.append_nil _).symm, ?_⟩⟩
    · cases h
    · subst hlength
      rfl
  · have hpiece : (readUntil lineFeed (maxRecordBytes + 1) bytes).1.length ≠ 0 :=
      length_piece_pos hne
    have hshorter := length_readUntil lineFeed (maxRecordBytes + 1) bytes
    have hold : old = _ := readRecords_turn
    have hnew : readRecords fromSlice id (bytes ++ extra) total events previous = _ :=
      readRecords_turn
    rw [if_neg hpiece] at hold
    rw [readUntil_append_of_closed _ hclosed hne, if_neg hpiece] at hnew
    rw [hold, hnew]
    cases haccept : accept fromSlice id (readUntil lineFeed (maxRecordBytes + 1) bytes).1 total
        events previous with
    | none => exact ⟨fun _ => rfl, fun h => by cases h⟩
    | some event =>
        dsimp only
        obtain ⟨hstops, hgoes⟩ := ih _ (by omega)
          (closed_readUntil (maxRecordBytes + 1) hclosed) rfl
        refine ⟨hstops, fun h => ?_⟩
        obtain ⟨read, hread, heq⟩ := hgoes h
        refine ⟨event :: read, ?_, ?_⟩
        · rw [hread, List.append_assoc]
          rfl
        · rw [heq, Nat.add_assoc, hshorter, hlength, last_cons]

/-! ## Complete histories -/

/-- The bytes of some records. -/
def recordBytes (records : List (List UInt8 × OperationEvent)) : List UInt8 :=
  records.flatMap fun record => record.1 ++ [lineFeed]

/-- The events may stand in this order behind the others. -/
def Ordered : List OperationEvent → UInt64 → List OperationEvent → Prop
  | _, _, [] => True
  | events, previous, event :: later =>
      MayFollow events previous event ∧ Ordered (events ++ [event]) event.sequence later

/-- **A complete history is a sequence of records.** -/
theorem records_of_complete {result : List OperationEvent}
    (h : readRecords fromSlice id bytes total events previous = ⟨result, false⟩) :
    ∃ records, bytes = recordBytes records ∧
      result = events ++ records.map Prod.snd ∧ (∀ record ∈ records, IsRecord fromSlice id record) ∧
      (bytes ≠ [] → total + bytes.length ≤ maxLegacyBytes) ∧
      Ordered events previous (records.map Prod.snd) := by
  induction hlength : bytes.length using Nat.strongRecOn generalizing bytes total events previous with
  | _ length ih =>
  rw [readRecords_turn] at h
  split_ifs at h with hempty
  · cases h
    have hbytes : bytes = [] := by
      by_contra hne
      exact length_piece_pos hne hempty
    subst hbytes
    refine ⟨[], rfl, (List.append_nil _).symm, fun _ h => ?_, fun h => absurd rfl h, trivial⟩
    cases h
  · cases haccept : accept fromSlice id (readUntil lineFeed (maxRecordBytes + 1) bytes).1 total
        events previous with
    | none =>
        rw [haccept] at h
        cases h
    | some event =>
        rw [haccept] at h
        dsimp only at h
        obtain ⟨body, hbody, hrecord, htotal, hfollows⟩ := accept_eq_some haccept
        have hsplit := readUntil_append lineFeed (maxRecordBytes + 1) bytes
        have hshorter := length_readUntil lineFeed (maxRecordBytes + 1) bytes
        obtain ⟨records, hbytes, hresult, hrecords, hlegacy, hordered⟩ := ih _ (by omega) h rfl
        rw [hbody, List.length_append, List.length_singleton] at hlegacy hshorter
        refine ⟨(body, event) :: records, ?_, ?_, ?_, fun _ => ?_, hfollows, hordered⟩
        · rw [← hsplit, hbody, hbytes]
          rfl
        · rw [hresult, List.append_assoc]
          rfl
        · rw [List.forall_mem_cons]
          exact ⟨hrecord, hrecords⟩
        · by_cases hrest : (readUntil lineFeed (maxRecordBytes + 1) bytes).2 = []
          · rw [hrest, List.length_nil] at hshorter
            omega
          · have := hlegacy hrest
            omega

end

/-- Behind the first event none is a marker. -/
theorem Ordered.behind {events later : List OperationEvent} {previous : UInt64}
    (hne : events ≠ []) (h : Ordered events previous later) :
    (∀ event ∈ later, event.sequence ≠ 0 ∧ previous < event.sequence) ∧
      later.Pairwise (·.sequence < ·.sequence) := by
  induction later generalizing events previous with
  | nil => exact ⟨fun _ h => absurd h List.not_mem_nil, List.Pairwise.nil⟩
  | cons event later ih =>
      obtain ⟨hfollows, hlater⟩ := h
      obtain ⟨habove, hincreasing⟩ := ih (List.append_ne_nil_of_left_ne_nil hne _) hlater
      have hevent : event.sequence ≠ 0 ∧ previous < event.sequence := by
        refine hfollows.resolve_left fun hmarker => ?_
        obtain ⟨first, rest, rfl⟩ := List.exists_cons_of_ne_nil hne
        simp [isMarker] at hmarker
      refine ⟨?_, List.pairwise_cons.mpr ⟨fun next hnext => (habove next hnext).2, hincreasing⟩⟩
      rw [List.forall_mem_cons]
      refine ⟨hevent, fun next hnext => ⟨(habove next hnext).1, ?_⟩⟩
      exact UInt64.lt_trans hevent.2 (habove next hnext).2

/-- What a complete history holds: a marker or none, and events behind it. -/
structure IsHistory (marker : Option OperationEvent) (kept : List OperationEvent) : Prop where
  marker : ∀ event ∈ marker, isMarker event [] = true
  positive : ∀ event ∈ kept, event.sequence ≠ 0
  increasing : kept.Pairwise (·.sequence < ·.sequence)

theorem Ordered.split {events : List OperationEvent} (h : Ordered [] 0 events) :
    ∃ marker kept, events = marker.toList ++ kept ∧ IsHistory marker kept := by
  cases events with
  | nil =>
      refine ⟨none, [], rfl, ⟨fun _ h => ?_, fun _ h => ?_, List.Pairwise.nil⟩⟩
      · cases h
      · cases h
  | cons first later =>
      obtain ⟨hfollows, hlater⟩ := h
      obtain ⟨hbehind, hincreasing⟩ := hlater.behind (List.cons_ne_nil first [])
      rcases hfollows with hmarker | ⟨hpositive, -⟩
      · refine ⟨some first, later, rfl, ⟨?_, fun event h => (hbehind event h).1, hincreasing⟩⟩
        rintro event ⟨⟩
        exact hmarker
      · refine ⟨none, first :: later, rfl, ⟨fun _ h => ?_, ?_, ?_⟩⟩
        · cases h
        · rw [List.forall_mem_cons]
          exact ⟨hpositive, fun event h => (hbehind event h).1⟩
        · exact List.pairwise_cons.mpr ⟨fun next hnext => (hbehind next hnext).2, hincreasing⟩

section

variable {file : List UInt8}

/-- A complete history is all of the file. -/
theorem history_records (h : (readHistory fromSlice id file).incomplete = false) :
    ∃ records, file = recordBytes records ∧
      (readHistory fromSlice id file).events = records.map Prod.snd ∧
      (∀ record ∈ records, IsRecord fromSlice id record) ∧
      Ordered [] 0 (records.map Prod.snd) := by
  have hread : readRecords fromSlice id (file.take (maxLegacyBytes + 1)) 0 [] 0 =
      ⟨(readHistory fromSlice id file).events, false⟩ := by
    rw [← h]
    rfl
  obtain ⟨records, hbytes, hevents, hrecords, hlegacy, hordered⟩ := records_of_complete hread
  have hwhole : file.take (maxLegacyBytes + 1) = file := by
    by_cases hempty : file.take (maxLegacyBytes + 1) = []
    · have hfile : file = [] := by
        rcases List.take_eq_nil_iff.mp hempty with hzero | hfile
        · cases hzero
        · exact hfile
      rw [hfile, List.take_nil]
    · have hlength := hlegacy hempty
      rw [List.length_take] at hlength
      exact List.take_of_length_le (by omega)
  exact ⟨records, hwhole ▸ hbytes, hevents, hrecords, hordered⟩

theorem closed_recordBytes (records : List (List UInt8 × OperationEvent)) :
    Closed (recordBytes records) := by
  intro byte hbyte
  rcases records.eq_nil_or_concat with rfl | ⟨init, last, rfl⟩
  · cases hbyte
  · rw [recordBytes, List.concat_eq_append, List.flatMap_append, List.flatMap_singleton,
      ← List.append_assoc, List.getLast?_concat] at hbyte
    exact (Option.some.inj hbyte).symm

/-- The last 16 KiB end with the last record. -/
theorem lastPiece_tail {before body : List UInt8} (hbefore : Closed before)
    (hbody : lineFeed ∉ body) (hfits : body.length + 1 ≤ maxRecordBytes) :
    lastPiece lineFeed ((before ++ (body ++ [lineFeed])).drop
      ((before ++ (body ++ [lineFeed])).length - maxRecordBytes)).dropLast = body := by
  set skipped := (before ++ (body ++ [lineFeed])).length - maxRecordBytes with hskipped
  have hlength : skipped ≤ before.length := by
    rw [hskipped, List.length_append, List.length_append, List.length_singleton]
    omega
  have hclosed : Closed (before.drop skipped) := by
    intro byte hbyte
    rw [List.getLast?_drop] at hbyte
    split_ifs at hbyte
    · cases hbyte
    · exact hbefore byte hbyte
  rw [List.drop_append_of_le_length hlength, ← List.append_assoc, List.dropLast_concat]
  exact lastPiece_append hbody hclosed

/-- A file that passes the checks ends with a line feed. -/
theorem closed_of_checkContents {event : OperationEvent}
    (hok : checkContents fromSlice id file event = .ok ()) : Closed file := by
  unfold checkContents at hok
  split_ifs at hok with hempty
  · obtain ⟨_, -, htail⟩ := bind_eq_ok.mp hok
    simp only [checkTail] at htail
    split_ifs at htail with hlast
    rw [not_not, List.getLast?_drop] at hlast
    split_ifs at hlast
    intro byte hbyte
    rw [Option.mem_def, hlast, Option.some.injEq] at hbyte
    exact hbyte.symm
  · rw [not_not, List.length_eq_zero_iff] at hempty
    rw [hempty]
    intro byte hbyte
    cases hbyte

/-- The event that passes the checks of a complete history is above its last. -/
theorem last_lt_of_checkContents {event : OperationEvent}
    (hfeed : ∀ bytes, fromSlice (bytes ++ [lineFeed]) = fromSlice bytes)
    (hcomplete : (readHistory fromSlice id file).incomplete = false)
    (hpositive : event.sequence ≠ 0) (hok : checkContents fromSlice id file event = .ok ()) :
    ((readHistory fromSlice id file).events.getLast?.map OperationEvent.sequence).getD 0 <
      event.sequence := by
  obtain ⟨records, hfile, hevents, hrecords, -⟩ := history_records hcomplete
  rw [hevents]
  rcases records.eq_nil_or_concat with rfl | ⟨init, last, rfl⟩
  · exact UInt64.pos_iff_ne_zero.mpr hpositive
  · rw [List.concat_eq_append] at hfile hrecords ⊢
    have hlast := hrecords last List.mem_concat_self
    have hsplit : file = recordBytes init ++ (last.1 ++ [lineFeed]) := by
      rw [hfile, recordBytes, List.flatMap_append, List.flatMap_singleton]
      rfl
    have hnonempty : file.length ≠ 0 := by
      rw [hsplit, List.length_append, List.length_append, List.length_singleton]
      omega
    rw [checkContents, if_pos hnonempty] at hok
    obtain ⟨_, -, htail⟩ := bind_eq_ok.mp hok
    simp only [checkTail] at htail
    split_ifs at htail
    rw [hsplit, lastPiece_tail (closed_recordBytes init) hlast.whole hlast.fits, ← hfeed,
      hlast.reads] at htail
    dsimp only at htail
    split_ifs at htail with hcheck
    rw [Bool.or_eq_true, not_or] at hcheck
    have hnewer := hcheck.2
    rw [decide_eq_true_eq, UInt64.not_le] at hnewer
    rw [List.map_append, List.map_singleton, List.getLast?_concat]
    exact hnewer

end

/-! ## Compaction of any history -/

theorem parseU64_le {text : List Char} {n : ℕ} (h : parseU64 text = some n) : n ≤ u64Max := by
  have hdigits : ∀ text, parseDigits text = some n → n ≤ u64Max := by
    intro text h
    unfold parseDigits at h
    split_ifs at h with hvalid
    cases h
    rw [Bool.and_eq_true, Bool.and_eq_true, decide_eq_true_eq] at hvalid
    exact hvalid.2
  unfold parseU64 at h
  split at h
  · exact hdigits _ h
  · exact hdigits _ h

theorem lines?_le {event : OperationEvent} {n : ℕ} (h : event.lines? = some n) : n ≤ u64Max := by
  obtain ⟨text, -, htext⟩ := Option.bind_eq_some_iff.mp h
  exact parseU64_le htext

section

variable {marker : Option OperationEvent} {kept : List OperationEvent}

/-- The marker's count, whoever wrote it. -/
theorem removeMarker_history (h : IsHistory marker kept) :
    ∃ missing ≤ u64Max, removeMarker (marker.toList ++ kept) = .ok (missing, kept) := by
  cases marker with
  | none =>
      refine ⟨0, Nat.zero_le _, ?_⟩
      cases kept with
      | nil => rfl
      | cons first kept =>
          rw [Option.toList_none, List.nil_append, removeMarker,
            if_neg (h.positive first List.mem_cons_self)]
  | some first =>
      have hmarker := h.marker first rfl
      simp only [isMarker, Bool.and_eq_true, decide_eq_true_eq, Option.isSome_iff_exists] at hmarker
      obtain ⟨⟨⟨_, _⟩, missing, hlines⟩, _⟩ := hmarker
      refine ⟨missing, lines?_le hlines, ?_⟩
      show removeMarker (first :: kept) = _
      rw [removeMarker, if_pos (by simp_all), hlines]

/-- What a compaction that succeeds writes, over any history. -/
theorem compact_history {event : OperationEvent} {output : List UInt8}
    (h : IsHistory marker kept) (hok : compact (marker.toList ++ kept) event = .ok output) :
    ∃ left discarded, ∃ missing ≤ u64Max, (discarded ≠ [] → missing ≠ 0) ∧
      Retained (kept ++ [event]) left discarded ∧
      output = ((markerFor event missing).toList ++ left).flatMap OperationEvent.line ∧
      (∀ old ∈ (markerFor event missing).toList ++ left, old.line.length ≤ maxRecordBytes) ∧
      output.length ≤ maxPersistedEventBytes := by
  obtain ⟨old, hold, hok⟩ := bind_eq_ok.mp hok
  obtain ⟨before, hbefore, hremoved⟩ := removeMarker_history h
  rw [hremoved] at hold
  cases hold
  obtain ⟨records, hrecords, hok⟩ := bind_eq_ok.mp hok
  have hfit := mapM_encode_record hrecords
  obtain rfl := mapM_encode_ok hrecords
  obtain ⟨bytes, hbytes, hok⟩ := bind_eq_ok.mp hok
  dsimp only at hbytes hok
  obtain ⟨left, discarded, hretained, heq⟩ := retain_min (maxPersistedEventBytes / 2)
    (((kept ++ [event]).map withLine).foldl (fun size record => size + record.2.length) 0) before
    (kept ++ [event]) hbefore
  rw [heq] at hbytes hok
  obtain ⟨rfl, hmarker⟩ := encodeMarker_eq_ok hbytes
  split_ifs at hok with hlarge
  cases hok
  refine ⟨left, discarded, min (before + discarded.length) u64Max, Nat.min_le_right _ _, ?_,
    hretained, ?_, ?_, Nat.not_lt.mp hlarge⟩
  · intro hne
    have hpositive := List.length_pos_of_ne_nil hne
    have hmax : 0 < u64Max := by decide
    omega
  · rw [flatMap_withLine, List.flatMap_append]
  · rw [List.forall_mem_append]
    refine ⟨fun old hold => hmarker old (Option.mem_toList.mp hold), fun old hold => ?_⟩
    exact hfit old (hretained.sublist.subset hold)

/-- Reading back a marker and the events behind it. -/
theorem readHistory_lines (hreads : ReadsEvents fromSlice) (h : IsHistory marker kept)
    (hrecord : ∀ event ∈ marker.toList ++ kept, event.line.length ≤ maxRecordBytes)
    (howner : ∀ event ∈ marker.toList ++ kept, event.operationId = id)
    (hsize : ((marker.toList ++ kept).flatMap OperationEvent.line).length ≤
      maxPersistedEventBytes) :
    readHistory fromSlice id ((marker.toList ++ kept).flatMap OperationEvent.line) =
      ⟨marker.toList ++ kept, false⟩ := by
  have hlegacy : maxPersistedEventBytes ≤ maxLegacyBytes := Nat.le_add_right _ _
  have hprevious : ∀ event ∈ kept, (0 : UInt64) < event.sequence := fun event hevent =>
    UInt64.pos_iff_ne_zero.mpr (h.positive event hevent)
  rw [readHistory, List.take_of_length_le (by omega)]
  cases marker with
  | none =>
      exact readRecords_kept hreads hrecord (by rw [Nat.zero_add]; exact le_trans hsize hlegacy)
        howner h.positive hprevious h.increasing
  | some first =>
      have hmarker := h.marker first rfl
      have hzero : first.sequence = 0 := by
        simp only [isMarker, Bool.and_eq_true, decide_eq_true_eq] at hmarker
        simp_all
      simp only [Option.toList_some, List.singleton_append, List.forall_mem_cons,
        List.flatMap_cons, List.length_append] at hrecord howner hsize ⊢
      rw [readRecords_line hreads hrecord.1 (by omega) howner.1 (Or.inl hmarker), hzero]
      exact readRecords_kept hreads hrecord.2 (by omega) howner.2 h.positive hprevious h.increasing

/-- The marker of a history is its only event without a sequence. -/
theorem IsHistory.filter_normative (h : IsHistory marker kept) :
    (marker.toList ++ kept).filter
        (fun event => event.isNormative && decide (0 < event.sequence)) =
      kept.filter OperationEvent.isNormative := by
  have hkept : kept.filter (fun event => event.isNormative && decide (0 < event.sequence)) =
      kept.filter OperationEvent.isNormative := by
    refine List.filter_congr fun event hevent => ?_
    rw [decide_eq_true (UInt64.pos_iff_ne_zero.mpr (h.positive event hevent)), Bool.and_true]
  rw [List.filter_append, hkept]
  cases marker with
  | none => rfl
  | some first =>
      have hmarker := h.marker first rfl
      have hzero : first.sequence = 0 := by
        simp only [isMarker, Bool.and_eq_true, decide_eq_true_eq] at hmarker
        simp_all
      rw [Option.toList_some, List.filter_cons_of_neg (by rw [hzero]; simp)]
      rfl

/-- The last event of a history is the last behind the marker. -/
theorem IsHistory.lt_of_last (h : IsHistory marker kept) {sequence : UInt64}
    (hlast : ((marker.toList ++ kept).getLast?.map OperationEvent.sequence).getD 0 < sequence) :
    ∀ event ∈ kept, event.sequence < sequence := by
  rcases kept.eq_nil_or_concat with rfl | ⟨init, last, rfl⟩
  · exact fun _ h => absurd h List.not_mem_nil
  · rw [List.concat_eq_append] at h hlast ⊢
    rw [← List.append_assoc, List.getLast?_concat] at hlast
    have hincreasing := (List.pairwise_append.mp h.increasing).2.2
    rw [List.forall_mem_append, List.forall_mem_singleton]
    exact ⟨fun event hevent => UInt64.lt_trans
      (hincreasing event hevent last (List.mem_singleton_self _)) hlast, hlast⟩

end

/-! ## What a call leaves -/

/-- The new event is the last one, or the marker says that it went. -/
def EndsWith (events : List OperationEvent) (event : OperationEvent) : Prop :=
  events.getLast? = some event ∨
    ∃ marker ∈ leadingMarker events, marker.highSequence? = some event.sequence.toNat ∧
      ∃ missing > 0, marker.lines? = some missing

/-- The events of a history that compaction never drops. -/
def normativeOf (events : List OperationEvent) : List OperationEvent :=
  events.filter fun event => event.isNormative && decide (0 < event.sequence)

section

variable {file : List UInt8} {event : OperationEvent}

/-- Appending, to a file that passes the checks. -/
theorem history_append (hreads : ReadsEvents fromSlice)
    (hfeed : ∀ bytes, fromSlice (bytes ++ [lineFeed]) = fromSlice bytes)
    (hpasses : Passes fromSlice id file event)
    (hsize : file.length + event.line.length ≤ maxPersistedEventBytes) :
    let old := readHistory fromSlice id file
    let new := readHistory fromSlice id (file ++ event.line)
    (old.incomplete = true → new = old) ∧
      (old.incomplete = false → new = ⟨old.events ++ [event], false⟩) := by
  intro old new
  have hlegacy : maxPersistedEventBytes ≤ maxLegacyBytes := Nat.le_add_right _ _
  have hclosed := closed_of_checkContents hpasses.contents
  have hold : old = readRecords fromSlice id file 0 [] 0 := by
    show readHistory fromSlice id file = _
    rw [readHistory, List.take_of_length_le (by omega)]
  have hnew : new = readRecords fromSlice id (file ++ event.line) 0 [] 0 := by
    show readHistory fromSlice id (file ++ event.line) = _
    rw [readHistory, List.take_of_length_le (by rw [List.length_append]; omega)]
  obtain ⟨hstops, hgoes⟩ :=
    @readRecords_append fromSlice id file 0 [] 0 hclosed event.line
  rw [← hold, ← hnew] at hstops hgoes
  refine ⟨hstops, fun hcomplete => ?_⟩
  obtain ⟨read, hread, heq⟩ := hgoes hcomplete
  rw [List.nil_append] at hread
  have hlast := last_lt_of_checkContents hfeed hcomplete hpasses.positive hpasses.contents
  rw [← hread, Nat.zero_add] at heq
  have hone : readRecords fromSlice id event.line file.length old.events
      ((old.events.getLast?.map OperationEvent.sequence).getD 0) =
        ⟨old.events ++ [event], false⟩ := by
    rw [← List.append_nil event.line, readRecords_line hreads hpasses.record (by omega)
      hpasses.owner (Or.inr ⟨hpasses.positive, hlast⟩), readRecords]
    simp only [readUntil_nil, List.length_nil, dite_true]
  exact heq.trans hone

/-- Compaction, of a complete history. -/
theorem history_rewrite (hreads : ReadsEvents fromSlice)
    (hfeed : ∀ bytes, fromSlice (bytes ++ [lineFeed]) = fromSlice bytes)
    (hpasses : Passes fromSlice id file event) {output : List UInt8}
    (hok : rewrite fromSlice id file event = .ok output) :
    let old := readHistory fromSlice id file
    let new := readHistory fromSlice id output
    normativeOf old.events <+: normativeOf new.events ∧ new.incomplete = false ∧
      EndsWith new.events event := by
  intro old new
  rw [rewrite] at hok
  split_ifs at hok with hincomplete
  rw [Bool.not_eq_true] at hincomplete
  obtain ⟨records, -, hevents, hrecords, hordered⟩ := history_records hincomplete
  obtain ⟨marker, kept, hsplit, hhistory⟩ := hordered.split
  have hlast := last_lt_of_checkContents hfeed hincomplete hpasses.positive hpasses.contents
  rw [hevents, hsplit] at hlast hok
  have hnewer := hhistory.lt_of_last hlast
  obtain ⟨left, discarded, missing, hmissing, hmarked, hretained, rfl, hrecord, hsize⟩ :=
    compact_history hhistory hok
  -- what is written is again a history of this operation
  have hall : ∀ event' ∈ kept ++ [event], event'.operationId = id ∧ event'.sequence ≠ 0 := by
    rw [List.forall_mem_append, List.forall_mem_singleton]
    refine ⟨fun event' hevent' => ⟨?_, hhistory.positive event' hevent'⟩, hpasses.owner,
      hpasses.positive⟩
    have hmem : event' ∈ records.map Prod.snd := by
      rw [hsplit]
      exact List.mem_append_right _ hevent'
    obtain ⟨record, hrecord, rfl⟩ := List.mem_map.mp hmem
    exact (hrecords record hrecord).owner
  have hincreasing : (kept ++ [event]).Pairwise (·.sequence < ·.sequence) := by
    rw [List.pairwise_append]
    refine ⟨hhistory.increasing, List.pairwise_singleton _ _, fun earlier hearlier => ?_⟩
    rw [List.forall_mem_singleton]
    exact hnewer earlier hearlier
  have hleft : IsHistory (markerFor event missing) left := by
    refine ⟨fun marker' hmarker' => ?_, fun event' hevent' => ?_, hincreasing.sublist hretained.sublist⟩
    · rw [eq_markerOf hmarker']
      exact isMarker_markerOf hmissing
    · exact (hall event' (hretained.sublist.subset hevent')).2
  have howner : ∀ event' ∈ (markerFor event missing).toList ++ left, event'.operationId = id := by
    rw [List.forall_mem_append]
    refine ⟨fun marker' hmarker' => ?_, fun event' hevent' => ?_⟩
    · rw [eq_markerOf (Option.mem_toList.mp hmarker')]
      exact hpasses.owner
    · exact (hall event' (hretained.sublist.subset hevent')).1
  have hnew : new = ⟨(markerFor event missing).toList ++ left, false⟩ :=
    readHistory_lines hreads hleft hrecord howner hsize
  rw [hnew]
  refine ⟨?_, rfl, ?_⟩
  · show normativeOf (readHistory fromSlice id file).events <+: _
    rw [hevents, hsplit, normativeOf, normativeOf, hhistory.filter_normative,
      hleft.filter_normative, hretained.normative, List.filter_append]
    exact List.prefix_append _ _
  · by_cases hnone : discarded = []
    · left
      have hlength := hretained.length
      rw [hnone, List.length_nil, Nat.add_zero] at hlength
      rw [hretained.sublist.eq_of_length hlength, ← List.append_assoc, List.getLast?_concat]
    · right
      have hpositive := hmarked hnone
      have hmarker : markerFor event missing = some (markerOf event missing) := if_pos hpositive
      refine ⟨markerOf event missing, ?_, markerOf_highSequence, missing,
        Nat.pos_of_ne_zero hpositive, markerOf_lines hmissing⟩
      rw [hmarker]
      rfl

end

/-- **Appending never damages a history**, whatever is in the file.  A call that fails leaves
the bytes as they were.  A call that succeeds leaves every normative event readable that was
readable before, in the same order; and a history that was complete is complete again, and ends
with the new event or counts it as missing. -/
theorem append_keeps_history (hreads : ReadsEvents fromSlice)
    (hfeed : ∀ bytes, fromSlice (bytes ++ [lineFeed]) = fromSlice bytes)
    (access : Access) (file : Option (List UInt8)) (event : OperationEvent) :
    let call := appendEvent fromSlice id access file event
    let old := readHistory fromSlice id (file.getD [])
    let new := readHistory fromSlice id (call.2.getD [])
    (∀ error, call.1 = .error error → call.2.getD [] = file.getD []) ∧
    (call.1 = .ok () →
      normativeOf old.events <+: normativeOf new.events ∧
      (old.incomplete = false → new.incomplete = false ∧ EndsWith new.events event)) := by
  intro call old new
  have hcases := @appendEvent_cases fromSlice id access file event
  rcases hcases with
    ⟨error, file', heq, hsame⟩ | ⟨output, heq, hpasses, hwritten⟩
  · refine ⟨fun _ _ => ?_, fun hok => ?_⟩
    · show (appendEvent fromSlice id access file event).2.getD [] = _
      rw [heq]
      exact hsame
    · have hcall : call = (.error error, file') := heq
      rw [hcall] at hok
      cases hok
  · have hcall : call = (.ok (), some output) := heq
    refine ⟨fun error herror => ?_, fun _ => ?_⟩
    · rw [hcall] at herror
      cases herror
    · have hnew : new = readHistory fromSlice id output := by
        show readHistory fromSlice id (call.2.getD []) = _
        rw [hcall]
        rfl
      rw [hnew]
      rcases hwritten with ⟨hsize, rfl⟩ | hrewrite
      · obtain ⟨hstops, hgoes⟩ := history_append hreads hfeed hpasses hsize
        cases hincomplete : old.incomplete with
        | true =>
            rw [hstops hincomplete]
            exact ⟨List.prefix_refl _, fun h => by cases h⟩
        | false =>
            rw [hgoes hincomplete]
            refine ⟨?_, fun _ => ⟨rfl, Or.inl List.getLast?_concat⟩⟩
            rw [normativeOf, normativeOf, List.filter_append]
            exact List.prefix_append _ _
      · obtain ⟨hnormative, hcomplete, hends⟩ := history_rewrite hreads hfeed hpasses hrewrite
        exact ⟨hnormative, fun _ => ⟨hcomplete, hends⟩⟩

/-! ### A sample -/

section

/-- The bytes without the line feeds at their end. -/
def trimFeeds (bytes : List UInt8) : List UInt8 :=
  (bytes.reverse.dropWhile fun byte => decide (byte = lineFeed)).reverse

/-- The reader that accepts exactly the records that are written, with any line feeds behind
them. -/
noncomputable def readTrimmed (bytes : List UInt8) : Option OperationEvent :=
  readBack (trimFeeds bytes)

theorem trimFeeds_append (bytes : List UInt8) :
    trimFeeds (bytes ++ [lineFeed]) = trimFeeds bytes := by
  rw [trimFeeds, List.reverse_append]
  rfl

theorem readTrimmed_append (bytes : List UInt8) :
    readTrimmed (bytes ++ [lineFeed]) = readTrimmed bytes := by
  rw [readTrimmed, trimFeeds_append]
  rfl

theorem trimFeeds_toVec (event : OperationEvent) : trimFeeds event.toVec = event.toVec := by
  have hnone : ∀ byte ∈ event.toVec.reverse, decide (byte = lineFeed) = false := by
    intro byte hbyte
    rw [decide_eq_false_iff_not]
    rintro rfl
    exact event.lineFeed_notMem_toVec (List.mem_reverse.mp hbyte)
  rw [trimFeeds]
  cases hreverse : event.toVec.reverse with
  | nil => rw [List.dropWhile_nil, ← hreverse, List.reverse_reverse]
  | cons byte rest =>
      have hbyte := hnone byte (hreverse ▸ List.mem_cons_self)
      rw [List.dropWhile_cons_of_neg (by rw [hbyte]; decide), ← hreverse, List.reverse_reverse]

theorem readsEvents_readTrimmed : ReadsEvents readTrimmed := by
  have hvec : ∀ event : OperationEvent, readTrimmed event.toVec = some event := by
    intro event
    rw [readTrimmed, trimFeeds_toVec]
    exact readsEvents_readBack.toVec event
  refine ⟨hvec, fun event => ?_⟩
  rw [OperationEvent.line, readTrimmed_append]
  exact hvec event

/-- Whatever stands behind a partial record, a call on it changes nothing or keeps what can be
read. -/
theorem append_keeps_history_sample :
    let call := appendEvent readTrimmed sampleLogId ⟨.ok (), .ok ()⟩
      (some (sampleEvent.line ++ sampleEvent.toVec)) { sampleEvent with sequence := 8 }
    ∀ error, call.1 = .error error →
      call.2.getD [] = sampleEvent.line ++ sampleEvent.toVec :=
  (append_keeps_history readsEvents_readTrimmed readTrimmed_append ⟨.ok (), .ok ()⟩
    (some (sampleEvent.line ++ sampleEvent.toVec)) { sampleEvent with sequence := 8 }).1

end

end LyraUpgrade
