import LyraUpgrade.Core.Plan
import LyraUpgrade.Core.StateJson
import LyraUpgrade.Encoding.Lines
import LyraUpgrade.Encoding.Result

/-!
# The event log

`service/src/event_log.rs` on the bytes of `events.jsonl`: one JSON record a line, appended
under a lock, and rewritten without its oldest technical records when it would grow beyond
its limit.

Serializing an event is modelled, with the member names and the order of the fields that
the derived implementation writes; reading one back is the parameter `fromSlice`, of which
`ReadsEvents` states what the log relies on.  Opening, locking and reading the files and
writing the replacement may fail before `events.jsonl` is touched (`Access`); a write that
is cut short is not modelled.

## Main definitions

* `OperationEvent` — the record of `protocol/src/lib.rs`.
* `readHistory`, `compact`, `appendEvent`, `loadEvents` — the functions on the file.
* `EventLog` — the log in memory, as far as `restore` builds it.
* `Journal`, `Journal.run` — a file and the events accepted so far, after any calls.
-/

namespace LyraUpgrade

open Encoding

/-! ## Events -/

inductive EventLevel
  | info
  | warning
  | error
  deriving DecidableEq, Repr

inductive EventSource
  | service
  | zypperStdout
  | zypperStderr
  deriving DecidableEq, Repr

structure TechnicalLine where
  source : EventSource
  text : String
  truncated : Bool
  deriving DecidableEq

structure OperationEvent where
  operationId : String
  sequence : UInt64
  occurredAt : String
  state : OperationState
  level : EventLevel
  messageId : String
  fields : FactMap
  technical : Option TechnicalLine
  deriving DecidableEq

def EventLevel.toJson : EventLevel → Json
  | .info => .str "Info"
  | .warning => .str "Warning"
  | .error => .str "Error"

theorem EventLevel.toJson_injective : Function.Injective EventLevel.toJson := by
  intro a b h
  cases a <;> cases b <;> first | rfl | simp [EventLevel.toJson] at h

def EventSource.toJson : EventSource → Json
  | .service => .str "Service"
  | .zypperStdout => .str "ZypperStdout"
  | .zypperStderr => .str "ZypperStderr"

theorem EventSource.toJson_injective : Function.Injective EventSource.toJson := by
  intro a b h
  cases a <;> cases b <;> first | rfl | simp [EventSource.toJson] at h

def TechnicalLine.toJson (self : TechnicalLine) : Json := .obj
  [("source", self.source.toJson), ("text", .str self.text), ("truncated", .bool self.truncated)]

theorem TechnicalLine.toJson_injective : Function.Injective TechnicalLine.toJson := by
  rintro ⟨⟩ ⟨⟩ h
  simpa [TechnicalLine.toJson, EventSource.toJson_injective.eq_iff] using h

namespace OperationEvent

def toJson (self : OperationEvent) : Json := .obj
  [("operation_id", .str self.operationId), ("sequence", .num self.sequence.toNat),
   ("occurred_at", .str self.occurredAt), ("state", self.state.toJson),
   ("level", self.level.toJson), ("message_id", .str self.messageId),
   ("fields", self.fields.toJson), ("technical", optionToJson TechnicalLine.toJson self.technical)]

theorem toJson_injective : Function.Injective OperationEvent.toJson := by
  rintro ⟨⟩ ⟨⟩ h
  have htechnical := optionToJson_injective TechnicalLine.toJson_injective
    fun line => by simp [TechnicalLine.toJson]
  simpa [OperationEvent.toJson, UInt64.toNat_inj, OperationState.toJson_injective.eq_iff,
    EventLevel.toJson_injective.eq_iff, FactMap.toJson_injective.eq_iff, htechnical.eq_iff]
    using h

/-- `serde_json::to_vec`. -/
def toVec (self : OperationEvent) : List UInt8 := utf8 self.toJson.render

theorem toVec_injective : Function.Injective toVec :=
  utf8_injective.comp (Json.render_injective.comp toJson_injective)

theorem lineFeed_notMem_toVec (self : OperationEvent) : lineFeed ∉ self.toVec :=
  Json.lineFeed_notMem_utf8_render _

/-- The record as it stands in the file. -/
def line (self : OperationEvent) : List UInt8 := self.toVec ++ [lineFeed]

theorem length_line (self : OperationEvent) : self.line.length = self.toVec.length + 1 :=
  List.length_append

/-- The count a retention marker keeps. -/
def lines? (self : OperationEvent) : Option ℕ :=
  (self.fields.get? "lines").bind fun n => parseU64 n.toList

/-- The high-water mark a retention marker keeps. -/
def highSequence? (self : OperationEvent) : Option ℕ :=
  (self.fields.get? "high_sequence").bind fun n => parseU64 n.toList

end OperationEvent

/-- What is relied on of `serde_json::from_slice::<OperationEvent>`: it reads back what
`to_vec` writes, also with a line feed behind it. -/
structure ReadsEvents (fromSlice : List UInt8 → Option OperationEvent) : Prop where
  toVec : ∀ event, fromSlice event.toVec = some event
  line : ∀ event, fromSlice event.line = some event

/-! ## The functions on the file -/

/-- `EventLogError`; the operating system's and the parser's own errors carry no further
detail. -/
inductive EventLogError
  | unsafePath
  | tooLarge
  | io
  | json
  | invalidHistory
  deriving DecidableEq, Repr

def maxTechnicalLines : ℕ := 10000

def maxTechnicalBytes : ℕ := 4 * 1024 * 1024

def maxPersistedEventBytes : ℕ := 8 * 1024 * 1024

def maxRecordBytes : ℕ := 16 * 1024

def maxLegacyBytes : ℕ := maxPersistedEventBytes + maxRecordBytes

def truncatedMessage : String := "history-truncated"

structure EventHistory where
  events : List OperationEvent
  incomplete : Bool
  deriving DecidableEq

def encode (event : OperationEvent) : Except EventLogError (List UInt8) :=
  if event.line.length > maxRecordBytes then .error .tooLarge else .ok event.line

section

variable (fromSlice : List UInt8 → Option OperationEvent) (id : String)

/-- A retention marker: it can only stand first. -/
def isMarker (event : OperationEvent) (events : List OperationEvent) : Bool :=
  event.sequence = 0 && events.isEmpty && event.messageId = truncatedMessage &&
  event.technical.isNone && event.lines?.isSome && event.highSequence?.isSome

/-- The loop of `read_history`. -/
def readRecords (bytes : List UInt8) (total : ℕ) (events : List OperationEvent)
    (previous : UInt64) : EventHistory :=
  let record := (readUntil lineFeed (maxRecordBytes + 1) bytes).1
  if _ : record.length = 0 then ⟨events, false⟩
  else if record.length > maxRecordBytes || total + record.length > maxLegacyBytes ||
      record.getLast? ≠ some lineFeed then ⟨events, true⟩
  else match fromSlice record with
    | none => ⟨events, true⟩
    | some event =>
        if event.operationId ≠ id ||
            (!isMarker event events && (event.sequence = 0 || event.sequence ≤ previous)) then
          ⟨events, true⟩
        else
          readRecords (readUntil lineFeed (maxRecordBytes + 1) bytes).2 (total + record.length)
            (events ++ [event]) event.sequence
termination_by bytes.length
decreasing_by
  have hpiece : (readUntil lineFeed (maxRecordBytes + 1) bytes).1.length ≠ 0 := by assumption
  have hlength := length_readUntil lineFeed (maxRecordBytes + 1) bytes
  omega

/-- `read_history`. -/
def readHistory (file : List UInt8) : EventHistory :=
  readRecords fromSlice id (file.take (maxLegacyBytes + 1)) 0 [] 0

/-- The count of the old marker, and the events behind it.  `read_history` has checked that
the field is there. -/
def removeMarker : List OperationEvent → Except EventLogError (ℕ × List OperationEvent)
  | [] => .ok (0, [])
  | first :: events =>
      if first.sequence = 0 then
        match first.lines? with
        | none => .error .invalidHistory
        | some dropped => .ok (dropped, events)
      else .ok (0, first :: events)

/-- The closure of `records.retain`, over all records: the oldest technical ones go while
the size is above the target. -/
def retain (target : ℕ) :
    List (OperationEvent × List UInt8) → ℕ → ℕ → List (OperationEvent × List UInt8) × ℕ
  | [], _, dropped => ([], dropped)
  | record :: records, size, dropped =>
      if size > target && record.1.technical.isSome then
        retain target records (size - record.2.length) (saturatingAdd dropped 1)
      else
        (record :: (retain target records size dropped).1, (retain target records size dropped).2)

/-- The fields of a retention marker. -/
def markerFields (dropped : ℕ) (high : UInt64) : FactMap where
  entries := [("high_sequence", String.ofList (decimal high.toNat)),
    ("lines", String.ofList (decimal dropped))]
  ordered := by
    simp only [List.pairwise_cons, List.mem_singleton, forall_eq, List.not_mem_nil,
      false_imp_iff, implies_true, List.Pairwise.nil, and_true]
    decide

def markerOf (incoming : OperationEvent) (dropped : ℕ) : OperationEvent :=
  { incoming with
    sequence := 0
    level := .warning
    messageId := truncatedMessage
    technical := none
    fields := markerFields dropped incoming.sequence }

/-- The marker's record, when there is anything to tell. -/
def encodeMarker (incoming : OperationEvent) (dropped : ℕ) : Except EventLogError (List UInt8) :=
  if dropped ≠ 0 then encode (markerOf incoming dropped) else .ok []

def compact (events : List OperationEvent) (incoming : OperationEvent) :
    Except EventLogError (List UInt8) := do
  let old ← removeMarker events
  let records ← (old.2 ++ [incoming]).mapM fun event => (encode event).map fun bytes => (event, bytes)
  let size := records.foldl (fun size record => size + record.2.length) 0
  let rest := retain (maxPersistedEventBytes / 2) records size old.1
  let marker ← encodeMarker incoming rest.2
  let output := marker ++ rest.1.flatMap fun record => record.2
  if output.length > maxPersistedEventBytes then .error .tooLarge else .ok output

/-- The first record: a retention marker honors its high-water mark. -/
def checkHead (file : List UInt8) (event : OperationEvent) : Except EventLogError Unit :=
  match fromSlice (readUntil lineFeed maxRecordBytes file).1 with
  | none => .error .json
  | some first =>
      if first.sequence = 0 && (first.messageId ≠ truncatedMessage ||
          first.highSequence?.all fun high => event.sequence.toNat ≤ high) then
        .error .invalidHistory
      else .ok ()

/-- The last record: it is whole, and older than the event. -/
def checkTail (file : List UInt8) (event : OperationEvent) : Except EventLogError Unit :=
  let tail := file.drop (file.length - maxRecordBytes)
  if tail.getLast? ≠ some lineFeed then .error .invalidHistory
  else match fromSlice (lastPiece lineFeed tail.dropLast) with
    | none => .error .json
    | some previous =>
        if previous.operationId ≠ id || event.sequence ≤ previous.sequence then
          .error .invalidHistory
        else .ok ()

/-- Both checks, of a file that is not empty. -/
def checkContents (file : List UInt8) (event : OperationEvent) : Except EventLogError Unit :=
  if file.length ≠ 0 then do
    checkHead fromSlice file event
    checkTail fromSlice id file event
  else .ok ()

/-- The file after compaction. -/
def rewrite (file : List UInt8) (event : OperationEvent) : Except EventLogError (List UInt8) :=
  if (readHistory fromSlice id file).incomplete then .error .invalidHistory
  else compact (readHistory fromSlice id file).events event

/-- What the system calls of one call say that do not change the file: opening, locking and
reading, and preparing the replacement. -/
structure Access where
  opening : Except EventLogError Unit
  replacing : Except EventLogError Unit

/-- `append_event`: its result, and the file after it.  Opening the file creates it. -/
def appendEvent (access : Access) (file : Option (List UInt8)) (event : OperationEvent) :
    Except EventLogError Unit × Option (List UInt8) :=
  if event.operationId ≠ id || event.sequence = 0 then (.error .unsafePath, file)
  else match encode event with
  | .error e => (.error e, file)
  | .ok bytes =>
      if !validUuid id then (.error .unsafePath, file)
      else match access.opening with
      | .error e => (.error e, file)
      | .ok () =>
          let contents := file.getD []
          match checkContents fromSlice id contents event with
          | .error e => (.error e, some contents)
          | .ok () =>
              if saturatingAdd contents.length bytes.length ≤ maxPersistedEventBytes then
                (.ok (), some (contents ++ bytes))
              else match rewrite fromSlice id contents event with
                | .error e => (.error e, some contents)
                | .ok output =>
                    match access.replacing with
                    | .error e => (.error e, some contents)
                    | .ok () => (.ok (), some output)

/-- `load_events`. -/
def loadEvents (opening : Except EventLogError Unit) (file : Option (List UInt8)) (after : UInt64) :
    Except EventLogError EventHistory :=
  if !validUuid id then .error .unsafePath
  else match opening with
  | .error e => .error e
  | .ok () =>
      match file with
      | none => .ok ⟨[], false⟩
      | some contents =>
          let history := readHistory fromSlice id contents
          .ok { history with
                events := history.events.filter fun event =>
                  event.sequence = 0 || after < event.sequence }

end

/-! ## The log in memory -/

structure EventLog where
  events : List OperationEvent
  technicalLines : ℕ
  technicalBytes : ℕ
  lastSequence : ℕ

namespace EventLog

/-- `EventLog::default`. -/
def empty : EventLog := ⟨[], 0, 0, 0⟩

def nextSequence (self : EventLog) : ℕ := saturatingAdd self.lastSequence 1

/-- One event of `restore`'s loop. -/
def restoreEvent (log : EventLog) (event : OperationEvent) : EventLog :=
  let last := max log.lastSequence event.sequence.toNat
  let last := if event.sequence = 0 then max last (event.highSequence?.getD 0) else last
  match event.technical with
  | some line =>
      { events := log.events ++ [event], technicalLines := log.technicalLines + 1
        technicalBytes := log.technicalBytes + line.text.utf8ByteSize, lastSequence := last }
  | none => { log with events := log.events ++ [event], lastSequence := last }

/-- One turn of `trim_technical`'s loop: the oldest technical event goes. -/
def dropTechnical (log : EventLog) : EventLog :=
  match log.events.find? fun event => event.technical.isSome with
  | none => { log with technicalLines := 0, technicalBytes := 0 }
  | some event =>
      { log with
        events := log.events.eraseP fun event => event.technical.isSome
        technicalLines := log.technicalLines - 1
        technicalBytes := log.technicalBytes - (event.technical.elim 0 (·.text.utf8ByteSize)) }

/-- `trim_technical`; each turn removes an event or is the last, so there are at most as
many turns as events, and one. -/
def trimTechnical : ℕ → EventLog → EventLog
  | 0, log => log
  | turns + 1, log =>
      if log.technicalLines > maxTechnicalLines || log.technicalBytes > maxTechnicalBytes then
        trimTechnical turns log.dropTechnical
      else log

def restore (events : List OperationEvent) : EventLog :=
  trimTechnical (events.length + 1) (events.foldl restoreEvent empty)

end EventLog

/-! ## Runs -/

/-- A file, and the events accepted into it. -/
structure Journal where
  file : Option (List UInt8)
  accepted : List OperationEvent

namespace Journal

variable (fromSlice : List UInt8 → Option OperationEvent) (id : String)

/-- One call of `append_event`. -/
def step (journal : Journal) (call : Access × OperationEvent) : Journal :=
  match appendEvent fromSlice id call.1 journal.file call.2 with
  | (.ok (), file) => ⟨file, journal.accepted ++ [call.2]⟩
  | (.error _, file) => { journal with file := file }

/-- Any calls, one after the other. -/
def run (journal : Journal) (calls : List (Access × OperationEvent)) : Journal :=
  calls.foldl (step fromSlice id) journal

/-- An initially empty history: no file, or an empty one. -/
structure IsEmpty (journal : Journal) : Prop where
  file : journal.file.getD [] = []
  accepted : journal.accepted = []

end Journal

end LyraUpgrade
