import LyraUpgrade.Service.EventMemory
import LyraUpgrade.System.Effect

/-!
# Watching an operation

The way of an event from a worker to the window: `Observer` of `service/src/main.rs` writes it to
the history and to the log in memory, `Service::status` answers with the history, and with the
log where the history is damaged and the process has one, and `poll` and `addEvents` of
`ui/app.js` show what was answered.

Status reads the history, the marker of a failed write and the log one after the other, and the
worker goes on between these reads.  The window asks the query broker, which has no log; the
service that runs the worker answers as well, and then with the log.

## Main definitions

* `Observer.stateChanged`, `Observer.commandLine`: the two calls of a worker.
* `statusReply`: the answer, from what was read.
* `Ui.addEvents`: what the window shows of it.
* `Watch.turn`: one step of worker, service and window, in any order.
-/

namespace LyraUpgrade

open Encoding

/-! ## Writing -/

/-- The files of an operation that tell of its events: `events.jsonl`, and whether there is an
`events.error`. -/
structure EventFiles where
  events : Option (List UInt8)
  failure : Bool

/-- How the last system calls of `append_event` end. -/
inductive RecordWriting
  | done
  /-- Writing or syncing fails, after so many bytes of the record.  A replacement of the whole
  file has been renamed by then. -/
  | failed (bytes : ℕ)

/-- What the system says to one call of the worker. -/
structure ObserverCall where
  access : Access
  writing : RecordWriting
  /-- Whether `record_write_failure` leaves its marker. -/
  marking : Bool
  now : String

section

variable (fromSlice : List UInt8 → Option OperationEvent) (id : String)

/-- `append_event`, whose writes may fail. -/
def appendWriting (call : ObserverCall) (file : Option (List UInt8)) (event : OperationEvent) :
    Except EventLogError Unit × Option (List UInt8) :=
  match appendEvent fromSlice id call.access file event, call.writing with
  | (.ok (), output), .failed bytes =>
      let contents := file.getD []
      if saturatingAdd contents.length event.line.length ≤ maxPersistedEventBytes then
        (.error .io, some (contents ++ event.line.take bytes))
      else (.error .io, output)
  | result, _ => result

end

/-! ## The observer -/

/-- `state_name`. -/
def stateName : OperationState → String
  | .idle => "idle"
  | .checking => "checking"
  | .available => "available"
  | .preflight => "preflight"
  | .planned => "planned"
  | .awaitingConfirmation => "awaiting-confirmation"
  | .downloading => "downloading"
  | .snapshotting => "snapshotting"
  | .applying => "applying"
  | .readyToReboot => "ready-to-reboot"
  | .applyingOffline => "applying-offline"
  | .awaitingReboot => "awaiting-reboot"
  | .verifyingBoot => "verifying-boot"
  | .blocked => "blocked"
  | .failed => "failed"
  | .needsRecovery => "needs-recovery"
  | .completed => "completed"

/-- `technical_event`. -/
def technicalEvent (operationId : String) (sequence : UInt64) (occurredAt : String)
    (state : OperationState) : OperationEvent where
  operationId := operationId
  sequence := sequence
  occurredAt := occurredAt
  state := state
  level := .info
  messageId := "technical-line"
  fields := FactMap.empty
  technical := none

inductive OutputStream
  | stdout
  | stderr
  deriving DecidableEq

def OutputStream.source : OutputStream → EventSource
  | .stdout => .zypperStdout
  | .stderr => .zypperStderr

/-- `Observer`, with the log it shares with the service. -/
structure Observer where
  log : EventLog
  persistenceFailed : Bool
  /-- A thread has panicked while it held the log. -/
  poisoned : Bool
  currentState : OperationState

namespace Observer

def nextSequence (self : Observer) : UInt64 := UInt64.ofNat self.log.nextSequence

section

variable (fromSlice : List UInt8 → Option OperationEvent) (id : String)

/-- What both calls do with their event: append it, and leave a marker of the first failure. -/
def persist (call : ObserverCall) (event : OperationEvent) (self : Observer) (files : EventFiles) :
    Observer × EventFiles :=
  match appendWriting fromSlice id call files.events event with
  | (.ok (), file) => (self, { files with events := file })
  | (.error _, file) =>
      ({ self with persistenceFailed := true },
        ⟨file, files.failure || (!self.persistenceFailed && call.marking)⟩)

/-- The event of `state_changed`. -/
def stateEvent (self : Observer) (state : OperationState) (now : String) : OperationEvent where
  operationId := id
  sequence := self.nextSequence
  occurredAt := now
  state := state
  level := .info
  messageId := "state." ++ stateName state
  fields := FactMap.empty
  technical := none

/-- `state_changed`. -/
def stateChanged (call : ObserverCall) (state : OperationState) (self : Observer)
    (files : EventFiles) : Observer × EventFiles :=
  if self.poisoned then ({ self with currentState := state }, files)
  else
    let event := self.stateEvent id state call.now
    let persisted := persist fromSlice id call event { self with currentState := state } files
    ({ persisted.1 with log := self.log.pushNormative event }, persisted.2)

/-- `command_line`.  A panic of the sanitizer poisons the log; the thread that reads the output
dies of it, and the worker goes on. -/
def commandLine (call : ObserverCall) (program : String) (stream : OutputStream) (line : String)
    (self : Observer) (files : EventFiles) : Observer × EventFiles :=
  if self.poisoned then (self, files)
  else
    let event := technicalEvent id self.nextSequence call.now self.currentState
    match self.log.pushTechnical event stream.source (program ++ ": " ++ line) with
    | none => ({ self with poisoned := true }, files)
    | some (log, event) => persist fromSlice id call event { self with log := log } files

end

end Observer

/-! ## Status -/

/-- What `Service::status` has read about the events, in this order. -/
structure StatusReads where
  history : Except EventLogError EventHistory
  failure : Bool
  /-- The log of this process, if it has one for the operation. -/
  observer : Option Observer

namespace StatusReads

def readFailed : String := "EVENT_LOG_READ_FAILED"

def writeFailed : String := "EVENT_LOG_WRITE_FAILED"

/-- The history on disk, and what is wrong with it. -/
def onDisk (self : StatusReads) : List OperationEvent × Option String :=
  let (events, error) : List OperationEvent × Option String :=
    match self.history with
    | .ok history => (history.events, if history.incomplete then some readFailed else none)
    | .error _ => ([], some readFailed)
  (events, if self.failure then some writeFailed else error)

/-- `sort_by_key` and `dedup_by_key`, both with the sequence. -/
def merge (events : List OperationEvent) : List OperationEvent :=
  (events.insertionSort fun a b => a.sequence ≤ b.sequence).destutter fun a b =>
    a.sequence ≠ b.sequence

/-- `EventLog::after`. -/
def after (log : EventLog) (sequence : UInt64) : List OperationEvent :=
  log.events.filter fun event => sequence < event.sequence

/-- The log joins a history in which something is wrong. -/
def collect (self : StatusReads) (sequence : UInt64) : List OperationEvent × Option String :=
  match self.observer with
  | none => self.onDisk
  | some observer =>
      if observer.poisoned then (self.onDisk.1, some readFailed)
      else
        let error := if observer.persistenceFailed then some writeFailed else self.onDisk.2
        if error.isSome then (merge (self.onDisk.1 ++ after observer.log sequence), error)
        else (self.onDisk.1, none)

end StatusReads

/-- `Response::Status`. -/
structure StatusReply where
  requestId : String
  operationId : String
  sequence : ℕ
  state : OperationState
  snapshotNumber : Option ℕ
  recovered : Bool
  errorCode : Option String
  events : List OperationEvent
  report : Option InventoryReport

/-- The diagnostic that stands behind the events.  It has no sequence of its own. -/
def historyDiagnostic (operationId : String) (state : OperationStateRecord) (code : String) :
    OperationEvent where
  operationId := operationId
  sequence := 0
  occurredAt := state.updatedAt
  state := state.state
  level := .warning
  messageId := "error_" ++ code
  fields := FactMap.empty
  technical := none

/-- `Service::status` of a service that is not read-only, once the record has been loaded. -/
def statusReply (requestId operationId : String) (state : OperationStateRecord)
    (report : Option InventoryReport) (reads : StatusReads) (after : UInt64) : StatusReply :=
  let (events, error) := reads.collect after
  { requestId
    operationId
    sequence := state.sequence
    state := state.state
    snapshotNumber := state.snapshotNumber
    recovered := state.state = .completed && state.recovery.isSome &&
      state.bootVerification = some .passed
    errorCode := state.errorCode <|> error
    events := events ++ (error.map (historyDiagnostic operationId state)).toList
    report }

/-! ## The window -/

/-- What `ui/app.js` keeps of the events. -/
structure Ui where
  events : List OperationEvent
  lastSequence : UInt64

namespace Ui

def empty : Ui := ⟨[], 0⟩

def push (ui : Ui) (event : OperationEvent) : Ui where
  events := ui.events ++ [event]
  lastSequence := if ui.lastSequence < event.sequence then event.sequence else ui.lastSequence

/-- One turn of the loop of `addEvents`. -/
def addEvent (ui : Ui) (event : OperationEvent) : Ui :=
  if event.sequence = 0 then
    { ui with events := ui.events.filter fun old =>
        old.sequence ≠ 0 || old.messageId ≠ event.messageId }.push event
  else if ui.events.any fun old => old.sequence = event.sequence then ui
  else ui.push event

/-- `addEvents`. -/
def addEvents (ui : Ui) (items : List OperationEvent) : Ui :=
  let ui := items.foldl addEvent ui
  { ui with events := ui.events.insertionSort fun a b => a.sequence ≤ b.sequence }

end Ui

/-! ## Together -/

/-- How far a poll is.  `own` are the polls answered by the process that runs the worker. -/
inductive Poll
  | idle
  | asked (own : Bool) (after : UInt64)
  | history (own : Bool) (after : UInt64) (history : Except EventLogError EventHistory)
  | failure (own : Bool) (after : UInt64) (history : Except EventLogError EventHistory)
      (failure : Bool)

def Poll.own : Poll → Bool
  | .idle => false
  | .asked own _ => own
  | .history own .. => own
  | .failure own .. => own

/-- An answer, and what had happened when its history was read. -/
structure StatusTold where
  own : Bool
  after : UInt64
  reply : StatusReply
  /-- The state changes that the workers had reported. -/
  reported : List OperationState
  /-- What had been restored into the log of the process, or pushed since. -/
  given : List OperationEvent

/-- What has happened; nothing reads it. -/
structure Account where
  /-- Every state that was reported. -/
  reported : List OperationState
  /-- Every event that was made. -/
  emitted : List OperationEvent
  /-- What was restored into the log, or pushed since. -/
  given : List OperationEvent
  /-- A write failed, and so did its marker. -/
  unmarked : Bool
  /-- A log was poisoned. -/
  poisoned : Bool
  /-- `reported` and `given` when the poll under way read the history. -/
  reportedThen : List OperationState
  givenThen : List OperationEvent
  told : Option StatusTold

/-- One operation, its worker, a service and a window. -/
structure Watch where
  files : EventFiles
  observer : Option Observer
  poll : Poll
  ui : Ui
  account : Account

/-- What a worker reports. -/
inductive Report
  | stateChanged (state : OperationState)
  | commandLine (program : String) (stream : OutputStream) (line : String)

/-- The state it tells of. -/
def Report.state? : Report → Option OperationState
  | .stateChanged state => some state
  | .commandLine .. => none

inductive WatchTurn
  /-- Start restores the log from the history and spawns the worker. -/
  | start (opening : Except EventLogError Unit) (state : OperationState)
  /-- The process of the worker ends. -/
  | stop
  | report (call : ObserverCall) (report : Report)
  /-- The window polls, if it is not polling. -/
  | ask (own : Bool)
  | readHistory (opening : Except EventLogError Unit)
  | readFailure
  | answer (requestId : String) (state : OperationStateRecord) (report : Option InventoryReport)
  /-- The poll is rejected, or fails on the way. -/
  | noAnswer
  /-- The window is opened again. -/
  | reopen

namespace Watch

/-- A new operation. -/
def start : Watch where
  files := ⟨none, false⟩
  observer := none
  poll := .idle
  ui := Ui.empty
  account := ⟨[], [], [], false, false, [], [], none⟩

section

variable (fromSlice : List UInt8 → Option OperationEvent) (id : String)

/-- The end of Start: nothing is wrong with the history, and the log is restored from it. -/
def restored (watch : Watch) (opening : Except EventLogError Unit) :
    Option (List OperationEvent) :=
  if watch.files.failure then none
  else
    match loadEvents fromSlice id opening watch.files.events 0 with
    | .ok ⟨events, false⟩ => some events
    | _ => none

/-- What an observer does with a report. -/
def reporting (call : ObserverCall) (report : Report) (observer : Observer) (files : EventFiles) :
    Observer × EventFiles :=
  match report with
  | .stateChanged state => observer.stateChanged fromSlice id call state files
  | .commandLine program stream line =>
      observer.commandLine fromSlice id call program stream line files

/-- The event it makes of it. -/
def madeOf (call : ObserverCall) (report : Report) (observer : Observer) : Option OperationEvent :=
  if observer.poisoned then none
  else
    match report with
    | .stateChanged state => some (observer.stateEvent id state call.now)
    | .commandLine program stream line =>
        (observer.log.pushTechnical
          (technicalEvent id observer.nextSequence call.now observer.currentState) stream.source
          (program ++ ": " ++ line)).map Prod.snd

/-- A step of the worker. -/
def reportTurn (watch : Watch) (call : ObserverCall) (report : Report) (observer : Observer) :
    Watch :=
  let (observer', files) := reporting fromSlice id call report observer watch.files
  let made := (madeOf id call report observer).toList
  { watch with
    files
    observer := some observer'
    account := { watch.account with
      reported := watch.account.reported ++ report.state?.toList
      emitted := watch.account.emitted ++ made
      given := watch.account.given ++ made
      unmarked := watch.account.unmarked || (observer'.persistenceFailed && !files.failure)
      poisoned := watch.account.poisoned || observer'.poisoned } }

/-- Start, where there is no worker. -/
def startTurn (watch : Watch) (opening : Except EventLogError Unit) (state : OperationState) :
    Watch :=
  match watch.observer, watch.restored fromSlice id opening with
  | none, some events =>
      { watch with
        observer := some ⟨EventLog.restore events, false, false, state⟩
        account := { watch.account with given := events } }
  | _, _ => watch

/-- What the process of the worker was answering is lost with it. -/
def stopTurn (watch : Watch) : Watch :=
  { watch with
    observer := none
    poll := if watch.poll.own then .idle else watch.poll
    account := { watch.account with given := [] } }

def askTurn (watch : Watch) (own : Bool) : Watch :=
  match watch.poll with
  | .idle => { watch with poll := .asked own watch.ui.lastSequence }
  | _ => watch

def readHistoryTurn (watch : Watch) (opening : Except EventLogError Unit) : Watch :=
  match watch.poll with
  | .asked own after =>
      { watch with
        poll := .history own after (loadEvents fromSlice id opening watch.files.events after)
        account := { watch.account with
          reportedThen := watch.account.reported
          givenThen := watch.account.given } }
  | _ => watch

def readFailureTurn (watch : Watch) : Watch :=
  match watch.poll with
  | .history own after history =>
      { watch with poll := .failure own after history watch.files.failure }
  | _ => watch

/-- The answer arrives. -/
def receive (watch : Watch) (own : Bool) (after : UInt64) (reply : StatusReply) : Watch :=
  { watch with
    poll := .idle
    ui := watch.ui.addEvents reply.events
    account := { watch.account with
      told := some ⟨own, after, reply, watch.account.reportedThen, watch.account.givenThen⟩ } }

/-- The log is read last, and the answer is made. -/
def answerTurn (watch : Watch) (requestId : String) (state : OperationStateRecord)
    (report : Option InventoryReport) : Watch :=
  match watch.poll with
  | .failure own after history failure =>
      watch.receive own after (statusReply requestId id state report
        ⟨history, failure, if own then watch.observer else none⟩ after)
  | _ => watch

/-- One step. -/
def turn (watch : Watch) : WatchTurn → Watch
  | .start opening state => watch.startTurn fromSlice id opening state
  | .stop => watch.stopTurn
  | .report call report =>
      match watch.observer with
      | none => watch
      | some observer => watch.reportTurn fromSlice id call report observer
  | .ask own => watch.askTurn own
  | .readHistory opening => watch.readHistoryTurn fromSlice id opening
  | .readFailure => watch.readFailureTurn
  | .answer requestId state report => watch.answerTurn id requestId state report
  | .noAnswer => { watch with poll := .idle }
  | .reopen =>
      { watch with
        poll := .idle
        ui := Ui.empty
        account := { watch.account with told := none } }

/-- Any steps, one after the other. -/
def run (watch : Watch) (turns : List WatchTurn) : Watch := turns.foldl (turn fromSlice id) watch

end

end Watch

end LyraUpgrade
