import LyraUpgrade.Encoding.Lines
import LyraUpgrade.Interaction.Exchange
import LyraUpgrade.Service.Planner
import LyraUpgrade.Service.Watch

/-!
# Sessions

The desktop talks to two long-lived service processes, one that `pkexec` has started and one that
is read-only, and each is asked by a line of JSON on its standard input and answers with a line on
its standard output.  The read-only one passes on what only root may read: it connects to the
query broker, which is the same executable under a socket of systemd and answers one request.

* `Request`, `Response`: the messages of `protocol/src/lib.rs`.
* `Service.handle`: what a service process does with a request; `queryResponse`: what the broker
  does.
* `wire`: how `exchange` of `src-tauri/src/main.rs` and the main loop of `service/src/main.rs`
  read and write lines.
* `queryClient`: `request` of `service/src/query_client.rs`, with the broker at the other end.
* `Setting.move`: one step of the desktop or of a process.
-/

namespace LyraUpgrade.Session

open Encoding Interaction

/-! ## Messages -/

inductive RecoveryAction
  | showDiagnostics
  | rollback
  | keepCurrent
  deriving DecidableEq

def currentVersion : UInt32 := 3

inductive Request
  | checkRelease (protocolVersion : UInt32) (requestId : String)
  | readTrustState (protocolVersion : UInt32) (requestId : String)
  | readRecoveryReadiness (protocolVersion : UInt32) (requestId : String)
  | inspect (protocolVersion : UInt32) (requestId : String)
  | planUpdate (protocolVersion : UInt32) (requestId : String)
  | planReleaseUpgrade (protocolVersion : UInt32) (requestId manifestSha256 : String)
  | start (protocolVersion : UInt32) (requestId operationId planSha256 : String)
      (confirmed : Bool) (planned : PlannedUpdate)
  | status (protocolVersion : UInt32) (requestId operationId : String)
      (afterSequence : Option UInt64)
  | cancel (protocolVersion : UInt32) (requestId operationId : String)
  | acknowledgeRecovery (protocolVersion : UInt32) (requestId operationId : String)
      (recoveryAction : RecoveryAction)

namespace Request

def protocolVersion : Request → UInt32
  | checkRelease version _ | readTrustState version _ | readRecoveryReadiness version _
  | inspect version _ | planUpdate version _ | planReleaseUpgrade version _ _
  | start version _ _ _ _ _ | status version _ _ _ | cancel version _ _
  | acknowledgeRecovery version _ _ _ => version

def requestId : Request → String
  | checkRelease _ id | readTrustState _ id | readRecoveryReadiness _ id | inspect _ id
  | planUpdate _ id | planReleaseUpgrade _ id _ | start _ id _ _ _ _ | status _ id _ _
  | cancel _ id _ | acknowledgeRecovery _ id _ _ => id

def isSupported (self : Request) : Bool := self.protocolVersion = currentVersion

def needsAuthorization : Request → Bool
  | start .. | cancel .. => true
  | acknowledgeRecovery _ _ _ .rollback | acknowledgeRecovery _ _ _ .keepCurrent => true
  | _ => false

end Request

inductive Response
  | preflightBlocked (requestId : String) (blockers : List PreflightIssue)
  | releaseOffer (requestId manifestSha256 : String) (manifest : ReleaseManifest) (cached : Bool)
  | trustState (requestId : String) (lastManifestSequence : Option UInt64)
  | recoveryReadiness (requestId : String) (snapperRootConfigured : Bool)
  | rejected (requestId errorCode : String)
  | accepted (requestId : String) (operationId : Option String)
  | inspection (requestId : String) (facts : HostFacts) (preflight : PreflightReport)
  | plan (requestId operationId planSha256 : String) (plan : UpgradePlan)
      (preflight : PreflightReport) (planned : PlannedUpdate)
  | status (reply : StatusReply)

def Response.requestId : Response → String
  | preflightBlocked id _ | releaseOffer id _ _ _ | trustState id _ | recoveryReadiness id _
  | rejected id _ | accepted id _ | inspection id _ _ | plan id _ _ _ _ _ => id
  | status reply => reply.requestId

/-! ## What a service process does -/

/-- What `handle` leaves to others: the handlers up to their answers, and the system. -/
inductive Call
  /-- `check_release`: the manifest, and whether it came from the cache. -/
  | releaseOffer
  /-- `query_client::request`. -/
  | queryBroker (request : Request)
  /-- `read_last_manifest_sequence`. -/
  | lastManifestSequence
  /-- Whether `snapper get-config` succeeds. -/
  | snapperConfig
  | discoverHost
  | installedPackages
  | planUpdateWithCachedMetadata
  | releaseManifest
  | planReleaseUpgrade (manifest : ReleaseManifest)
  | newOperationId
  /-- `start` of a confirmed request. -/
  | start (callerUid : UInt32) (operationId planSha256 : String) (submitted : PlannedUpdate)
  /-- The record of an operation of the caller, its report and its events. -/
  | readStatus (callerUid : UInt32) (operationId : String) (after : UInt64)
  | cancel (callerUid : UInt32) (operationId : String)
  | acknowledgeRecovery (callerUid : UInt32) (operationId : String) (action : RecoveryAction)

@[reducible] def Call.Answer : Call → Type
  | releaseOffer => Except String (ReleaseManifest × Bool)
  | queryBroker _ => Except String Response
  | lastManifestSequence => Except Unit (Option UInt64)
  | snapperConfig => Bool
  | discoverHost => Except Unit HostFacts
  | installedPackages => Except Unit (List InstalledPackage)
  | planUpdateWithCachedMetadata => Except PlannerError PlannedUpdate
  | releaseManifest => Except String ReleaseManifest
  | planReleaseUpgrade _ => Except PlannerError PlannedUpdate
  | newOperationId => String
  | start .. => Except String Unit
  | readStatus .. => Option (OperationStateRecord × Option InventoryReport × StatusReads)
  | cancel .. => Except String Unit
  | acknowledgeRecovery .. => Except String Unit

/-- The calls that change an operation. -/
def Call.changes : Call → Bool
  | start .. | cancel .. | acknowledgeRecovery .. => true
  | _ => false

@[reducible] def CallSig : Signature where
  Op := Call
  Res := Call.Answer

/-- What every call is answered. -/
abbrev Answers := (e : Call) → e.Answer

/-- The result of a program that is answered like this. -/
def under {α : Type} (answers : Answers) : Prog CallSig α → α
  | .pure a => a
  | .op e k => under answers (k (answers e))

abbrev call (e : Call) : Prog CallSig e.Answer := Prog.request (S := CallSig) e

/-- `Service`, as far as its answers depend on it. -/
structure Service where
  callerUid : UInt32
  readOnly : Bool

/-- The answer of the broker, or its error under the id of the request. -/
def relayed (requestId : String) : Except String Response → Response
  | .ok response => response
  | .error e => .rejected requestId e

section

variable (digest : List Char → String)

/-- `plan_response`, and the errors of a planner. -/
def planResponse (requestId : String) :
    Except PlannerError PlannedUpdate → Prog CallSig Response
  | .ok planned => do
      let operationId ← call .newOperationId
      return .plan requestId operationId planned.planSha256 planned.plan planned.preflight planned
  | .error (.blocked blockers) => return .preflightBlocked requestId blockers
  | .error (.migration .alreadyApplied) => return .rejected requestId "MIGRATION_ALREADY_APPLIED"
  | .error (.migration _) => return .rejected requestId "MIGRATION_POLICY_FAILED"
  | .error _ => return .rejected requestId "PREFLIGHT_BLOCKED"

namespace Service

variable (self : Service)

/-- `check_release`. -/
def checkRelease (requestId : String) : Prog CallSig Response := do
  match ← call .releaseOffer with
  | .ok (manifest, cached) =>
      return .releaseOffer requestId (manifest.sha256 digest) manifest cached
  | .error e => return .rejected requestId e

/-- `trust_state`. -/
def trustState (requestId : String) : Prog CallSig Response := do
  if self.readOnly then
    let response ← call (.queryBroker (.readTrustState currentVersion requestId))
    return relayed requestId response
  else
    match ← call .lastManifestSequence with
    | .ok last => return .trustState requestId last
    | .error _ => return .rejected requestId "MANIFEST_SEQUENCE_INVALID"

/-- `inspect`. -/
def inspect (requestId : String) : Prog CallSig Response := do
  match ← call .discoverHost with
  | .error _ => return .rejected requestId "DISCOVERY_FAILED"
  | .ok facts =>
      match ← call .installedPackages with
      | .error _ => return .rejected requestId "DISCOVERY_FAILED"
      | .ok installedPackages =>
          let facts := { facts with installedPackages }
          return .inspection requestId facts (evaluatePreflight facts {})

/-- `plan_update`. -/
def planUpdate (requestId : String) : Prog CallSig Response := do
  planResponse requestId (← call .planUpdateWithCachedMetadata)

/-- `plan_release_upgrade`. -/
def planReleaseUpgrade (requestId expectedManifestHash : String) : Prog CallSig Response := do
  match ← call .releaseManifest with
  | .error e => return .rejected requestId e
  | .ok manifest =>
      if manifest.sha256 digest ≠ expectedManifestHash then
        return .rejected requestId "MANIFEST_CHANGED"
      else planResponse requestId (← call (.planReleaseUpgrade manifest))

/-- `start`. -/
def start (requestId operationId planSha256 : String) (confirmed : Bool)
    (submitted : PlannedUpdate) : Prog CallSig Response := do
  if !confirmed then return .rejected requestId "CONFIRMATION_REQUIRED"
  else
    match ← call (.start self.callerUid operationId planSha256 submitted) with
    | .error e => return .rejected requestId e
    | .ok () => return .accepted requestId operationId

/-- `status`. -/
def status (requestId operationId : String) (after : UInt64) : Prog CallSig Response := do
  if self.readOnly then
    let response ← call (.queryBroker (.status currentVersion requestId operationId (some after)))
    return relayed requestId response
  else
    match ← call (.readStatus self.callerUid operationId after) with
    | none => return .rejected requestId "OPERATION_NOT_FOUND"
    | some (state, report, reads) =>
        return .status (statusReply requestId operationId state report reads after)

/-- `cancel`. -/
def cancel (requestId operationId : String) : Prog CallSig Response := do
  match ← call (.cancel self.callerUid operationId) with
  | .error e => return .rejected requestId e
  | .ok () => self.status requestId operationId 0

/-- `acknowledge_recovery`. -/
def acknowledgeRecovery (requestId operationId : String) (action : RecoveryAction) :
    Prog CallSig Response := do
  if action = .showDiagnostics then self.status requestId operationId 0
  else
    match ← call (.acknowledgeRecovery self.callerUid operationId action) with
    | .error e => return .rejected requestId e
    | .ok () => self.status requestId operationId 0

/-- `handle`. -/
def handle (request : Request) : Prog CallSig Response :=
  let requestId := request.requestId
  if !request.isSupported then return .rejected requestId "UNSUPPORTED_PROTOCOL"
  else if self.readOnly && request.needsAuthorization then
    return .rejected requestId "AUTHORIZATION_REQUIRED"
  else
    match request with
    | .checkRelease .. => checkRelease digest requestId
    | .readTrustState .. => self.trustState requestId
    | .readRecoveryReadiness .. => do
        let response ← call (.queryBroker (.readRecoveryReadiness currentVersion requestId))
        return relayed requestId response
    | .inspect .. => inspect requestId
    | .planUpdate .. => planUpdate requestId
    | .planReleaseUpgrade _ _ manifestSha256 => planReleaseUpgrade digest requestId manifestSha256
    | .start _ _ operationId planSha256 confirmed planned =>
        self.start requestId operationId planSha256 confirmed planned
    | .status _ _ operationId afterSequence =>
        self.status requestId operationId (afterSequence.getD 0)
    | .cancel _ _ operationId => self.cancel requestId operationId
    | .acknowledgeRecovery _ _ operationId recoveryAction =>
        self.acknowledgeRecovery requestId operationId recoveryAction

/-- `query_response`: what the broker answers. -/
def queryResponse (request : Request) : Prog CallSig Response :=
  let requestId := request.requestId
  if !request.isSupported then return .rejected requestId "UNSUPPORTED_PROTOCOL"
  else
    match request with
    | .status _ _ operationId afterSequence =>
        self.status requestId operationId (afterSequence.getD 0)
    | .readTrustState .. => self.trustState requestId
    | .readRecoveryReadiness .. => do
        let configured ← call .snapperConfig
        return .recoveryReadiness requestId configured
    | _ => return .rejected requestId "READ_ONLY_REQUEST_REQUIRED"

end Service

end

/-! ## Lines -/

/-- `serde_json`, for the two types. -/
structure Codec where
  requestText : Request → List UInt8
  requestFromSlice : List UInt8 → Option Request
  responseText : Response → List UInt8
  responseFromStr : String → Option Response
  responseFromSlice : List UInt8 → Option Response

def maxRequest : ℕ := 4 * 1024 * 1024

def maxResponse : ℕ := 16 * 1024 * 1024

/-- What a line is answered that is not a request. -/
def invalidRequest : Response := .rejected "unknown" "INVALID_REQUEST"

/-- The errors of `exchange`, some with a text of the system. -/
inductive ExchangeError
  | notStarted (error : String)
  | notSerialized (error : String)
  | io (error : String)
  | authorization
  | closed
  | invalidResponse
  | invalidJson

/-- What the window gets of an error; the text of a JSON error is left out. -/
def ExchangeError.message : ExchangeError → String
  | notStarted error => "cannot start service: " ++ error
  | notSerialized error => "cannot serialize request: " ++ error
  | io error => error
  | authorization => "AUTHORIZATION"
  | closed => "service closed the protocol stream"
  | invalidResponse => "INVALID_RESPONSE"
  | invalidJson => "invalid service response: "

section

variable (codec : Codec)

/-- `read_request`, of what was read. -/
def readRequest (line : List UInt8) : Except Unit (Option Request) :=
  if line.isEmpty then .ok none
  else if maxRequest < line.length || line.getLast? ≠ some lineFeed then .error ()
  else
    match codec.requestFromSlice line with
    | none => .error ()
    | some request => .ok (some request)

/-- The end of `exchange`, of what was read if it is anything. -/
def readResponse (line : List UInt8) : Except ExchangeError Response :=
  match String.fromUTF8? line.toByteArray with
  | none => .error (.io "stream did not contain valid UTF-8")
  | some text =>
      if maxResponse < line.length || line.getLast? ≠ some lineFeed then .error .invalidResponse
      else
        match codec.responseFromStr text with
        | none => .error .invalidJson
        | some response => .ok response

/-- A session; `room` is how much a pipe holds. -/
def wire (room : ℕ) : Wire UInt8 Request Response ExchangeError where
  stop := lineFeed
  ask := codec.requestText
  reply := codec.responseText
  readAsk := fun line => (readRequest codec line).toOption.join
  readReply := readResponse codec
  askLimit := maxRequest
  replyLimit := maxResponse
  refusal := invalidRequest
  room := room

/-! ## The query broker -/

variable (digest : List Char → String)

/-- `query_connection`, up to writing its answer: the request that could be read is answered. -/
def queryConnection (peerUid : UInt32) (answers : Answers) (received : List UInt8) : Response :=
  match readRequest codec (readUntil lineFeed (maxRequest + 1) received).1 with
  | .ok (some request) => under answers ((⟨peerUid, false⟩ : Service).queryResponse request)
  | _ => invalidRequest

/-- How the system carries one request to the broker and one response back. -/
inductive Connection
  /-- No connection, not to root, or a failed read or write. -/
  | unavailable
  /-- The request cannot be written. -/
  | unwritten
  /-- So many bytes of the request arrive, and so many of the answer. -/
  | carried (received replied : ℕ)

/-- `query_client::request`, by a process of `uid`. -/
def queryClient (uid : UInt32) (answers : Answers) (request : Request) :
    Connection → Except String Response
  | .unavailable => .error "QUERY_UNAVAILABLE"
  | .unwritten => .error "INVALID_REQUEST"
  | .carried received replied =>
      let response := queryConnection codec uid answers
        ((codec.requestText request ++ [lineFeed]).take received)
      let reply := (readUntil lineFeed (maxResponse + 1)
        ((codec.responseText response ++ [lineFeed]).take replied)).1
      if maxResponse < reply.length || reply.getLast? ≠ some lineFeed then
        .error "INVALID_RESPONSE"
      else
        match codec.responseFromSlice reply with
        | none => .error "INVALID_RESPONSE"
        | some response => .ok response

end

/-! ## The desktop -/

/-- The two processes of `Connections`. -/
inductive Channel
  | query
  | admin
  deriving DecidableEq

/-- The process that `exchange` asks. -/
def Request.channel (request : Request) : Channel :=
  if request.needsAuthorization then .admin else .query

/-- The checks of `service_request`. -/
def checkRequest (request : Request) : Except String Unit :=
  if !request.isSupported then .error "UNSUPPORTED_PROTOCOL"
  else
    match request with
    | .start _ _ _ _ false _ => .error "CONFIRMATION_REQUIRED"
    | _ => .ok ()

/-- A process with its pipes, as both sides use them. -/
abbrev Process := Link UInt8 Request Response ExchangeError

structure Connections where
  query : Process
  admin : Process

namespace Connections

def new : Connections := ⟨Link.new, Link.new⟩

def process (self : Connections) : Channel → Process
  | .query => self.query
  | .admin => self.admin

def update (self : Connections) (f : Process → Process) : Channel → Connections
  | .query => { self with query := f self.query }
  | .admin => { self with admin := f self.admin }

/-- Whether the lock of `Connections` is free. -/
def free (self : Connections) : Bool :=
  match self.query.caller, self.admin.caller with
  | .idle, .idle => true
  | _, _ => false

end Connections

/-- A desktop session: the user, and what the processes are built from. -/
structure Setting where
  codec : Codec
  digest : List Char → String
  user : UInt32
  room : ℕ

/-- One step of the desktop, or of the process behind a channel. -/
inductive Move
  /-- The window asks; what is found if the process has ended. -/
  | request (request : Request) (found : Found String)
  | write (channel : Channel) (error : String)
  /-- What `try_wait` says if there is nothing to read. -/
  | read (channel : Channel) (status : Option ℤ)
  | listen (channel : Channel)
  | handle (channel : Channel) (answers : Answers) (connection : Connection) (broker : Answers)
  | speak (channel : Channel)
  | leave (channel : Channel)
  | die (channel : Channel)

namespace Setting

variable (s : Setting)

def wire : Wire UInt8 Request Response ExchangeError := Session.wire s.codec s.room

def service : Channel → Service
  | .query => ⟨s.user, true⟩
  | .admin => ⟨s.user, false⟩

/-- Whom the broker sees: `pkexec` makes the process root's. -/
def peer : Channel → UInt32
  | .query => s.user
  | .admin => 0

/-- The answers of a process whose calls to the broker are carried over a connection. -/
def withBroker (channel : Channel) (answers : Answers) (connection : Connection)
    (broker : Answers) : Answers
  | .queryBroker request => queryClient s.codec (s.peer channel) broker request connection
  | e => answers e

def handled (channel : Channel) (answers : Answers) (connection : Connection) (broker : Answers)
    (request : Request) : Response :=
  under (s.withBroker channel answers connection broker)
    ((s.service channel).handle s.digest request)

/-- The error of a write that failed: the line feed is written by itself. -/
def writeError (error : String) (process : Process) : ExchangeError :=
  match process.caller with
  | .calling _ [_] _ => .io error
  | _ => .notSerialized error

/-- The error of a stream that has ended. -/
def closedError (status : Option ℤ) : ExchangeError :=
  if status = some 126 || status = some 127 then .authorization else .closed

def found : Found String → Found ExchangeError
  | .unseen => .unseen
  | .started => .started
  | .failed error => .failed (.notStarted error)

def move (connections : Connections) : Move → Connections
  | .request request f =>
      match checkRequest request with
      | .error _ => connections
      | .ok () =>
          if connections.free then
            connections.update (·.call s.wire request (found f)) request.channel
          else connections
  | .write channel error =>
      connections.update (fun process => process.write s.wire (writeError error process)) channel
  | .read channel status => connections.update (·.read s.wire (closedError status)) channel
  | .listen channel => connections.update (·.listen s.wire) channel
  | .handle channel answers connection broker =>
      connections.update (·.handle s.wire (s.handled channel answers connection broker)) channel
  | .speak channel => connections.update (·.speak s.wire) channel
  | .leave channel => connections.update (·.leave) channel
  | .die channel => connections.update (·.die) channel

def run (moves : List Move) : Connections := moves.foldl s.move Connections.new

end Setting

end LyraUpgrade.Session
