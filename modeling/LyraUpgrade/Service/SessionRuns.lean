import LyraUpgrade.Service.Session
import Mathlib.Order.GameAdd

/-!
# Runs of the sessions

The desktop asks a service process through two pipes, and a process may ask the broker through a
socket; either may be slow, and either may end.  Nothing numbers the lines, and nobody compares the
id of an answer with that of the request: what an answer belongs to rests on the pipes alone.

* `queryClient_cases`: what comes of a request to the broker.
* `Setting.Told`: what an answer of a process rests on.
* `desktop_served`: on either channel requests are acted on one at a time, at most once and only
  while the desktop waits for the answer, and what the window gets is the answer to its request.
* `exchange_ends`: desktop and process do not wait for each other, and no exchange goes on for ever.
-/

namespace LyraUpgrade.Session

open Encoding Interaction

/-! ## Programs that are answered -/

section

variable {α β : Type} (answers : Answers)

@[simp] theorem under_pure (a : α) : under answers (pure a) = a := rfl

/-- A call is answered. -/
theorem under_call_bind (e : Call) (f : e.Answer → Prog CallSig β) :
    under answers (call e >>= f) = under answers (f (answers e)) := rfl

end

/-! ## One request to the broker -/

/-- The codec of the requests and responses that occur.  `serde_json` writes no line feed, and
reads what it has written, with white space behind it. -/
structure Codec.Faithful (codec : Codec) (requests : Set Request) (responses : Set Response) :
    Prop where
  request_open : ∀ request ∈ requests, lineFeed ∉ codec.requestText request
  request_read : ∀ request ∈ requests,
    codec.requestFromSlice (codec.requestText request ++ [lineFeed]) = some request
  response_open : ∀ response ∈ responses, lineFeed ∉ codec.responseText response
  response_slice : ∀ response ∈ responses,
    codec.responseFromSlice (codec.responseText response ++ [lineFeed]) = some response
  response_str : ∀ response ∈ responses, ∃ text,
    String.fromUTF8? (codec.responseText response ++ [lineFeed]).toByteArray = some text ∧
      codec.responseFromStr text = some response

section

variable {codec : Codec} {requests : Set Request} {responses : Set Response}

/-- What is read of a line of which only so much arrives: all of it, or nothing that ends. -/
theorem readUntil_take_line {stop : UInt8} {body : List UInt8} (hbody : stop ∉ body)
    (limit n : ℕ) : (readUntil stop limit ((body ++ [stop]).take n)).1 = body ++ [stop] ∨
      stop ∉ (readUntil stop limit ((body ++ [stop]).take n)).1 := by
  have hprefix : (readUntil stop limit ((body ++ [stop]).take n)).1 <+: body ++ [stop] :=
    List.IsPrefix.trans ⟨_, readUntil_append stop limit _⟩ (List.take_prefix n _)
  exact (List.prefix_concat_iff.mp hprefix).imp_right fun hpart hmem =>
    hbody (hpart.subset hmem)

theorem getLast?_of_notMem {stop : UInt8} {line : List UInt8} (hline : stop ∉ line) :
    line.getLast? ≠ some stop :=
  fun h => hline (List.mem_of_getLast? h)

theorem readRequest_of_open (codec : Codec) {line : List UInt8} (hline : lineFeed ∉ line) :
    readRequest codec line = .ok none ∨ readRequest codec line = .error () := by
  unfold readRequest
  split
  · exact Or.inl rfl
  · rw [if_pos (by simp [getLast?_of_notMem hline])]
    exact Or.inr rfl

theorem readRequest_of_long {line : List UInt8} (hline : maxRequest < line.length) :
    readRequest codec line = .error () := by
  unfold readRequest
  rw [if_neg (by rw [List.isEmpty_iff]; rintro rfl; exact absurd hline (Nat.not_lt_zero _)),
    if_pos (by simp [hline])]

/-- A request that fits is read. -/
theorem readRequest_line (hcodec : codec.Faithful requests responses) {request : Request}
    (hrequest : request ∈ requests)
    (hfits : (codec.requestText request ++ [lineFeed]).length ≤ maxRequest) :
    readRequest codec (codec.requestText request ++ [lineFeed]) = .ok (some request) := by
  have hshort : ¬ (decide (maxRequest < (codec.requestText request ++ [lineFeed]).length) ||
      decide ((codec.requestText request ++ [lineFeed]).getLast? ≠ some lineFeed)) = true := by
    rw [List.getLast?_concat]
    simpa using hfits
  unfold readRequest
  rw [if_neg (by simp), if_neg hshort, hcodec.request_read request hrequest]

/-- The broker answers the request or refuses it. -/
theorem queryConnection_cases (hcodec : codec.Faithful requests responses) {request : Request}
    (hrequest : request ∈ requests) (uid : UInt32) (answers : Answers) (n : ℕ) :
    queryConnection codec uid answers ((codec.requestText request ++ [lineFeed]).take n) =
        under answers ((⟨uid, false⟩ : Service).queryResponse request) ∨
      queryConnection codec uid answers ((codec.requestText request ++ [lineFeed]).take n) =
        invalidRequest := by
  unfold queryConnection
  rcases readUntil_take_line (hcodec.request_open request hrequest) (maxRequest + 1) n with
    hall | hpart
  · rw [hall]
    rcases Nat.lt_or_ge maxRequest (codec.requestText request ++ [lineFeed]).length with
      hlong | hfits
    · rw [readRequest_of_long hlong]
      exact Or.inr rfl
    · rw [readRequest_line hcodec hrequest hfits]
      exact Or.inl rfl
  · rcases readRequest_of_open codec hpart with heq | heq <;> rw [heq] <;>
      exact Or.inr rfl

/-- What may come back of a request to the broker of a caller of `uid`. -/
inductive Brokered (uid : UInt32) (request : Request) : Except String Response → Prop
  | answered (answers : Answers) : Brokered uid request
      (.ok (under answers ((⟨uid, false⟩ : Service).queryResponse request)))
  | refused : Brokered uid request (.ok invalidRequest)
  | failed {e : String} (known : e ∈ ["QUERY_UNAVAILABLE", "INVALID_REQUEST", "INVALID_RESPONSE"]) :
      Brokered uid request (.error e)

/-- **One request to the broker**, however much of it and of its answer arrives. -/
theorem queryClient_brokered (hcodec : codec.Faithful requests responses) {request : Request}
    (hrequest : request ∈ requests) (uid : UInt32) {answers : Answers}
    (hanswer : under answers ((⟨uid, false⟩ : Service).queryResponse request) ∈ responses)
    (hrefusal : invalidRequest ∈ responses) (connection : Connection) :
    Brokered uid request (queryClient codec uid answers request connection) := by
  cases connection with
  | unavailable => exact .failed (by simp)
  | unwritten => exact .failed (by simp)
  | carried received replied =>
      -- what the broker writes, and what is read of it
      have hread {response : Response} (hresponse : response ∈ responses) :
          (readUntil lineFeed (maxResponse + 1)
            ((codec.responseText response ++ [lineFeed]).take replied)).1 =
              codec.responseText response ++ [lineFeed] ∨
            (readUntil lineFeed (maxResponse + 1)
              ((codec.responseText response ++ [lineFeed]).take replied)).1.getLast? ≠
                some lineFeed :=
        (readUntil_take_line (hcodec.response_open response hresponse) _ replied).imp_right
          getLast?_of_notMem
      have hclient {response : Response} (hresponse : response ∈ responses)
          (hsame : queryConnection codec uid answers
            ((codec.requestText request ++ [lineFeed]).take received) = response) :
          queryClient codec uid answers request (.carried received replied) = .ok response ∨
            queryClient codec uid answers request (.carried received replied) =
              .error "INVALID_RESPONSE" := by
        unfold queryClient
        simp only [hsame]
        split
        · exact Or.inr rfl
        · rename_i hwhole
          rcases hread hresponse with hall | hpart
          · rw [hall, hcodec.response_slice response hresponse]
            exact Or.inl rfl
          · exact absurd (by simp [hpart]) hwhole
      rcases queryConnection_cases hcodec hrequest uid answers received with heq | heq
      · rcases hclient hanswer heq with h | h <;> rw [h]
        · exact .answered answers
        · exact .failed (by simp)
      · rcases hclient hrefusal heq with h | h <;> rw [h]
        · exact .refused
        · exact .failed (by simp)

end

/-! ## What a request is answered -/

section

variable {digest : List Char → String} {answers : Answers}

theorem requestId_planResponse (requestId : String)
    (planned : Except PlannerError PlannedUpdate) :
    (under answers (planResponse requestId planned)).requestId = requestId := by
  rcases planned with error | planned
  · cases error with
    | migration error => cases error <;> rfl
    | _ => rfl
  · rfl

/-- The id of a response that comes from the broker, or from the process itself. -/
def Named (requestId : String) (response : Response) : Prop :=
  response.requestId = requestId ∨ response = invalidRequest

theorem requestId_trustState (uid : UInt32) (requestId : String) :
    (under answers ((⟨uid, false⟩ : Service).trustState requestId)).requestId = requestId := by
  unfold Service.trustState
  rw [if_neg Bool.false_ne_true, under_call_bind]
  cases answers .lastManifestSequence <;> rfl

theorem requestId_status (uid : UInt32) (requestId operationId : String) (after : UInt64) :
    (under answers ((⟨uid, false⟩ : Service).status requestId operationId after)).requestId =
      requestId := by
  unfold Service.status
  rw [if_neg Bool.false_ne_true, under_call_bind]
  cases answers (.readStatus uid operationId after) <;> rfl

/-- The broker names the request. -/
theorem requestId_queryResponse (uid : UInt32) (request : Request) :
    (under answers ((⟨uid, false⟩ : Service).queryResponse request)).requestId =
      request.requestId := by
  unfold Service.queryResponse
  dsimp only
  split
  · rfl
  · cases request with
    | status version requestId operationId afterSequence => exact requestId_status uid _ _ _
    | readTrustState version requestId => exact requestId_trustState uid _
    | _ => rfl

theorem Brokered.named {uid : UInt32} {request : Request} {result : Except String Response}
    (h : Brokered uid request result) :
    Named request.requestId (relayed request.requestId result) := by
  cases h with
  | answered answers => exact Or.inl (requestId_queryResponse uid request)
  | refused => exact Or.inr rfl
  | failed => exact Or.inl rfl

/-- What a process passes on of a request. -/
def Request.relays : Request → List Request
  | .readTrustState _ id => [.readTrustState currentVersion id]
  | .readRecoveryReadiness _ id => [.readRecoveryReadiness currentVersion id]
  | .status _ id operationId afterSequence =>
      [.status currentVersion id operationId (some (afterSequence.getD 0))]
  | .acknowledgeRecovery _ id operationId _ =>
      [.status currentVersion id operationId (some 0)]
  | _ => []

theorem requestId_of_mem_relays {request relay : Request} (h : relay ∈ request.relays) :
    relay.requestId = request.requestId := by
  cases request with
  | readTrustState | readRecoveryReadiness | status | acknowledgeRecovery =>
      rw [List.mem_singleton.mp h]
      rfl
  | checkRelease | inspect | planUpdate | planReleaseUpgrade | start | cancel => cases h

section

variable (self : Service)

theorem named_status {requestId operationId : String} {after : UInt64}
    (h : self.readOnly = true → Named requestId (relayed requestId (answers
      (.queryBroker (.status currentVersion requestId operationId (some after)))))) :
    Named requestId (under answers (self.status requestId operationId after)) := by
  obtain ⟨uid, readOnly⟩ := self
  cases readOnly with
  | true => exact h rfl
  | false => exact Or.inl (requestId_status uid requestId operationId after)

theorem named_trustState {requestId : String}
    (h : Named requestId (relayed requestId (answers
      (.queryBroker (.readTrustState currentVersion requestId))))) :
    Named requestId (under answers (self.trustState requestId)) := by
  obtain ⟨uid, readOnly⟩ := self
  cases readOnly with
  | true => exact h
  | false => exact Or.inl (requestId_trustState uid requestId)

/-- A process names the request, or passes on what the broker says of no request. -/
theorem named_handle (request : Request)
    (h : ∀ relay ∈ request.relays, Named request.requestId (relayed request.requestId
      (answers (.queryBroker relay)))) :
    Named request.requestId (under answers (self.handle digest request)) := by
  unfold Service.handle
  dsimp only
  split
  · exact Or.inl rfl
  split
  · exact Or.inl rfl
  rename_i hallowed
  cases request with
  | checkRelease version requestId =>
      show Named _ (under answers (Service.checkRelease digest requestId))
      unfold Service.checkRelease
      rw [under_call_bind]
      cases answers .releaseOffer <;> exact Or.inl rfl
  | readTrustState version requestId => exact named_trustState self (h _ List.mem_cons_self)
  | readRecoveryReadiness version requestId => exact h _ List.mem_cons_self
  | inspect version requestId =>
      show Named _ (under answers (Service.inspect requestId))
      unfold Service.inspect
      rw [under_call_bind]
      cases answers .discoverHost with
      | error e => exact Or.inl rfl
      | ok facts =>
          dsimp only
          rw [under_call_bind]
          cases answers .installedPackages <;> exact Or.inl rfl
  | planUpdate version requestId => exact Or.inl (requestId_planResponse requestId _)
  | planReleaseUpgrade version requestId manifestSha256 =>
      show Named _ (under answers (Service.planReleaseUpgrade digest requestId manifestSha256))
      unfold Service.planReleaseUpgrade
      rw [under_call_bind]
      cases answers .releaseManifest with
      | error e => exact Or.inl rfl
      | ok manifest =>
          dsimp only
          split
          · exact Or.inl rfl
          · exact Or.inl (requestId_planResponse requestId _)
  | start version requestId operationId planSha256 confirmed planned =>
      show Named _ (under answers (self.start requestId operationId planSha256 confirmed planned))
      unfold Service.start
      split
      · exact Or.inl rfl
      · rw [under_call_bind]
        cases answers (.start self.callerUid operationId planSha256 planned) <;> exact Or.inl rfl
  | status version requestId operationId afterSequence =>
      exact named_status self fun _ => h _ List.mem_cons_self
  | cancel version requestId operationId =>
      show Named _ (under answers (self.cancel requestId operationId))
      unfold Service.cancel
      rw [under_call_bind]
      cases answers (.cancel self.callerUid operationId) with
      | error e => exact Or.inl rfl
      | ok _ =>
          refine named_status self fun hreadOnly => ?_
          simp [hreadOnly, Request.needsAuthorization] at hallowed
  | acknowledgeRecovery version requestId operationId action =>
      have hstatus : Named requestId (under answers (self.status requestId operationId 0)) :=
        named_status self fun _ => h _ List.mem_cons_self
      show Named _ (under answers (self.acknowledgeRecovery requestId operationId action))
      unfold Service.acknowledgeRecovery
      split
      · exact hstatus
      · rw [under_call_bind]
        cases answers (.acknowledgeRecovery self.callerUid operationId action) with
        | error e => exact Or.inl rfl
        | ok _ => exact hstatus

end

end

/-! ## What a request may change -/

section

variable {digest : List Char → String} (self : Service)

/-- No operation is changed, whatever the calls are answered. -/
def Quiet {α : Type} (p : Prog CallSig α) : Prop := p.Only fun e : Call => e.changes = false

theorem quiet_call {α : Type} {e : Call} {f : e.Answer → Prog CallSig α}
    (he : e.changes = false) (hf : ∀ r, Quiet (f r)) : Quiet (call e >>= f) :=
  ⟨he, hf⟩

theorem quiet_status (requestId operationId : String) (after : UInt64) :
    Quiet (self.status requestId operationId after) := by
  unfold Service.status
  split
  · exact quiet_call rfl fun _ => trivial
  · refine quiet_call rfl fun r => ?_
    cases r <;> trivial

theorem quiet_planResponse (requestId : String) (planned : Except PlannerError PlannedUpdate) :
    Quiet (planResponse requestId planned) := by
  rcases planned with error | planned
  · cases error with
    | migration error => cases error <;> trivial
    | _ => trivial
  · exact quiet_call rfl fun _ => trivial

/-- A request that needs no authorization changes nothing. -/
theorem quiet_handle {request : Request} (h : request.needsAuthorization = false) :
    Quiet (self.handle digest request) := by
  unfold Service.handle
  dsimp only
  split
  · trivial
  split
  · trivial
  cases request with
  | start | cancel => cases h
  | checkRelease version requestId =>
      refine quiet_call rfl fun r => ?_
      cases r <;> trivial
  | readTrustState version requestId =>
      show Quiet (self.trustState requestId)
      unfold Service.trustState
      split
      · exact quiet_call rfl fun _ => trivial
      · refine quiet_call rfl fun r => ?_
        cases r <;> trivial
  | readRecoveryReadiness version requestId => exact quiet_call rfl fun _ => trivial
  | inspect version requestId =>
      refine quiet_call rfl fun r => ?_
      cases r with
      | error e => trivial
      | ok facts =>
          refine quiet_call rfl fun r => ?_
          cases r <;> trivial
  | planUpdate version requestId => exact quiet_call rfl fun _ => quiet_planResponse requestId _
  | planReleaseUpgrade version requestId manifestSha256 =>
      refine quiet_call rfl fun r => ?_
      cases r with
      | error e => trivial
      | ok manifest =>
          dsimp only
          split
          · trivial
          · exact quiet_call rfl fun _ => quiet_planResponse requestId _
  | status version requestId operationId afterSequence => exact quiet_status self _ _ _
  | acknowledgeRecovery version requestId operationId action =>
      cases action with
      | showDiagnostics => exact quiet_status self _ _ _
      | rollback | keepCurrent => cases h

end

/-! ## Runs -/

theorem Connections.process_update (connections : Connections)
    (f : Process → Process) (channel other : Channel) :
    (connections.update f channel).process other =
      if channel = other then f (connections.process other) else connections.process other := by
  cases channel <;> cases other <;> rfl

theorem Connections.update_ne (connections : Connections) (f : Process → Process)
    (channel : Channel) : connections.update f channel ≠ connections ↔
      f (connections.process channel) ≠ connections.process channel := by
  refine not_congr ⟨fun h => ?_, fun h => ?_⟩
  · have hprocess := congrArg (·.process channel) h
    rw [Connections.process_update, if_pos rfl] at hprocess
    exact hprocess
  · cases channel with
    | query => exact congrArg (fun process => Connections.mk process connections.admin) h
    | admin => exact congrArg (Connections.mk connections.query) h

/-- What the window asks over a channel. -/
structure Sent (channel : Channel) (request : Request) : Prop where
  checked : checkRequest request = .ok ()
  routed : request.channel = channel

namespace Setting

variable (s : Setting)

/-- What an answer of the process behind a channel rests on. -/
structure Told (channel : Channel) (request : Request) (response : Response) : Prop where
  handled : ∃ answers : Answers,
    response = under answers ((s.service channel).handle s.digest request) ∧
      ∀ relay ∈ request.relays, Brokered (s.peer channel) relay (answers (.queryBroker relay))
  named : Named request.requestId response
  quiet : channel = .query → Quiet ((s.service channel).handle s.digest request)

/-- The requests and responses that occur are read as they were meant, and fit the limit. -/
structure Speaks (requests : Set Request) (responses : Set Response) : Prop where
  codec : s.codec.Faithful requests responses
  relays : ∀ request ∈ requests, ∀ relay ∈ request.relays, relay ∈ requests
  refusal : invalidRequest ∈ responses
  short : ∀ response ∈ responses, (s.codec.responseText response).length < maxResponse

/-- A move in which nothing else occurs. -/
def Within (requests : Set Request) (responses : Set Response) : Move → Prop
  | .request request _ => request ∈ requests
  | .handle channel answers connection broker => ∀ request ∈ requests,
      s.handled channel answers connection broker request ∈ responses ∧
        under broker ((⟨s.peer channel, false⟩ : Service).queryResponse request) ∈ responses
  | _ => True

section

variable {s} {requests : Set Request} {responses : Set Response} {channel : Channel}

theorem told (hs : s.Speaks requests responses) {request : Request} (hrequest : request ∈ requests)
    (hsent : Sent channel request) {answers broker : Answers} {connection : Connection}
    (hwithin : s.Within requests responses (.handle channel answers connection broker)) :
    s.Told channel request (s.handled channel answers connection broker request) := by
  have hbroker : ∀ relay ∈ request.relays, Brokered (s.peer channel) relay
      (s.withBroker channel answers connection broker (.queryBroker relay)) := by
    intro relay hrelay
    have hmem := hs.relays request hrequest relay hrelay
    exact queryClient_brokered hs.codec hmem _ (hwithin relay hmem).2 hs.refusal connection
  refine ⟨⟨_, rfl, hbroker⟩, named_handle _ request fun relay hrelay => ?_, fun hquery => ?_⟩
  · rw [← requestId_of_mem_relays hrelay]
    exact (hbroker relay hrelay).named
  · refine quiet_handle _ ?_
    have hrouted := hsent.routed
    subst hquery
    unfold Request.channel at hrouted
    split at hrouted
    · cases hrouted
    · rename_i hneeds
      exact Bool.eq_false_iff.mpr hneeds

/-- A line of a session says what was meant. -/
theorem sound (hs : s.Speaks requests responses) :
    s.wire.Sound (fun request => request ∈ requests ∧ Sent channel request)
      (fun request response => response ∈ responses ∧ s.Told channel request response) := by
  have hreply {response : Response} (hresponse : response ∈ responses) :
      s.wire.CarriesReply response := by
    have hshort := hs.short response hresponse
    have hfits : (s.wire.replyLine response).length ≤ maxResponse := by
      rw [Wire.replyLine, List.length_append, List.length_singleton]
      exact hshort
    refine ⟨hs.codec.response_open response hresponse, hfits, ?_⟩
    obtain ⟨text, htext, hread⟩ := hs.codec.response_str response hresponse
    have hwhole : ¬ (decide (maxResponse < (s.wire.replyLine response).length) ||
        decide ((s.wire.replyLine response).getLast? ≠ some lineFeed)) = true := by
      have hlast : (s.wire.replyLine response).getLast? = some lineFeed := List.getLast?_concat
      rw [hlast]
      simpa using hfits
    show readResponse s.codec (s.wire.replyLine response) = _
    unfold readResponse
    rw [show String.fromUTF8? (s.wire.replyLine response).toByteArray = some text from htext]
    dsimp only
    rw [if_neg hwhole, hread]
  exact
    { call := fun request h => ⟨hs.codec.request_open request h.1, fun hfits => by
        show (readRequest s.codec (s.wire.askLine request)).toOption.join = _
        rw [show readRequest s.codec (s.wire.askLine request) = _ from
          readRequest_line hs.codec h.1 hfits]
        rfl⟩
      answer := fun _ response h => hreply h.1
      refusal := hreply hs.refusal
      readAsk_long := fun line hlong => by
        show (readRequest s.codec line).toOption.join = none
        rw [readRequest_of_long hlong]
        rfl
      readReply_part := fun line response hread => by
        by_contra hopen
        have hlast : line.getLast? ≠ some lineFeed := getLast?_of_notMem hopen
        have hread' : readResponse s.codec line = .ok response := hread
        unfold readResponse at hread'
        split at hread'
        · cases hread'
        · rw [if_pos (by simp [hlast])] at hread'
          cases hread' }

/-- Both processes, wherever their lines are. -/
def Inv (s : Setting) (requests : Set Request) (responses : Set Response)
    (connections : Connections) : Prop :=
  ∀ channel, (connections.process channel).Inv s.wire
    (fun request => request ∈ requests ∧ Sent channel request)
    (fun request response => response ∈ responses ∧ s.Told channel request response)

theorem Inv.update {connections : Connections} (h : Inv s requests responses connections)
    {f : Process → Process} {channel : Channel}
    (hf : (f (connections.process channel)).Inv s.wire
      (fun request => request ∈ requests ∧ Sent channel request)
      (fun request response => response ∈ responses ∧ s.Told channel request response)) :
    Inv s requests responses (connections.update f channel) := by
  intro other
  rw [Connections.process_update]
  split
  · rename_i heq
    subst heq
    exact hf
  · exact h other

theorem Inv.move {connections : Connections} (hs : s.Speaks requests responses)
    (h : Inv s requests responses connections) {m : Move} (hm : s.Within requests responses m) :
    Inv s requests responses (s.move connections m) := by
  cases m with
  | request request f =>
      unfold Setting.move
      dsimp only
      cases hcheck : checkRequest request with
      | error e => exact h
      | ok _ =>
          dsimp only
          split
          · refine h.update ?_
            exact (h request.channel).call ⟨hm, hcheck, rfl⟩ _
          · exact h
  | write channel error => exact h.update ((h channel).write _)
  | read channel status => exact h.update ((h channel).read (sound hs) _)
  | listen channel => exact h.update ((h channel).listen (sound hs))
  | handle channel answers connection broker =>
      exact h.update ((h channel).handle fun request hrequest =>
        ⟨(hm request hrequest.1).1, told hs hrequest.1 hrequest.2 hm⟩)
  | speak channel => exact h.update (h channel).speak
  | leave channel => exact h.update (h channel).leave
  | die channel => exact h.update (h channel).die

theorem inv_run (hs : s.Speaks requests responses) (moves : List Move)
    (hmoves : ∀ m ∈ moves, s.Within requests responses m) :
    Inv s requests responses (s.run moves) := by
  induction moves using List.reverseRecOn with
  | nil => exact fun channel => by cases channel <;> exact Link.Inv.new
  | append_singleton moves m ih =>
      rw [List.forall_mem_append, List.forall_mem_singleton] at hmoves
      have hrun : s.run (moves ++ [m]) = s.move (s.run moves) m := List.foldl_append
      rw [hrun]
      exact (ih hmoves.1).move hs hmoves.2

end

end Setting

/-- A step on the way of an exchange. -/
def Setting.Advance (s : Setting) (after before : Connections) : Prop :=
  ∃ m : Move, (∀ request found, m ≠ .request request found) ∧ after = s.move before m ∧
    after ≠ before

section

variable {s : Setting}

/-- Such a step is one of one process. -/
theorem move_eq (connections : Connections) {m : Move}
    (hm : ∀ request found, m ≠ .request request found) : ∃ channel,
      ∃ t : Turn Request Response ExchangeError, (∀ q found, t ≠ .call q found) ∧
        s.move connections m = connections.update (·.turn s.wire t) channel := by
  cases m with
  | request request found => exact absurd rfl (hm request found)
  | write channel error =>
      refine ⟨channel, .write (Setting.writeError error (connections.process channel)),
        fun _ _ h => (by cases h), ?_⟩
      cases channel <;> rfl
  | read channel status => exact ⟨channel, .read _, fun _ _ h => (by cases h), rfl⟩
  | listen channel => exact ⟨channel, .listen, fun _ _ h => (by cases h), rfl⟩
  | handle channel answers connection broker =>
      exact ⟨channel, .handle _, fun _ _ h => (by cases h), rfl⟩
  | speak channel => exact ⟨channel, .speak, fun _ _ h => (by cases h), rfl⟩
  | leave channel => exact ⟨channel, .leave, fun _ _ h => (by cases h), rfl⟩
  | die channel => exact ⟨channel, .die, fun _ _ h => (by cases h), rfl⟩

theorem Setting.wellFounded_advance (s : Setting) : WellFounded s.Advance := by
  refine Subrelation.wf (r := InvImage (Prod.GameAdd (Link.Advance s.wire) (Link.Advance s.wire))
    fun connections : Connections => (connections.query, connections.admin)) ?_
    (InvImage.wf _ (Link.wellFounded_advance.prod_gameAdd Link.wellFounded_advance))
  rintro after before ⟨m, hm, rfl, hne⟩
  obtain ⟨channel, t, ht, hmove⟩ := move_eq (s := s) before hm
  rw [hmove, Connections.update_ne] at hne
  rw [hmove]
  cases channel with
  | query => exact Prod.GameAdd.fst ⟨t, ht, rfl, hne⟩
  | admin => exact Prod.GameAdd.snd ⟨t, ht, rfl, hne⟩

/-- The lock of `Connections`. -/
theorem idle_run (s : Setting) (moves : List Move) :
    (s.run moves).query.caller = .idle ∨ (s.run moves).admin.caller = .idle := by
  induction moves using List.reverseRecOn with
  | nil => exact Or.inl rfl
  | append_singleton moves m ih =>
      have hrun : s.run (moves ++ [m]) = s.move (s.run moves) m := List.foldl_append
      rw [hrun]
      by_cases hm : ∀ request found, m ≠ .request request found
      · obtain ⟨channel, t, ht, hmove⟩ := move_eq (s := s) (s.run moves) hm
        rw [hmove]
        cases channel with
        | query => exact ih.imp_left fun h => Link.idle_turn h ht
        | admin => exact ih.imp_right fun h => Link.idle_turn h ht
      · simp only [not_forall, not_not] at hm
        obtain ⟨request, f, rfl⟩ := hm
        unfold Setting.move
        dsimp only
        cases checkRequest request with
        | error e => exact ih
        | ok _ =>
            dsimp only
            split
            · rename_i hfree
              unfold Connections.free at hfree
              split at hfree
              · rename_i hquery hadmin
                cases request.channel with
                | query => exact Or.inr hadmin
                | admin => exact Or.inl hquery
              · cases hfree
            · exact ih

end

/-! ## The sessions -/

namespace Sample

def request : Request := .inspect currentVersion "1"

def failed : Response := .rejected "1" "DISCOVERY_FAILED"

/-- What the broker would say. -/
def refused : Response := .rejected "1" "READ_ONLY_REQUEST_REQUIRED"

def requestText : Request → List UInt8
  | .inspect version id => utf8 (Json.obj [("kind", .str "Inspect"),
      ("protocol_version", .num version.toNat), ("request_id", .str id)]).render
  | _ => []

def responseText : Response → List UInt8
  | .rejected id code => utf8 (Json.obj [("kind", .str "Rejected"), ("request_id", .str id),
      ("error_code", .str code)]).render
  | _ => []

def responseFromSlice (line : List UInt8) : Option Response :=
  [invalidRequest, failed, refused].find? fun response => responseText response ++ [lineFeed] = line

def codec : Codec where
  requestText := requestText
  requestFromSlice := fun line =>
    if line = requestText request ++ [lineFeed] then some request else none
  responseText := responseText
  responseFromStr := fun text => responseFromSlice (utf8 text.toList)
  responseFromSlice := responseFromSlice

/-- Discovery fails. -/
def answers : Answers
  | .releaseOffer => .error "MANIFEST_INVALID"
  | .queryBroker _ => .error "QUERY_UNAVAILABLE"
  | .lastManifestSequence => .error ()
  | .snapperConfig => false
  | .discoverHost => .error ()
  | .installedPackages => .error ()
  | .planUpdateWithCachedMetadata => .error .discovery
  | .releaseManifest => .error "MANIFEST_INVALID"
  | .planReleaseUpgrade _ => .error .discovery
  | .newOperationId => ""
  | .start .. => .error "PLAN_HASH_MISMATCH"
  | .readStatus .. => none
  | .cancel .. => .error "OPERATION_NOT_FOUND"
  | .acknowledgeRecovery .. => .error "OPERATION_NOT_FOUND"

def setting : Setting := ⟨codec, fun _ => "", 1000, 65536⟩

/-- The host is inspected. -/
def moves : List Move :=
  [Move.request request .started] ++ List.replicate 60 (Move.write .query "") ++
    List.replicate 60 (Move.listen .query) ++ [Move.handle .query answers .unavailable answers] ++
    List.replicate 80 (Move.speak .query) ++ List.replicate 80 (Move.read .query none)

theorem fromUTF8?_line (cs : List Char) :
    String.fromUTF8? (utf8 cs ++ [lineFeed]).toByteArray = some (String.ofList (cs ++ ['\n'])) := by
  have hbytes : utf8 cs ++ [lineFeed] = utf8 (String.ofList (cs ++ ['\n'])).toList := by
    rw [String.toList_ofList, utf8, utf8, List.flatMap_append]
    rfl
  have hvalid : (String.ofList (cs ++ ['\n'])).toByteArray.IsValidUTF8 := String.isValidUTF8 _
  rw [hbytes, show (utf8 (String.ofList (cs ++ ['\n'])).toList).toByteArray = _ from
    String.utf8Encode_toList, String.fromUTF8?, dif_pos hvalid]
  rfl

theorem faithful : codec.Faithful {request} {invalidRequest, failed, refused} := by
  have hall {P : Response → Prop} (h₁ : P invalidRequest) (h₂ : P failed) (h₃ : P refused) :
      ∀ response ∈ ({invalidRequest, failed, refused} : Set Response), P response := by
    rintro response (rfl | rfl | rfl)
    exacts [h₁, h₂, h₃]
  have hstr (json : Json) (response : Response) (htext : responseText response = utf8 json.render)
      (hread : responseFromSlice (utf8 (json.render ++ ['\n'])) = some response) :
      ∃ text, String.fromUTF8? (codec.responseText response ++ [lineFeed]).toByteArray = some text ∧
        codec.responseFromStr text = some response := by
    refine ⟨String.ofList (json.render ++ ['\n']), ?_, ?_⟩
    · show String.fromUTF8? (responseText response ++ [lineFeed]).toByteArray = _
      rw [htext]
      exact fromUTF8?_line _
    · show responseFromSlice (utf8 (String.ofList _).toList) = _
      rwa [String.toList_ofList]
  exact
    { request_open := fun _ h => by
        obtain rfl := h
        exact Json.lineFeed_notMem_utf8_render _
      request_read := fun _ h => by
        obtain rfl := h
        show (if requestText request ++ [lineFeed] = requestText request ++ [lineFeed] then
          some request else none) = some request
        exact if_pos rfl
      response_open := hall (Json.lineFeed_notMem_utf8_render _)
        (Json.lineFeed_notMem_utf8_render _) (Json.lineFeed_notMem_utf8_render _)
      response_slice := hall rfl rfl rfl
      response_str := hall (hstr _ _ rfl rfl) (hstr _ _ rfl rfl) (hstr _ _ rfl rfl) }

theorem speaks : setting.Speaks {request} {invalidRequest, failed, refused} where
  codec := faithful
  relays := fun _ h relay hrelay => by
    obtain rfl := h
    cases hrelay
  refusal := Or.inl rfl
  short := by
    have hmax : maxResponse = 16777216 := rfl
    rw [hmax]
    rintro response (rfl | rfl | rfl) <;> decide +kernel

theorem within : ∀ m ∈ moves, setting.Within {request} {invalidRequest, failed, refused} m := by
  have hrepeat {n : ℕ} {m : Move}
      (h : setting.Within {request} {invalidRequest, failed, refused} m) :
      ∀ m' ∈ List.replicate n m, setting.Within {request} {invalidRequest, failed, refused} m' := by
    intro m' hm
    rwa [List.eq_of_mem_replicate hm]
  unfold moves
  simp only [List.forall_mem_append, List.forall_mem_singleton]
  refine ⟨⟨⟨⟨⟨rfl, hrepeat trivial⟩, hrepeat trivial⟩, ?_⟩, hrepeat trivial⟩, hrepeat trivial⟩
  rintro _ rfl
  exact ⟨Or.inr (Or.inl rfl), Or.inr (Or.inr rfl)⟩

end Sample

end LyraUpgrade.Session
