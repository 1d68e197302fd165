import LyraUpgrade.Interaction.Transcript
import LyraUpgrade.Service.OneWorker

/-!
# What a client submits besides the plan

Start gets a plan and, with it, the facts, the solver result and the preflight that the plan
was made from.  Only the plan is compared with the plan the service makes itself, and only
the plan, its digest and the manifest are used afterwards.  So two requests that differ in
the rest are alike: given the same answers they issue the same operations, up to the text of
`pending-plan.json`, which holds what was submitted.

* `SameConfirmation` — two requests that confirm the same plan.
* `SameEvent` — the same operation and answer, but for that file.
* `Recomputed` — the service made the submitted plan itself.
-/

namespace LyraUpgrade

open Interaction

/-- Two requests of one user under one id with equal plan, digest and manifest; facts,
solver result, preflight and what the process has in memory may be different. -/
structure SameConfirmation (first second : StartRequest) : Prop where
  uid : second.uid = first.uid
  operationId : second.operationId = first.operationId
  confirmed : second.confirmed = first.confirmed
  planSha256 : second.planSha256 = first.planSha256
  plan : second.submitted.plan = first.submitted.plan
  manifest : second.submitted.manifest = first.submitted.manifest

/-- The two requests do the same, or store each what was submitted. -/
inductive SameEvent (first second : StartRequest) : Event Sig → Event Sig → Prop
  | same (e : Event Sig) : SameEvent first second e e
  | pending (manifest : Option ReleaseManifest) (answer : Io Unit) :
      SameEvent first second
        ⟨.writePending first.operationId ⟨first.submitted, manifest⟩, answer⟩
        ⟨.writePending first.operationId ⟨second.submitted, manifest⟩, answer⟩

/-- The owner file does not name the user: the id is new to them. -/
def NotOwned (request : StartRequest) : Event Sig → Prop
  | ⟨.readOwner id, owner⟩ => id = request.operationId → owner ≠ some request.uid
  | _ => True

/-- The service was given facts and a solver result by its own solver, and made of them the
plan that was submitted, under the digest that was confirmed. -/
def Recomputed (ext : Externals) (request : StartRequest) (t : List (Event Sig)) : Prop :=
  ∃ planned : PlannedUpdate, planned.plan = request.submitted.plan ∧
    planned.planSha256 = request.planSha256 ∧
    ((∃ facts solver, ⟨.query .simulateUpdate, Except.ok (facts, solver)⟩ ∈ t ∧
        planWithinRelease ext.sha256 facts solver = .ok planned) ∨
      ∃ manifest facts solver, request.submitted.manifest = some manifest ∧
        ⟨.query (.simulateRelease manifest), Except.ok (facts, solver)⟩ ∈ t ∧
        planRelease ext.sha256 manifest facts solver = .ok planned)

/-! ## The workers use the plan, its digest and the manifest -/

section

variable {ext : Externals} {confirmed confirmed' : PlannedUpdate}

theorem downloadUpdate_congr (digest : List Char → String) (operationId : String)
    (hplan : confirmed'.plan = confirmed.plan)
    (hsha256 : confirmed'.planSha256 = confirmed.planSha256) :
    downloadUpdate digest operationId confirmed' = downloadUpdate digest operationId confirmed := by
  unfold downloadUpdate
  rw [hplan, hsha256]

theorem executeUpdate_congr (digest : List Char → String) (operationId : String)
    (hplan : confirmed'.plan = confirmed.plan)
    (hsha256 : confirmed'.planSha256 = confirmed.planSha256) :
    executeUpdate digest operationId confirmed' = executeUpdate digest operationId confirmed := by
  unfold executeUpdate applyUpdate
  rw [downloadUpdate_congr digest operationId hplan hsha256, hplan]

theorem downloadRelease_congr (operationId : String) (manifest : ReleaseManifest)
    (hplan : confirmed'.plan = confirmed.plan) :
    downloadRelease ext operationId confirmed' manifest =
      downloadRelease ext operationId confirmed manifest := by
  unfold downloadRelease stagedTransaction revalidateStagedSolver
  rw [hplan]

theorem stageReleaseUpgrade_congr (operationId : String) (manifest : ReleaseManifest)
    (hplan : confirmed'.plan = confirmed.plan) :
    stageReleaseUpgrade ext operationId confirmed' manifest =
      stageReleaseUpgrade ext operationId confirmed manifest := by
  unfold stageReleaseUpgrade confirmRelease prepareRelease
  rw [downloadRelease_congr operationId manifest hplan, hplan]

theorem execution_congr (operationId : String) (manifest : Option ReleaseManifest)
    (hplan : confirmed'.plan = confirmed.plan)
    (hsha256 : confirmed'.planSha256 = confirmed.planSha256) :
    execution ext operationId ⟨confirmed', manifest⟩ =
      execution ext operationId ⟨confirmed, manifest⟩ := by
  unfold execution
  rw [executeUpdate_congr ext.sha256 operationId hplan hsha256]
  cases manifest with
  | none => rfl
  | some manifest =>
      dsimp only
      rw [stageReleaseUpgrade_congr operationId manifest hplan]

end

/-! ## Two requests -/

section

variable {ext : Externals} {first second : StartRequest}

theorem workerThread_congr (state : OperationStateRecord) (manifest : Option ReleaseManifest)
    {confirmed confirmed' : PlannedUpdate} (hplan : confirmed'.plan = confirmed.plan)
    (hsha256 : confirmed'.planSha256 = confirmed.planSha256) :
    workerThread ext state ⟨confirmed', manifest⟩ =
      workerThread ext state ⟨confirmed, manifest⟩ := by
  unfold workerThread
  rw [execution_congr state.operationId manifest hplan hsha256]

theorem authoritativePlan_congr (ext : Externals) (h : SameConfirmation first second) :
    authoritativePlan ext second.planSha256 second.submitted =
      authoritativePlan ext first.planSha256 first.submitted := by
  unfold authoritativePlan
  rw [h.planSha256, h.plan, h.manifest]

/-- What is consistent names the digest of the request and the release of the plan. -/
theorem consistentPlan_eq {digest : List Char → String} {planSha256 : String}
    {submitted : PlannedUpdate} (h : consistentPlan digest planSha256 submitted) :
    submitted.planSha256 = planSha256 ∧ submitted.facts.release = submitted.plan.source := by
  simp only [consistentPlan, Bool.and_eq_true, decide_eq_true_eq] at h
  exact ⟨h.1.1.1.1.1, h.1.1.2⟩

/-- The records the two requests begin with differ in their timestamps at most. -/
theorem initialRecord_congr (h : SameConfirmation first second)
    (hfirst : consistentPlan ext.sha256 first.planSha256 first.submitted)
    (hsecond : consistentPlan ext.sha256 second.planSha256 second.submitted)
    (authoritative : PlannedUpdate) (timestamp timestamp' : String) :
    initialRecord second authoritative timestamp' =
      { initialRecord first authoritative timestamp with
        createdAt := timestamp'
        updatedAt := timestamp' } := by
  have hsource : second.submitted.facts.release = first.submitted.facts.release := by
    rw [(consistentPlan_eq hfirst).2, (consistentPlan_eq hsecond).2, h.plan]
  simp only [initialRecord, h.operationId, h.planSha256, hsource]

/-- The plan in memory is the one submitted, so both go on or both do not. -/
theorem startWorker_congr (h : SameConfirmation first second)
    (hfirst : consistentPlan ext.sha256 first.planSha256 first.submitted)
    (hsecond : consistentPlan ext.sha256 second.planSha256 second.submitted)
    (manifest : Option ReleaseManifest) :
    startWorker ext second (some ⟨second.submitted, manifest⟩) =
      startWorker ext first (some ⟨first.submitted, manifest⟩) := by
  have hsha256 : second.submitted.planSha256 = first.submitted.planSha256 := by
    rw [(consistentPlan_eq hfirst).1, (consistentPlan_eq hsecond).1, h.planSha256]
  have hworker : ∀ state, workerThread ext state ⟨second.submitted, manifest⟩ =
      workerThread ext state ⟨first.submitted, manifest⟩ := fun state =>
    workerThread_congr state manifest h.plan hsha256
  unfold startWorker
  refine if_congr ?_ rfl ?_
  · simp only [ne_eq, not_true_eq_false, false_or, hsha256, h.planSha256, h.manifest]
  · rw [h.operationId]
    refine congrArg (ask (.load first.operationId) >>= ·) (funext fun answer => ?_)
    cases answer with
    | error e => rfl
    | ok state =>
        dsimp only
        rw [hworker state]

theorem alike_createOperation (h : SameConfirmation first second)
    {valid : Event Sig → Prop} (initial : OperationStateRecord) (manifest : Option ReleaseManifest)
    {f : Bool → Prog Sig Exit} :
    (createOperation first initial ⟨first.submitted, manifest⟩ >>= f).Alike
      (SameEvent first second) valid
      (createOperation second initial ⟨second.submitted, manifest⟩ >>= f) := by
  unfold createOperation
  rw [h.operationId, h.uid]
  refine .op id (fun answer _ => .same _) fun answer _ => ?_
  cases answer with
  | error e => exact .refl SameEvent.same (f false)
  | ok u =>
      -- the one operation in which the requests differ
      refine .op (fun answer => answer) (fun answer _ => .pending manifest answer)
        fun answer _ => ?_
      cases answer with
      | error e => exact .refl SameEvent.same (f false)
      | ok u =>
          refine .op id (fun answer _ => .same _) fun answer _ => ?_
          cases answer with
          | error e => exact .refl SameEvent.same (f false)
          | ok u => exact .refl SameEvent.same (f true)

theorem alike_startNew (h : SameConfirmation first second) {valid : Event Sig → Prop}
    (hfirst : consistentPlan ext.sha256 first.planSha256 first.submitted)
    (hsecond : consistentPlan ext.sha256 second.planSha256 second.submitted) :
    (startNew ext first).Alike (SameEvent first second) valid (startNew ext second) := by
  unfold startNew
  rw [h.operationId, authoritativePlan_congr ext h]
  refine .op id (fun present _ => .same _) fun present _ => ?_
  cases present with
  | true => exact .refl SameEvent.same (rejected "OPERATION_NOT_FOUND")
  | false =>
      refine .bind SameEvent.same (authoritativePlan ext first.planSha256 first.submitted)
        fun authoritative => ?_
      cases authoritative with
      | error code => exact .refl SameEvent.same (rejected code)
      | ok authoritative =>
          refine .op id (fun timestamp _ => .same _) fun timestamp _ => ?_
          have hinitial : initialRecord second authoritative timestamp =
              initialRecord first authoritative timestamp :=
            initialRecord_congr h hfirst hsecond authoritative timestamp timestamp
          show Prog.Alike _ _
            (createOperation first (initialRecord first authoritative timestamp)
              ⟨first.submitted, authoritative.manifest⟩ >>= fun created =>
                if created then startWorker ext first (some ⟨first.submitted, authoritative.manifest⟩)
                else rejected "STATE_WRITE_FAILED")
            (createOperation second (initialRecord second authoritative timestamp)
              ⟨second.submitted, authoritative.manifest⟩ >>= fun created =>
                if created then
                  startWorker ext second (some ⟨second.submitted, authoritative.manifest⟩)
                else rejected "STATE_WRITE_FAILED")
          rw [hinitial, startWorker_congr h hfirst hsecond]
          exact alike_createOperation h _ _

/-- **Under a new id the two requests are alike.** -/
theorem alike_start (h : SameConfirmation first second)
    (hfirst : consistentPlan ext.sha256 first.planSha256 first.submitted)
    (hsecond : consistentPlan ext.sha256 second.planSha256 second.submitted) :
    (start ext first).Alike (SameEvent first second) (NotOwned first) (start ext second) := by
  have hnew : (startNew ext first).Alike (SameEvent first second) (NotOwned first)
      (startNew ext second) := alike_startNew h hfirst hsecond
  unfold start
  rw [h.confirmed, h.operationId, h.uid, hfirst, hsecond]
  simp only [Bool.not_true, Bool.false_eq_true, if_false]
  split_ifs with hconfirmed
  · exact .refl SameEvent.same (rejected "CONFIRMATION_REQUIRED")
  unfold operationOwnedBy
  split_ifs with hid
  · exact hnew
  · refine .op id (fun owner _ => .same _) fun owner hvalid => ?_
    have hother : decide (owner = some first.uid) = false := decide_eq_false (hvalid rfl)
    show Prog.Alike _ _
      (if decide (owner = some first.uid) then
        pendingPlan first >>= fun planned => startWorker ext first planned
      else startNew ext first)
      (if decide (owner = some first.uid) then
        pendingPlan second >>= fun planned => startWorker ext second planned
      else startNew ext second)
    rw [hother]
    exact hnew

end

/-! ## The plan is made again -/

section

variable {ext : Externals} {request : StartRequest} {t : List (Event Sig)} {α : Type}

/-- The request is accepted only after the plan was made again. -/
abbrev acceptance (ext : Externals) (request : StartRequest) : Contract Sig (List (Event Sig)) :=
  recorder (fun e t => e = .respond (.accepted request.operationId) → Recomputed ext request t)
    (NotOwned request)

theorem Recomputed.append (h : Recomputed ext request t) (e : Event Sig) :
    Recomputed ext request (t ++ [e]) := by
  obtain ⟨planned, hplan, hsha256, hmade⟩ := h
  refine ⟨planned, hplan, hsha256, ?_⟩
  rcases hmade with ⟨facts, solver, hmem, hok⟩ | ⟨manifest, facts, solver, hmanifest, hmem, hok⟩
  · exact .inl ⟨facts, solver, List.mem_append_left _ hmem, hok⟩
  · exact .inr ⟨manifest, facts, solver, hmanifest, List.mem_append_left _ hmem, hok⟩

/-- An operation that accepts nothing. -/
theorem accept_ask {e : Op} (h : e ≠ .respond (.accepted request.operationId))
    {Q : e.Answer → List (Event Sig) → Prop}
    (hQ : ∀ r, NotOwned request ⟨e, r⟩ → Q r (t ++ [⟨e, r⟩])) :
    (ask e).wp (acceptance ext request) Q t :=
  Automaton.wp_request (fun he => absurd he h) hQ

theorem accept_rejected (code : String) :
    (rejected code).wp (acceptance ext request) (fun _ _ => True) t := by
  unfold rejected respond
  rw [Prog.wp_bind]
  exact accept_ask (by simp) fun _ _ => trivial

theorem accept_planning {p : Prog Sig α} (h : Planning p) :
    p.wp (acceptance ext request) (fun _ _ => True) t := by
  refine Prog.wp_of_only (I := fun _ _ => True) (fun _ => trivial) (fun _ _ _ _ _ => trivial)
    ?_ (fun _ _ _ _ _ _ => trivial) h t
  rintro e t he rfl
  cases he

/-- **What is not refused is the plan as the service makes it.** -/
theorem accept_authoritativePlan :
    (authoritativePlan ext request.planSha256 request.submitted).wp (acceptance ext request)
      (fun authoritative t => ∀ planned, authoritative = .ok planned → Recomputed ext request t)
      t := by
  unfold authoritativePlan
  dsimp only
  cases request.submitted.plan.operation with
  | updateWithinRelease =>
      rw [Prog.wp_bind]
      unfold planUpdate
      rw [Prog.wp_bind]
      refine accept_ask (by simp) fun answer _ => ?_
      rcases answer with e | ⟨facts, solver⟩
      · exact fun planned h => nomatch h
      · intro planned h
        cases hmade : planWithinRelease ext.sha256 facts solver with
        | error e => simp only [hmade] at h; cases h
        | ok made =>
            simp only [hmade] at h
            split_ifs at h with hsame
            exact ⟨made, hsame.2, hsame.1, .inl ⟨facts, solver, by simp, hmade⟩⟩
  | releaseUpgrade | packageMigration =>
      rw [Prog.wp_bind]
      refine Prog.wp_mono ?_ (accept_planning (planning_releaseManifest ext))
      intro offered t _
      cases offered with
      | error code => exact fun planned h => nomatch h
      | ok manifest =>
          dsimp only
          split_ifs with hmanifest
          · exact fun planned h => nomatch h
          rw [Prog.wp_bind]
          refine accept_ask (by simp) fun answer _ => ?_
          rcases answer with e | ⟨facts, solver⟩
          · exact fun planned h => nomatch h
          · intro planned h
            cases hmade : planRelease ext.sha256 manifest facts solver with
            | error e => simp only [hmade] at h; cases h
            | ok made =>
                simp only [hmade] at h
                split_ifs at h with hsame
                exact ⟨made, hsame.2, hsame.1, .inr ⟨manifest, facts, solver,
                  not_not.mp hmanifest, by simp, hmade⟩⟩

theorem accept_startNew :
    (startNew ext request).wp (acceptance ext request) (fun _ _ => True) t := by
  unfold startNew
  rw [Prog.wp_bind]
  refine accept_ask (by simp) fun present _ => ?_
  cases present with
  | true => exact accept_rejected _
  | false =>
      show Prog.wp _ _ (authoritativePlan ext _ _ >>= _) _
      rw [Prog.wp_bind]
      refine Prog.wp_mono ?_ accept_authoritativePlan
      intro authoritative t hmade
      cases authoritative with
      | error code => exact accept_rejected code
      | ok authoritative =>
          refine Prog.wp_recorder (I := Recomputed ext request) ?_ ?_ _ (hmade _ rfl)
          · exact fun _ _ h _ => h
          · exact fun _ e h => h.append e

theorem accept_start : (start ext request).wp (acceptance ext request) (fun _ _ => True) t := by
  unfold start
  split_ifs
  · exact accept_rejected _
  · exact accept_rejected _
  unfold operationOwnedBy
  split_ifs with hid
  · exact accept_startNew
  · rw [bind_assoc, Prog.wp_bind]
    refine accept_ask (by simp) fun owner hvalid => ?_
    have hother : decide (owner = some request.uid) = false := decide_eq_false (hvalid rfl)
    show Prog.wp _ _ (if decide (owner = some request.uid) then _ else startNew ext request) _
    rw [hother]
    exact accept_startNew

end

/-! ## The theorem -/

/-- **Untrusted parts do not matter.**  Two requests under a new id that confirm the same
plan, consistent each with itself: given the same answers the second issues what the first
issues, but for what `pending-plan.json` holds, and ends alike; the records they begin with
differ in their timestamps at most; and an accepted plan was made again by the service. -/
theorem start_noninterference {ext : Externals} {first second : StartRequest}
    (h : SameConfirmation first second)
    (hfirst : consistentPlan ext.sha256 first.planSha256 first.submitted)
    (hsecond : consistentPlan ext.sha256 second.planSha256 second.submitted) :
    (∀ t q, (start ext first).Transcript t q → (∀ e ∈ t, NotOwned first e) →
      ∃ t' q', (start ext second).Transcript t' q' ∧
        List.Forall₂ (SameEvent first second) t t' ∧ ∀ exit, q = .pure exit → q' = .pure exit) ∧
    (∀ authoritative timestamp timestamp', initialRecord second authoritative timestamp' =
      { initialRecord first authoritative timestamp with
        createdAt := timestamp'
        updatedAt := timestamp' }) ∧
    ∀ t q, (start ext first).Transcript t q → (∀ e ∈ t, NotOwned first e) →
      ∀ before answer after,
        t = before ++ ⟨.respond (.accepted first.operationId), answer⟩ :: after →
        Recomputed ext first before := by
  refine ⟨fun t q ht hvalid => ?_, initialRecord_congr h hfirst hsecond,
    fun t q ht hvalid before answer after hsplit => ?_⟩
  · obtain ⟨t', q', ht', hsame, hq⟩ := (alike_start h hfirst hsecond).transcript ht hvalid
    refine ⟨t', q', ht', hsame, ?_⟩
    rintro exit rfl
    exact hq.eq_pure
  · exact ht.recorded (s := []) accept_start hvalid hsplit rfl

namespace Sample

/-- The sample request, with other packages on the host, another solver result and no preflight. -/
def otherSubmission : StartRequest :=
  { request with
    submitted :=
      { planned with
        facts := { planned.facts with installedPackages := [] }
        solver := { planned.solver with problems := ["none"], downloadBytes := 0 }
        preflight := { planned.preflight with blockers := [], availableBytes := 0 } } }

end Sample

theorem start_noninterference_sample :
    Sample.otherSubmission.submitted ≠ Sample.request.submitted ∧
    ∀ t q, (start Sample.externals Sample.request).Transcript t q →
      (∀ e ∈ t, NotOwned Sample.request e) →
      ∃ t' q', (start Sample.externals Sample.otherSubmission).Transcript t' q' ∧
        List.Forall₂ (SameEvent Sample.request Sample.otherSubmission) t t' ∧
        ∀ exit, q = .pure exit → q' = .pure exit := by
  have hsame : SameConfirmation Sample.request Sample.otherSubmission :=
    ⟨rfl, rfl, rfl, rfl, rfl, rfl⟩
  have hfirst : consistentPlan Sample.externals.sha256 Sample.request.planSha256
      Sample.request.submitted := by decide +kernel
  have hsecond : consistentPlan Sample.externals.sha256 Sample.otherSubmission.planSha256
      Sample.otherSubmission.submitted := by decide +kernel
  exact ⟨by decide, (start_noninterference hsame hfirst hsecond).1⟩

end LyraUpgrade
