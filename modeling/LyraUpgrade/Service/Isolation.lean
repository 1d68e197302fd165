import LyraUpgrade.Service.Exclusion
import LyraUpgrade.Interaction.Alone

/-!
# Operations are isolated by owner

Any number of requests of any users, and then one more request, which is handled while
nothing else runs.  An owner, once recorded, stays: the file is only ever created.  So a
request of somebody else is refused from its first look at the owner, whatever else the
directory of the operation holds.

The ids of requests are arbitrary strings.  Everything that reads or writes below the
directory of an operation tests first that the id is a UUID, but for one place: Start asks
whether the directory of a new operation exists before anything has looked at its id.

* `UserRequest` — the requests that name an operation.
* `leaves` — the path that is made of such an id leads out of the state root.
* `Isolated` — what the owner and the state root are protected from.
-/

namespace LyraUpgrade

open Interaction

/-! ## Requests that name an operation -/

/-- `Service::status`: the owner is told the record. -/
def ownedStatus (uid : ℕ) (operationId : String) : Prog Sig Exit := do
  if !(← operationOwnedBy operationId uid) then rejected "OPERATION_NOT_FOUND"
  else status operationId

inductive UserRequest
  | service (request : ServiceRequest)
  | status (uid : ℕ) (operationId : String)
  /-- `AcknowledgeRecovery` with `ShowDiagnostics`. -/
  | showDiagnostics (uid : ℕ) (operationId : String)

namespace UserRequest

def program (ext : Externals) : UserRequest → Prog Sig Exit
  | service request => request.program ext
  | status uid operationId | showDiagnostics uid operationId => ownedStatus uid operationId

/-- Who asks. -/
def uid : UserRequest → ℕ
  | service (.start request) => request.uid
  | service (.cancel uid _) | service (.keepCurrent uid _) | service (.rollback uid _)
  | status uid _ | showDiagnostics uid _ => uid

def operationId : UserRequest → String
  | service (.start request) => request.operationId
  | service (.cancel _ operationId) | service (.keepCurrent _ operationId)
  | service (.rollback _ operationId) | status _ operationId | showDiagnostics _ operationId =>
      operationId

/-- The answer to a user who is not the owner: it depends on the request alone. -/
def refusal (digest : List Char → String) : UserRequest → String
  | service (.start request) =>
      if !request.confirmed then "CONFIRMATION_REQUIRED"
      else if !consistentPlan digest request.planSha256 request.submitted then
        "PLAN_HASH_MISMATCH"
      else "OPERATION_NOT_FOUND"
  | _ => "OPERATION_NOT_FOUND"

end UserRequest

/-! ## Paths below the state root -/

/-- Some prefix of the components is above the directory they start `depth` levels below. -/
def climbs : ℕ → List (List Char) → Bool
  | _, [] => false
  | depth, component :: components =>
      if component = ['.', '.'] then
        match depth with
        | 0 => true
        | depth + 1 => climbs depth components
      else if component = [] ∨ component = ['.'] then climbs depth components
      else climbs (depth + 1) components

/-- `state_root.join(operation_id)` leads out of the state root: an absolute path takes its
place, and `..` climbs above it. -/
def leaves (operationId : String) : Bool :=
  operationId.toList.head? = some '/' || climbs 0 (operationId.toList.splitOn '/')

theorem ne_of_isHexLower {c : Char} (h : isHexLower c) : c ≠ '/' ∧ c ≠ '.' := by
  constructor
  · rintro rfl
    exact absurd h (by decide)
  · rintro rfl
    exact absurd h (by decide)

/-- The characters of a UUID make no path. -/
theorem mem_of_validUuid {operationId : String} (h : validUuid operationId) {c : Char}
    (hc : c ∈ operationId.toList) : c ≠ '/' ∧ c ≠ '.' := by
  rw [validUuid, Bool.and_eq_true, List.all_eq_true] at h
  obtain ⟨i, hi⟩ := List.mem_iff_getElem?.mp hc
  have hchar := h.2 (c, i) (List.mem_zipIdx_iff_getElem?.mpr hi)
  dsimp only at hchar
  split_ifs at hchar with hdash
  · rw [of_decide_eq_true hchar]
    decide
  · exact ne_of_isHexLower hchar

/-- A UUID is one component. -/
theorem leaves_of_validUuid {operationId : String} (h : validUuid operationId) :
    leaves operationId = false := by
  have hhead : operationId.toList.head? ≠ some '/' := fun hhead =>
    (mem_of_validUuid h (List.mem_of_mem_head? hhead)).1 rfl
  have hsplit : operationId.toList.splitOn '/' = [operationId.toList] := by
    refine List.splitOnP_eq_singleton fun c hc => ?_
    exact beq_eq_false_iff_ne.mpr (mem_of_validUuid h hc).1
  have hparent : operationId.toList ≠ ['.', '.'] := fun hparent =>
    (mem_of_validUuid h (hparent ▸ List.mem_cons_self ..)).2 rfl
  rw [leaves, decide_eq_false hhead, Bool.false_or, hsplit, climbs, if_neg hparent]
  split_ifs <;> rfl

theorem invalid_of_leaves {operationId : String} (h : leaves operationId) :
    validUuid operationId = false := by
  by_contra hvalid
  rw [leaves_of_validUuid (by simpa using hvalid)] at h
  cases h

/-- The operation id that an operation makes a path of. -/
def Op.addresses : Op → Option String
  -- these test the id before they make a path of it
  | .load id | .writeOwner id _ | .stateChanged id _ | .query (.eventHistory id) =>
      if validUuid id then some id else none
  | .save state => if validUuid state.operationId then some state.operationId else none
  | .directoryExists id | .readOwner id | .readPending id | .writePending id _ | .readPlan id
  | .writePlan id _ | .readManifest id | .readManifestSequence id | .writeManifest id _
  | .readSigned id | .writeSigned id _ | .readInventory id _ | .writeInventory id _ _
  | .linkMarker id | .run id _ | .query (.stagedSolver id _ _) | .query (.cachedPayloads id)
  | .query (.writeFailure id) | .query (.stageFiles id) | .query (.publishRepositories id _) =>
      some id
  | _ => none

/-- The operation looks nowhere outside the state root. -/
def Op.StaysBelow (e : Op) : Prop := ∀ id, e.addresses = some id → leaves id = false

theorem staysBelow_of_isPlanning {e : Op} (h : e.isPlanning) : e.StaysBelow := by
  rintro id hid
  cases e with
  | query q =>
      cases q with
      | stagedSolver | cachedPayloads | writeFailure | eventHistory | stageFiles
      | publishRepositories => cases h
      | _ => cases hid
  | readSequence => cases hid
  | _ => cases h

/-! ## The property -/

/-- What a refused request does on the way. -/
def Op.Looks (operationId : String) : Op → Prop
  | .readOwner id | .directoryExists id => id = operationId
  | .respond _ => True
  | _ => False

/-- The request was rejected with this code, the files are as they were, and nothing was
read but whether the operation exists and whose it is. -/
structure Refused (w : World) (operationId code : String) (exit : Exit) (s : World × List (Event Sig)) :
    Prop where
  answer : exit = .answered (.rejected code)
  unchanged : s.1 = w
  looked : ∀ e ∈ s.2, Op.Looks operationId e.op

/-- The operation exists, and is not this user's. -/
structure World.Foreign (w : World) (uid : ℕ) (operationId : String) : Prop where
  exists_ : (w.operations operationId).present ∨ (w.operations operationId).owner.isSome
  other : (w.operations operationId).owner ≠ some uid

/-- **Isolation** of one request, handled by process `i`. -/
structure Isolated (ext : Externals) (i : ℕ) (w : World) (request : UserRequest) : Prop where
  /-- Only the owner gets beyond the owner test. -/
  foreign : w.Foreign request.uid request.operationId →
    (request.program ext).wp ((system true).alone i)
      (Refused w request.operationId (request.refusal ext.sha256)) (w, [])
  /-- An id that is no UUID reaches nothing outside the state root. -/
  contained : validUuid request.operationId = false →
    (request.program ext).wp ((system true).guarded i fun e _ => e.StaysBelow)
      (fun _ _ => True) w

/-- A confirmed and consistent Start whose id leads out of the state root. -/
def UserRequest.Escapes (digest : List Char → String) : UserRequest → Prop
  | .service (.start request) =>
      request.confirmed ∧ consistentPlan digest request.planSha256 request.submitted ∧
        leaves request.operationId
  | _ => False

/-- The owner file lies in the directory of the operation. -/
def World.OwnersBelow (w : World) : Prop :=
  ∀ id, (w.operations id).owner.isSome → (w.operations id).present

/-! ## Owners stay -/

section

variable {i : ℕ} {w w' : World} {e : Op}

/-- The owner file is only ever created. -/
theorem Change.owner (h : Change i w e w') {id : String} {uid : ℕ}
    (howner : (w.operations id).owner = some uid) : (w'.operations id).owner = some uid := by
  have hmodify : ∀ (id' : String) (f : OperationDirectory → OperationDirectory),
      (∀ d uid, d.owner = some uid → (f d).owner = some uid) →
      ((w.modify id' f).operations id).owner = some uid := by
    intro id' f hf
    by_cases hid : id = id'
    · subst hid
      rw [World.modify_self]
      exact hf _ _ howner
    · rw [World.modify_of_ne hid]
      exact howner
  cases h with
  | save s => exact hmodify _ _ fun _ _ h => h
  | file hstate hkeep => exact hmodify _ _ hkeep
  | none | acquire | release | link | unlink | create | write | rename => exact howner

theorem Change.ownersBelow (h : Change i w e w') (hw : w.OwnersBelow) : w'.OwnersBelow := by
  have hmodify : ∀ (id' : String) (f : OperationDirectory → OperationDirectory),
      (w.modify id' f).OwnersBelow := by
    intro id' f id howner
    by_cases hid : id = id'
    · subst hid
      rw [World.modify_self]
    · rw [World.modify_of_ne hid] at howner ⊢
      exact hw id howner
  cases h with
  | save s => exact hmodify _ _
  | file => exact hmodify _ _
  | none | acquire | release | link | unlink | create | write | rename => exact hw

end

section

variable {P : Type*} {program : P → Prog Sig Exit} {c c' : Config Sig P World Exit}
  {ok : Config Sig P World Exit → Label Sig P → Prop}

/-- **Whatever runs, the owner of an operation stays.** -/
theorem owner_stays (h : Reach (system true) program ok c c') {id : String} {uid : ℕ}
    (howner : (c.world.operations id).owner = some uid) :
    (c'.world.operations id).owner = some uid := by
  refine h.invariant (I := fun d => (d.world.operations id).owner = some uid) howner ?_
  rintro d l d' hd - hs
  cases hs with
  | spawn => exact hd
  | act running answer => exact (exec_change answer).owner hd
  | crash left =>
      obtain ⟨temporary, -, rfl⟩ := left
      exact hd

theorem ownersBelow_of_reach (h : Reach (system true) program ok c c')
    (hw : c.world.OwnersBelow) : c'.world.OwnersBelow := by
  refine h.invariant (I := fun d => d.world.OwnersBelow) hw ?_
  rintro d l d' hd - hs
  cases hs with
  | spawn => exact hd
  | act running answer => exact (exec_change answer).ownersBelow hd
  | crash left =>
      obtain ⟨temporary, -, rfl⟩ := left
      exact hd

end

/-! ## A request of somebody else is refused -/

section

variable {i : ℕ} {w : World} {uid : ℕ} {operationId code : String} {t : List (Event Sig)}

theorem looks_append {e : Event Sig} (ht : ∀ e ∈ t, Op.Looks operationId e.op)
    (he : Op.Looks operationId e.op) : ∀ e' ∈ t ++ [e], Op.Looks operationId e'.op := by
  intro e' he'
  rcases List.mem_append.mp he' with h | h
  · exact ht e' h
  · rw [List.mem_singleton.mp h]
    exact he

theorem wp_rejected_alone (ht : ∀ e ∈ t, Op.Looks operationId e.op) :
    (rejected code).wp ((system true).alone i) (Refused w operationId code) (w, t) := by
  unfold rejected respond
  rw [Prog.wp_bind]
  refine ⟨trivial, ?_⟩
  rintro answer ⟨w', t'⟩ ⟨hexec, htrace⟩
  obtain rfl : w' = w := hexec
  obtain rfl : t' = _ := htrace
  exact ⟨rfl, rfl, looks_append ht trivial⟩

/-- The owner test fails, whether or not the owner file can be read. -/
theorem wp_operationOwnedBy_foreign (hother : (w.operations operationId).owner ≠ some uid)
    (ht : ∀ e ∈ t, Op.Looks operationId e.op) {Q : Bool → World × List (Event Sig) → Prop}
    (hQ : ∀ t', (∀ e ∈ t', Op.Looks operationId e.op) → Q false (w, t')) :
    (operationOwnedBy operationId uid).wp ((system true).alone i) Q (w, t) := by
  unfold operationOwnedBy
  split_ifs
  · exact hQ t ht
  · rw [Prog.wp_bind]
    refine ⟨trivial, ?_⟩
    rintro owner ⟨w', t'⟩ ⟨⟨hworld, howner⟩, htrace⟩
    obtain rfl : w' = w := hworld
    obtain rfl : t' = _ := htrace
    have hne : owner ≠ some uid := by
      rcases howner with rfl | ⟨-, rfl⟩
      · exact hother
      · exact nofun
    show Q (decide (owner = some uid)) _
    rw [decide_eq_false hne]
    exact hQ _ (looks_append ht rfl)

theorem wp_start_foreign {ext : Externals} {request : StartRequest}
    (hpresent : (w.operations request.operationId).present)
    (hother : (w.operations request.operationId).owner ≠ some request.uid) :
    (start ext request).wp ((system true).alone i)
      (Refused w request.operationId
        ((UserRequest.service (.start request)).refusal ext.sha256)) (w, []) := by
  have hnothing : ∀ e ∈ ([] : List (Event Sig)), Op.Looks request.operationId e.op :=
    List.forall_mem_nil _
  unfold start
  simp only [UserRequest.refusal]
  split_ifs
  · exact wp_rejected_alone hnothing
  · exact wp_rejected_alone hnothing
  rw [Prog.wp_bind]
  refine wp_operationOwnedBy_foreign hother hnothing fun t ht => ?_
  rw [if_neg Bool.false_ne_true]
  unfold startNew
  rw [Prog.wp_bind]
  refine ⟨trivial, ?_⟩
  rintro present ⟨w', t'⟩ ⟨⟨hworld, hanswer⟩, htrace⟩
  obtain rfl : w' = w := hworld
  obtain rfl : t' = _ := htrace
  obtain rfl : present = true := hanswer.trans hpresent
  exact wp_rejected_alone (looks_append ht rfl)

/-- **A user who is not the owner is refused.** -/
theorem wp_foreign (ext : Externals) (request : UserRequest)
    (hpresent : (w.operations request.operationId).present)
    (hother : (w.operations request.operationId).owner ≠ some request.uid) :
    (request.program ext).wp ((system true).alone i)
      (Refused w request.operationId (request.refusal ext.sha256)) (w, []) := by
  cases request with
  | service request =>
      cases request with
      | start request => exact wp_start_foreign hpresent hother
      | cancel uid id | keepCurrent uid id | rollback uid id =>
          show Prog.wp _ _ (operationOwnedBy id uid >>= _) _
          rw [Prog.wp_bind]
          refine wp_operationOwnedBy_foreign hother (List.forall_mem_nil _) fun t ht => ?_
          exact wp_rejected_alone ht
  | status uid id | showDiagnostics uid id =>
      show Prog.wp _ _ (operationOwnedBy id uid >>= _) _
      rw [Prog.wp_bind]
      refine wp_operationOwnedBy_foreign hother (List.forall_mem_nil _) fun t ht => ?_
      exact wp_rejected_alone ht

end

/-! ## An id that is no UUID -/

section

variable {i : ℕ} {w : World} {operationId : String} {α : Type}

/-- What an id that is no UUID may reach. -/
abbrev below (i : ℕ) : Contract Sig World := (system true).guarded i fun e _ => e.StaysBelow

theorem below_rejected (code : String) :
    (rejected code).wp (below i) (fun _ _ => True) w := by
  unfold rejected respond
  rw [Prog.wp_bind]
  exact ⟨nofun, fun _ _ _ => trivial⟩

theorem below_planning {p : Prog Sig α} (h : Planning p) :
    p.wp (below i) (fun _ _ => True) w :=
  Prog.wp_of_only (I := fun _ _ => True) (fun _ => trivial) (fun _ _ _ _ _ => trivial)
    (fun _ _ he => staysBelow_of_isPlanning he) (fun _ _ _ _ _ _ => trivial) h w

/-- A record under such an id is refused, and then nothing else is written. -/
theorem below_createOperation {request : StartRequest} {initial : OperationStateRecord}
    (pending : PendingPlan) (hid : initial.operationId = request.operationId)
    (hinvalid : validUuid request.operationId = false) :
    (createOperation request initial pending).wp (below i) (fun created _ => created = false) w := by
  have hnone : (Op.save initial).addresses = none := by
    rw [Op.addresses, hid, hinvalid, if_neg Bool.false_ne_true]
  have hrefused : ¬ Loadable initial := fun h => by
    rw [← hid, h.id] at hinvalid
    cases hinvalid
  unfold createOperation
  rw [Prog.wp_bind]
  refine ⟨?_, fun answer w' (hexec : exec true i (.save initial) w answer w') => ?_⟩
  · intro id h
    rw [hnone] at h
    cases h
  · cases answer with
    | error e => rfl
    | ok u => exact absurd (exec_save_ok hexec).1 hrefused

theorem below_startNew {ext : Externals} {request : StartRequest}
    (hinvalid : validUuid request.operationId = false) (hbelow : leaves request.operationId = false) :
    (startNew ext request).wp (below i) (fun _ _ => True) w := by
  unfold startNew
  rw [Prog.wp_bind]
  refine ⟨?_, fun present w₁ _ => ?_⟩
  · rintro id ⟨⟩
    exact hbelow
  cases present with
  | true => exact below_rejected _
  | false =>
      show Prog.wp _ _ (authoritativePlan ext _ _ >>= _) _
      rw [Prog.wp_bind]
      refine Prog.wp_mono ?_ (below_planning (planning_authoritativePlan ext _ _))
      intro authoritative w₂ _
      cases authoritative with
      | error code => exact below_rejected code
      | ok authoritative =>
          dsimp only
          rw [Prog.wp_bind]
          refine Prog.wp_mono ?_ (below_planning (planning_ask rfl))
          intro timestamp w₃ _
          rw [Prog.wp_bind]
          refine Prog.wp_mono ?_ (below_createOperation _ rfl hinvalid)
          rintro _ w₄ rfl
          exact below_rejected _

/-- The owner test fails before a path is made. -/
theorem operationOwnedBy_of_invalid (id : String) (uid : ℕ) (hinvalid : validUuid id = false) :
    operationOwnedBy id uid = pure false := by
  unfold operationOwnedBy
  rw [hinvalid]
  rfl

/-- **Isolation of the state root**, but for Start. -/
theorem below_program (ext : Externals) {request : UserRequest}
    (hinvalid : validUuid request.operationId = false) (hstays : ¬ request.Escapes ext.sha256) :
    (request.program ext).wp (below i) (fun _ _ => True) w := by
  cases request with
  | service request =>
      cases request with
      | start request =>
          show (start ext request).wp _ _ w
          unfold start
          split_ifs with hconfirmed hconsistent
          · exact below_rejected _
          · exact below_rejected _
          rw [operationOwnedBy_of_invalid request.operationId request.uid hinvalid]
          refine below_startNew hinvalid ?_
          by_contra hleaves
          exact hstays ⟨by simpa using hconfirmed, by simpa using hconsistent,
            by simpa using hleaves⟩
      | cancel uid id | keepCurrent uid id | rollback uid id =>
          show Prog.wp _ _ (operationOwnedBy id uid >>= _) _
          rw [operationOwnedBy_of_invalid id uid hinvalid]
          exact below_rejected _
  | status uid id | showDiagnostics uid id =>
      show Prog.wp _ _ (operationOwnedBy id uid >>= _) _
      rw [operationOwnedBy_of_invalid id uid hinvalid]
      exact below_rejected _

theorem UserRequest.Escapes.leaves {digest : List Char → String} {request : UserRequest}
    (h : request.Escapes digest) : leaves request.operationId := by
  cases request with
  | service request =>
      cases request with
      | start request => exact h.2.2
      | cancel | keepCurrent | rollback => exact h.elim
  | status | showDiagnostics => exact h.elim

/-- The first thing such a Start does is to look outside the state root. -/
theorem not_below_of_escapes (ext : Externals) {request : UserRequest}
    (hescapes : request.Escapes ext.sha256) :
    ¬ (request.program ext).wp (below i) (fun _ _ => True) w := by
  cases request with
  | service request =>
      cases request with
      | start request =>
          obtain ⟨hconfirmed, hconsistent, hleaves⟩ := hescapes
          show ¬ (start ext request).wp _ _ w
          unfold start
          rw [hconfirmed, hconsistent, operationOwnedBy_of_invalid _ _ (invalid_of_leaves hleaves)]
          intro h
          have hbelow : (Op.directoryExists request.operationId).StaysBelow := h.1
          rw [hbelow _ rfl] at hleaves
          cases hleaves
      | cancel | keepCurrent | rollback => exact hescapes.elim
  | status | showDiagnostics => exact hescapes.elim

end

/-! ## The theorem -/

namespace Sample

/-- A consistent Start under the name of a file of the system. -/
def escape : StartRequest := { request with operationId := "../../../../etc/shadow" }

theorem escape_escapes : UserRequest.Escapes externals.sha256 (.service (.start escape)) :=
  ⟨rfl, by decide +kernel, by decide +kernel⟩

theorem world_ownersBelow : world.OwnersBelow := by
  intro id howner
  by_cases hid : id = operationId
  · subst hid
    rfl
  · have hnone : (world.operations id).owner = none := by
      simp only [world, if_neg hid]
    rw [hnone] at howner
    cases howner

end Sample

end LyraUpgrade
