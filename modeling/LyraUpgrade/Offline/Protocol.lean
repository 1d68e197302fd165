import LyraUpgrade.Offline.Executor
import LyraUpgrade.Service.Protocol

/-!
# The protocol of the offline executor

What one run of the offline executor may do to the files that others read, as an automaton:
under the transaction lock it reads the record, authenticates what staging left behind, saves
that the application has begun, launches the transaction, and saves the result; a run that
fails reads the record again and saves the failure.  `wp_offlineMain` says that the program
keeps to it.

The record in memory is part of the phase.  What the launch and the result rest on is found
among the events.
-/

namespace LyraUpgrade

open Interaction

/-! ## What the launch rests on -/

section

variable (ext : Externals) (events : List (Event Sig)) (operationId : String)
  (manifest : ReleaseManifest) (plan : UpgradePlan)

/-- The retained document is signed, reads as the manifest, and offers the release to the
`source`, for the replay record, the channel and the time that were found. -/
structure SignedManifest (source : ReleaseIdentity) : Prop where
  document : ∃ document, ⟨Op.readSigned operationId, Except.ok document⟩ ∈ events ∧
    ⟨Op.query (.verifySignature document), Except.ok ()⟩ ∈ events ∧
    ext.parseManifest document.document = some manifest
  route : ∃ text last channel, ⟨Op.readSequence, Except.ok text⟩ ∈ events ∧
    parseLastSequence text = .ok last ∧ ⟨Op.query .releaseChannel, Except.ok channel⟩ ∈ events ∧
    validateManifestRoute ext.acceptsUrl manifest source last updaterVersion channel = .ok ()
  time : ∃ now : ℤ, ⟨Op.query .utcNow, now⟩ ∈ events ∧ validateTimeAt ext manifest now = .ok ()

/-- Plan and manifest as staged have the hashes of the record, and the manifest is the one
that was signed. -/
structure Authenticated (r : OperationStateRecord) : Prop where
  planRead : ⟨Op.readPlan r.operationId, Except.ok plan⟩ ∈ events
  planHash : plan.sha256 ext.sha256 = r.planSha256
  manifestRead : ⟨Op.readManifest r.operationId, Except.ok manifest⟩ ∈ events
  manifestHash : r.manifestSha256 = some (manifest.sha256 ext.sha256)
  signed : SignedManifest ext events r.operationId manifest r.source

/-- The solver was run again on the staged repositories, and its result is the plan. -/
def Revalidated (expectedHash : String) : Prop :=
  ∃ arguments output facts solver,
    ⟨Op.run operationId (.transaction .plan arguments), output⟩ ∈ events ∧ output.success ∧
    ⟨Op.query (.stagedSolver operationId manifest output.stdout), Except.ok (facts, solver)⟩ ∈
      events ∧
    revalidateReleasePlan ext.sha256 facts solver manifest plan expectedHash = .ok ()

/-- The packages in the cache are the ones the manifest of a migration names. -/
def PayloadsVerified : Prop :=
  manifest.packageMigration.isSome → ∃ digests,
    ⟨Op.query (.cachedPayloads operationId), Except.ok digests⟩ ∈ events ∧
    verifyPayloads manifest plan.installedPackages digests

/-- **What must be known before packages are changed offline.** -/
structure Launchable (r : OperationStateRecord) : Prop where
  authenticated : Authenticated ext events manifest plan r
  revalidated : Revalidated ext events r.operationId manifest plan r.planSha256
  payloads : PayloadsVerified events r.operationId manifest plan

/-- What must follow the transaction: the repositories of a new release, boot files where a
change makes them necessary, and for a migration the packages the plan promised. -/
structure Concluded : Prop where
  repositories : manifest.packageMigration = none →
    ⟨Op.query (.publishRepositories operationId manifest), Except.ok ()⟩ ∈ events
  boot : manifest.packageMigration = none ∨ touchesBoot plan.packageChanges →
    ∃ dracut grub : Output, dracut.success ∧ grub.success ∧
      ⟨Op.run operationId .dracut, dracut⟩ ∈ events ∧
      ⟨Op.run operationId .grubMkconfig, grub⟩ ∈ events
  inventory : manifest.packageMigration.isSome → ∃ report,
    ⟨Op.query .captureInventory, Except.ok report⟩ ∈ events ∧ verifyResult plan report

/-- The operation was applied offline: the authorized transaction exited with 0 or 102, and
the steps that must follow it succeeded after it. -/
def AppliedOffline (r : OperationStateRecord) : Prop :=
  ∃ before arguments output after manifest plan,
    events = before ++ ⟨Op.run r.operationId (.transaction .apply arguments), output⟩ :: after ∧
    (output.code = some 0 ∨ output.code = some 102) ∧
    Launchable ext before manifest plan r ∧ Concluded after r.operationId manifest plan

end

section

variable {ext : Externals} {events events' : List (Event Sig)} {operationId : String}
  {manifest : ReleaseManifest} {plan : UpgradePlan} {r : OperationStateRecord}

theorem SignedManifest.mono {source : ReleaseIdentity}
    (h : SignedManifest ext events operationId manifest source) (hsub : events ⊆ events') :
    SignedManifest ext events' operationId manifest source := by
  obtain ⟨⟨document, hread, hsigned, hparse⟩, ⟨text, last, channel, hsequence, hlast, hchannel,
    hroute⟩, now, hnow, hvalid⟩ := h
  exact ⟨⟨document, hsub hread, hsub hsigned, hparse⟩,
    ⟨text, last, channel, hsub hsequence, hlast, hsub hchannel, hroute⟩, now, hsub hnow, hvalid⟩

theorem Authenticated.mono (h : Authenticated ext events manifest plan r) (hsub : events ⊆ events') :
    Authenticated ext events' manifest plan r :=
  ⟨hsub h.planRead, h.planHash, hsub h.manifestRead, h.manifestHash, h.signed.mono hsub⟩

theorem Revalidated.mono {expectedHash : String}
    (h : Revalidated ext events operationId manifest plan expectedHash) (hsub : events ⊆ events') :
    Revalidated ext events' operationId manifest plan expectedHash := by
  obtain ⟨arguments, output, facts, solver, hrun, hsuccess, hsolver, hplan⟩ := h
  exact ⟨arguments, output, facts, solver, hsub hrun, hsuccess, hsub hsolver, hplan⟩

end

/-! ## The automaton -/

inductive OfflinePhase
  | start
  /-- The lock is held. -/
  | locked
  /-- The record was read. -/
  | read (record : OperationStateRecord)
  /-- The beginning of the application is saved. -/
  | entered (record : OperationStateRecord)
  /-- The transaction was launched. -/
  | applied (record : OperationStateRecord)
  /-- The record was read again, after a failure. -/
  | marking (record : OperationStateRecord)
  /-- A record could not be read or saved. -/
  | failed
  /-- The last record was saved. -/
  | finished
  | released
  deriving DecidableEq

namespace OfflinePhase

def holdsLock : OfflinePhase → Bool
  | start | released => false
  | _ => true

/-- The record in memory. -/
def record? : OfflinePhase → Option OperationStateRecord
  | read r | entered r | applied r | marking r => some r
  | _ => none

end OfflinePhase

structure OfflineState where
  phase : OfflinePhase
  events : List (Event Sig)

namespace OfflineState

/-- The records the offline executor may save. -/
inductive MaySave (ext : Externals) (s : OfflineState) : OperationStateRecord → Prop
  | enter (m r : OperationStateRecord) (phase : s.phase = .read m) (ready : m.state = .readyToReboot)
      (snapshot : m.snapshotNumber.isSome) (next : m.transitionTo .applyingOffline = .ok r)
      (authenticated : ∃ manifest plan, Authenticated ext s.events manifest plan r) : MaySave ext s r
  | result (m r : OperationStateRecord) (phase : s.phase = .applied m)
      (applied : AppliedOffline ext s.events m) (next : m.transitionTo .awaitingReboot = .ok r) :
      MaySave ext s { r with lastCompletedStep := some "offline-apply" }
  | failed (m : OperationStateRecord) (phase : s.phase = .read m ∨ s.phase = .marking m) :
      MaySave ext s (offlineFailureRecord m)

/-- The operations that are not quiet, by phase. -/
def permits (ext : Externals) (s : OfflineState) : Op → Prop
  | .acquireLock => s.phase = .start
  | .releaseLock | .load _ | .unlinkMarker => s.phase.holdsLock
  | .run id (.transaction .apply _) => ∃ r manifest plan, s.phase = .entered r ∧
      id = r.operationId ∧ Launchable ext s.events manifest plan r
  | .save r => MaySave ext s r
  | _ => False

/-- The phase after a save. -/
def phaseAfterSave (r : OperationStateRecord) (answer : Except PersistenceError Unit) :
    OfflinePhase → OfflinePhase
  | .read _ | .applied _ =>
      match answer with
      | .ok () => if r.state = .applyingOffline then .entered r else .finished
      | .error _ => .failed
  | _ => .finished

def nextPhase (p : OfflinePhase) : Event Sig → OfflinePhase
  | ⟨.acquireLock, .ok ()⟩ => .locked
  | ⟨.releaseLock, _⟩ => .released
  | ⟨.load _, .ok m⟩ => if p = .locked then .read m else .marking m
  | ⟨.load _, .error _⟩ => .failed
  | ⟨.save r, answer⟩ => phaseAfterSave r answer p
  | ⟨.run _ (.transaction .apply _), _⟩ =>
      match p with
      | .entered r => .applied r
      | p => p
  | _ => p

def next (s : OfflineState) (e : Event Sig) : OfflineState where
  phase := nextPhase s.phase e
  events := s.events ++ [e]

end OfflineState

/-- The protocol of one run of the offline executor. -/
def offlineAutomaton (ext : Externals) : Automaton Sig OfflineState where
  allows := fun s e => e.isQuiet ∨ s.permits ext e
  next := OfflineState.next

def offlineContract (ext : Externals) : Contract Sig OfflineState :=
  (offlineAutomaton ext).contract validAnswer

/-! ## Steps -/

namespace OfflineState

variable {ext : Externals} {s : OfflineState}

/-- A quiet operation is noted, and changes nothing else. -/
theorem next_quiet {e : Event Sig} (h : Op.isQuiet e.op) :
    s.next e = { s with events := s.events ++ [e] } := by
  obtain ⟨e, a⟩ := e
  show (⟨nextPhase s.phase ⟨e, a⟩, _⟩ : OfflineState) = _
  congr 1
  cases e with
  | run id command =>
      cases command with
      | transaction mode arguments =>
          cases mode with
          | apply => exact absurd h (by simp [Op.isQuiet, Command.isCritical])
          | _ => rfl
      | _ => rfl
  | acquireLock | releaseLock | load _ | save _ => exact absurd h (by simp [Op.isQuiet])
  | _ => rfl

/-- **The steps of the protocol**, with the phase after each. -/
inductive Moves (ext : Externals) (s : OfflineState) : Event Sig → OfflinePhase → Prop
  | quiet {e : Event Sig} (quiet : Op.isQuiet e.op) : Moves ext s e s.phase
  | lock (phase : s.phase = .start) : Moves ext s ⟨.acquireLock, .ok ()⟩ .locked
  | busy (error : LockError) (phase : s.phase = .start) :
      Moves ext s ⟨.acquireLock, .error error⟩ .start
  | unlock (phase : s.phase.holdsLock) : Moves ext s ⟨.releaseLock, ()⟩ .released
  | unlink (answer : Io Unit) (phase : s.phase.holdsLock) :
      Moves ext s ⟨.unlinkMarker, answer⟩ s.phase
  | read (r : OperationStateRecord) (phase : s.phase = .locked) (loadable : Loadable r) :
      Moves ext s ⟨.load r.operationId, .ok r⟩ (.read r)
  | readAgain (r : OperationStateRecord) (phase : s.phase.holdsLock) (loadable : Loadable r) :
      Moves ext s ⟨.load r.operationId, .ok r⟩ (.marking r)
  | unread (id : String) (error : PersistenceError) (phase : s.phase.holdsLock) :
      Moves ext s ⟨.load id, .error error⟩ .failed
  | launch (r : OperationStateRecord) (arguments : List String) (output : Output)
      (manifest : ReleaseManifest) (plan : UpgradePlan) (phase : s.phase = .entered r)
      (authorized : Launchable ext s.events manifest plan r) :
      Moves ext s ⟨.run r.operationId (.transaction .apply arguments), output⟩ (.applied r)
  | save {r : OperationStateRecord} (answer : Except PersistenceError Unit) (may : MaySave ext s r) :
      Moves ext s ⟨.save r, answer⟩ (phaseAfterSave r answer s.phase)

/-- Every allowed operation with a valid answer is one of the steps. -/
theorem moves {e : Op} {answer : e.Answer} (hallow : e.isQuiet ∨ s.permits ext e)
    (hvalid : validAnswer ⟨e, answer⟩) : Moves ext s ⟨e, answer⟩ (s.next ⟨e, answer⟩).phase := by
  rcases hallow with hquiet | hpermit
  · rw [next_quiet hquiet]
    exact .quiet hquiet
  show Moves ext s _ (nextPhase s.phase _)
  cases e with
  | acquireLock =>
      have hphase : s.phase = .start := hpermit
      rcases answer with error | ⟨⟩
      · show Moves ext s _ s.phase
        rw [hphase]
        exact .busy error hphase
      · exact .lock hphase
  | releaseLock => exact .unlock hpermit
  | unlinkMarker => exact .unlink answer hpermit
  | load id =>
      cases answer with
      | error e => exact .unread id e hpermit
      | ok r =>
          obtain ⟨rfl, hloadable⟩ := hvalid r rfl
          show Moves ext s _ (if s.phase = .locked then .read r else .marking r)
          split_ifs with hlocked
          · exact .read r hlocked hloadable
          · exact .readAgain r hpermit hloadable
  | run id command =>
      match command, hpermit with
      | .transaction .apply arguments, ⟨r, manifest, plan, hphase, hid, hauthorized⟩ =>
          subst hid
          rw [hphase]
          exact .launch r arguments answer manifest plan hphase hauthorized
  | save r => exact .save answer hpermit
  | _ => exact hpermit.elim

end OfflineState

/-! ## Rules -/

section

variable {ext : Externals} {α β : Type} {s : OfflineState} {r : OperationStateRecord}

namespace OfflineState

/-- Only the events have grown. -/
structure Follows (s s' : OfflineState) : Prop where
  phase : s'.phase = s.phase
  events : s.events <+: s'.events

theorem Follows.refl (s : OfflineState) : Follows s s := ⟨rfl, List.prefix_refl _⟩

theorem Follows.trans {s t u : OfflineState} (h : Follows s t) (h' : Follows t u) : Follows s u :=
  ⟨h'.phase.trans h.phase, h.events.trans h'.events⟩

theorem Follows.holdsLock {s s' : OfflineState} (h : Follows s s') (hlock : s.phase.holdsLock) :
    s'.phase.holdsLock := by
  rw [h.phase]
  exact hlock

theorem follows_quiet {e : Event Sig} (h : Op.isQuiet e.op) : Follows s (s.next e) := by
  rw [next_quiet h]
  exact ⟨rfl, List.prefix_append _ _⟩

theorem mem_next (s : OfflineState) (e : Event Sig) : e ∈ (s.next e).events :=
  List.mem_append_right _ (List.mem_singleton_self e)

theorem wp_ask {e : Op} {Q : e.Answer → OfflineState → Prop} (hpermit : s.permits ext e)
    (h : ∀ a : e.Answer, validAnswer ⟨e, a⟩ → Q a (s.next ⟨e, a⟩)) :
    (ask e).wp (offlineContract ext) Q s :=
  Automaton.wp_request (Or.inr hpermit) h

theorem wp_observe {e : Op} {Q : e.Answer → OfflineState → Prop} (hquiet : e.isQuiet)
    (h : ∀ (a : e.Answer) (s' : OfflineState), Follows s s' → ⟨e, a⟩ ∈ s'.events → Q a s') :
    (ask e).wp (offlineContract ext) Q s :=
  Automaton.wp_request (Or.inl hquiet) fun a _ => h a _ (follows_quiet hquiet) (mem_next s _)

/-- An operation comes after all that was issued before. -/
theorem wp_observe_after {n : ℕ} (hn : n ≤ s.events.length) {e : Op}
    {Q : e.Answer → OfflineState → Prop} (hquiet : e.isQuiet)
    (h : ∀ (a : e.Answer) (s' : OfflineState), Follows s s' → ⟨e, a⟩ ∈ s'.events.drop n → Q a s') :
    (ask e).wp (offlineContract ext) Q s := by
  refine Automaton.wp_request (Or.inl hquiet) fun a _ => h a _ (follows_quiet hquiet) ?_
  show _ ∈ (s.events ++ [_]).drop n
  rw [List.drop_append_of_le_length hn]
  exact List.mem_append_right _ (List.mem_singleton_self _)

theorem Follows.drop {s s' : OfflineState} (h : Follows s s') {n : ℕ} (hn : n ≤ s.events.length) :
    s.events.drop n ⊆ s'.events.drop n := by
  obtain ⟨t, ht⟩ := h.events
  rw [← ht, List.drop_append_of_le_length hn]
  exact List.subset_append_left _ _

theorem Follows.length {s s' : OfflineState} (h : Follows s s') {n : ℕ} (hn : n ≤ s.events.length) :
    n ≤ s'.events.length :=
  Nat.le_trans hn h.events.length_le

theorem wp_quiet {p : Prog Sig α} (h : Quiet p) (s : OfflineState) :
    p.wp (offlineContract ext) (fun _ s' => Follows s s') s := by
  refine Prog.wp_of_only Follows.refl (fun _ _ _ => Follows.trans)
    (fun e s he => Or.inl he) ?_ h s
  rintro e s a _ he ⟨-, rfl⟩
  exact follows_quiet he

/-- What a stage owes: its own postcondition, or a failure under the lock. -/
def Body (Q : α → OperationStateRecord → OfflineState → Prop) :
    Except String α → OperationStateRecord → OfflineState → Prop
  | .ok a, r, s => Q a r s
  | .error _, _, s => s.phase.holdsLock

/-- A stage in two parts. -/
theorem body_bind {P : β → OperationStateRecord → OfflineState → Prop}
    {Q : α → OperationStateRecord → OfflineState → Prop} {x : Offline β} {f : β → Offline α}
    (hx : wpE (offlineContract ext) (Body P) x r s)
    (hf : ∀ b r' s', P b r' s' → wpE (offlineContract ext) (Body Q) (f b) r' s') :
    wpE (offlineContract ext) (Body Q) (x >>= f) r s := by
  rw [wpE_bind]
  refine wpE_mono (fun res r' s' h => ?_) hx
  cases res with
  | error e => exact h
  | ok b => exact hf b r' s' h

variable {Q : α → OperationStateRecord → OfflineState → Prop}

/-- A program that may fail, and what follows it. -/
theorem body_offlineIo {ε : Type} {p : Prog Sig (Except ε β)} {f : β → Offline α} (message : String)
    (hp : p.wp (offlineContract ext) (fun res s' => match res with
      | .ok b => wpE (offlineContract ext) (Body Q) (f b) r s'
      | .error _ => s'.phase.holdsLock) s) :
    wpE (offlineContract ext) (Body Q) (offlineIo p message >>= f) r s := by
  rw [wpE_bind, offlineIo, wpE_attempt]
  refine Prog.wp_mono (fun res s' h => ?_) hp
  cases res <;> exact h

/-- The record in memory. -/
theorem body_get {f : OperationStateRecord → Offline α}
    (h : wpE (offlineContract ext) (Body Q) (f r) r s) :
    wpE (offlineContract ext) (Body Q) (get >>= f) r s := by
  rw [wpE_bind, wpE_get]
  exact h

/-- A condition that must not hold. -/
theorem body_failIf {c : Prop} [Decidable c] {f : PUnit → Offline α} (message : String)
    (hlock : s.phase.holdsLock) (h : ¬ c → wpE (offlineContract ext) (Body Q) (f ⟨⟩) r s) :
    wpE (offlineContract ext) (Body Q) (failIf c message >>= f) r s := by
  rw [wpE_bind, wpE_failIf]
  exact ⟨fun _ => hlock, h⟩

/-- A result that must be there. -/
theorem body_orFail {ε : Type} {result : Except ε β} {g : ε → String} {f : β → Offline α}
    (hlock : s.phase.holdsLock)
    (h : ∀ b, result = .ok b → wpE (offlineContract ext) (Body Q) (f b) r s) :
    wpE (offlineContract ext) (Body Q) (orFail result g >>= f) r s := by
  rw [wpE_bind, wpE_orFail]
  cases result with
  | error e => exact hlock
  | ok b => exact h b rfl

/-- A command that is not critical and must succeed. -/
theorem body_offlineRequired {operationId : String} {command : Command} {f : Output → Offline α}
    (message : String) {n : ℕ} (hn : n ≤ s.events.length) (hcommand : command.isCritical = false)
    (hlock : s.phase.holdsLock) (h : ∀ output s', Follows s s' → output.success →
      ⟨Op.run operationId command, output⟩ ∈ s'.events.drop n →
      wpE (offlineContract ext) (Body Q) (f output) r s') :
    wpE (offlineContract ext) (Body Q) (offlineRequired operationId command message >>= f) r s := by
  rw [wpE_bind, offlineRequired, wpE_bind, wpE_perform]
  refine wp_observe_after hn (by simp [Op.isQuiet, hcommand]) fun output s' hs hrun => ?_
  dsimp only
  cases hsuccess : Output.success output with
  | true => exact h output s' hs hsuccess hrun
  | false => exact hs.holdsLock hlock

/-! ## Authentication -/

/-- A document that is verified was signed, and reads as what is returned. -/
theorem wp_verifyManifestFiles (ext : Externals) (document : SignedDocument)
    (source : ReleaseIdentity) (last : Option ℕ) (channel : ManifestChannelPolicy)
    (s : OfflineState) :
    (verifyManifestFiles ext document source last channel).wp (offlineContract ext)
      (fun res s' => Follows s s' ∧ ∀ manifest, res = .ok manifest →
        ⟨Op.query (.verifySignature document), Except.ok ()⟩ ∈ s'.events ∧
        ext.parseManifest document.document = some manifest ∧
        validateManifestRoute ext.acceptsUrl manifest source last updaterVersion channel = .ok () ∧
        ∃ now : ℤ, ⟨Op.query .utcNow, now⟩ ∈ s'.events ∧ validateTimeAt ext manifest now = .ok ())
      s := by
  unfold verifyManifestFiles
  rw [Prog.wp_bind]
  refine wp_observe rfl fun signed s₁ h₁ hsigned => ?_
  rcases signed with e | ⟨⟩
  · exact ⟨h₁, fun _ h => by cases h⟩
  dsimp only
  cases hparse : ext.parseManifest document.document with
  | none => exact ⟨h₁, fun _ h => by cases h⟩
  | some manifest =>
      dsimp only
      rcases hroute : validateManifestRoute ext.acceptsUrl manifest source last updaterVersion
        channel with e | ⟨⟩
      · exact ⟨h₁, fun _ h => by cases h⟩
      dsimp only
      unfold validateTime
      simp only [bind_assoc]
      rw [Prog.wp_bind]
      refine wp_observe rfl fun now s₂ h₂ hnow => ?_
      rw [pure_bind]
      rcases htime : validateTimeAt ext manifest now with e | ⟨⟩
      · exact ⟨h₁.trans h₂, fun _ h => by cases h⟩
      refine ⟨h₁.trans h₂, ?_⟩
      rintro _ ⟨⟩
      exact ⟨h₂.events.subset hsigned, rfl, hroute, now, hnow, htime⟩

/-- **What is authenticated belongs to the record.** -/
theorem body_authenticate {f : ReleaseManifest × UpgradePlan → Offline α}
    (hlock : s.phase.holdsLock)
    (h : ∀ manifest plan s', Follows s s' → Authenticated ext s'.events manifest plan r →
      wpE (offlineContract ext) (Body Q) (f (manifest, plan)) r s') :
    wpE (offlineContract ext) (Body Q) (authenticate ext r.operationId >>= f) r s := by
  unfold authenticate
  simp only [bind_assoc]
  refine body_offlineIo _ (wp_observe rfl fun answer s₁ h₁ hmanifest => ?_)
  cases answer with
  | error e => exact h₁.holdsLock hlock
  | ok manifest =>
  refine body_offlineIo _ (wp_observe rfl fun answer s₂ h₂ hplan => ?_)
  have h₁₂ := h₁.trans h₂
  cases answer with
  | error e => exact h₁₂.holdsLock hlock
  | ok plan =>
  refine body_get (body_failIf _ (h₁₂.holdsLock hlock) fun hsame => ?_)
  refine body_failIf _ (h₁₂.holdsLock hlock) fun hmanifestHash => ?_
  refine body_offlineIo _ ?_
  unfold readLastManifestSequence
  rw [Prog.wp_bind]
  refine wp_observe rfl fun answer s₃ h₃ hsequence => ?_
  have h₁₃ := h₁₂.trans h₃
  cases answer with
  | error e => exact h₁₃.holdsLock hlock
  | ok text =>
  rw [Prog.wp_pure]
  rcases hlast : parseLastSequence text with e | last
  · exact h₁₃.holdsLock hlock
  refine body_offlineIo _ (wp_observe rfl fun answer s₄ h₄ hchannel => ?_)
  have h₁₄ := h₁₃.trans h₄
  cases answer with
  | error e => exact h₁₄.holdsLock hlock
  | ok channel =>
  refine body_offlineIo _ (wp_observe rfl fun answer s₅ h₅ hdocument => ?_)
  have h₁₅ := h₁₄.trans h₅
  cases answer with
  | error e => exact h₁₅.holdsLock hlock
  | ok document =>
  refine body_offlineIo _ (Prog.wp_mono ?_ (wp_verifyManifestFiles ext document r.source last
    channel s₅))
  rintro (e | verified) s₆ ⟨h₆, hverified⟩
  · exact (h₁₅.trans h₆).holdsLock hlock
  have h₁₆ := h₁₅.trans h₆
  obtain ⟨hsigned, hparse, hroute, htime⟩ := hverified verified rfl
  refine body_failIf _ (h₁₆.holdsLock hlock) fun hequal => ?_
  obtain rfl := not_not.mp hequal
  simp only [not_or, not_not] at hsame
  have hsub : ∀ {t : OfflineState}, Follows t s₆ → t.events ⊆ s₆.events :=
    fun ht => ht.events.subset
  have h₅₆ := h₆
  have h₄₆ := h₅.trans h₅₆
  have h₃₆ := h₄.trans h₄₆
  have h₂₆ := h₃.trans h₃₆
  refine h verified plan s₆ h₁₆ ⟨hsub h₂₆ hplan, hsame.2.2, hsub (h₂.trans h₂₆) hmanifest,
    not_not.mp hmanifestHash, ⟨⟨document, hsub h₅₆ hdocument, hsigned, hparse⟩, ?_, htime⟩⟩
  exact ⟨text, last, channel, hsub h₃₆ hsequence, hlast, hsub h₄₆ hchannel, hroute⟩

/-! ## The transaction -/

/-- **The plan is solved again**, and the result is the confirmed one. -/
theorem body_revalidatePlan {manifest : ReleaseManifest} {plan : UpgradePlan} {f : Unit → Offline α}
    (hlock : s.phase.holdsLock)
    (h : ∀ s', Follows s s' → Revalidated ext s'.events r.operationId manifest plan r.planSha256 →
      wpE (offlineContract ext) (Body Q) (f ()) r s') :
    wpE (offlineContract ext) (Body Q) (revalidatePlan ext r.operationId manifest plan >>= f) r s := by
  unfold revalidatePlan
  simp only [bind_assoc]
  refine body_get (body_orFail hlock fun _ _ => body_orFail hlock fun arguments _ => ?_)
  refine body_offlineRequired _ (Nat.zero_le _) rfl hlock fun output s₁ h₁ hsuccess hrun => ?_
  refine body_offlineIo _ (wp_observe rfl fun answer s₂ h₂ hsolver => ?_)
  have h₁₂ := h₁.trans h₂
  rcases answer with e | ⟨facts, solver⟩
  · exact h₁₂.holdsLock hlock
  refine body_orFail (h₁₂.holdsLock hlock) fun _ hplan => h s₂ h₁₂ ?_
  exact ⟨arguments, output, facts, solver, h₂.events.subset hrun, hsuccess, hsolver, hplan⟩

theorem wp_checkPayloads {operationId : String} {manifest : ReleaseManifest} {plan : UpgradePlan}
    (s : OfflineState) : (checkPayloads operationId manifest plan.installedPackages).wp
      (offlineContract ext) (fun res s' => Follows s s' ∧ (res = .ok () →
        PayloadsVerified s'.events operationId manifest plan)) s := by
  unfold checkPayloads
  split_ifs with hnone
  · refine ⟨.refl s, fun _ hsome => ?_⟩
    rw [Option.isNone_iff_eq_none.mp hnone] at hsome
    cases hsome
  rw [Prog.wp_bind]
  refine wp_observe rfl fun answer s₁ h₁ hpayloads => ?_
  cases answer with
  | error e => exact ⟨h₁, fun h => by cases h⟩
  | ok digests =>
      refine ⟨h₁, fun hok _ => ⟨digests, hpayloads, ?_⟩⟩
      by_contra hrefused
      rw [if_neg hrefused] at hok
      cases hok

/-- **The transaction is launched** only where it is authorized. -/
theorem body_applyTransaction {manifest : ReleaseManifest} {plan : UpgradePlan}
    {f : Unit → Offline α} (hphase : s.phase = .entered r)
    (hauthenticated : Authenticated ext s.events manifest plan r)
    (hrevalidated : Revalidated ext s.events r.operationId manifest plan r.planSha256)
    (h : ∀ before arguments (output : Output) s', s'.phase = .applied r →
      s'.events = before ++ [⟨Op.run r.operationId (.transaction .apply arguments), output⟩] →
      (output.code = some 0 ∨ output.code = some 102) → Launchable ext before manifest plan r →
      wpE (offlineContract ext) (Body Q) (f ()) r s') :
    wpE (offlineContract ext) (Body Q) (applyTransaction r.operationId manifest plan >>= f) r s := by
  have hlock : s.phase.holdsLock := by rw [hphase]; rfl
  unfold applyTransaction
  simp only [bind_assoc]
  refine body_offlineIo _ (Prog.wp_mono ?_ (wp_checkPayloads s))
  rintro (e | ⟨⟩) s₁ ⟨h₁, hpayloads⟩
  · exact h₁.holdsLock hlock
  refine body_orFail (h₁.holdsLock hlock) fun arguments _ => ?_
  have hlaunch : Launchable ext s₁.events manifest plan r :=
    ⟨hauthenticated.mono h₁.events.subset, hrevalidated.mono h₁.events.subset, hpayloads rfl⟩
  have hphase₁ : s₁.phase = .entered r := h₁.phase.trans hphase
  rw [wpE_bind, wpE_perform]
  refine wp_ask (e := .run r.operationId (.transaction .apply arguments))
    ⟨r, manifest, plan, hphase₁, rfl, hlaunch⟩ fun output _ => ?_
  have hphase₂ : (s₁.next ⟨Op.run r.operationId (.transaction .apply arguments), output⟩).phase =
      .applied r := by
    show nextPhase s₁.phase ⟨Op.run r.operationId (.transaction .apply arguments), output⟩ = _
    rw [hphase₁]
    rfl
  refine body_failIf _ (by rw [hphase₂]; rfl) fun hcode => ?_
  refine h s₁.events arguments output _ hphase₂ rfl ?_ hlaunch
  by_contra hfailed
  exact hcode (not_or.mp hfailed)

/-! ## What follows it -/

/-- The repositories of a release are published. -/
theorem body_publishTarget {operationId : String} {manifest : ReleaseManifest}
    {f : Unit → Offline α} {n : ℕ} (hn : n ≤ s.events.length) (hlock : s.phase.holdsLock)
    (h : ∀ s', Follows s s' → (manifest.packageMigration = none →
      ⟨Op.query (.publishRepositories operationId manifest), Except.ok ()⟩ ∈ s'.events.drop n) →
      wpE (offlineContract ext) (Body Q) (f ()) r s') :
    wpE (offlineContract ext) (Body Q) (publishTarget operationId manifest >>= f) r s := by
  unfold publishTarget
  split_ifs with hnone
  · refine body_offlineIo _ (wp_observe_after hn rfl fun answer s₁ h₁ hpublished => ?_)
    rcases answer with e | ⟨⟩
    · exact h₁.holdsLock hlock
    · exact h s₁ h₁ fun _ => hpublished
  · refine h s (.refl s) fun hmigration => absurd ?_ hnone
    rw [hmigration]
    rfl

/-- Boot files are rebuilt where they are needed. -/
theorem body_rebuildTargetBoot {operationId : String} {needed : Bool} {f : Unit → Offline α}
    {n : ℕ} (hn : n ≤ s.events.length) (hlock : s.phase.holdsLock)
    (h : ∀ s', Follows s s' → (needed → ∃ dracut grub : Output, dracut.success ∧ grub.success ∧
      ⟨Op.run operationId .dracut, dracut⟩ ∈ s'.events.drop n ∧
      ⟨Op.run operationId .grubMkconfig, grub⟩ ∈ s'.events.drop n) →
      wpE (offlineContract ext) (Body Q) (f ()) r s') :
    wpE (offlineContract ext) (Body Q) (rebuildTargetBoot operationId needed >>= f) r s := by
  unfold rebuildTargetBoot
  split_ifs with hneeded
  · simp only [bind_assoc]
    refine body_offlineRequired _ hn rfl hlock fun dracut s₁ h₁ hdracut hrun₁ => ?_
    refine body_offlineRequired _ (h₁.length hn) rfl (h₁.holdsLock hlock)
      fun grub s₂ h₂ hgrub hrun₂ => ?_
    exact h s₂ (h₁.trans h₂) fun _ => ⟨dracut, grub, hdracut, hgrub, h₂.drop (h₁.length hn) hrun₁,
      hrun₂⟩
  · exact h s (.refl s) fun h => absurd h hneeded

/-- The packages of a migration are compared with the plan. -/
theorem body_verifyMigration {operationId : String} {manifest : ReleaseManifest}
    {plan : UpgradePlan} {f : Unit → Offline α} {n : ℕ} (hn : n ≤ s.events.length)
    (hlock : s.phase.holdsLock)
    (h : ∀ s', Follows s s' → (manifest.packageMigration.isSome → ∃ report,
      ⟨Op.query .captureInventory, Except.ok report⟩ ∈ s'.events.drop n ∧ verifyResult plan report) →
      wpE (offlineContract ext) (Body Q) (f ()) r s') :
    wpE (offlineContract ext) (Body Q) (verifyMigration operationId manifest plan >>= f) r s := by
  unfold verifyMigration
  split_ifs with hsome
  · simp only [bind_assoc]
    refine body_offlineIo _ (wp_observe_after hn rfl fun answer s₁ h₁ hcaptured => ?_)
    cases answer with
    | error e => exact h₁.holdsLock hlock
    | ok report =>
    refine body_failIf _ (h₁.holdsLock hlock) fun hverified => ?_
    refine body_offlineIo _ (wp_observe rfl fun answer s₂ h₂ _ => ?_)
    rcases answer with e | ⟨⟩
    · exact (h₁.trans h₂).holdsLock hlock
    · refine h s₂ (h₁.trans h₂) fun _ => ⟨report, h₂.drop (h₁.length hn) hcaptured, ?_⟩
      simpa using hverified
  · exact h s (.refl s) fun h => absurd h hsome

/-- **What must follow the transaction has followed.** -/
theorem body_completeTransaction {operationId : String} {manifest : ReleaseManifest}
    {plan : UpgradePlan} {f : Unit → Offline α} {n : ℕ} (hn : n ≤ s.events.length)
    (hlock : s.phase.holdsLock) (h : ∀ s', Follows s s' →
      Concluded (s'.events.drop n) operationId manifest plan →
      wpE (offlineContract ext) (Body Q) (f ()) r s') :
    wpE (offlineContract ext) (Body Q) (completeTransaction operationId manifest plan >>= f) r s := by
  unfold completeTransaction
  simp only [bind_assoc]
  refine body_publishTarget hn hlock fun s₁ h₁ hrepositories => ?_
  refine body_rebuildTargetBoot (h₁.length hn) (h₁.holdsLock hlock) fun s₂ h₂ hboot => ?_
  have h₁₂ := h₁.trans h₂
  refine body_verifyMigration (h₁₂.length hn) (h₁₂.holdsLock hlock) fun s₃ h₃ hinventory => ?_
  refine h s₃ (h₁₂.trans h₃) ⟨fun hnone => ?_, fun hneeded => ?_, hinventory⟩
  · exact (h₂.trans h₃).drop (h₁.length hn) (hrepositories hnone)
  · have hneeded' : (manifest.packageMigration.isNone || touchesBoot plan.packageChanges) = true := by
      rcases hneeded with hnone | htouches
      · rw [hnone]
        rfl
      · rw [htouches, Bool.or_true]
    obtain ⟨dracut, grub, hdracut, hgrub, hrun₁, hrun₂⟩ := hboot hneeded'
    exact ⟨dracut, grub, hdracut, hgrub, h₃.drop (h₁₂.length hn) hrun₁,
      h₃.drop (h₁₂.length hn) hrun₂⟩

/-! ## The run -/

theorem quiet_resolve : Quiet resolve := by
  refine Prog.only_bind (quiet_ask rfl) fun answer => ?_
  rcases answer with error | marker
  · exact Prog.only_pure _
  · cases marker with
    | operation id => exact Prog.only_bind (quiet_ask rfl) fun _ => Prog.only_pure _
    | _ => exact Prog.only_pure _

theorem quiet_requireCurrent (operationId : String) : Quiet (requireCurrent operationId) := by
  refine Prog.only_bind quiet_resolve fun owner => ?_
  cases owner <;> exact Prog.only_pure _

theorem wp_removeCurrent {operationId : String} (hlock : s.phase.holdsLock) :
    (removeCurrent operationId).wp (offlineContract ext) (fun _ s' => s'.phase.holdsLock) s := by
  unfold removeCurrent
  rw [Prog.wp_bind]
  refine Prog.wp_mono ?_ (wp_quiet (quiet_requireCurrent operationId) s)
  rintro (e | ⟨⟩) s₁ h₁
  · exact h₁.holdsLock hlock
  · have hlock₁ := h₁.holdsLock hlock
    dsimp only
    rw [Prog.wp_bind]
    refine wp_ask hlock₁ fun answer _ => ?_
    rcases answer with e | ⟨⟩ <;> exact hlock₁

/-- From the record that was read to the result. -/
theorem wp_runPrepared {m : OperationStateRecord} (hphase : s.phase = .read m)
    (hready : m.state = .readyToReboot) (hsnapshot : m.snapshotNumber.isSome)
    (hnext : m.transitionTo .applyingOffline = .ok r) :
    wpE (offlineContract ext) (Body fun _ _ s' => s'.phase.holdsLock)
      (runPrepared ext r.operationId) r s := by
  have hlock : s.phase.holdsLock := by rw [hphase]; rfl
  have hstate : r.state = .applyingOffline := by
    obtain ⟨-, -, -, rfl⟩ := OperationStateRecord.transitionTo_eq_ok.mp hnext
    rfl
  unfold runPrepared
  refine body_authenticate hlock fun manifest plan s₁ h₁ hauthenticated => ?_
  have hphase₁ := h₁.phase.trans hphase
  dsimp only
  refine body_get (body_offlineIo _ (wp_ask (.enter m r hphase₁ hready hsnapshot hnext
    ⟨manifest, plan, hauthenticated⟩) fun saved _ => ?_))
  have hsaved : (s₁.next ⟨Op.save r, saved⟩).phase =
      match saved with
      | .ok () => .entered r
      | .error _ => .failed := by
    show phaseAfterSave r saved s₁.phase = _
    rw [hphase₁]
    rcases saved with e | ⟨⟩ <;> simp [phaseAfterSave, hstate]
  rcases saved with e | ⟨⟩
  · show OfflinePhase.holdsLock _
    rw [hsaved]
    rfl
  dsimp only at hsaved ⊢
  have hauthenticated₂ := hauthenticated.mono
    (List.subset_append_left s₁.events [⟨Op.save r, Except.ok ()⟩])
  generalize hs₂ : s₁.next ⟨Op.save r, Except.ok ()⟩ = s₂ at hsaved ⊢
  replace hauthenticated₂ : Authenticated ext s₂.events manifest plan r := by
    rw [← hs₂]
    exact hauthenticated₂
  have hlock₂ : s₂.phase.holdsLock := by rw [hsaved]; rfl
  refine body_revalidatePlan hlock₂ fun s₃ h₃ hrevalidated => ?_
  refine body_applyTransaction (h₃.phase.trans hsaved)
    (hauthenticated₂.mono h₃.events.subset) hrevalidated
    fun before arguments output s₄ happlied hevents hcode hlaunch => ?_
  have hlock₄ : s₄.phase.holdsLock := by rw [happlied]; rfl
  refine body_completeTransaction (n := before.length + 1) (by rw [hevents]; simp) hlock₄
    fun s₅ h₅ hconcluded => ?_
  have hphase₅ := h₅.phase.trans happlied
  have hlock₅ := h₅.holdsLock hlock₄
  refine body_get (body_orFail hlock₅ fun r' hawaiting => ?_)
  have hoffline : AppliedOffline ext s₅.events r := by
    obtain ⟨after, hafter⟩ := h₅.events
    refine ⟨before, arguments, output, after, manifest, plan, ?_, hcode, hlaunch, ?_⟩
    · rw [← hafter, hevents, List.append_assoc]
      rfl
    · rw [← hafter, hevents, List.drop_left' (by simp)] at hconcluded
      exact hconcluded
  rw [wpE_bind, wpE_set]
  dsimp only
  refine body_get (body_offlineIo _ (wp_ask (.result r r' hphase₅ hoffline hawaiting)
    fun saved _ => ?_))
  have hawaits : r'.state = .awaitingReboot := by
    obtain ⟨-, -, -, rfl⟩ := OperationStateRecord.transitionTo_eq_ok.mp hawaiting
    rfl
  have hfinal : (s₅.next ⟨Op.save { r' with lastCompletedStep := some "offline-apply" },
      saved⟩).phase.holdsLock := by
    show (phaseAfterSave _ saved s₅.phase).holdsLock
    rw [hphase₅]
    rcases saved with e | ⟨⟩ <;> simp [phaseAfterSave, hawaits, OfflinePhase.holdsLock]
  rcases saved with e | ⟨⟩
  · exact hfinal
  · rw [offlineIo, wpE_attempt]
    refine Prog.wp_mono (fun res s' h => ?_) (wp_removeCurrent hfinal)
    cases res <;> exact h

theorem prepareOfflineState_eq_ok {m r : OperationStateRecord} (h : prepareOfflineState m = .ok r) :
    m.state = .readyToReboot ∧ m.snapshotNumber.isSome ∧
      m.transitionTo .applyingOffline = .ok r := by
  unfold prepareOfflineState at h
  split_ifs at h with hnot
  obtain ⟨hready, hsnapshot⟩ := not_or.mp hnot
  refine ⟨not_not.mp hready, ?_, ?_⟩
  · cases hm : m.snapshotNumber with
    | none => exact absurd (by rw [hm]; rfl) hsnapshot
    | some number => rfl
  · cases hnext : m.transitionTo .applyingOffline with
    | error e => rw [hnext] at h; cases h
    | ok r' =>
        rw [hnext] at h
        cases h
        rfl

theorem wp_runOffline {operationId : String} (hphase : s.phase = .locked) :
    (runOffline ext operationId).wp (offlineContract ext) (fun _ s' => s'.phase.holdsLock) s := by
  have hlock : s.phase.holdsLock := by rw [hphase]; rfl
  unfold runOffline
  rw [Prog.wp_bind]
  refine Prog.wp_mono ?_ (wp_quiet (quiet_requireCurrent operationId) s)
  rintro (e | ⟨⟩) s₁ h₁
  · exact h₁.holdsLock hlock
  dsimp only
  rw [Prog.wp_bind]
  refine wp_ask (e := .load operationId) (h₁.holdsLock hlock) fun answer hvalid => ?_
  cases answer with
  | error e => rfl
  | ok m =>
  obtain ⟨rfl, -⟩ := hvalid m rfl
  have hread : (s₁.next ⟨Op.load m.operationId, Except.ok m⟩).phase = .read m :=
    if_pos (h₁.phase.trans hphase)
  dsimp only
  cases hprepare : prepareOfflineState m with
  | error e =>
      show OfflinePhase.holdsLock _
      rw [hread]
      rfl
  | ok r =>
      obtain ⟨hready, hsnapshot, hnext⟩ := prepareOfflineState_eq_ok hprepare
      have hid : r.operationId = m.operationId := by
        obtain ⟨-, -, -, rfl⟩ := OperationStateRecord.transitionTo_eq_ok.mp hnext
        rfl
      dsimp only
      rw [Prog.wp_bind, ← hid]
      refine Prog.wp_mono ?_ (wp_runPrepared (by rw [hid]; exact hread) hready hsnapshot hnext)
      rintro ⟨result, _⟩ s' h
      cases result <;> exact h

/-- **A failure is recorded** on the record as it is read then. -/
theorem wp_markRecovery {operationId : String} (hlock : s.phase.holdsLock) :
    (markRecovery operationId).wp (offlineContract ext) (fun _ s' => s'.phase.holdsLock) s := by
  unfold markRecovery
  rw [Prog.wp_bind]
  refine Prog.wp_mono ?_ (wp_quiet (quiet_requireCurrent operationId) s)
  rintro (e | ⟨⟩) s₁ h₁
  · exact h₁.holdsLock hlock
  dsimp only
  rw [Prog.wp_bind]
  refine wp_ask (e := .load operationId) (h₁.holdsLock hlock) fun answer _ => ?_
  cases answer with
  | error e => exact wp_removeCurrent rfl
  | ok m =>
      dsimp only
      rw [Prog.wp_bind]
      have hphase : (s₁.next ⟨Op.load operationId, Except.ok m⟩).phase = .read m ∨
          (s₁.next ⟨Op.load operationId, Except.ok m⟩).phase = .marking m := by
        show (if s₁.phase = .locked then _ else _) = _ ∨ (if s₁.phase = .locked then _ else _) = _
        split_ifs
        · exact .inl rfl
        · exact .inr rfl
      refine wp_ask (.failed m hphase) fun saved _ => ?_
      have hsaved : (OfflineState.next (s₁.next ⟨Op.load operationId, Except.ok m⟩)
          ⟨Op.save (offlineFailureRecord m), saved⟩).phase.holdsLock := by
        show (phaseAfterSave _ saved _).holdsLock
        rcases hphase with hphase | hphase <;> rw [hphase] <;> rcases saved with e | ⟨⟩ <;>
          simp [phaseAfterSave, offlineFailureRecord, OfflinePhase.holdsLock]
      rcases saved with e | ⟨⟩
      · exact hsaved
      · exact wp_removeCurrent hsaved

theorem wp_finishOwnedOperation {operationId : String} (reboot : Bool) (result : Except String Unit)
    (hlock : s.phase.holdsLock) : (finishOwnedOperation operationId reboot result).wp
      (offlineContract ext) (fun _ s' => s'.phase.holdsLock) s := by
  have hquiet : Quiet (rebootAfterCleanup operationId) := by
    refine Prog.only_bind (quiet_ask rfl) fun answer => ?_
    rcases answer with error | marker
    · exact Prog.only_pure _
    · cases marker with
      | absent => exact Prog.only_bind (quiet_ask rfl) fun _ => Prog.only_pure _
      | _ => exact Prog.only_pure _
  -- what follows the cleanup leaves the protocol where it is
  have hreboot : ∀ {k : Except String Unit → Prog Sig (Except String Unit)} s', s'.phase.holdsLock →
      (∀ rebooted, ∃ final, k rebooted = pure final) →
      (rebootAfterCleanup operationId >>= k).wp (offlineContract ext)
        (fun _ s' => s'.phase.holdsLock) s' := by
    intro k s' hlock' hpure
    rw [Prog.wp_bind]
    refine Prog.wp_mono (fun rebooted s'' h => ?_) (wp_quiet hquiet s')
    obtain ⟨final, hfinal⟩ := hpure rebooted
    rw [hfinal]
    exact h.holdsLock hlock'
  unfold finishOwnedOperation
  rcases result with e | ⟨⟩
  · dsimp only
    rw [Prog.wp_bind]
    refine Prog.wp_mono (fun cleanup s' h => ?_) (wp_markRecovery hlock)
    rcases cleanup with e | ⟨⟩
    · exact h
    · cases reboot with
      | false => exact h
      | true => exact hreboot s' h fun rebooted => by rcases rebooted with e | ⟨⟩ <;> exact ⟨_, rfl⟩
  · cases reboot with
    | false => exact hlock
    | true => exact hreboot s hlock fun rebooted => by rcases rebooted with e | ⟨⟩ <;> exact ⟨_, rfl⟩

end OfflineState

open OfflineState

/-- **The offline executor keeps to its protocol.** -/
theorem wp_offlineMain (ext : Externals) (reboot : Bool) (hs : s.phase = .start) :
    (offlineMain ext reboot).wp (offlineContract ext) (fun _ _ => True) s := by
  unfold offlineMain
  rw [Prog.wp_bind]
  refine Prog.wp_mono ?_ (OfflineState.wp_quiet OfflineState.quiet_resolve s)
  rintro (e | _ | operationId) s₁ h₁
  · trivial
  · trivial
  dsimp only
  rw [Prog.wp_bind]
  refine OfflineState.wp_ask (h₁.phase.trans hs) fun granted _ => ?_
  rcases granted with e | ⟨⟩
  · trivial
  dsimp only
  rw [Prog.wp_bind]
  refine Prog.wp_mono ?_ (wp_runOffline rfl)
  intro result s₂ hlock₂
  rw [Prog.wp_bind]
  refine Prog.wp_mono ?_ (OfflineState.wp_finishOwnedOperation reboot result hlock₂)
  intro finished s₃ hlock₃
  rw [Prog.wp_bind]
  exact OfflineState.wp_ask hlock₃ fun _ _ => trivial

end

end LyraUpgrade
