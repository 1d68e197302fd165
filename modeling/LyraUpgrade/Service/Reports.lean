import LyraUpgrade.Interaction.Transcript
import LyraUpgrade.Service.Decision

/-!
# What a worker reports, and when

The protocol of a worker leaves open which of its errors it reports where.  A second account
of the same program fixes that: an error that blocks an operation occurs only before the
snapshot is begun, or after the record names it.  With the protocol this settles the state
that `failure_state` picks.  `wp_startReports` puts the two accounts together.
-/

namespace LyraUpgrade

open Interaction

/-! ## The account -/

/-- The worker has tried to persist that it takes the snapshot. -/
def SnapshotBegun (events : List (Event Sig)) : Prop :=
  ∃ r answer, ⟨Op.save r, answer⟩ ∈ events ∧ r.state = .snapshotting

/-- A record of the operation was read. -/
def HasRead (operationId : String) (events : List (Event Sig)) : Prop :=
  ∃ r, ⟨Op.load operationId, Except.ok r⟩ ∈ events

/-- An operation is blocked only before the snapshot is begun, and the first record of an
operation has the first sequence number. -/
def Reports (operationId : String) : Op → List (Event Sig) → Prop
  | .save r, events => (r.state = .blocked → ¬ SnapshotBegun events) ∧
      (HasRead operationId events ∨ r.sequence = 1)
  | _, _ => True

abbrev reportContract (operationId : String) : Contract Sig (List (Event Sig)) :=
  recorder (Reports operationId) validAnswer

section

variable {operationId : String} {α β : Type} {t : List (Event Sig)} {r : OperationStateRecord}

theorem HasRead.append (h : HasRead operationId t) (e : Event Sig) :
    HasRead operationId (t ++ [e]) := by
  obtain ⟨r, hr⟩ := h
  exact ⟨r, List.mem_append_left _ hr⟩

/-- What is no save of that state does not begin the snapshot. -/
theorem snapshotBegun_append {e : Event Sig} (h : ¬ SnapshotBegun t)
    (he : ∀ r, e.op = .save r → r.state ≠ .snapshotting) : ¬ SnapshotBegun (t ++ [e]) := by
  rintro ⟨r, answer, hmem, hstate⟩
  rcases List.mem_append.mp hmem with hmem | hmem
  · exact h ⟨r, answer, hmem, hstate⟩
  · rw [List.mem_singleton] at hmem
    subst hmem
    exact he r rfl hstate

theorem reports_of_not_save {e : Op} (h : e.isSave = false) : Reports operationId e t := by
  cases e with
  | save r => cases h
  | _ => trivial

/-! ## Rules -/

/-- A property of the record in memory and of the events that only saves can end. -/
def Stable (I : OperationStateRecord → List (Event Sig) → Prop) : Prop :=
  ∀ r t e, I r t → Op.isSave e.op = false → I r (t ++ [e])

variable {I : OperationStateRecord → List (Event Sig) → Prop}

/-- From anywhere with `I` to anywhere with `I`, whether or not it fails. -/
def Keeping (operationId : String) (I : OperationStateRecord → List (Event Sig) → Prop)
    (x : Worker α) : Prop :=
  ∀ r t, I r t → wpE (reportContract operationId) (fun _ r' t' => I r' t') x r t

/-- Only operations that save no record. -/
abbrev Observing (p : Prog Sig α) : Prop := p.Only fun e => Op.isSave e = false

theorem wp_observing (hI : Stable I) {p : Prog Sig α} (h : Observing p)
    (ht : I r t) : p.wp (reportContract operationId) (fun _ t' => I r t') t := by
  refine Prog.wp_mono (fun _ t' ht' => ht' ht) (Prog.wp_of_only (I := fun t t' => I r t → I r t')
    (fun _ h => h) (fun _ _ _ h h' ht => h' (h ht)) (fun e t he => reports_of_not_save he) ?_ h t)
  rintro e t a _ he ⟨-, rfl⟩ ht
  exact hI r t _ ht he

theorem observing_of_quiet {p : Prog Sig α} (h : Quiet p) : Observing p :=
  Prog.only_mono (fun _ => isSave_of_quiet) h

theorem observing_ask {e : Op} (h : e.isSave = false) : Observing (ask e) :=
  ⟨h, fun _ => trivial⟩

namespace Keeping

theorem pure (a : α) : Keeping operationId I (Pure.pure a : Worker α) := fun _ _ h => h

theorem throw (e : ExecutionError) : Keeping operationId I (MonadExcept.throw e : Worker α) :=
  fun _ _ h => h

theorem get : Keeping operationId I (MonadState.get : Worker OperationStateRecord) :=
  fun _ _ h => h

theorem bind {x : Worker α} {f : α → Worker β} (hx : Keeping operationId I x)
    (hf : ∀ a, Keeping operationId I (f a)) : Keeping operationId I (x >>= f) := by
  intro r t h
  rw [wpE_bind]
  refine wpE_mono ?_ (hx r t h)
  intro res r' t' h'
  cases res with
  | error e => exact h'
  | ok a => exact hf a r' t' h'

theorem attempt (hI : Stable I) {ε : Type} {p : Prog Sig (Except ε α)} (f : ε → ExecutionError)
    (h : Observing p) : Keeping operationId I (Interaction.attempt p f : Worker α) := by
  intro r t ht
  rw [wpE_attempt]
  refine Prog.wp_mono (fun res t' h => ?_) (wp_observing hI h ht)
  cases res <;> exact h

theorem perform (hI : Stable I) {p : Prog Sig α} (h : Observing p) :
    Keeping operationId I (Interaction.perform p : Worker α) := by
  intro r t ht
  rw [wpE_perform]
  exact wp_observing hI h ht

theorem orFail {ε : Type} (result : Except ε α) (f : ε → ExecutionError) :
    Keeping operationId I (Interaction.orFail result f : Worker α) := by
  intro r t ht
  rw [wpE_orFail]
  cases result <;> exact ht

theorem failIf (c : Prop) [Decidable c] (error : ExecutionError) :
    Keeping operationId I (Interaction.failIf c error : Worker PUnit) := by
  intro r t ht
  rw [wpE_failIf]
  exact ⟨fun _ => ht, fun _ => ht⟩

/-- A state change that `I` allows. -/
theorem advanceTo (hI : Stable I) {next : OperationState} (hblocked : next ≠ .blocked)
    (hread : ∀ r t, I r t → HasRead operationId t)
    (hnext : ∀ r t, I r t → I (r.advance next) t)
    (hsave : ∀ r t answer, I r t → r.state = next → I r (t ++ [⟨Op.save r, answer⟩])) :
    Keeping operationId I (LyraUpgrade.advanceTo next) := by
  intro r t ht
  unfold LyraUpgrade.advanceTo transition persist saveRecord
  simp only [bind_assoc]
  rw [wpE_bind, wpE_get]
  dsimp only
  rw [wpE_bind, wpE_orFail]
  cases htransition : r.transitionTo next with
  | error e => exact ht
  | ok r' =>
      obtain ⟨-, -, -, rfl⟩ := OperationStateRecord.transitionTo_eq_ok.mp htransition
      have hadvanced := hnext r t ht
      dsimp only
      rw [wpE_bind, wpE_set]
      dsimp only
      rw [wpE_bind, wpE_get]
      dsimp only
      rw [wpE_bind, wpE_attempt]
      refine Automaton.wp_request ⟨fun hstate => absurd hstate hblocked, .inl (hread r t ht)⟩
        fun saved _ => ?_
      have hsaved := hsave _ t saved hadvanced rfl
      rcases saved with e | ⟨⟩
      · exact hsaved
      · dsimp only
        rw [wpE_bind, wpE_get]
        exact Keeping.perform hI (observing_ask rfl) _ _ hsaved

theorem runRequired (hI : Stable I) (command : Command) (error : ExecutionError) :
    Keeping operationId I (LyraUpgrade.runRequired operationId command error) := by
  refine .bind (.perform hI (observing_ask rfl)) fun output => ?_
  cases hsuccess : Output.success output with
  | true => exact .pure _
  | false => exact .throw _

theorem recordInventory (hI : Stable I) (kind : InventoryKind) (error : ExecutionError) :
    Keeping operationId I (LyraUpgrade.recordInventory operationId kind error) :=
  .bind (.attempt hI _ (observing_ask rfl)) fun _ =>
    .bind (.attempt hI _ (observing_ask rfl)) fun _ => .pure _

theorem pollCancel (hI : Stable I) : Keeping operationId I (LyraUpgrade.pollCancel operationId) :=
  .bind (.perform hI (observing_ask rfl)) fun _ => .failIf _ _

theorem planUpdate (hI : Stable I) (digest : List Char → String) :
    Keeping operationId I
      (Interaction.attempt (LyraUpgrade.planUpdate digest) .replan : Worker PlannedUpdate) :=
  .attempt hI _ (observing_of_quiet (planning_planUpdate digest).quiet)

theorem checkPayloads (hI : Stable I) (manifest : ReleaseManifest)
    (installed : List InstalledPackage) (error : ExecutionError) : Keeping operationId I
      (Interaction.attempt (LyraUpgrade.checkPayloads operationId manifest installed)
        fun _ => error : Worker Unit) :=
  .attempt hI _ (observing_of_quiet (quiet_checkPayloads ..))

end Keeping

/-! ## Before the snapshot -/

/-- The record was read, and the snapshot is not begun. -/
def Early (operationId : String) (_ : OperationStateRecord) (t : List (Event Sig)) : Prop :=
  HasRead operationId t ∧ ¬ SnapshotBegun t

theorem stable_early : Stable (Early operationId) := by
  rintro r t e ⟨hread, hnot⟩ he
  refine ⟨hread.append e, snapshotBegun_append hnot fun r hr => ?_⟩
  rw [hr] at he
  cases he

theorem keeping_downloading : Keeping operationId (Early operationId) (advanceTo .downloading) := by
  refine .advanceTo stable_early (by decide) (fun _ _ h => h.1) (fun _ _ h => h) ?_
  rintro r t answer ⟨hread, hnot⟩ hstate
  refine ⟨hread.append _, snapshotBegun_append hnot fun r' hr => ?_⟩
  cases hr
  rw [hstate]
  decide

section

variable (ext : Externals) (confirmed : PlannedUpdate) (manifest : ReleaseManifest)

theorem keeping_downloadUpdate (digest : List Char → String) :
    Keeping operationId (Early operationId) (downloadUpdate digest operationId confirmed) :=
  .bind keeping_downloading fun _ =>
  .bind (.runRequired stable_early _ _) fun _ =>
  .bind (.pollCancel stable_early) fun _ =>
  .bind (.planUpdate stable_early digest) fun _ =>
  .bind (.failIf _ _) fun _ =>
  .bind (.runRequired stable_early _ _) fun _ =>
  .bind (.pollCancel stable_early) fun _ =>
  .bind (.planUpdate stable_early digest) fun _ =>
  .bind (.failIf _ _) fun _ => .pure _

theorem keeping_confirmRelease :
    Keeping operationId (Early operationId) (confirmRelease ext confirmed manifest) :=
  .bind .get fun _ =>
  .bind (.failIf _ _) fun _ =>
  .bind (.orFail _ _) fun _ =>
  .bind (.attempt stable_early _ (observing_of_quiet planning_readLastManifestSequence.quiet)) fun _ =>
  .bind (.attempt stable_early _ (observing_ask rfl)) fun _ =>
  .bind (.attempt stable_early _
    (observing_of_quiet (planning_fetchVerifiedManifest _ _ _ _).quiet)) fun _ =>
  .bind (.failIf _ _) fun _ => .pure _

theorem keeping_prepareRelease (document : SignedDocument) : Keeping operationId (Early operationId)
    (prepareRelease operationId confirmed manifest document) :=
  .bind (.recordInventory stable_early _ _) fun _ =>
  .bind (.attempt stable_early _ (observing_ask rfl)) fun _ =>
  .bind (.attempt stable_early _ (observing_ask rfl)) fun _ =>
  .bind (.attempt stable_early _ (observing_of_quiet (planning_fetchRepositoryKeys _).quiet)) fun _ =>
  .bind (.attempt stable_early _ (observing_ask rfl)) fun _ =>
  .bind (.attempt stable_early _ (observing_ask rfl)) fun _ =>
  .attempt stable_early _ (observing_ask rfl)

theorem keeping_revalidateStagedSolver (xml : List Char) : Keeping operationId (Early operationId)
    (revalidateStagedSolver ext operationId confirmed manifest xml) :=
  .bind .get fun _ => .bind (.attempt stable_early _ (observing_ask rfl)) fun _ => .orFail _ _

theorem keeping_stagedTransaction (mode : TransactionMode) :
    Keeping operationId (Early operationId) (stagedTransaction confirmed manifest mode) :=
  .bind (.orFail _ _) fun _ => .pure _

theorem keeping_downloadRelease : Keeping operationId (Early operationId)
    (downloadRelease ext operationId confirmed manifest) :=
  .bind keeping_downloading fun _ =>
  .bind (.runRequired stable_early _ _) fun _ =>
  .bind (.pollCancel stable_early) fun _ =>
  .bind (keeping_stagedTransaction confirmed manifest _) fun _ =>
  .bind (.runRequired stable_early _ _) fun _ =>
  .bind (keeping_revalidateStagedSolver ext confirmed manifest _) fun _ =>
  .bind (.pollCancel stable_early) fun _ =>
  .bind (keeping_stagedTransaction confirmed manifest _) fun _ =>
  .bind (.runRequired stable_early _ _) fun _ =>
  .bind (keeping_revalidateStagedSolver ext confirmed manifest _) fun _ =>
  .bind (.pollCancel stable_early) fun _ =>
  .bind (.checkPayloads stable_early _ _ _) fun _ =>
  .attempt stable_early _ (observing_of_quiet (planning_validateTime ext manifest).quiet)

end

/-! ## After the snapshot -/

/-- The record was read, and names the snapshot. -/
def Late (operationId : String) (r : OperationStateRecord) (t : List (Event Sig)) : Prop :=
  HasRead operationId t ∧ r.snapshotNumber.isSome

theorem stable_late : Stable (Late operationId) :=
  fun _ _ e h _ => ⟨h.1.append e, h.2⟩

theorem keeping_late {next : OperationState} (h : next ≠ .blocked) :
    Keeping operationId (Late operationId) (advanceTo next) :=
  .advanceTo stable_late h (fun _ _ h => h.1) (fun _ _ h => h) fun _ _ _ h _ => ⟨h.1.append _, h.2⟩

theorem keeping_rebuildBoot (needed : Bool) :
    Keeping operationId (Late operationId) (rebuildBoot operationId needed) := by
  unfold rebuildBoot
  split_ifs
  · exact .bind (.runRequired stable_late _ _) fun _ =>
      .bind (.runRequired stable_late _ _) fun _ => .pure _
  · exact .pure _

theorem keeping_applyUpdate (confirmed fresh : PlannedUpdate) :
    Keeping operationId (Late operationId) (applyUpdate operationId confirmed fresh) :=
  .bind (keeping_late (by decide)) fun _ =>
  .bind (.perform stable_late (observing_ask rfl)) fun _ =>
  .bind (.orFail _ _) fun _ =>
  .bind (keeping_rebuildBoot _) fun _ =>
  .bind (.recordInventory stable_late _ _) fun _ =>
  .bind (.failIf _ _) fun _ =>
  .bind (keeping_late (by split_ifs <;> decide)) fun _ => .pure _

theorem keeping_stageSystemUpdate :
    Keeping operationId (Late operationId) (stageSystemUpdate operationId) := by
  refine .bind (.attempt stable_late _ (observing_ask rfl)) fun marker => ?_
  cases marker with
  | operation other => exact .failIf _ _
  | absent => exact .attempt stable_late _ (observing_ask rfl)
  | foreign | invalid => exact .throw _

/-! ## The worker -/

/-- **An error that blocks** is reported before the snapshot is begun, or after the record
names it. -/
def Accounted (operationId : String) :
    Except ExecutionError α → OperationStateRecord → List (Event Sig) → Prop
  | .ok _, _, _ => True
  | .error error, r, t => HasRead operationId t ∧
      (error.isBlocking → ¬ SnapshotBegun t ∨ r.snapshotNumber.isSome)

/-- The first part of a worker. -/
theorem accounts_early {x : Worker β} {f : β → Worker α}
    (hx : Keeping operationId (Early operationId) x) (ht : Early operationId r t)
    (hf : ∀ b r t, Early operationId r t →
      wpE (reportContract operationId) (Accounted operationId) (f b) r t) :
    wpE (reportContract operationId) (Accounted operationId) (x >>= f) r t := by
  rw [wpE_bind]
  refine wpE_mono (fun res r' t' h => ?_) (hx r t ht)
  cases res with
  | error e => exact ⟨h.1, fun _ => .inl h.2⟩
  | ok b => exact hf b r' t' h

/-- The last part of a worker. -/
theorem accounts_late {x : Worker α} (hx : Keeping operationId (Late operationId) x)
    (ht : Late operationId r t) :
    wpE (reportContract operationId) (Accounted operationId) x r t := by
  refine wpE_mono (fun res r' t' h => ?_) (hx r t ht)
  cases res with
  | error e => exact ⟨h.1, fun _ => .inr h.2⟩
  | ok a => trivial

theorem parseSnapshotNumber_error {stdout : List Char} {e : ExecutionError}
    (h : parseSnapshotNumber stdout = .error e) : e = .invalidSnapshot := by
  unfold parseSnapshotNumber at h
  split at h
  · split_ifs at h
    cases h
    rfl
  · cases h
    rfl

/-- A record that is saved on the way to the snapshot. -/
theorem accounts_saveRecord {f : Unit → Worker α} (hread : HasRead operationId t)
    (hstate : r.state = .snapshotting) (hf : ∀ t, HasRead operationId t →
      wpE (reportContract operationId) (Accounted operationId) (f ()) r t) :
    wpE (reportContract operationId) (Accounted operationId) (saveRecord >>= f) r t := by
  unfold saveRecord
  simp only [bind_assoc]
  rw [wpE_bind, wpE_get]
  dsimp only
  rw [wpE_bind, wpE_attempt]
  refine Automaton.wp_request ⟨fun hblocked => ?_, .inl hread⟩ fun saved _ => ?_
  · rw [hstate] at hblocked
    cases hblocked
  · rcases saved with e | ⟨⟩
    · exact ⟨hread.append _, fun h => by cases h⟩
    · exact hf _ (hread.append _)

/-- **Between the two parts** no error blocks. -/
theorem accounts_takeSnapshot {description : String} {f : Unit → Worker α}
    (ht : Early operationId r t) (hf : ∀ r t, Late operationId r t →
      wpE (reportContract operationId) (Accounted operationId) (f ()) r t) :
    wpE (reportContract operationId) (Accounted operationId)
      (takeSnapshot operationId description >>= f) r t := by
  unfold takeSnapshot advanceTo transition persist
  simp only [bind_assoc]
  rw [wpE_bind, wpE_get]
  dsimp only
  rw [wpE_bind, wpE_orFail]
  cases htransition : r.transitionTo .snapshotting with
  | error e => exact ⟨ht.1, fun h => by cases h⟩
  | ok r' =>
  obtain ⟨-, -, -, rfl⟩ := OperationStateRecord.transitionTo_eq_ok.mp htransition
  dsimp only
  rw [wpE_bind, wpE_set]
  refine accounts_saveRecord ht.1 rfl fun t₁ h₁ => ?_
  rw [wpE_bind, wpE_get]
  dsimp only
  rw [wpE_bind, wpE_perform]
  refine Automaton.wp_request trivial fun _ _ => ?_
  have h₂ := h₁.append ⟨Op.stateChanged r.operationId .snapshotting, ()⟩
  dsimp only
  unfold runRequired
  simp only [bind_assoc]
  rw [wpE_bind, wpE_perform]
  refine Automaton.wp_request trivial fun output _ => ?_
  have h₃ := h₂.append ⟨Op.run operationId (.createSnapshot description), output⟩
  dsimp only
  cases hsuccess : Output.success output with
  | false => exact ⟨h₃, fun h => by cases h⟩
  | true =>
  rw [if_pos rfl, pure_bind, wpE_bind, wpE_orFail]
  cases hnumber : parseSnapshotNumber output.stdout with
  | error e =>
      obtain rfl := parseSnapshotNumber_error hnumber
      exact ⟨h₃, fun h => by cases h⟩
  | ok number =>
  dsimp only
  rw [wpE_bind, wpE_get]
  dsimp only
  rw [wpE_bind, wpE_set]
  exact accounts_saveRecord h₃ rfl fun t₄ h₄ => hf _ t₄ ⟨h₄, rfl⟩

theorem accounts_withTransactionLock {body : Worker α} (ht : Early operationId r t)
    (hbody : ∀ t, Early operationId r t →
      wpE (reportContract operationId) (Accounted operationId) body r t) :
    wpE (reportContract operationId) (Accounted operationId) (withTransactionLock body) r t := by
  have hstep : ∀ {r t} (e : Event Sig), Early operationId r t → Op.isSave e.op = false →
      Early operationId r (t ++ [e]) := fun e ht he => stable_early _ _ e ht he
  unfold withTransactionLock wpE
  show Prog.wp _ _ (ask .acquireLock >>= _) t
  rw [Prog.wp_bind]
  refine Automaton.wp_request trivial fun granted _ => ?_
  have ht' := hstep ⟨Op.acquireLock, granted⟩ ht rfl
  rcases granted with (_ | _) | ⟨⟩
  · exact ⟨ht'.1, fun _ => .inl ht'.2⟩
  · exact ⟨ht'.1, fun h => by cases h⟩
  · dsimp only
    rw [Prog.wp_bind]
    refine Prog.wp_mono ?_ (hbody _ ht')
    rintro ⟨result, r'⟩ t' h
    rw [Prog.wp_bind]
    refine Automaton.wp_request trivial fun _ _ => ?_
    cases result with
    | ok a => trivial
    | error e =>
        refine ⟨h.1.append _, fun hblocking => (h.2 hblocking).imp_left fun hnot => ?_⟩
        exact snapshotBegun_append hnot fun _ h => by cases h

section

variable (ext : Externals)

theorem accounts_executeUpdate (confirmed : PlannedUpdate) (ht : Early operationId r t) :
    wpE (reportContract operationId) (Accounted operationId)
      (executeUpdate ext.sha256 operationId confirmed) r t := by
  unfold executeUpdate
  refine accounts_withTransactionLock ht fun t₁ h₁ => ?_
  refine accounts_early (.attempt stable_early _ (observing_ask rfl)) h₁ fun _ r₂ t₂ h₂ => ?_
  refine accounts_early (.recordInventory stable_early _ _) h₂ fun _ r₃ t₃ h₃ => ?_
  refine accounts_early (keeping_downloadUpdate confirmed _) h₃ fun fresh r₄ t₄ h₄ => ?_
  refine accounts_takeSnapshot h₄ fun r₅ t₅ h₅ => ?_
  exact accounts_late (keeping_applyUpdate confirmed fresh) h₅

theorem accounts_stageReleaseUpgrade (confirmed : PlannedUpdate) (manifest : ReleaseManifest)
    (ht : Early operationId r t) : wpE (reportContract operationId) (Accounted operationId)
      (stageReleaseUpgrade ext operationId confirmed manifest) r t := by
  unfold stageReleaseUpgrade
  refine accounts_withTransactionLock ht fun t₁ h₁ => ?_
  refine accounts_early (keeping_confirmRelease ext confirmed manifest) h₁ fun document r₂ t₂ h₂ => ?_
  refine accounts_early (keeping_prepareRelease confirmed manifest document) h₂ fun _ r₃ t₃ h₃ => ?_
  refine accounts_early (keeping_downloadRelease ext confirmed manifest) h₃ fun _ r₄ t₄ h₄ => ?_
  refine accounts_takeSnapshot h₄ fun r₅ t₅ h₅ => ?_
  exact accounts_late (.bind keeping_stageSystemUpdate fun _ =>
    .bind (keeping_late (by decide)) fun _ => .pure _) h₅

theorem accounts_execution (planned : PendingPlan) (ht : Early operationId r t) :
    wpE (reportContract operationId) (Accounted operationId)
      (execution ext operationId planned) r t := by
  unfold execution
  rw [wpE_bind, wpE_get]
  dsimp only
  cases r.operation with
  | updateWithinRelease => exact accounts_executeUpdate ext _ ht
  | releaseUpgrade | packageMigration =>
      cases planned.manifest with
      | some manifest => exact accounts_stageReleaseUpgrade ext _ manifest ht
      | none => exact ⟨ht.1, fun _ => .inl ht.2⟩

/-! ## The request -/

/-- The snapshot is not begun. -/
theorem stable_not_begun : Stable fun _ t => ¬ SnapshotBegun t := by
  intro r t e ht he
  refine snapshotBegun_append ht fun r' hr => ?_
  rw [hr] at he
  cases he

theorem wp_reported {p : Prog Sig α} (h : Observing p) (ht : ¬ SnapshotBegun t) :
    p.wp (reportContract operationId) (fun _ t' => ¬ SnapshotBegun t') t :=
  wp_observing (I := fun _ t => ¬ SnapshotBegun t) (r := ⟨0, "", 0, .updateWithinRelease, .idle,
    ⟨"", "", "", ""⟩, none, "", none, none, none, none, none, none, "", ""⟩) stable_not_begun h ht

theorem blocked_of_failureRecord {error : ExecutionError} {timestamp : String}
    (h : (failureRecord error r timestamp).state = .blocked) :
    error.isBlocking ∧ r.snapshotNumber = none := by
  change failureState error r.snapshotNumber.isSome = .blocked at h
  unfold failureState at h
  split_ifs at h with hblocking
  simpa using hblocking

theorem wp_workerThread_reports (planned : PendingPlan) (hid : r.operationId = operationId)
    (ht : Early operationId r t) :
    (workerThread ext r planned).wp (reportContract operationId) (fun _ _ => True) t := by
  unfold workerThread
  rw [hid, Prog.wp_bind]
  refine Prog.wp_mono ?_ (accounts_execution ext planned ht)
  rintro ⟨result, r'⟩ t' h
  cases result with
  | ok outcome => trivial
  | error error =>
      obtain ⟨hread, hblocking⟩ := h
      dsimp only
      rw [Prog.wp_bind]
      refine Automaton.wp_request trivial fun answer _ => ?_
      split_ifs
      · trivial
      rw [Prog.wp_bind]
      refine Automaton.wp_request trivial fun timestamp _ => ?_
      rw [Prog.wp_bind]
      refine Automaton.wp_request ⟨fun hblocked => ?_, .inl ?_⟩ fun _ _ => trivial
      · obtain ⟨herror, hnone⟩ := blocked_of_failureRecord hblocked
        have hnot := (hblocking herror).resolve_right (by rw [hnone]; simp)
        exact stable_not_begun r' _ _ (stable_not_begun r' _ _ hnot rfl) rfl
      · exact (hread.append _).append _

theorem observing_rejected (code : String) : Observing (rejected code) :=
  observing_of_quiet (quiet_rejected code)

theorem wp_startWorker_reports (request : StartRequest) (planned : Option PendingPlan)
    (ht : ¬ SnapshotBegun t) : (startWorker ext request planned).wp
      (reportContract request.operationId) (fun _ _ => True) t := by
  have hrejected : ∀ code t, ¬ SnapshotBegun t → (rejected code).wp
      (reportContract request.operationId) (fun _ _ => True) t :=
    fun code t ht => Prog.wp_mono (fun _ _ _ => trivial) (wp_reported (observing_rejected code) ht)
  unfold startWorker
  cases planned with
  | none => exact hrejected _ t ht
  | some planned =>
      dsimp only
      split_ifs
      · exact hrejected _ t ht
      rw [Prog.wp_bind]
      refine Automaton.wp_request trivial fun answer hvalid => ?_
      have hstep : ∀ {t} (e : Event Sig), ¬ SnapshotBegun t → Op.isSave e.op = false →
          ¬ SnapshotBegun (t ++ [e]) := fun e ht he => snapshotBegun_append ht fun r hr => by
        rw [hr] at he
        cases he
      have ht₁ := hstep ⟨Op.load request.operationId, answer⟩ ht rfl
      cases answer with
      | error e => exact hrejected _ _ ht₁
      | ok r =>
          obtain ⟨hid, -⟩ := hvalid r rfl
          have hread : HasRead request.operationId
              (t ++ [⟨Op.load request.operationId, Except.ok r⟩]) :=
            ⟨r, List.mem_append_right _ (List.mem_singleton_self _)⟩
          dsimp only
          split_ifs
          · exact hrejected _ _ ht₁
          rw [Prog.wp_bind]
          refine Automaton.wp_request trivial fun failed _ => ?_
          have ht₂ := hstep ⟨Op.query (.writeFailure request.operationId), failed⟩ ht₁ rfl
          split_ifs
          · exact hrejected _ _ ht₂
          rw [Prog.wp_bind]
          refine Automaton.wp_request trivial fun complete _ => ?_
          have ht₃ := hstep ⟨Op.query (.eventHistory request.operationId), complete⟩ ht₂ rfl
          split_ifs
          · exact hrejected _ _ ht₃
          rw [Prog.wp_bind]
          refine Automaton.wp_request trivial fun _ _ => ?_
          have ht₄ := hstep ⟨Op.respond (.accepted request.operationId), ()⟩ ht₃ rfl
          exact wp_workerThread_reports ext planned hid ⟨((hread.append _).append _).append _, ht₄⟩

/-- The record of a new operation is the first one. -/
theorem wp_createOperation_reports {request : StartRequest} {initial : OperationStateRecord}
    (pending : PendingPlan) (hfirst : initial.sequence = 1)
    (hstate : initial.state = .awaitingConfirmation) (ht : ¬ SnapshotBegun t) :
    (createOperation request initial pending).wp (reportContract request.operationId)
      (fun _ t' => ¬ SnapshotBegun t') t := by
  unfold createOperation
  rw [Prog.wp_bind]
  refine Automaton.wp_request ⟨fun hblocked => ?_, .inr hfirst⟩ fun saved _ => ?_
  · rw [hstate] at hblocked
    cases hblocked
  have ht₁ : ¬ SnapshotBegun (t ++ [⟨Op.save initial, saved⟩]) := by
    refine snapshotBegun_append ht fun r hr => ?_
    cases hr
    rw [hstate]
    decide
  rcases saved with e | ⟨⟩
  · exact ht₁
  · refine wp_reported ?_ ht₁
    refine Prog.only_bind (observing_ask rfl) fun written => ?_
    rcases written with e | ⟨⟩
    · exact Prog.only_pure _
    · refine Prog.only_bind (observing_ask rfl) fun owned => ?_
      cases owned <;> exact Prog.only_pure _

theorem wp_startNew_reports (request : StartRequest) (ht : ¬ SnapshotBegun t) :
    (startNew ext request).wp (reportContract request.operationId) (fun _ _ => True) t := by
  have hrejected : ∀ code t, ¬ SnapshotBegun t → (rejected code).wp
      (reportContract request.operationId) (fun _ _ => True) t :=
    fun code t ht => Prog.wp_mono (fun _ _ _ => trivial) (wp_reported (observing_rejected code) ht)
  unfold startNew
  rw [Prog.wp_bind]
  refine Prog.wp_mono ?_ (wp_reported (observing_ask rfl) ht)
  intro present t₁ ht₁
  split_ifs
  · exact hrejected _ t₁ ht₁
  rw [Prog.wp_bind]
  refine Prog.wp_mono ?_ (wp_reported (observing_of_quiet (planning_authoritativePlan ..).quiet) ht₁)
  intro authoritative t₂ ht₂
  cases authoritative with
  | error code => exact hrejected _ t₂ ht₂
  | ok authoritative =>
      dsimp only
      rw [Prog.wp_bind]
      refine Prog.wp_mono ?_ (wp_reported (observing_ask rfl) ht₂)
      intro timestamp t₃ ht₃
      rw [Prog.wp_bind]
      refine Prog.wp_mono ?_ (wp_createOperation_reports _ rfl rfl ht₃)
      intro created t₄ ht₄
      split_ifs
      · exact wp_startWorker_reports ext request _ ht₄
      · exact hrejected _ t₄ ht₄

/-- **The second account of Start.** -/
theorem wp_start_reports (request : StartRequest) (ht : ¬ SnapshotBegun t) :
    (start ext request).wp (reportContract request.operationId) (fun _ _ => True) t := by
  unfold start
  split_ifs
  · exact Prog.wp_mono (fun _ _ _ => trivial) (wp_reported (observing_rejected _) ht)
  · exact Prog.wp_mono (fun _ _ _ => trivial) (wp_reported (observing_rejected _) ht)
  rw [Prog.wp_bind]
  refine Prog.wp_mono ?_ (wp_reported (observing_of_quiet (quiet_operationOwnedBy _ _)) ht)
  intro owned t₁ ht₁
  split_ifs
  · rw [Prog.wp_bind]
    refine Prog.wp_mono ?_ (wp_reported (observing_of_quiet (quiet_pendingPlan request)) ht₁)
    intro planned t₂ ht₂
    exact wp_startWorker_reports ext request planned ht₂
  · exact wp_startNew_reports ext request ht₁

end

end

/-! ## Both accounts -/

/-- The protocol of a Start request, with what its worker reports. -/
def startContract (operationId : String) : Contract Sig WorkerState where
  pre := fun e s => s.allows operationId e ∧ Reports operationId e s.events
  next := (workerContract operationId).next

theorem wp_startReports (ext : Externals) (request : StartRequest) {s : WorkerState}
    (hs : s.phase = .start) (hevents : s.events = []) :
    (start ext request).wp (startContract request.operationId) Closes s := by
  refine Prog.wp_both (R := fun (s : WorkerState) t => t = s.events) ?_ ?_ hevents.symm
    (wp_start ext request hs) (wp_start_reports ext request (t := []) ?_)
  · rintro e s _ rfl hallow hreports
    exact ⟨hallow, hreports⟩
  · rintro e s _ answer _ rfl ⟨hvalid, rfl⟩
    exact ⟨⟨hvalid, rfl⟩, _, ⟨hvalid, rfl⟩, rfl⟩
  · rintro ⟨r, answer, hmem, -⟩
    cases hmem

end LyraUpgrade
