import LyraUpgrade.Core.Text

/-!
# The persisted record

`core/src/persistence.rs` and the shape rules of `core/src/recovery.rs`: what a
`state.json` must look like to be read or written.  The file-system half of
`load_state` and `save_state` belongs to the world the programs run in; here are
the decisions both make about the content.

## Main definitions

* `validateState`, `validateOperationId` — the two checks.
* `StateFile` — the content of one `state.json`.
* `loadState`, `checkSave` — what reading a file yields, and whether a record may
  be written at all.
-/

namespace LyraUpgrade

/-- `PersistenceError`; the operating system's and the parser's own errors carry
no further detail. -/
inductive PersistenceError
  | invalidOperationId
  | unsafePath
  | io
  | json
  | unsupportedSchema
  | invalidState
  deriving DecidableEq, Repr

/-- Positions of the dashes of a UUID. -/
def isDashPosition (i : ℕ) : Bool := i = 8 || i = 13 || i = 18 || i = 23

/-- A lower-case UUID: the shape shared by `validate_operation_id` and
`valid_uuid`. -/
def validUuid (value : String) : Bool :=
  value.utf8ByteSize = 36 &&
    value.toList.zipIdx.all fun ⟨c, i⟩ => if isDashPosition i then c = '-' else isHexLower c

/-- `validate_operation_id`. -/
def validateOperationId (value : String) : Except PersistenceError Unit :=
  if validUuid value then .ok () else .error .invalidOperationId

/-- `is_sha256`. -/
def isSha256 (value : String) : Bool :=
  value.utf8ByteSize = 64 && value.toList.all isHexLower

def SubvolumeIdentity.valid (self : SubvolumeIdentity) : Bool :=
  5 < self.id && validUuid self.uuid && self.parentUuid.all validUuid

/-- `RollbackGoal::valid`: the goal belongs to the recorded snapshot, and a
confirmed boot clone is a different subvolume whose parent is that snapshot. -/
def RollbackGoal.valid (self : RollbackGoal) (snapshotNumber : Option ℕ) : Bool :=
  0 < self.sourceSnapshotNumber &&
  snapshotNumber = some self.sourceSnapshotNumber &&
  self.sourceSnapshot.valid &&
  self.bootSnapshot.all fun boot =>
    boot.valid && boot.id ≠ self.sourceSnapshot.id && boot.uuid ≠ self.sourceSnapshot.uuid &&
    boot.parentUuid = some self.sourceSnapshot.uuid

/-! ## The shape rules -/

/-- States in which a record may carry a recovery goal. -/
def OperationState.allowsRecovery : OperationState → Bool
  | .needsRecovery | .failed | .awaitingReboot | .verifyingBoot | .completed => true
  | _ => false

/-- States in which a recovery goal may still lack its boot clone. -/
def OperationState.allowsIncompleteRecovery : OperationState → Bool
  | .needsRecovery | .failed => true
  | _ => false

/-- States whose records must name a snapshot. -/
def OperationState.recordsSnapshot : OperationState → Bool
  | .applying | .readyToReboot | .applyingOffline | .awaitingReboot | .verifyingBoot
  | .needsRecovery | .completed => true
  | _ => false

/-- The recovery goal of a record is one its state allows. -/
def recoveryShapeValid (state : OperationStateRecord) : Bool :=
  state.recovery.all fun goal =>
    state.state.allowsRecovery && goal.valid state.snapshotNumber &&
    (state.state.allowsIncompleteRecovery || goal.bootSnapshot.isSome)

/-- Hashes and snapshot number of a record are well formed, and the snapshot is
there where the state needs it. -/
def hashShapeValid (state : OperationStateRecord) : Bool :=
  isSha256 state.planSha256 && state.manifestSha256.all isSha256 &&
  state.snapshotNumber ≠ some 0 &&
  (!state.state.recordsSnapshot || state.snapshotNumber.isSome)

/-- Target and manifest of a record are those of its kind of operation. -/
def operationShapeValid (state : OperationStateRecord) : Bool :=
  match state.operation with
  | .updateWithinRelease => state.target.isNone && state.manifestSha256.isNone
  | .releaseUpgrade => state.target.isSome && state.manifestSha256.isSome
  | .packageMigration => state.target = some state.source && state.manifestSha256.isSome

/-- `validate_state`. -/
def validateState (state : OperationStateRecord) : Except PersistenceError Unit :=
  if !recoveryShapeValid state then .error .invalidState
  else if state.schemaVersion ≠ stateSchemaVersion then .error .unsupportedSchema
  else if !hashShapeValid state then .error .invalidState
  else if operationShapeValid state then .ok () else .error .invalidState

/-- A record that `validate_state` accepts. -/
structure ValidState (state : OperationStateRecord) : Prop where
  recovery : recoveryShapeValid state
  schema : state.schemaVersion = stateSchemaVersion
  hashes : hashShapeValid state
  operation : operationShapeValid state

theorem validateState_eq_ok {state : OperationStateRecord} :
    validateState state = .ok () ↔ ValidState state := by
  unfold validateState
  split_ifs with h₁ h₂ h₃ h₄
  · exact ⟨nofun, fun h => by simp [h.recovery] at h₁⟩
  · exact ⟨nofun, fun h => absurd h.schema h₂⟩
  · exact ⟨nofun, fun h => by simp [h.hashes] at h₃⟩
  · exact ⟨fun _ => ⟨by simpa using h₁, by simpa using h₂, by simpa using h₃, h₄⟩, fun _ => rfl⟩
  · exact ⟨nofun, fun h => absurd h.operation h₄⟩

instance (state : OperationStateRecord) : Decidable (ValidState state) :=
  decidable_of_iff _ validateState_eq_ok

namespace ValidState

variable {r r' : OperationStateRecord}

theorem snapshot_ne_zero (h : ValidState r) : r.snapshotNumber ≠ some 0 := by
  have := h.hashes
  simp only [hashShapeValid, Bool.and_eq_true, decide_eq_true_eq, ne_eq] at this
  exact this.1.2

theorem snapshot_isSome (h : ValidState r) (hs : r.state.recordsSnapshot) :
    r.snapshotNumber.isSome := by
  have := h.hashes
  simp only [hashShapeValid, Bool.and_eq_true, hs, Bool.not_true, Bool.false_or] at this
  exact this.2

/-- Only the states after an application carry a recovery goal. -/
theorem recovery_eq_none (h : ValidState r) (hs : r.state.allowsRecovery = false) :
    r.recovery = none := by
  have := h.recovery
  cases hr : r.recovery with
  | none => rfl
  | some goal => simp [recoveryShapeValid, hr, hs] at this

/-- **Moving a valid record to another state.**  Identity, hashes, snapshot and
goal stay; what has to be checked is what the new state asks of them. -/
theorem move (h : ValidState r) (hschema : r'.schemaVersion = r.schemaVersion)
    (hplan : r'.planSha256 = r.planSha256) (hmanifest : r'.manifestSha256 = r.manifestSha256)
    (hoperation : r'.operation = r.operation) (hsource : r'.source = r.source)
    (htarget : r'.target = r.target) (hsnapshot : r'.snapshotNumber = r.snapshotNumber)
    (hrecovery : r'.recovery = r.recovery)
    (hneeds : r'.state.recordsSnapshot → r.snapshotNumber.isSome)
    (hallows : ∀ goal, r.recovery = some goal → r'.state.allowsRecovery ∧
      (r'.state.allowsIncompleteRecovery ∨ goal.bootSnapshot.isSome)) : ValidState r' where
  recovery := by
    have := h.recovery
    cases hr : r.recovery with
    | none => simp [recoveryShapeValid, hrecovery, hr]
    | some goal =>
        simp only [recoveryShapeValid, hr, Option.all_some, Bool.and_eq_true] at this
        have hstate := hallows goal hr
        simp only [recoveryShapeValid, hrecovery, hr, hsnapshot, Option.all_some,
          Bool.and_eq_true, Bool.or_eq_true]
        exact ⟨⟨hstate.1, this.1.2⟩, hstate.2⟩
  schema := hschema.trans h.schema
  hashes := by
    have := h.hashes
    simp only [hashShapeValid, hplan, hmanifest, hsnapshot, Bool.and_eq_true, Bool.or_eq_true,
      Bool.not_eq_true'] at this ⊢
    refine ⟨this.1, ?_⟩
    cases hneed : r'.state.recordsSnapshot with
    | false => exact Or.inl rfl
    | true => exact Or.inr (hneeds hneed)
  operation := by
    have := h.operation
    simpa only [operationShapeValid, hoperation, htarget, hmanifest, hsource] using this

end ValidState

/-! ## Reading and writing -/

/-- The content of one operation's `state.json`. -/
inductive StateFile
  | absent
  /-- Not the JSON of a record. -/
  | malformed
  | record (r : OperationStateRecord)
  deriving DecidableEq

/-- `load_state`, on a file that the system lets it read. -/
def loadState (file : StateFile) (operationId : String) :
    Except PersistenceError OperationStateRecord :=
  match validateOperationId operationId with
  | .error e => .error e
  | .ok () =>
      match file with
      | .absent => .error .io
      | .malformed => .error .json
      | .record r =>
          if r.schemaVersion ≠ stateSchemaVersion then .error .unsupportedSchema
          else if r.operationId ≠ operationId then .error .unsafePath
          else match validateState r with
            | .error e => .error e
            | .ok () => .ok r

/-- The checks of `save_state` before it touches the file system. -/
def checkSave (state : OperationStateRecord) : Except PersistenceError Unit :=
  match validateOperationId state.operationId with
  | .error e => .error e
  | .ok () => validateState state

/-- A record that `load_state` can return for its own operation. -/
structure Loadable (r : OperationStateRecord) : Prop where
  id : validUuid r.operationId
  valid : ValidState r

theorem checkSave_eq_ok {r : OperationStateRecord} : checkSave r = .ok () ↔ Loadable r := by
  unfold checkSave validateOperationId
  cases hid : validUuid r.operationId with
  | false => exact ⟨nofun, fun h => absurd h.id (by simp [hid])⟩
  | true =>
      rw [if_pos rfl]
      exact validateState_eq_ok.trans ⟨fun h => ⟨hid, h⟩, fun h => h.valid⟩

instance (r : OperationStateRecord) : Decidable (Loadable r) :=
  decidable_of_iff _ checkSave_eq_ok

/-- A read succeeds exactly on a loadable record of the operation asked for. -/
theorem loadState_eq_ok {file : StateFile} {id : String} {r : OperationStateRecord} :
    loadState file id = .ok r ↔ file = .record r ∧ r.operationId = id ∧ Loadable r := by
  unfold loadState validateOperationId
  cases hid : validUuid id with
  | false =>
      refine ⟨nofun, ?_⟩
      rintro ⟨-, rfl, h⟩
      exact absurd h.id (by simp [hid])
  | true =>
      rw [if_pos rfl]
      cases file with
      | absent => exact ⟨nofun, nofun⟩
      | malformed => exact ⟨nofun, nofun⟩
      | record r' =>
          dsimp only
          split_ifs with hschema hname
          · refine ⟨nofun, ?_⟩
            rintro ⟨h, -, hl⟩
            cases h
            exact absurd hl.valid.schema hschema
          · refine ⟨nofun, ?_⟩
            rintro ⟨h, rfl, -⟩
            cases h
            exact absurd rfl hname
          · cases hv : validateState r' with
            | error e =>
                refine ⟨nofun, ?_⟩
                rintro ⟨h, -, hl⟩
                cases h
                rw [validateState_eq_ok.mpr hl.valid] at hv
                cases hv
            | ok _ =>
                simp only [not_not] at hname
                have hl : Loadable r' := ⟨by rw [hname, hid], validateState_eq_ok.mp hv⟩
                constructor
                · intro h
                  cases h
                  exact ⟨rfl, hname, hl⟩
                · rintro ⟨h, -, -⟩
                  cases h
                  rfl

end LyraUpgrade
