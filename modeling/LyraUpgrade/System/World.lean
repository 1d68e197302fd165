import LyraUpgrade.Interaction.Pool
import LyraUpgrade.System.Effect

/-!
# The file system the programs share

`World` holds the files that the protocol of an operation is about: one directory
for each operation, the transaction lock, the offline marker, and the record of the
last manifest sequence with the temporary file it is replaced through.

`system faults` is the machine of this world.  With `faults` any operation on a file
may fail, and a write that fails may or may not have taken effect; without, an
operation fails only for a reason that the world shows.  A file is replaced
atomically, and what was written is there after a crash; only the lock is lost, and
an unfinished temporary file may have any content.

What an operation changes is said once for each part of the world (`exec_state`,
`exec_lock`, `exec_marker`, `exec_sequence`, `exec_temporary`); the proofs about
runs use these and not the definition.
-/

namespace LyraUpgrade

open Interaction

/-- `manifest.json` of an operation. -/
inductive ManifestFile
  | absent
  /-- Not a release manifest; `sequence` is what its member of that name reads as. -/
  | other (sequence : Option ℕ)
  | manifest (manifest : ReleaseManifest)
  deriving DecidableEq

/-- `document.get("sequence")?.as_u64()`. -/
def ManifestFile.sequence? : ManifestFile → Option ℕ
  | absent => none
  | other sequence => sequence.filter (· ≤ u64Max)
  | manifest m => (some m.sequence).filter (· ≤ u64Max)

/-- The file read as a manifest. -/
def ManifestFile.read : ManifestFile → Io ReleaseManifest
  | manifest m => .ok m
  | _ => .error ⟨⟩

/-- The directory of one operation. -/
structure OperationDirectory where
  present : Bool := false
  state : StateFile := .absent
  owner : Option ℕ := none
  pending : Option PendingPlan := none
  plan : Option UpgradePlan := none
  manifest : ManifestFile := .absent
  signed : Option SignedDocument := none
  inventory : InventoryKind → Option InventoryReport := fun _ => none

structure World where
  operations : String → OperationDirectory
  /-- The process that holds the transaction lock. -/
  lock : Option ℕ
  marker : Marker
  /-- `last-manifest-sequence`. -/
  sequence : Option (List Char)
  /-- `last-manifest-sequence.tmp`. -/
  temporary : Option (List Char)

namespace World

/-- The `state.json` of an operation. -/
def state (w : World) (operationId : String) : StateFile := (w.operations operationId).state

/-- Change one operation's directory, which exists afterwards. -/
def modify (w : World) (operationId : String) (f : OperationDirectory → OperationDirectory) :
    World :=
  let directory := { f (w.operations operationId) with present := true }
  { w with operations := Function.update w.operations operationId directory }

/-- The record is the content of its operation's `state.json`. -/
def putState (w : World) (s : OperationStateRecord) : World :=
  w.modify s.operationId fun d => { d with state := .record s }

/-- The entries name every operation directory, once. -/
def Lists (w : World) (entries : List Entry) : Prop :=
  entries.Pairwise (fun a b => a = b → a = .invalid) ∧
    ∀ id, .directory id ∈ entries ↔ (w.operations id).present

end World

/-! ## Answers -/

/-- An operation that reads: the world stays, and the answer is `value`. -/
def Reads {α : Type} (faults : Bool) (value : Io α) (w : World) (r : Io α) (w' : World) : Prop :=
  w' = w ∧ (r = value ∨ (faults ∧ r = .error ⟨⟩))

/-- An operation that writes, and leaves `target` if it succeeds. -/
def Writes (faults : Bool) (w target : World) (r : Io Unit) (w' : World) : Prop :=
  (r = .ok () ∧ w' = target) ∨ (faults ∧ r = .error ⟨⟩ ∧ (w' = w ∨ w' = target))

/-- An operation that fails and changes nothing. -/
def Fails (w : World) (r : Io Unit) (w' : World) : Prop := r = .error ⟨⟩ ∧ w' = w

def optionToIo {α : Type} : Option α → Io α
  | some a => .ok a
  | none => .error ⟨⟩

/-- `load_state`: the checks of the content, or an error of the system. -/
def ExecLoad (faults : Bool) (id : String) (w : World)
    (r : Except PersistenceError OperationStateRecord) (w' : World) : Prop :=
  w' = w ∧ (r = loadState (w.state id) id ∨ (faults ∧ ∃ e, r = .error e))

/-- `save_state`: a refused record changes nothing; an accepted one replaces the
file, unless the system fails before or after. -/
def ExecSave (faults : Bool) (s : OperationStateRecord) (w : World)
    (r : Except PersistenceError Unit) (w' : World) : Prop :=
  (∃ e, checkSave s = .error e ∧ r = .error e ∧ w' = w) ∨
  (checkSave s = .ok () ∧ ((r = .ok () ∧ w' = w.putState s) ∨
    (faults ∧ (∃ e, r = .error e) ∧
      (w' = w ∨ w' = w.modify s.operationId id ∨ w' = w.putState s))))

/-- `TransactionLock::acquire` of process `i`: `flock` without waiting. -/
def ExecAcquire (faults : Bool) (i : ℕ) (w : World) (r : Except LockError Unit) (w' : World) :
    Prop :=
  (w.lock = none ∧ r = .ok () ∧ w' = { w with lock := some i }) ∨
  (w.lock ≠ none ∧ r = .error .busy ∧ w' = w) ∨
  (faults ∧ (∃ e, r = .error e) ∧ w' = w)

/-- How operation `e` of process `i` may be answered. -/
def exec (faults : Bool) (i : ℕ) : (e : Op) → World → e.Answer → World → Prop
  | .query (.supervise answer), w, r, w' =>
      w' = w ∧ (r = answer ∨ r = some .timeout ∨ r = some .worker)
  | .query _, w, _, w' | .run _ _, w, _, w' | .respond _, w, _, w' | .stateChanged _ _, w, _, w' =>
      w' = w
  | .acquireLock, w, r, w' => ExecAcquire faults i w r w'
  | .releaseLock, w, _, w' => w' = if w.lock = some i then { w with lock := none } else w
  | .load id, w, r, w' => ExecLoad faults id w r w'
  | .save s, w, r, w' => ExecSave faults s w r w'
  | .listOperations, w, r, w' => w' = w ∧ ((∃ entries, r = .ok entries ∧ w.Lists entries) ∨
      (faults ∧ (r = .error ⟨⟩ ∨ ∃ entries, r = .ok entries)))
  | .directoryExists id, w, r, w' => w' = w ∧ r = (w.operations id).present
  | .readOwner id, w, r, w' => w' = w ∧ (r = (w.operations id).owner ∨ (faults ∧ r = none))
  | .writeOwner id uid, w, r, w' =>
      if (w.operations id).owner.isSome then Fails w r w'
      else Writes faults w (w.modify id fun d => { d with owner := some uid }) r w'
  | .readPending id, w, r, w' => Reads faults (optionToIo (w.operations id).pending) w r w'
  | .writePending id plan, w, r, w' =>
      Writes faults w (w.modify id fun d => { d with pending := some plan }) r w'
  | .readPlan id, w, r, w' => Reads faults (optionToIo (w.operations id).plan) w r w'
  | .writePlan id plan, w, r, w' =>
      Writes faults w (w.modify id fun d => { d with plan := some plan }) r w'
  | .readManifest id, w, r, w' => Reads faults (w.operations id).manifest.read w r w'
  | .readManifestSequence id, w, r, w' =>
      w' = w ∧ (r = (w.operations id).manifest.sequence? ∨ (faults ∧ r = none))
  | .writeManifest id manifest, w, r, w' =>
      Writes faults w (w.modify id fun d => { d with manifest := .manifest manifest }) r w'
  | .readSigned id, w, r, w' => Reads faults (optionToIo (w.operations id).signed) w r w'
  | .writeSigned id document, w, r, w' =>
      Writes faults w (w.modify id fun d => { d with signed := some document }) r w'
  | .readInventory id kind, w, r, w' =>
      Reads faults (optionToIo ((w.operations id).inventory kind)) w r w'
  | .writeInventory id kind report, w, r, w' => Writes faults w (w.modify id fun d =>
      { d with inventory := Function.update d.inventory kind (some report) }) r w'
  | .readMarker, w, r, w' => Reads faults (.ok w.marker) w r w'
  | .linkMarker id, w, r, w' =>
      if w.marker = .absent then Writes faults w { w with marker := .operation id } r w'
      else Fails w r w'
  | .unlinkMarker, w, r, w' =>
      if w.marker = .absent then Fails w r w'
      else Writes faults w { w with marker := .absent } r w'
  | .readSequence, w, r, w' => Reads faults (.ok w.sequence) w r w'
  | .createTemporary, w, r, w' =>
      if w.temporary.isSome then Fails w r w'
      else Writes faults w { w with temporary := some [] } r w'
  | .writeTemporary text, w, r, w' =>
      (r = .ok () ∧ w' = { w with temporary := w.temporary.map fun _ => text }) ∨
      (faults ∧ r = .error ⟨⟩ ∧ ∃ part, w' = { w with temporary := w.temporary.map fun _ => part })
  | .syncTemporary, w, r, w' | .syncDirectory, w, r, w' => Writes faults w w r w'
  | .renameTemporary, w, r, w' =>
      match w.temporary with
      | none => Fails w r w'
      | some text => Writes faults w { w with sequence := some text, temporary := none } r w'

/-- What a crash leaves. -/
def crash (w w' : World) : Prop :=
  ∃ temporary : Option (List Char), temporary.isSome = w.temporary.isSome ∧
    w' = { w with lock := none, temporary := temporary }

/-- The machine of the shared file system. -/
def system (faults : Bool) : Machine Sig World where
  exec := exec faults
  crash := crash

/-! ## What an operation changes -/

section

variable {faults : Bool} {i : ℕ} {w w' target : World}

namespace World

@[simp] theorem modify_lock (id : String) (f : OperationDirectory → OperationDirectory) :
    (w.modify id f).lock = w.lock := rfl

@[simp] theorem modify_marker (id : String) (f : OperationDirectory → OperationDirectory) :
    (w.modify id f).marker = w.marker := rfl

@[simp] theorem modify_sequence (id : String) (f : OperationDirectory → OperationDirectory) :
    (w.modify id f).sequence = w.sequence := rfl

@[simp] theorem modify_temporary (id : String) (f : OperationDirectory → OperationDirectory) :
    (w.modify id f).temporary = w.temporary := rfl

@[simp] theorem modify_self (id : String) (f : OperationDirectory → OperationDirectory) :
    (w.modify id f).operations id = { f (w.operations id) with present := true } :=
  Function.update_self ..

theorem modify_of_ne {id id' : String} (h : id' ≠ id)
    (f : OperationDirectory → OperationDirectory) :
    (w.modify id f).operations id' = w.operations id' :=
  Function.update_of_ne h ..

/-- A change of another file of a directory leaves the record. -/
theorem state_modify {id : String} {f : OperationDirectory → OperationDirectory}
    (hf : ∀ d, (f d).state = d.state) (id' : String) :
    (w.modify id f).state id' = w.state id' := by
  by_cases h : id' = id
  · subst h
    rw [state, modify_self]
    exact hf _
  · rw [state, modify_of_ne h]
    rfl

theorem present_modify {id : String} (h : (w.operations id).present) (id' : String)
    (f : OperationDirectory → OperationDirectory) : ((w.modify id' f).operations id).present := by
  by_cases hid : id = id'
  · subst hid
    rw [modify_self]
  · rw [modify_of_ne hid]
    exact h

@[simp] theorem state_putState_self (s : OperationStateRecord) :
    (w.putState s).state s.operationId = .record s := by
  rw [state, putState, modify_self]

theorem state_putState_of_ne {s : OperationStateRecord} {id : String} (h : id ≠ s.operationId) :
    (w.putState s).state id = w.state id := by
  rw [state, putState, modify_of_ne h]
  rfl

end World

theorem Writes.cases {r : Io Unit} (h : Writes faults w target r w') : w' = w ∨ w' = target := by
  rcases h with ⟨-, h⟩ | ⟨-, -, h⟩
  · exact Or.inr h
  · exact h

/-- **The effects of the operations**, whatever the answer: which part of the world
an operation of process `i` may change, when, and to what. -/
inductive Change (i : ℕ) (w : World) : Op → World → Prop
  | none (e : Op) : Change i w e w
  | save (s : OperationStateRecord) (accepted : Loadable s) : Change i w (.save s) (w.putState s)
  | file {e : Op} {id : String} {f : OperationDirectory → OperationDirectory}
      (state : ∀ d, (f d).state = d.state)
      (owner : ∀ d uid, d.owner = some uid → (f d).owner = some uid)
      (manifest : (∀ id m, e ≠ .writeManifest id m) → ∀ d, (f d).manifest = d.manifest) :
      Change i w e (w.modify id f)
  | acquire (free : w.lock = Option.none) : Change i w .acquireLock { w with lock := some i }
  | release (held : w.lock = some i) : Change i w .releaseLock { w with lock := Option.none }
  | link (id : String) (free : w.marker = .absent) :
      Change i w (.linkMarker id) { w with marker := .operation id }
  | unlink : Change i w .unlinkMarker { w with marker := .absent }
  | create (free : w.temporary = Option.none) :
      Change i w .createTemporary { w with temporary := some [] }
  | write (text part : List Char) :
      Change i w (.writeTemporary text) { w with temporary := w.temporary.map fun _ => part }
  | rename (text : List Char) (written : w.temporary = some text) :
      Change i w .renameTemporary { w with sequence := some text, temporary := Option.none }

theorem exec_change {e : Op} {r : e.Answer} (h : exec faults i e w r w') : Change i w e w' := by
  cases e with
  | query q => cases q <;> first | (cases h; exact .none _) | (cases h.1; exact .none _)
  | run _ _ | respond _ | stateChanged _ _ => cases h; exact .none _
  | acquireLock =>
      rcases h with ⟨hfree, -, rfl⟩ | ⟨-, -, rfl⟩ | ⟨-, -, rfl⟩
      · exact .acquire hfree
      · exact .none _
      · exact .none _
  | releaseLock =>
      cases h
      split_ifs with hheld
      · exact .release hheld
      · exact .none _
  | load _ | listOperations | directoryExists _ | readOwner _ | readPending _ | readPlan _
  | readManifest _ | readManifestSequence _ | readSigned _ | readInventory _ _ | readMarker
  | readSequence => cases h.1; exact .none _
  | save s =>
      have hmake : Change i w (.save s) (w.modify s.operationId fun d => d) :=
        .file (fun _ => rfl) (fun _ _ h => h) fun _ _ => rfl
      rcases h with ⟨-, -, -, rfl⟩ | ⟨hs, ⟨-, rfl⟩ | ⟨-, -, rfl | rfl | rfl⟩⟩
      · exact .none _
      · exact .save s (checkSave_eq_ok.mp hs)
      · exact .none _
      · exact hmake
      · exact .save s (checkSave_eq_ok.mp hs)
  | writeOwner id uid =>
      simp only [exec] at h
      split_ifs at h with howner
      · cases h.2; exact .none _
      · have hfree : (w.operations id).owner = Option.none := by simpa using howner
        rcases h.cases with rfl | rfl
        · exact .none _
        · -- the file is only created, so an owner that is there stays
          have hmodify : (w.modify id fun d => { d with owner := some uid }) =
              w.modify id fun d => { d with owner := d.owner.or (some uid) } := by
            simp only [World.modify, hfree, Option.none_or]
          rw [hmodify]
          exact .file (fun _ => rfl) (fun d u hd => by simp [hd]) fun _ _ => rfl
  | writeManifest id m =>
      rcases Writes.cases h with rfl | rfl
      · exact .none _
      · exact .file (fun _ => rfl) (fun _ _ h => h) fun hne => absurd rfl (hne id m)
  | writePending _ _ | writePlan _ _ | writeSigned _ _ | writeInventory _ _ _ =>
      rcases Writes.cases h with rfl | rfl
      · exact .none _
      · exact .file (fun _ => rfl) (fun _ _ h => h) fun _ _ => rfl
  | linkMarker id =>
      simp only [exec] at h
      split_ifs at h with hfree
      · rcases h.cases with rfl | rfl
        · exact .none _
        · exact .link id hfree
      · cases h.2; exact .none _
  | unlinkMarker =>
      simp only [exec] at h
      split_ifs at h
      · cases h.2; exact .none _
      · rcases h.cases with rfl | rfl
        · exact .none _
        · exact .unlink
  | createTemporary =>
      simp only [exec] at h
      split_ifs at h with hfree
      · cases h.2; exact .none _
      · rcases h.cases with rfl | rfl
        · exact .none _
        · exact .create (by simpa using hfree)
  | writeTemporary text =>
      rcases h with ⟨-, rfl⟩ | ⟨-, -, part, rfl⟩
      · exact .write text text
      · exact .write text part
  | syncTemporary | syncDirectory => rcases Writes.cases h with rfl | rfl <;> exact .none _
  | renameTemporary =>
      simp only [exec] at h
      split at h
      · cases h.2; exact .none _
      · rename_i text hwritten
        rcases h.cases with rfl | rfl
        · exact .none _
        · exact .rename text hwritten

/-- Only a save changes a record, to the record it is asked to save. -/
theorem Change.state {e : Op} (h : Change i w e w') (id : String) :
    w'.state id = w.state id ∨
      ∃ s, e = .save s ∧ s.operationId = id ∧ Loadable s ∧ w'.state id = .record s := by
  cases h with
  | save s accepted =>
      by_cases hid : s.operationId = id
      · subst hid
        exact .inr ⟨s, rfl, rfl, accepted, World.state_putState_self s⟩
      · exact .inl (World.state_putState_of_ne (Ne.symm hid))
  | file hstate howner hmanifest => exact .inl (World.state_modify hstate id)
  | none | acquire | release | link | unlink | create | write | rename => exact .inl rfl

theorem Change.state_of_not_save {e : Op} (h : Change i w e w') (hsave : e.isSave = false)
    (id : String) : w'.state id = w.state id := by
  rcases h.state id with h | ⟨s, rfl, -⟩
  · exact h
  · cases hsave

/-- A directory that is there stays. -/
theorem Change.present {e : Op} (h : Change i w e w') {id : String}
    (hid : (w.operations id).present) : (w'.operations id).present := by
  cases h with
  | save | file => exact World.present_modify hid _ _
  | none | acquire | release | link | unlink | create | write | rename => exact hid

/-- The lock is granted to one process at a time and given back by its holder. -/
theorem Change.lock {e : Op} (h : Change i w e w') :
    w'.lock = w.lock ∨ (e = .acquireLock ∧ w.lock = Option.none ∧ w'.lock = some i) ∨
      (e = .releaseLock ∧ w.lock = some i ∧ w'.lock = Option.none) := by
  cases h with
  | acquire free => exact .inr (.inl ⟨rfl, free, rfl⟩)
  | release held => exact .inr (.inr ⟨rfl, held, rfl⟩)
  | none | save | file | link | unlink | create | write | rename => exact .inl rfl

/-- A save that succeeds was of a valid record, which is there now. -/
theorem exec_save_ok {s : OperationStateRecord} (h : exec faults i (.save s) w (.ok ()) w') :
    Loadable s ∧ w' = w.putState s := by
  rcases h with ⟨e, -, h, -⟩ | ⟨hs, ⟨-, h⟩ | ⟨-, ⟨e, h⟩, -⟩⟩
  · cases h
  · exact ⟨checkSave_eq_ok.mp hs, h⟩
  · cases h

/-- A read record is the one on disk. -/
theorem exec_load_ok {id : String} {r : OperationStateRecord}
    (h : exec faults i (.load id) w (.ok r) w') :
    w.state id = .record r ∧ r.operationId = id ∧ Loadable r := by
  obtain ⟨-, h | ⟨-, e, h⟩⟩ := h
  · exact loadState_eq_ok.mp h.symm
  · cases h

/-- Where nothing fails, a valid record is saved. -/
theorem exec_save_reliable {s : OperationStateRecord} {r : Except PersistenceError Unit}
    (h : exec false i (.save s) w r w') (hs : Loadable s) : r = .ok () ∧ w' = w.putState s := by
  rcases h with ⟨e, he, -, -⟩ | ⟨-, h | ⟨hfaults, -⟩⟩
  · rw [checkSave_eq_ok.mpr hs] at he
    cases he
  · exact h
  · cases hfaults

/-- Where nothing fails, a save is accepted, or changes nothing. -/
theorem exec_save_cases {s : OperationStateRecord} {r : Except PersistenceError Unit}
    (h : exec false i (.save s) w r w') :
    (r = .ok () ∧ w' = w.putState s) ∨ ∃ e, r = .error e ∧ w' = w := by
  rcases h with ⟨e, -, hr, hw⟩ | ⟨-, h | ⟨hfaults, -⟩⟩
  · exact .inr ⟨e, hr, hw⟩
  · exact .inl h
  · cases hfaults

/-- The lock is granted where nobody holds it. -/
theorem exec_acquire_ok (h : exec faults i .acquireLock w (.ok ()) w') :
    w.lock = none ∧ w'.lock = some i := by
  rcases h with ⟨hfree, -, rfl⟩ | ⟨-, h, -⟩ | ⟨-, ⟨e, h⟩, -⟩
  · exact ⟨hfree, rfl⟩
  · cases h
  · cases h

/-- Nobody but its holder takes the lock away. -/
theorem exec_lock_held {e : Op} {r : e.Answer} (h : exec faults i e w r w') {j : ℕ}
    (hj : w.lock = some j) (hkeep : j ≠ i ∨ e ≠ .releaseLock) : w'.lock = some j := by
  rcases (exec_change h).lock with hsame | ⟨-, hfree, -⟩ | ⟨he, hheld, -⟩
  · exact hsame.trans hj
  · rw [hj] at hfree
    cases hfree
  · rw [hj] at hheld
    cases hheld
    exact absurd he (hkeep.resolve_left (not_not_intro rfl))

end

end LyraUpgrade
