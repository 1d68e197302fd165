import LyraUpgrade.Core.StateJson
import LyraUpgrade.Encoding.Lines
import LyraUpgrade.Encoding.Pretty
import LyraUpgrade.Encoding.Result
import LyraUpgrade.Interaction.Alone
import LyraUpgrade.System.World

/-!
# How a record is stored

`save_state` and `load_state` of `core/src/persistence.rs`, call by call, on a tree of files.
The world of the other modules replaces a `state.json` in one step; here the step is taken
apart into the temporary file, its synchronization, the rename and the clean-up.

Every call may fail.  A rename takes effect or does not; a write may be cut anywhere.  What a
crash leaves of a path is what was last synchronized there or what was seen there, and a file
that was not synchronized has any content.

## Main definitions

* `Tree`, `Disk`: the files as programs see them, and as a crash may leave them.
* `saveState`, `loadStateAt`: the two functions.

## Main results

* `saveState_atomic`: at every point, a reader gets the previous record or the new one.
* `saveState_refused`: what could not be read is not written.
-/

namespace LyraUpgrade

open Encoding Interaction

/-! ## Files -/

/-- The paths the state of an operation is reached through. -/
inductive Path
  /-- The directories above the state root, counted from `/`. -/
  | above (n : ℕ)
  | root
  | operation (operationId : String)
  | file (operationId : String) (name : String)
  deriving DecidableEq

inductive Kind
  | directory
  | symlink
  | file (contents : List UInt8) (synced : Bool)
  /-- A device, a pipe or a socket. -/
  | other
  deriving DecidableEq

structure Inode where
  kind : Kind
  /-- The owner is the effective user of the process. -/
  owned : Bool
  sticky : Bool
  deriving DecidableEq

namespace Inode

def isSymlink (self : Inode) : Bool := self.kind = .symlink

def isDirectory (self : Inode) : Bool := self.kind = .directory

/-- What a process creates is its own. -/
def create (kind : Kind) : Inode := ⟨kind, true, false⟩

end Inode

abbrev Tree := Path → Option Inode

namespace Tree

def hasDirectory (t : Tree) (p : Path) : Bool := (t p).any Inode.isDirectory

/-- The directories that lead to a path are there. -/
def leads (t : Tree) : Path → Bool
  | .above _ | .root => true
  | .operation _ => t.hasDirectory .root
  | .file id _ => t.hasDirectory .root && t.hasDirectory (.operation id)

def lookup (t : Tree) (p : Path) : Option Inode := if t.leads p then t p else none

theorem lookup_root (t : Tree) : t.lookup .root = t .root := if_pos rfl

theorem lookup_operation (t : Tree) (id : String) :
    t.lookup (.operation id) = if t.hasDirectory .root then t (.operation id) else none := rfl

theorem lookup_file (t : Tree) (id name : String) : t.lookup (.file id name) =
    if t.hasDirectory .root && t.hasDirectory (.operation id) then t (.file id name) else none := rfl

/-- A tree at rest: nothing is in a directory that is not there, and every file is
synchronized. -/
structure AtRest (t : Tree) : Prop where
  leads : ∀ p, t p ≠ none → t.leads p
  synced : ∀ p node contents, t p = some node → node.kind ≠ .file contents false

end Tree

/-- `state.json` of an operation. -/
def statePath (id : String) : Path := .file id "state.json"

/-- The name of the temporary file: the process number and the time. -/
def temporaryPath (id : String) (pid nonce : ℕ) : Path :=
  .file id (".state.json." ++ toString pid ++ "." ++ toString nonce)

theorem temporaryPath_ne (id id' : String) (pid nonce : ℕ) :
    temporaryPath id pid nonce ≠ statePath id' := by
  intro h
  injection h with _ hname
  have := congrArg (·.toList.head?) hname
  simp [String.toList_append] at this

/-! ## System calls -/

inductive Errno
  | notFound
  | other
  deriving DecidableEq

/-- Calls that may change the tree. -/
inductive FileChange
  | createDirectory (p : Path)
  /-- `set_permissions` to the owner alone. -/
  | restrict (p : Path)
  /-- `open` with `create_new`. -/
  | createNew (p : Path)
  | write (p : Path) (bytes : List UInt8)
  | syncFile (p : Path)
  | rename (source target : Path)
  | syncDirectory (p : Path)
  | unlink (p : Path)

inductive FileOp
  /-- `symlink_metadata`. -/
  | metadata (p : Path)
  | change (c : FileChange)

@[reducible] def FileOp.Answer : FileOp → Type
  | metadata _ => Except Errno Inode
  | change _ => Except Errno Unit

abbrev FileSig : Signature where
  Op := FileOp
  Res := FileOp.Answer

def call (e : FileOp) : Prog FileSig e.Answer := Prog.request (S := FileSig) e

/-- The files as they are seen, and what of them is on the disk for sure. -/
structure Disk where
  visible : Tree
  durable : Tree

/-- Everything that is seen is on the disk. -/
def Disk.settled (t : Tree) : Disk := ⟨t, t⟩

/-- Change what is seen at a path. -/
def Disk.put (d : Disk) (p : Path) (node : Option Inode) : Disk :=
  { d with visible := Function.update d.visible p node }

@[simp] theorem Disk.put_self (d : Disk) (p : Path) (node : Option Inode) :
    (d.put p node).visible p = node := Function.update_self ..

@[simp] theorem Disk.put_of_ne (d : Disk) {p q : Path} (h : q ≠ p) (node : Option Inode) :
    (d.put p node).visible q = d.visible q := Function.update_of_ne h ..

/-- The entries of a directory. -/
def Path.isEntryOf : Path → Path → Bool
  | .operation _, .root => true
  | .file id _, .operation id' => id = id'
  | _, _ => false

/-- What a successful change leaves. -/
def Changes (d : Disk) : FileChange → Disk → Prop
  | .createDirectory p, d' =>
      d.visible p = none ∧ d.visible.leads p ∧ d' = d.put p (some (.create .directory))
  | .restrict _, d' => d' = d
  | .createNew p, d' =>
      d.visible p = none ∧ d.visible.leads p ∧ d' = d.put p (some (.create (.file [] false)))
  | .write p bytes, d' => ∃ node contents synced, d.visible p = some node ∧
      node.kind = .file contents synced ∧
      d' = d.put p (some { node with kind := .file (contents ++ bytes) false })
  | .syncFile p, d' => ∃ node contents synced, d.visible p = some node ∧
      node.kind = .file contents synced ∧
      d' = d.put p (some { node with kind := .file contents true })
  | .rename p q, d' => ∃ node, d.visible p = some node ∧ d.visible.hasDirectory q = false ∧
      d' = (d.put q (some node)).put p none
  | .syncDirectory p, d' =>
      d' = { d with durable := fun q => if q.isEntryOf p then d.visible q else d.durable q }
  | .unlink p, d' => d' = d.put p none

/-- What a failed one leaves: a write may have been cut anywhere. -/
def Spoils (d : Disk) : FileChange → Disk → Prop
  | .write p _, d' =>
      d' = d ∨ ∃ node : Inode, ∃ part, d' = d.put p (some { node with kind := .file part false })
  | _, d' => d' = d

/-- What a call may do. -/
def execFile : (e : FileOp) → Disk → e.Answer → Disk → Prop
  | .metadata p, d, r, d' => d' = d ∧
      (match d.visible.lookup p with
        | some node => r = .ok node
        | none => r = .error .notFound) ∨ (d' = d ∧ r = .error .other)
  | .change c, d, r, d' => (r = .ok () ∧ Changes d c d') ∨ ((∃ e, r = .error e) ∧ Spoils d c d')

/-- What a crash makes of an entry: a file that was not synchronized has any content. -/
def Survives : Option Inode → Option Inode → Prop
  | some ⟨.file _ false, owned, sticky⟩, r => ∃ contents, r = some ⟨.file contents true, owned, sticky⟩
  | node, r => r = node

/-- A crash leaves at each path what was on the disk or what was seen. -/
def crashFiles (d d' : Disk) : Prop :=
  d' = .settled d'.visible ∧
    ∀ p, Survives (d.durable p) (d'.visible p) ∨ Survives (d.visible p) (d'.visible p)

/-- The machine of the file system. -/
def files : Machine FileSig Disk where
  exec := fun _ => execFile
  crash := crashFiles

/-! ## The functions -/

/-- The state root: the number of directories above it, and whether its path goes up. -/
structure StateRoot where
  above : Option ℕ
  goesUp : Bool

/-- A change; an error of the operating system is passed on without its detail. -/
def attempt (c : FileChange) : Prog FileSig (Except PersistenceError Unit) := do
  match ← call (.change c) with
  | .ok () => return .ok ()
  | .error _ => return .error .io

/-- The second part runs if the first one succeeds. -/
def andThen (p q : Prog FileSig (Except PersistenceError Unit)) :
    Prog FileSig (Except PersistenceError Unit) := do
  match ← p with
  | .ok () => q
  | .error e => return .error e

/-- `reject_symlink`. -/
def rejectSymlink (p : Path) : Prog FileSig (Except PersistenceError Unit) := do
  match ← call (.metadata p) with
  | .ok node => return if node.isSymlink then .error .unsafePath else .ok ()
  | .error .notFound => return .ok ()
  | .error .other => return .error .io

/-- A new directory, for its owner alone. -/
def createRestricted (p : Path) : Prog FileSig (Except PersistenceError Unit) :=
  andThen (attempt (.createDirectory p)) (attempt (.restrict p))

/-- One directory of the chain: it is there and cannot be replaced by others, or is created. -/
def ensureParent (p : Path) (create : Prog FileSig (Except PersistenceError Unit)) :
    Prog FileSig (Except PersistenceError Unit) := do
  match ← call (.metadata p) with
  | .ok node =>
      return if node.isSymlink || !node.isDirectory || (!node.owned && !node.sticky) then
        .error .unsafePath else .ok ()
  | .error .notFound => create
  | .error .other => return .error .io

/-- `ensure_parent_chain`; `/` has no parent. -/
def ensureParentChain : ℕ → Prog FileSig (Except PersistenceError Unit)
  | 0 => ensureParent (.above 0) (return .error .unsafePath)
  | n + 1 =>
      ensureParent (.above (n + 1)) (andThen (ensureParentChain n) (createRestricted (.above (n + 1))))

/-- `ensure_directory`. -/
def ensureDirectory (p : Path) : Prog FileSig (Except PersistenceError Unit) := do
  match ← call (.metadata p) with
  | .ok node =>
      if node.isSymlink || !node.isDirectory || !node.owned then return .error .unsafePath
      else attempt (.restrict p)
  | .error .notFound => createRestricted p
  | .error .other => return .error .io

/-- `prepare_root`. -/
def prepareRoot (root : StateRoot) : Prog FileSig (Except PersistenceError Unit) :=
  if root.goesUp then return .error .unsafePath
  else andThen (rejectSymlink .root)
    (match root.above with
      | none => ensureDirectory .root
      | some n => andThen (ensureParentChain n) (ensureDirectory .root))

/-- What `to_writer_pretty` writes. -/
def prettyText (s : OperationStateRecord) : List UInt8 := utf8 (s.toJson.pretty 0)

/-- `write_and_replace`. -/
def writeAndReplace (directory temporary destination : Path) (s : OperationStateRecord) :
    Prog FileSig (Except PersistenceError Unit) :=
  andThen (attempt (.createNew temporary)) <|
  andThen (attempt (.write temporary (prettyText s))) <|
  andThen (attempt (.write temporary [lineFeed])) <|
  andThen (attempt (.syncFile temporary)) <|
  andThen (attempt (.rename temporary destination)) <|
  attempt (.syncDirectory directory)

/-- The clean-up after an error; its own result is ignored. -/
def orUnlink (temporary : Path) (p : Prog FileSig (Except PersistenceError Unit)) :
    Prog FileSig (Except PersistenceError Unit) := do
  match ← p with
  | .ok () => return .ok ()
  | .error e => do
      let _ ← attempt (.unlink temporary)
      return .error e

/-- `save_state`. -/
def saveState (root : StateRoot) (pid nonce : ℕ) (s : OperationStateRecord) :
    Prog FileSig (Except PersistenceError Unit) :=
  match checkSave s with
  | .error e => return .error e
  | .ok () =>
      andThen (prepareRoot root) <|
      andThen (ensureDirectory (.operation s.operationId)) <|
      andThen (rejectSymlink (statePath s.operationId)) <|
      orUnlink (temporaryPath s.operationId pid nonce)
        (writeAndReplace (.operation s.operationId) (temporaryPath s.operationId pid nonce)
          (statePath s.operationId) s)

/-! ### Reading -/

/-- The content of `state.json`. -/
def stateText (s : OperationStateRecord) : List UInt8 := prettyText s ++ [lineFeed]

/-- What is relied on of `serde_json::from_reader`: it reads back what `to_writer_pretty`
writes for a record, also with a line feed behind it. -/
def ReadsRecords (fromReader : List UInt8 → Option Document) : Prop :=
  ∀ s, fromReader (stateText s) = some (OperationStateRecord.toJson s).toDocument

section

variable (fromReader : List UInt8 → Option Document)

/-- The record in a file. -/
def decode (contents : List UInt8) : Except PersistenceError OperationStateRecord :=
  match (fromReader contents).bind OperationStateRecord.ofDocument with
  | none => .error .json
  | some s => .ok s

/-- What is found at a path must not be a symbolic link. -/
def refuseSymlink (node : Option Inode) : Except PersistenceError Unit :=
  if node.any Inode.isSymlink then .error .unsafePath else .ok ()

/-- `open` and `from_reader`: a directory can be opened, but not read. -/
def readInode : Option Inode → Except PersistenceError OperationStateRecord
  | none => .error .io
  | some node =>
      match node.kind with
      | .file contents _ => decode fromReader contents
      | .symlink => .error .io
      | .directory | .other => .error .json

/-- `load_state` on what is found at its three paths. -/
def loadFrom (id : String) (root operation state : Option Inode) :
    Except PersistenceError OperationStateRecord := do
  validateOperationId id
  refuseSymlink root
  refuseSymlink operation
  refuseSymlink state
  let s ← readInode fromReader state
  loadState (.record s) id

/-- `load_state`. -/
def loadStateAt (t : Tree) (id : String) : Except PersistenceError OperationStateRecord :=
  loadFrom fromReader id (t.lookup .root) (t.lookup (.operation id)) (t.lookup (statePath id))

end

/-! ## What the calls of a save may touch -/

section

variable (s : OperationStateRecord) (temporary : Path)

/-- The new `state.json`. -/
def newState : Inode := .create (.file (stateText s) true)

/-- The calls that `save_state` may issue. -/
def Issues : FileOp → Disk → Prop
  | .metadata _, _ | .change (.restrict _), _ => True
  | .change (.createDirectory p), _ => (∃ n, p = .above n) ∨ p = .root ∨ p = .operation s.operationId
  | .change (.createNew p), _ | .change (.write p _), _ | .change (.syncFile p), _
  | .change (.unlink p), _ => p = temporary
  | .change (.rename p q), d =>
      p = temporary ∧ q = statePath s.operationId ∧ d.visible temporary = some (newState s)
  | .change (.syncDirectory _), _ => True

/-- Everything that can be found at a path while the record is being saved. -/
inductive Allowed (store : Tree) : Path → Option Inode → Prop
  | kept (p) : Allowed store p (store p)
  | temporary (node) : Allowed store temporary node
  | above (n node) : Allowed store (.above n) node
  | directory (p) (h : p = .root ∨ p = .operation s.operationId) (hnew : store p = none) :
      Allowed store p (some (.create .directory))
  | saved : Allowed store (statePath s.operationId) (some (newState s))

/-- The invariant of a save. -/
def Kept (store : Tree) (d : Disk) : Prop :=
  ∀ p, Allowed s temporary store p (d.visible p) ∧ Allowed s temporary store p (d.durable p)

end

variable {s : OperationStateRecord} {temporary : Path} {store : Tree} {d d' : Disk}

theorem kept_settled (store : Tree) : Kept s temporary store (.settled store) :=
  fun p => ⟨.kept p, .kept p⟩

theorem Kept.put (h : Kept s temporary store d) {p : Path} {node : Option Inode}
    (hp : Allowed s temporary store p node) : Kept s temporary store (d.put p node) := by
  intro q
  refine ⟨?_, (h q).2⟩
  by_cases hq : q = p
  · subst hq
    rw [Disk.put_self]
    exact hp
  · rw [Disk.put_of_ne d hq]
    exact (h q).1

/-- A directory is only created where there was nothing. -/
theorem Kept.none_of_visible (h : Kept s temporary store d) {p : Path}
    (hp : p = .root ∨ p = .operation s.operationId) (hnone : d.visible p = none) :
    Allowed s temporary store p (some (.create .directory)) := by
  have hallowed := (h p).1
  generalize hnode : d.visible p = node at hallowed
  rw [hnone] at hnode
  cases hallowed with
  | kept => exact .directory p hp hnode.symm
  | temporary => exact .temporary _
  | above => exact .above _ _
  | directory => cases hnode
  | saved => cases hnode

/-- **One call** of a save keeps the invariant. -/
theorem Kept.exec (h : Kept s temporary store d) {e : FileOp} {r : e.Answer}
    (hissues : Issues s temporary e d) (hexec : execFile e d r d') :
    Kept s temporary store d' := by
  cases e with
  | metadata p =>
      rcases hexec with ⟨rfl, -⟩ | ⟨rfl, -⟩ <;> exact h
  | change c =>
      rcases hexec with ⟨-, hchange⟩ | ⟨-, hspoil⟩
      · cases c with
        | createDirectory p =>
            obtain ⟨hnone, -, rfl⟩ := hchange
            rcases hissues with ⟨n, rfl⟩ | hp
            · exact h.put (.above n _)
            · exact h.put (h.none_of_visible hp hnone)
        | restrict p =>
            obtain rfl := hchange
            exact h
        | createNew p =>
            obtain ⟨-, -, rfl⟩ := hchange
            obtain rfl := hissues
            exact h.put (.temporary _)
        | write p bytes =>
            obtain ⟨node, contents, synced, -, -, rfl⟩ := hchange
            obtain rfl := hissues
            exact h.put (.temporary _)
        | syncFile p =>
            obtain ⟨node, contents, synced, -, -, rfl⟩ := hchange
            obtain rfl := hissues
            exact h.put (.temporary _)
        | rename p q =>
            obtain ⟨rfl, rfl, hnew⟩ := hissues
            obtain ⟨node, hnode, -, rfl⟩ := hchange
            rw [hnode, Option.some.injEq] at hnew
            subst hnew
            exact (h.put .saved).put (.temporary _)
        | syncDirectory p =>
            obtain rfl := hchange
            intro q
            refine ⟨(h q).1, ?_⟩
            dsimp only
            split_ifs
            · exact (h q).1
            · exact (h q).2
        | unlink p =>
            obtain rfl := hchange
            obtain rfl := hissues
            exact h.put (.temporary _)
      · cases c with
        | write p bytes =>
            obtain rfl := hissues
            rcases hspoil with rfl | ⟨node, part, rfl⟩
            · exact h
            · exact h.put (.temporary _)
        | createDirectory | restrict | createNew | syncFile | rename | syncDirectory | unlink =>
            obtain rfl := hspoil
            exact h

/-- A synchronized entry is what it was after a crash. -/
theorem Survives.eq {node r : Option Inode} (h : Survives node r)
    (hsynced : ∀ n contents, node = some n → n.kind ≠ .file contents false) : r = node := by
  rcases node with _ | ⟨kind, owned, sticky⟩
  · exact h
  rcases kind with _ | _ | ⟨contents, _ | _⟩ | _
  · exact h
  · exact h
  · exact absurd rfl (hsynced _ contents rfl)
  · exact h
  · exact h

theorem Allowed.survives (hstore : store.AtRest) {p : Path} {node r : Option Inode}
    (h : Allowed s temporary store p node) (hr : Survives node r) :
    Allowed s temporary store p r := by
  cases h with
  | kept =>
      rw [hr.eq fun n contents hn => hstore.synced p n contents hn]
      exact .kept p
  | temporary => exact .temporary r
  | above n => exact .above n r
  | directory _ hp hnew =>
      obtain rfl := hr
      exact .directory p hp hnew
  | saved =>
      obtain rfl := hr
      exact .saved

/-- **A crash** keeps it as well. -/
theorem Kept.crash (hstore : store.AtRest) (h : Kept s temporary store d)
    (hcrash : crashFiles d d') : Kept s temporary store d' := by
  obtain ⟨hsettled, hleft⟩ := hcrash
  intro p
  have hp : Allowed s temporary store p (d'.visible p) := by
    rcases hleft p with hdurable | hvisible
    · exact (h p).2.survives hstore hdurable
    · exact (h p).1.survives hstore hvisible
  rw [hsettled]
  exact ⟨hp, hp⟩

/-! ## What a successful save has done -/

section

variable {P P' : Disk → Prop}

/-- A result that says so only where `P` holds. -/
def Ensures (P : Disk → Prop) (r : Except PersistenceError Unit) (d : Disk) : Prop :=
  r = .ok () → P d

/-- The contract of a save. -/
abbrev saving (s : OperationStateRecord) (temporary : Path) : Contract FileSig Disk :=
  files.guarded 0 (Issues s temporary)

theorem wp_andThen {p q : Prog FileSig (Except PersistenceError Unit)}
    (hp : p.wp (saving s temporary) (Ensures P) d)
    (hq : ∀ d', P d' → q.wp (saving s temporary) (Ensures P') d') :
    (andThen p q).wp (saving s temporary) (Ensures P') d := by
  rw [andThen, Prog.wp_bind]
  refine Prog.wp_mono (fun r d' hr => ?_) hp
  cases r with
  | ok _ => exact hq d' (hr rfl)
  | error e => exact nofun

theorem wp_attempt {c : FileChange} (hissues : Issues s temporary (.change c) d)
    (hP : ∀ d', Changes d c d' → P d') :
    (attempt c).wp (saving s temporary) (Ensures P) d := by
  refine ⟨hissues, fun r d' hexec => ?_⟩
  rcases hexec with ⟨rfl, hchange⟩ | ⟨⟨e, rfl⟩, -⟩
  · exact fun _ => hP d' hchange
  · exact nofun

theorem wp_rejectSymlink {p : Path} (hP : P d) :
    (rejectSymlink p).wp (saving s temporary) (Ensures P) d := by
  refine ⟨trivial, fun r d' hexec => ?_⟩
  have hsame : d' = d := by
    rcases hexec with ⟨rfl, -⟩ | ⟨rfl, -⟩ <;> rfl
  subst hsame
  rcases r with (_ | _) | node
  · exact fun _ => hP
  · exact nofun
  · exact fun _ => hP

theorem wp_createRestricted {p : Path}
    (hissues : Issues s temporary (.change (.createDirectory p)) d)
    (hP : d.visible p = none → P (d.put p (some (.create .directory)))) :
    (createRestricted p).wp (saving s temporary) (Ensures P) d := by
  refine wp_andThen (P := P) (wp_attempt hissues fun d' hchange => ?_) fun d' hd' => ?_
  · obtain ⟨hnone, -, rfl⟩ := hchange
    exact hP hnone
  · refine wp_attempt trivial ?_
    rintro d'' rfl
    exact hd'

/-- Without a parent nothing is created; with one, only above the root. -/
theorem wp_ensureParentChain (n : ℕ) :
    (ensureParentChain n).wp (saving s temporary) (Ensures fun _ => True) d := by
  induction n generalizing d with
  | zero =>
      refine ⟨trivial, fun r d' hexec => ?_⟩
      rcases r with (_ | _) | node <;> exact fun _ => trivial
  | succ n ih =>
      refine ⟨trivial, fun r d' hexec => ?_⟩
      rcases r with (_ | _) | node
      · exact wp_andThen ih fun d'' _ =>
          wp_createRestricted (Or.inl ⟨n + 1, rfl⟩) fun _ => trivial
      · exact fun _ => trivial
      · exact fun _ => trivial

theorem hasDirectory_of_lookup {t : Tree} {p : Path} {node : Inode} (h : t.lookup p = some node)
    (hdirectory : node.isDirectory) : t.hasDirectory p := by
  rw [Tree.lookup] at h
  split_ifs at h
  rw [Tree.hasDirectory, h]
  exact hdirectory

theorem wp_ensureDirectory {p : Path}
    (hissues : Issues s temporary (.change (.createDirectory p)) d)
    (hkeep : d.visible.hasDirectory p → P d)
    (hcreate : d.visible p = none → P (d.put p (some (.create .directory)))) :
    (ensureDirectory p).wp (saving s temporary) (Ensures P) d := by
  refine ⟨trivial, fun r d' hexec => ?_⟩
  rcases hexec with ⟨rfl, hfound⟩ | ⟨rfl, rfl⟩
  · cases hlookup : d'.visible.lookup p with
    | none =>
        rw [hlookup] at hfound
        subst hfound
        exact wp_createRestricted hissues hcreate
    | some node =>
        rw [hlookup] at hfound
        subst hfound
        show Prog.wp _ _ (if _ then _ else _) _
        split_ifs with hbad
        · exact nofun
        · have hdirectory : node.isDirectory := by
            simp only [Bool.or_eq_true, Bool.not_eq_true', not_or, Bool.not_eq_false] at hbad
            exact hbad.1.2
          refine wp_attempt trivial ?_
          rintro d'' rfl
          exact hkeep (hasDirectory_of_lookup hlookup hdirectory)
  · exact nofun

theorem hasDirectory_put {p q : Path} {node : Inode} (h : q ≠ p → d.visible.hasDirectory q)
    (hnode : node.isDirectory) : (d.put p (some node)).visible.hasDirectory q := by
  rw [Tree.hasDirectory]
  by_cases hq : q = p
  · subst hq
    rw [Disk.put_self]
    exact hnode
  · rw [Disk.put_of_ne d hq]
    exact h hq

theorem wp_prepareRoot (root : StateRoot) :
    (prepareRoot root).wp (saving s temporary) (Ensures fun d => d.visible.hasDirectory .root) d := by
  have hensure : ∀ d, (ensureDirectory .root).wp (saving s temporary)
      (Ensures fun d => d.visible.hasDirectory .root) d := fun d =>
    wp_ensureDirectory (Or.inr (Or.inl rfl)) id fun _ => hasDirectory_put (absurd rfl) rfl
  rw [prepareRoot]
  split_ifs
  · exact nofun
  · refine wp_andThen (P := fun _ => True) (wp_rejectSymlink trivial) fun d' _ => ?_
    cases root.above with
    | none => exact hensure d'
    | some n => exact wp_andThen (wp_ensureParentChain n) fun d'' _ => hensure d''

/-- Both directories are there. -/
def Ready (s : OperationStateRecord) (d : Disk) : Prop :=
  d.visible.hasDirectory .root ∧ d.visible.hasDirectory (.operation s.operationId)

theorem Ready.put {p : Path} {node : Option Inode} (h : Ready s d) (hroot : p ≠ .root)
    (hoperation : p ≠ .operation s.operationId) : Ready s (d.put p node) := by
  rw [Ready, Tree.hasDirectory, Tree.hasDirectory, Disk.put_of_ne d hroot.symm,
    Disk.put_of_ne d hoperation.symm]
  exact h

/-- The temporary file holds this much. -/
def Holds (s : OperationStateRecord) (temporary : Path) (contents : List UInt8) (synced : Bool)
    (d : Disk) : Prop :=
  Ready s d ∧ d.visible temporary = some (.create (.file contents synced))

/-- The new record is in place. -/
def Stored (s : OperationStateRecord) (d : Disk) : Prop :=
  Loadable s ∧ Ready s d ∧ d.visible (statePath s.operationId) = some (newState s)

theorem wp_writeAndReplace {name : String} (hname : name ≠ "state.json") (hs : Loadable s)
    (hready : Ready s d) :
    (writeAndReplace (.operation s.operationId) (.file s.operationId name)
      (statePath s.operationId) s).wp (saving s (.file s.operationId name)) (Ensures (Stored s)) d := by
  have hstate : statePath s.operationId ≠ .file s.operationId name := by
    intro h
    injection h with _ h
    exact hname h.symm
  refine wp_andThen (P := Holds s (.file s.operationId name) [] false) ?_ fun d hd => ?_
  · refine wp_attempt rfl ?_
    rintro d' ⟨-, -, rfl⟩
    exact ⟨hready.put nofun nofun, Disk.put_self ..⟩
  refine wp_andThen (P := Holds s (.file s.operationId name) (prettyText s) false) ?_ fun d hd => ?_
  · refine wp_attempt rfl ?_
    rintro d' ⟨node, contents, synced, hnode, hkind, rfl⟩
    rw [hd.2, Option.some.injEq] at hnode
    subst hnode
    cases hkind
    exact ⟨hd.1.put nofun nofun, Disk.put_self ..⟩
  refine wp_andThen (P := Holds s (.file s.operationId name) (stateText s) false) ?_ fun d hd => ?_
  · refine wp_attempt rfl ?_
    rintro d' ⟨node, contents, synced, hnode, hkind, rfl⟩
    rw [hd.2, Option.some.injEq] at hnode
    subst hnode
    cases hkind
    exact ⟨hd.1.put nofun nofun, Disk.put_self ..⟩
  refine wp_andThen (P := Holds s (.file s.operationId name) (stateText s) true) ?_ fun d hd => ?_
  · refine wp_attempt rfl ?_
    rintro d' ⟨node, contents, synced, hnode, hkind, rfl⟩
    rw [hd.2, Option.some.injEq] at hnode
    subst hnode
    cases hkind
    exact ⟨hd.1.put nofun nofun, Disk.put_self ..⟩
  refine wp_andThen (P := Stored s) ?_ fun d hd => ?_
  · refine wp_attempt ⟨rfl, rfl, hd.2⟩ ?_
    rintro d' ⟨node, hnode, -, rfl⟩
    rw [hd.2, Option.some.injEq] at hnode
    subst hnode
    have hready : Ready s (d.put (statePath s.operationId) (some (newState s))) :=
      hd.1.put (by intro h; cases h) (by intro h; cases h)
    refine ⟨hs, hready.put nofun nofun, ?_⟩
    rw [Disk.put_of_ne _ hstate, Disk.put_self]
    rfl
  · refine wp_attempt trivial ?_
    rintro d' rfl
    exact hd

/-- **What the program does**: nothing but the calls of a save, and where it succeeds the new
record is in place. -/
theorem wp_saveState (root : StateRoot) (pid nonce : ℕ) (d : Disk) :
    (saveState root pid nonce s).wp (saving s (temporaryPath s.operationId pid nonce))
      (Ensures (Stored s)) d := by
  have hname : ".state.json." ++ toString pid ++ "." ++ toString nonce ≠ "state.json" := fun h =>
    temporaryPath_ne s.operationId s.operationId pid nonce (congrArg (Path.file _) h)
  rw [saveState]
  cases hcheck : checkSave s with
  | error e => exact nofun
  | ok _ =>
      refine wp_andThen (wp_prepareRoot root) fun d hroot => ?_
      refine wp_andThen (P := Ready s) ?_ fun d hready => ?_
      · refine wp_ensureDirectory (Or.inr (Or.inr rfl)) (fun h => ⟨hroot, h⟩) fun _ => ?_
        exact ⟨hasDirectory_put (fun _ => hroot) rfl, hasDirectory_put (absurd rfl) rfl⟩
      refine wp_andThen (wp_rejectSymlink hready) fun d hready => ?_
      rw [orUnlink, Prog.wp_bind]
      refine Prog.wp_mono (fun r d' hr => ?_)
        (wp_writeAndReplace hname (checkSave_eq_ok.mp hcheck) hready)
      cases r with
      | ok _ => exact fun _ => hr rfl
      | error e =>
          show (attempt _ >>= _).wp _ _ _
          rw [Prog.wp_bind]
          refine Prog.wp_mono (fun r d' _ => ?_) (wp_attempt (P := fun _ => True) rfl fun _ _ => trivial)
          exact nofun

end

/-! ## What a reader gets -/

section

variable {fromReader : List UInt8 → Option Document} {id : String} {t : Tree}

theorem decode_stateText (hreads : ReadsRecords fromReader) (hfits : s.Fits) :
    decode fromReader (stateText s) = .ok s := by
  rw [decode, hreads, Option.bind_some, OperationStateRecord.ofDocument_toJson hfits]

/-- A tree in which the new record can be reached. -/
theorem loadStateAt_of_newState (hreads : ReadsRecords fromReader) (hfits : s.Fits)
    (hroot : t.hasDirectory .root) (hoperation : t.hasDirectory (.operation s.operationId))
    (hstate : t (statePath s.operationId) = some (newState s)) :
    loadStateAt fromReader t s.operationId =
      (validateOperationId s.operationId).bind fun _ => loadState (.record s) s.operationId := by
  have hsymlink : ∀ p, t.hasDirectory p → refuseSymlink (t p) = .ok () := by
    intro p hp
    rw [Tree.hasDirectory] at hp
    rw [refuseSymlink, if_neg]
    cases hnode : t p with
    | none => exact Bool.false_ne_true
    | some node =>
        rw [hnode] at hp
        have hkind : node.kind = .directory := of_decide_eq_true hp
        show ¬ node.isSymlink = true
        rw [Inode.isSymlink, hkind]
        decide
  have hlookup : t.lookup (statePath s.operationId) = some (newState s) := by
    rw [Tree.lookup, if_pos, hstate]
    exact (Bool.and_eq_true _ _).mpr ⟨hroot, hoperation⟩
  rw [loadStateAt, loadFrom, hlookup, Tree.lookup_operation, if_pos hroot, Tree.lookup_root,
    hsymlink _ hroot, hsymlink _ hoperation]
  show (validateOperationId s.operationId).bind (fun _ =>
    (decode fromReader (stateText s)).bind fun s' => loadState (.record s') s.operationId) = _
  rw [decode_stateText hreads hfits]
  rfl

/-- What a reader gets has passed the checks of the content. -/
theorem loadable_of_loadStateAt {r : OperationStateRecord}
    (h : loadStateAt fromReader t id = .ok r) : Loadable r := by
  obtain ⟨_, -, h⟩ := bind_eq_ok.mp h
  obtain ⟨_, -, h⟩ := bind_eq_ok.mp h
  obtain ⟨_, -, h⟩ := bind_eq_ok.mp h
  obtain ⟨_, -, h⟩ := bind_eq_ok.mp h
  obtain ⟨s, -, h⟩ := bind_eq_ok.mp h
  exact (loadState_eq_ok.mp h).2.2

/-- A reader looks at the directories only for symbolic links. -/
theorem loadStateAt_congr (hroot : refuseSymlink (t .root) = refuseSymlink (store .root))
    (hoperation : refuseSymlink (t.lookup (.operation id)) =
      refuseSymlink (store.lookup (.operation id)))
    (hstate : t.lookup (statePath id) = store.lookup (statePath id)) :
    loadStateAt fromReader t id = loadStateAt fromReader store id := by
  rw [loadStateAt, loadStateAt, Tree.lookup_root, Tree.lookup_root, hstate, loadFrom, loadFrom,
    hroot, hoperation]

theorem Allowed.cases {p : Path} {node : Option Inode} (h : Allowed s temporary store p node)
    (htemporary : p ≠ temporary) (habove : ∀ n, p ≠ .above n) :
    node = store p ∨
    ((p = .root ∨ p = .operation s.operationId) ∧ store p = none ∧
      node = some (.create .directory)) ∨
    (p = statePath s.operationId ∧ node = some (newState s)) := by
  cases h with
  | kept => exact Or.inl rfl
  | temporary => exact absurd rfl htemporary
  | above n => exact absurd rfl (habove n)
  | directory _ hp hnew => exact Or.inr (Or.inl ⟨hp, hnew, rfl⟩)
  | saved => exact Or.inr (Or.inr ⟨rfl, rfl⟩)

theorem Tree.AtRest.eq_none (h : store.AtRest) {p : Path} (hleads : store.leads p = false) :
    store p = none := by
  by_contra hne
  rw [h.leads p hne] at hleads
  cases hleads

theorem Tree.hasDirectory_of_none {p : Path} (h : t p = none) : t.hasDirectory p = false := by
  rw [Tree.hasDirectory, h]
  rfl

variable {pid nonce : ℕ}

/-- The tree while the record is being saved. -/
abbrev Saving (s : OperationStateRecord) (pid nonce : ℕ) (store t : Tree) : Prop :=
  ∀ p, Allowed s (temporaryPath s.operationId pid nonce) store p (t p)

theorem Saving.root (h : Saving s pid nonce store t) :
    t .root = store .root ∨ (store .root = none ∧ t .root = some (.create .directory)) := by
  rcases (h .root).cases nofun nofun with h | ⟨-, h⟩ | ⟨h, -⟩
  · exact Or.inl h
  · exact Or.inr h
  · cases h

theorem Saving.operation (h : Saving s pid nonce store t) (id : String) :
    t (.operation id) = store (.operation id) ∨
      (store (.operation id) = none ∧ t (.operation id) = some (.create .directory)) := by
  rcases (h (.operation id)).cases nofun nofun with h | ⟨-, h⟩ | ⟨h, -⟩
  · exact Or.inl h
  · exact Or.inr h
  · cases h

theorem Saving.state (h : Saving s pid nonce store t) (id : String) :
    t (statePath id) = store (statePath id) ∨
      (id = s.operationId ∧ t (statePath id) = some (newState s)) := by
  have hne : statePath id ≠ temporaryPath s.operationId pid nonce :=
    (temporaryPath_ne s.operationId id pid nonce).symm
  rcases (h (statePath id)).cases hne nofun with h | ⟨h | h, -⟩ | ⟨h, hnew⟩
  · exact Or.inl h
  · cases h
  · cases h
  · injection h with h
    exact Or.inr ⟨h, hnew⟩

theorem Saving.refuse_root (h : Saving s pid nonce store t) :
    refuseSymlink (t .root) = refuseSymlink (store .root) := by
  rcases h.root with h | ⟨hnone, h⟩
  · rw [h]
  · rw [h, hnone]
    rfl

theorem Saving.refuse_operation (h : Saving s pid nonce store t) (hstore : store.AtRest)
    (id : String) : refuseSymlink (t.lookup (.operation id)) =
      refuseSymlink (store.lookup (.operation id)) := by
  have hnode : refuseSymlink (t (.operation id)) = refuseSymlink (store (.operation id)) := by
    rcases h.operation id with h | ⟨hnone, h⟩
    · rw [h]
    · rw [h, hnone]
      rfl
  rw [Tree.lookup_operation, Tree.lookup_operation]
  rcases h.root with hroot | ⟨hnone, hroot⟩
  · have hsame : t.hasDirectory .root = store.hasDirectory .root := by
      rw [Tree.hasDirectory, Tree.hasDirectory, hroot]
    rw [hsame]
    split_ifs
    · exact hnode
    · rfl
  · have hno := Tree.hasDirectory_of_none hnone
    have hnew : t.hasDirectory .root = true := by
      rw [Tree.hasDirectory, hroot]
      rfl
    rw [hno, hnew, if_pos rfl, if_neg Bool.false_ne_true, hnode, hstore.eq_none]
    exact hno

/-- The file of an operation is the old one, or the new one in directories that are there. -/
theorem Saving.lookup_state (h : Saving s pid nonce store t) (hstore : store.AtRest)
    (id : String) : t.lookup (statePath id) = store.lookup (statePath id) ∨
      (id = s.operationId ∧ t.leads (statePath id) ∧ t (statePath id) = some (newState s)) := by
  cases hleads : t.leads (statePath id) with
  | false =>
      left
      rw [Tree.lookup, hleads, if_neg Bool.false_ne_true, Tree.lookup]
      split_ifs with hold
      · -- a directory that was there is still there
        exfalso
        rw [statePath, Tree.leads, Bool.and_eq_true] at hold
        have hroot : t .root = store .root := by
          rcases h.root with h | ⟨hnone, -⟩
          · exact h
          · rw [Tree.hasDirectory_of_none hnone] at hold
            cases hold.1
        have hoperation : t (.operation id) = store (.operation id) := by
          rcases h.operation id with h | ⟨hnone, -⟩
          · exact h
          · rw [Tree.hasDirectory_of_none hnone] at hold
            cases hold.2
        rw [Tree.hasDirectory, Tree.hasDirectory, ← hroot, ← hoperation] at hold
        rw [statePath, Tree.leads, Tree.hasDirectory, Tree.hasDirectory, hold.1, hold.2] at hleads
        cases hleads
      · rfl
  | true =>
      rcases h.state id with hsame | ⟨hid, hnew⟩
      · left
        rw [Tree.lookup, hleads, if_pos rfl, hsame, Tree.lookup]
        split_ifs with hold
        · rfl
        · exact hstore.eq_none (by simpa using hold)
      · exact Or.inr ⟨hid, rfl, hnew⟩

/-- The records of other operations are read as before. -/
theorem Saving.load_other (h : Saving s pid nonce store t) (hstore : store.AtRest)
    (hid : id ≠ s.operationId) :
    loadStateAt fromReader t id = loadStateAt fromReader store id := by
  rcases h.lookup_state hstore id with hstate | ⟨heq, -⟩
  · exact loadStateAt_congr h.refuse_root (h.refuse_operation hstore id) hstate
  · exact absurd heq hid

/-- The operation's own record is the old one or the new one. -/
theorem Saving.load_own (h : Saving s pid nonce store t) (hstore : store.AtRest)
    (hreads : ReadsRecords fromReader) (hfits : s.Fits) (hvalid : ValidState s) :
    loadStateAt fromReader t s.operationId = loadStateAt fromReader store s.operationId ∨
      loadStateAt fromReader t s.operationId = .ok s := by
  rcases h.lookup_state hstore s.operationId with hstate | ⟨-, hleads, hnew⟩
  · exact Or.inl (loadStateAt_congr h.refuse_root (h.refuse_operation hstore _) hstate)
  · obtain ⟨hroot, hoperation⟩ := (Bool.and_eq_true _ _).mp hleads
    cases hid : validUuid s.operationId with
    | false =>
        left
        simp only [loadStateAt, loadFrom, validateOperationId, hid]
        rfl
    | true =>
        right
        rw [loadStateAt_of_newState hreads hfits hroot hoperation hnew, validateOperationId, hid,
          loadState_eq_ok.mpr ⟨rfl, rfl, hid, hvalid⟩]
        rfl

/-- What could not be read back is not written. -/
theorem saveState_refused (hreads : ReadsRecords fromReader) (hfits : s.Fits) (root : StateRoot)
    (hleads : t.leads (statePath s.operationId))
    (hstate : t (statePath s.operationId) = some (newState s))
    (hrefused : ∃ e, loadStateAt fromReader t s.operationId = .error e) :
    ∃ e, saveState root pid nonce s = Prog.pure (.error e) := by
  obtain ⟨hroot, hoperation⟩ := (Bool.and_eq_true _ _).mp hleads
  rw [loadStateAt_of_newState hreads hfits hroot hoperation hstate] at hrefused
  cases hcheck : checkSave s with
  | error e =>
      refine ⟨e, ?_⟩
      rw [saveState, hcheck]
      rfl
  | ok _ =>
      obtain ⟨hid, hvalid⟩ := checkSave_eq_ok.mp hcheck
      rw [validateOperationId, hid, loadState_eq_ok.mpr ⟨rfl, rfl, hid, hvalid⟩] at hrefused
      obtain ⟨e, he⟩ := hrefused
      cases he

end

/-- At every point of a save, its own record is the old or the new one, the new one if it has
succeeded, and the records of other operations are the old ones. -/
theorem saveState_saves {fromReader : List UInt8 → Option Document}
    (hreads : ReadsRecords fromReader) {store : Tree} (hstore : store.AtRest) (root : StateRoot)
    (pid nonce : ℕ) {s : OperationStateRecord} (hvalid : ValidState s) (hfits : s.Fits)
    (c : Config FileSig Empty Disk (Except PersistenceError Unit))
    (hreach : Reach files nofun (fun _ _ => True)
      (.solo (.settled store) (saveState root pid nonce s)) c) :
    (loadStateAt fromReader c.world.visible s.operationId =
        loadStateAt fromReader store s.operationId ∨
      loadStateAt fromReader c.world.visible s.operationId = .ok s) ∧
    (c.procs 0 = some (.pure (.ok ())) →
      loadStateAt fromReader c.world.visible s.operationId = .ok s) ∧
    ∀ id ≠ s.operationId,
      loadStateAt fromReader c.world.visible id = loadStateAt fromReader store id := by
  obtain ⟨hkept, hprocs⟩ := hreach.guarded (wp_saveState root pid nonce (.settled store))
    (kept_settled store) (fun e w r w' hI hpre hexec => hI.exec hpre hexec)
    (fun w w' hI hleft => hI.crash hstore hleft) (fun _ _ q => q.elim)
  have hsaving : Saving s pid nonce store c.world.visible := fun p => (hkept p).1
  refine ⟨hsaving.load_own hstore hreads hfits hvalid, fun hdone => ?_, fun id hid =>
    hsaving.load_other hstore hid⟩
  obtain ⟨hloadable, ⟨hroot, hoperation⟩, hstate⟩ := (hprocs 0 _ hdone).2 rfl
  rw [loadStateAt_of_newState hreads hfits hroot hoperation hstate, validateOperationId,
    hloadable.id, loadState_eq_ok.mpr ⟨rfl, rfl, hloadable⟩]
  rfl

/-- **A save is atomic and loses nothing.**  At every point of it, whatever failed so far and
also after a crash, the record is read as before or is the new one, and the records of other
operations are read as before; when the save reports success the new record is read.  A record
that would not be read back is refused before anything is touched. -/
theorem saveState_atomic {fromReader : List UInt8 → Option Document}
    (hreads : ReadsRecords fromReader) {store : Tree} (hstore : store.AtRest) (root : StateRoot)
    (pid nonce : ℕ) {s : OperationStateRecord} (hvalid : ValidState s) (hfits : s.Fits) :
    (∀ c : Config FileSig Empty Disk (Except PersistenceError Unit),
      Reach files nofun (fun _ _ => True) (.solo (.settled store) (saveState root pid nonce s)) c →
      (loadStateAt fromReader c.world.visible s.operationId =
          loadStateAt fromReader store s.operationId ∨
        loadStateAt fromReader c.world.visible s.operationId = .ok s) ∧
      (c.procs 0 = some (.pure (.ok ())) →
        loadStateAt fromReader c.world.visible s.operationId = .ok s) ∧
      ∀ id ≠ s.operationId,
        loadStateAt fromReader c.world.visible id = loadStateAt fromReader store id) ∧
    ∀ (r : OperationStateRecord) (t : Tree), r.Fits → t.leads (statePath r.operationId) →
      t (statePath r.operationId) = some (newState r) →
      (∃ e, loadStateAt fromReader t r.operationId = .error e) →
      ∃ e, saveState root pid nonce r = Prog.pure (.error e) := by
  refine ⟨fun c hreach => ?_, fun r t hr hleads hstate hrefused => ?_⟩
  · exact saveState_saves hreads hstore root pid nonce hvalid hfits c hreach
  · exact saveState_refused hreads hr root hleads hstate hrefused

/-! ## The step of the world -/

/-- A world says of every operation what a reader of the tree gets. -/
def Represents (fromReader : List UInt8 → Option Document) (w : World) (t : Tree) : Prop :=
  ∀ id r, loadStateAt fromReader t id = .ok r ↔ loadState (w.state id) id = .ok r

/-- **`ExecSave` is what the calls amount to**: at every point of a save, and after a crash, the
tree is represented by a world that the one step of the system may leave. -/
theorem saveState_refines {fromReader : List UInt8 → Option Document}
    (hreads : ReadsRecords fromReader) {store : Tree} (hstore : store.AtRest) {w : World}
    (hw : Represents fromReader w store) (root : StateRoot) (pid nonce : ℕ)
    {s : OperationStateRecord} (hvalid : ValidState s) (hfits : s.Fits)
    {c : Config FileSig Empty Disk (Except PersistenceError Unit)}
    (h : Reach files nofun (fun _ _ => True)
      (.solo (.settled store) (saveState root pid nonce s)) c) :
    ∃ r w', ExecSave true s w r w' ∧ Represents fromReader w' c.world.visible := by
  obtain ⟨hown, -, hother⟩ := (saveState_saves hreads hstore root pid nonce hvalid hfits) c h
  rcases hown with hsame | hnew
  · have hw' : Represents fromReader w c.world.visible := by
      intro id r
      by_cases hid : id = s.operationId
      · subst hid
        rw [hsame]
        exact hw _ r
      · rw [hother id hid]
        exact hw id r
    cases hcheck : checkSave s with
    | error e => exact ⟨.error e, w, Or.inl ⟨e, hcheck, rfl, rfl⟩, hw'⟩
    | ok _ =>
        exact ⟨.error .io, w, Or.inr ⟨hcheck, Or.inr ⟨rfl, ⟨_, rfl⟩, Or.inl rfl⟩⟩, hw'⟩
  · have hloadable := loadable_of_loadStateAt hnew
    refine ⟨.ok (), w.putState s, Or.inr ⟨checkSave_eq_ok.mpr hloadable, Or.inl ⟨rfl, rfl⟩⟩, ?_⟩
    intro id r
    by_cases hid : id = s.operationId
    · subst hid
      rw [hnew, World.state_putState_self, loadState_eq_ok.mpr ⟨rfl, rfl, hloadable⟩]
    · rw [hother id hid, World.state_putState_of_ne hid]
      exact hw id r

/-! ## A stored record is replaced -/

/-- The reader that accepts exactly the texts that are written. -/
noncomputable def readRecord (bytes : List UInt8) : Option Document :=
  open Classical in
  if h : ∃ s : OperationStateRecord, bytes = stateText s then some h.choose.toJson.toDocument
  else none

theorem readsRecords_readRecord : ReadsRecords readRecord := by
  intro s
  have h : ∃ s' : OperationStateRecord, stateText s = stateText s' := ⟨s, rfl⟩
  have htext := utf8_injective (List.append_cancel_right h.choose_spec)
  rw [readRecord, dif_pos h, ← Json.pretty_injective 0 htext]

namespace Sample

def storedRecord (state : OperationState) (snapshotNumber : Option ℕ) : OperationStateRecord where
  schemaVersion := 1
  operationId := "12345678-1234-1234-1234-123456789abc"
  sequence := 4
  operation := .updateWithinRelease
  state := state
  source := ⟨"1.0", "desktop", "x86_64", "b1"⟩
  target := none
  planSha256 := planSha256
  manifestSha256 := none
  snapshotNumber := snapshotNumber
  recovery := none
  lastCompletedStep := none
  errorCode := none
  bootVerification := none
  createdAt := "2026-01-01T00:00:00Z"
  updatedAt := "2026-01-01T00:00:00Z"

/-- A state root with one operation. -/
def tree : Tree
  | .above _ | .root => some (.create .directory)
  | .operation id =>
      if id = (storedRecord .snapshotting none).operationId then some (.create .directory) else none
  | .file id name =>
      if id = (storedRecord .snapshotting none).operationId ∧ name = "state.json" then
        some (newState (storedRecord .snapshotting none)) else none

theorem atRest_tree : tree.AtRest where
  leads := by
    rintro (_ | _ | id | ⟨id, name⟩) hp
    · rfl
    · rfl
    · rfl
    · by_cases h : id = (storedRecord .snapshotting none).operationId ∧ name = "state.json"
      · obtain ⟨rfl, rfl⟩ := h
        rfl
      · exact absurd (if_neg h) hp
  synced := by
    rintro (_ | _ | id | ⟨id, name⟩) node contents hnode hkind <;>
    · simp only [tree, Option.ite_none_right_eq_some, Option.some.injEq] at hnode
      first
      | (subst hnode; cases hkind)
      | (obtain ⟨-, rfl⟩ := hnode; cases hkind)

end Sample

/-- The snapshot of an update is recorded. -/
theorem saveState_atomic_sample : ValidState (Sample.storedRecord .applying (some 7)) ∧
    ∀ c : Config FileSig Empty Disk (Except PersistenceError Unit),
      Reach files nofun (fun _ _ => True) (.solo (.settled Sample.tree)
        (saveState ⟨some 2, false⟩ 417 90 (Sample.storedRecord .applying (some 7)))) c →
      loadStateAt readRecord c.world.visible (Sample.storedRecord .applying (some 7)).operationId =
          loadStateAt readRecord Sample.tree (Sample.storedRecord .applying (some 7)).operationId ∨
        loadStateAt readRecord c.world.visible
          (Sample.storedRecord .applying (some 7)).operationId =
            .ok (Sample.storedRecord .applying (some 7)) := by
  have hvalid : ValidState (Sample.storedRecord .applying (some 7)) := by decide +kernel
  have hfits : (Sample.storedRecord .applying (some 7)).Fits :=
    ⟨by decide, by decide, fun n hn => by cases hn; decide, nofun⟩
  refine ⟨hvalid, fun c hreach => ?_⟩
  exact ((saveState_atomic readsRecords_readRecord Sample.atRest_tree ⟨some 2, false⟩ 417 90 hvalid
    hfits).1 c hreach).1

end LyraUpgrade
