import LyraUpgrade.Encoding.Lines
import LyraUpgrade.Encoding.Trees
import Mathlib.Data.List.Nodup

/-!
# The simulated root

`service/src/simulation.rs` and `service/src/repository_context.rs`: the solver of a preview
works on a disposable root, into which the package database and the configuration of the
system are copied.  Links are copied by what they resolve to, so that none leads back into the
live system; only the markers `.repo_gpgcheck` of the caches stay links.

The files of the system do not change while they are copied.  Places of the simulated root are
counted from it.

## Main definitions

* `Host`: the files of the system, as the directories list them.
* `Calls`: the answers of system calls that the files do not decide.
* `copyTree`, `Simulation.new`: the copying.
* `RepositoryContext.command`: the invocation of zypper.
-/

namespace LyraUpgrade.SimulatedRoot

open Encoding Encoding.Paths

/-- The names of a path as it is written. -/
def place (path : String) : Names :=
  ((utf8 path.toList).splitOn slash).filter (· ≠ [])

/-! ## The host -/

/-- Every entry stands in a directory that is listed. -/
def ListsDirectories (entries : List (Names × Item)) : Prop :=
  ∀ entry ∈ entries, entry.1 = [] ∨ (entry.1.dropLast, Item.directory) ∈ entries

instance (entries : List (Names × Item)) : Decidable (ListsDirectories entries) :=
  inferInstanceAs (Decidable (∀ entry ∈ entries, _ ∨ _))

/-- The files of the system.  A directory lists its entries in the order in which they stand
here. -/
structure Host where
  entries : List (Names × Item)
  nodup : (entries.map Prod.fst).Nodup
  root : ([], Item.directory) ∈ entries
  listed : ListsDirectories entries
  target : ∀ entry ∈ entries, entry.2 ≠ .symlink []

namespace Host

variable {host : Host} {source : Names}

def item (host : Host) (source : Names) : Option Item :=
  (host.entries.find? (·.1 = source)).map Prod.snd

theorem item_eq_some {found : Item} :
    host.item source = some found ↔ (source, found) ∈ host.entries := by
  rw [Host.item, Option.map_eq_some_iff]
  constructor
  · rintro ⟨entry, hfind, rfl⟩
    have hsource := List.find?_some hfind
    rw [decide_eq_true_eq] at hsource
    rw [← hsource]
    exact List.mem_of_find?_eq_some hfind
  · intro hmem
    cases hfind : host.entries.find? (·.1 = source) with
    | none => exact absurd (decide_eq_true rfl) (List.find?_eq_none.mp hfind _ hmem)
    | some entry =>
        have hsource := List.find?_some hfind
        rw [decide_eq_true_eq] at hsource
        have hentry := List.inj_on_of_nodup_map host.nodup (List.mem_of_find?_eq_some hfind) hmem
          hsource
        exact ⟨entry, rfl, congrArg Prod.snd hentry⟩

/-- The files as a tree. -/
def files (host : Host) : Files where
  item := host.item
  root := item_eq_some.mpr host.root
  closed source name h := by
    obtain ⟨item, hitem⟩ := Option.ne_none_iff_exists'.mp h
    rcases host.listed _ (item_eq_some.mp hitem) with hnil | hlisted
    · exact absurd hnil (by simp)
    · rw [List.dropLast_concat] at hlisted
      exact item_eq_some.mpr hlisted
  target source h := host.target _ (item_eq_some.mp h) rfl

/-- The name of an entry of the directory. -/
def nameIn (source : Names) (entry : Names) : Option (List UInt8) :=
  if entry ≠ [] ∧ entry.dropLast = source then entry.getLast? else none

/-- The entries of a directory. -/
def names (host : Host) (source : Names) : List (List UInt8) :=
  (host.entries.map Prod.fst).filterMap (nameIn source)

/-- How many names the longest path has. -/
def depth (host : Host) : ℕ := (host.entries.map (·.1.length)).foldr max 0

/-- `fs::symlink_metadata`, of an absolute path. -/
def symlinkMetadata (host : Host) (source : Names) : Except IoError Item :=
  match source.getLast? with
  | none => .ok .directory
  | some name => do
      let reached ← host.files.layout.walk maxLinks [] (absolutePath source.dropLast)
      if host.item reached.2 = some .directory then
        match host.item (reached.2 ++ [name]) with
        | none => .error .notFound
        | some item => .ok item
      else .error .notADirectory

/-- `fs::read_dir`, of an absolute path. -/
def readDir (host : Host) (source : Names) : Except IoError (List (List UInt8)) := do
  let reached ← host.files.layout.walk maxLinks [] (absolutePath source)
  if host.item reached.2 = some .directory then .ok (host.names reached.2)
  else .error .notADirectory

end Host

/-! ## System calls -/

inductive Error
  | io (error : IoError)
  | refused
  | occupied
  | nonregular
  | special
  | tooDeep
  deriving DecidableEq, Repr

/-- What a system call writes. -/
inductive Write
  | directory (place : Names)
  | file (place : Names) (content : List UInt8)
  | symlink (place : Names) (target : List UInt8)

/-- The answers of system calls that the files do not decide: which paths of the host cannot be
read, which writes are refused, and what a write does behind a link. -/
structure Calls where
  unreadable : Names → Bool
  refuses : Write → Bool
  elsewhere : Write → Files → Except Error Files

variable (calls : Calls)

/-- `fs::create_dir`, in a directory. -/
def createDir (place : Names) (files : Files) : Except Error Files :=
  if calls.refuses (.directory place) then .error .refused
  else if hinit : place ≠ [] ∧ files.item place.dropLast = some .directory then
    if hplace : files.item place = none then
      .ok (files.put place .directory hinit (by simp [hplace]) (by simp))
    else .error .occupied
  else calls.elsewhere (.directory place) files

/-- The missing directories on the way. -/
def createDirsFrom (made : Names) : Names → Files → Except Error Files
  | [], files => .ok files
  | name :: rest, files =>
      match files.item (made ++ [name]) with
      | some .directory => createDirsFrom (made ++ [name]) rest files
      | none => do
          let files ← createDir calls (made ++ [name]) files
          createDirsFrom (made ++ [name]) rest files
      | some (.symlink _) => calls.elsewhere (.directory (made ++ name :: rest)) files
      | some _ => .error .occupied

/-- `fs::create_dir_all`. -/
def createDirAll (place : Names) (files : Files) : Except Error Files :=
  createDirsFrom calls [] place files

/-- `std::os::unix::fs::symlink`. -/
def symlink (target : List UInt8) (place : Names) (files : Files) : Except Error Files :=
  if calls.refuses (.symlink place target) then .error .refused
  else if hinit : place ≠ [] ∧ files.item place.dropLast = some .directory then
    if h : files.item place = none ∧ target ≠ [] then
      .ok (files.put place (.symlink target) hinit (by simp [h.1])
        fun heq => h.2 (Item.symlink.inj heq))
    else .error .occupied
  else calls.elsewhere (.symlink place target) files

/-- The file that `cp` writes. -/
def writeFile (content : List UInt8) (place : Names) (files : Files) : Except Error Files :=
  if calls.refuses (.file place content) then .error .refused
  else if hinit : place ≠ [] ∧ files.item place.dropLast = some .directory then
    match hplace : files.item place with
    | none => .ok (files.put place (.file content) hinit (by simp [hplace]) (by simp))
    | some (.file _) => .ok (files.put place (.file content) hinit (by simp [hplace]) (by simp))
    | some .directory => .error .occupied
    | some _ => calls.elsewhere (.file place content) files
  else calls.elsewhere (.file place content) files

/-- `cp`: into a directory that stands at the destination, else in its place. -/
def cp (resolved : Names) (content : List UInt8) (destination : Names) (files : Files) :
    Except Error Files :=
  if files.item destination = some .directory then
    writeFile calls content (destination ++ resolved.getLast?.toList) files
  else writeFile calls content destination files

/-! ## Copying -/

def repoGpgcheck : List UInt8 := utf8 ".repo_gpgcheck".toList

/-- The targets of the markers. -/
def markerTargets : List (List UInt8) :=
  ["true", "false", "./true", "./false"].map fun target => utf8 target.toList

/-- A link that is copied as one. -/
def IsMarker (source : Names) (target : List UInt8) : Prop :=
  source.getLast? = some repoGpgcheck ∧ target ∈ markerTargets

instance (source : Names) (target : List UInt8) : Decidable (IsMarker source target) :=
  inferInstanceAs (Decidable (_ ∧ _))

theorem isMarker_concat {init : Names} {name target : List UInt8} :
    IsMarker (init ++ [name]) target ↔ name = repoGpgcheck ∧ target ∈ markerTargets := by
  rw [IsMarker, List.getLast?_concat, Option.some.injEq]

/-- A file, or what a link resolves to. -/
def copyResolved (host : Host) (source destination : Names) (files : Files) :
    Except Error Files := do
  let reached ← (host.files.layout.walk maxLinks [] (absolutePath source)).mapError .io
  match host.item reached.2 with
  | some (.file content) => do
      let files ← createDirAll calls destination.dropLast files
      cp calls reached.2 content destination files
  | _ => .error .nonregular

/-- `copy_tree`.  The number bounds the height of the tree (`copyTree_height`). -/
def copyTree (host : Host) : ℕ → Names → Names → Bool → Files → Except Error Files
  | 0, _, _, _, _ => .error .tooDeep
  | height + 1, source, destination, optional, files =>
      if calls.unreadable source then .error .refused
      else match host.symlinkMetadata source with
        | .error error =>
            if optional && error = .notFound then .ok files else .error (.io error)
        | .ok .directory => do
            let files ← createDirAll calls destination files
            let names ← (host.readDir source).mapError .io
            names.foldlM (fun files name =>
              copyTree host height (source ++ [name]) (destination ++ [name]) false files) files
        | .ok (.symlink target) =>
            if IsMarker source target then
              symlink calls target destination files
            else copyResolved calls host source destination files
        | .ok (.file _) => copyResolved calls host source destination files
        | .ok .special => .error .special

/-- A whole tree. -/
def copyAll (host : Host) (source destination : Names) (optional : Bool) (files : Files) :
    Except Error Files :=
  copyTree calls host (host.depth + 1) source destination optional files

/-! ## The context -/

structure RepositoryContext where
  repos : Names
  cache : Names
  raw : Names
  solv : Names
  packages : Names
  simulationRoot : Option Names
  deriving DecidableEq, Repr

/-- An argument of a command, or the value of a variable. -/
inductive Argument
  | text (text : String)
  | path (path : Names)
  deriving DecidableEq, Repr

structure Command where
  program : String
  arguments : List Argument
  environment : List (String × Argument)
  deriving DecidableEq, Repr

namespace RepositoryContext

def prepared (operationDir : Names) : RepositoryContext :=
  let cache := operationDir ++ place "cache"
  { repos := operationDir ++ place "repos.d"
    cache
    raw := cache ++ place "raw"
    solv := cache ++ place "solv"
    packages := cache ++ place "packages"
    simulationRoot := none }

variable (context : RepositoryContext)

def arguments : List Argument :=
  [("--reposd-dir", context.repos), ("--cache-dir", context.cache),
    ("--raw-cache-dir", context.raw), ("--solv-cache-dir", context.solv),
    ("--pkg-cache-dir", context.packages)].flatMap fun option =>
      [.text option.1, .path option.2]

/-- The invocation of zypper by a user. -/
def command (euid : ℕ) : Command :=
  let mapped := context.simulationRoot.isSome ∧ euid ≠ 0
  { program := if mapped then "/usr/bin/unshare" else "/usr/bin/zypper"
    arguments :=
      (if mapped then
        [.text "--user", .text "--map-root-user", .text "--", .text "/usr/bin/zypper"] else []) ++
      (match context.simulationRoot with
        | some root => [.text "--root", .path root]
        | none => []) ++ context.arguments
    environment :=
      [("PATH", .text "/usr/sbin:/usr/bin:/sbin:/bin"), ("LC_ALL", .text "C")] ++
      match context.simulationRoot with
      | some root =>
          [("ZYPP_LOGFILE", .path (context.cache ++ place "zypper.log")),
            ("TMPDIR", .path (root ++ place "tmp")), ("ZYPPTMPDIR", .path (root ++ place "tmp"))]
      | none => [] }

end RepositoryContext

/-- The paths that a command names. -/
def Command.paths (command : Command) : List Names :=
  (command.arguments ++ command.environment.map Prod.snd).filterMap fun argument =>
    match argument with
    | .path path => some path
    | .text _ => none

/-! ## The simulation -/

/-- The paths that every simulation holds. -/
def fixedPaths : List String :=
  ["usr/lib/sysimage/rpm", "usr/lib/rpm/gnupg", "etc/zypp/locks", "etc/zypp/vars.d",
    "etc/zypp/vendors.d", "etc/zypp/systemCheck", "var/lib/zypp/AutoInstalled", "etc/products.d",
    "etc/os-release", "usr/lib/os-release"]

structure Simulation where
  files : Files
  context : RepositoryContext
  root : Names

/-- The context, counted from the root. -/
def innerContext : RepositoryContext := .prepared (place "var/lib/lyra-upgrade-simulation")

/-- What is copied of the current repositories, and where to. -/
def repositoryPaths : List (Names × Names) :=
  [(place "/etc/zypp/repos.d", innerContext.repos), (place "/var/cache/zypp/raw", innerContext.raw),
    (place "/var/cache/zypp/solv", innerContext.solv)]

/-- `Simulation::new`, in a directory that was made for it. -/
def Simulation.new (host : Host) (directory : Names) (withCurrentRepositories : Bool) :
    Except Error Simulation := do
  let root := directory ++ place "root"
  let files ← createDir calls (place "tmp") Files.empty
  let files ← createDirAll calls (place "var/tmp") files
  let files ← fixedPaths.foldlM (fun files path =>
    copyAll calls host (place path) (place path) (path ≠ "usr/lib/sysimage/rpm") files) files
  let files ← createDirAll calls innerContext.repos files
  let files ← createDirAll calls innerContext.cache files
  let files ←
    if withCurrentRepositories then do
      let files ← copyAll calls host (place "/etc/zypp/services.d") (place "etc/zypp/services.d")
        true files
      repositoryPaths.foldlM (fun files path => copyAll calls host path.1 path.2 true files) files
    else .ok files
  .ok
    { files
      context :=
        { RepositoryContext.prepared (root ++ place "var/lib/lyra-upgrade-simulation") with
          simulationRoot := some root }
      root }

end LyraUpgrade.SimulatedRoot
