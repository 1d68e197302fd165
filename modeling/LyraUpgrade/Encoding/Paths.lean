import LyraUpgrade.Encoding.Result
import Mathlib.Data.List.Induction
import Mathlib.Tactic.SplitIfs

/-!
# Paths and links

Paths of a Unix system and what they name.  A path is a text of bytes; its components are what
the bytes between two slashes say, and everything but opening a file goes by them.

A layout is a tree of files, directories and symbolic links.  Resolving a path walks through
it, one step at a time, and a link puts the steps of its target in place of its name.

## Main definitions

* `components`: the components of a path.
* `normalize`: the lexical normal form, which looks at no layout.
* `Layout.canonicalize`: the path without links.

## Main results

* `normalize_absolutePath`: a path without dots is its own normal form.
* `walk_append`: resolving a path in two parts.
* `canonicalize_child`: what resolving one more name needs.
-/

namespace Encoding.Paths

/-! ## Components -/

inductive Component
  | rootDir
  | curDir
  | parentDir
  | normal (name : List UInt8)
  deriving DecidableEq, Repr

def slash : UInt8 := 47

def dot : UInt8 := 46

/-- What stands between two slashes.  Nothing and a single dot are passed over. -/
def piece? (piece : List UInt8) : Option Component :=
  if piece = [] ∨ piece = [dot] then none
  else if piece = [dot, dot] then some .parentDir
  else some (.normal piece)

/-- The components behind the root. -/
def body (path : List UInt8) : List Component := (path.splitOn slash).filterMap piece?

def isAbsolute (path : List UInt8) : Bool := path.head? = some slash

/-- `Path::components`.  A single dot only counts where a relative path begins. -/
def components (path : List UInt8) : List Component :=
  if isAbsolute path then .rootDir :: body path
  else if (path.splitOn slash).head? = some [dot] then .curDir :: body path
  else body path

/-- Paths are compared by their components. -/
abbrev Path := List Component

/-- The absolute path of some names. -/
def absolutePath (names : List (List UInt8)) : Path := .rootDir :: names.map .normal

/-- `Path::parent`. -/
def parent (path : Path) : Option Path :=
  match path.getLast? with
  | none => none
  | some .rootDir => none
  | some _ => some path.dropLast

/-- `Path::file_name`. -/
def fileName (path : Path) : Option (List UInt8) :=
  match path.getLast? with
  | some (.normal name) => some name
  | _ => none

/-- `Path::join`, of a relative path. -/
def join (path : Path) (other : List UInt8) : Path :=
  if path = [] then components other else path ++ body other

/-! ## The normal form -/

/-- One component of a path that is normalized: `PathBuf::push`, or `PathBuf::pop`, which does
nothing at the root. -/
def normalizeStep (normalized : Path) : Component → Path
  | .parentDir => (parent normalized).getD normalized
  | .curDir => normalized
  | .rootDir => [.rootDir]
  | .normal name => normalized ++ [.normal name]

def normalize (path : Path) : Path := path.foldl normalizeStep []

theorem foldl_normal (names : List (List UInt8)) (path : Path) :
    (names.map Component.normal).foldl normalizeStep path = path ++ names.map .normal := by
  induction names generalizing path with
  | nil => exact (List.append_nil _).symm
  | cons name names ih =>
      rw [List.map_cons, List.foldl_cons, ih]
      exact List.append_assoc path [.normal name] _

/-- A path without dots is its own normal form. -/
theorem normalize_absolutePath (names : List (List UInt8)) :
    normalize (absolutePath names) = absolutePath names :=
  foldl_normal names [.rootDir]

theorem absolutePath_injective : Function.Injective absolutePath := by
  intro names others h
  rw [absolutePath, absolutePath, List.cons.injEq] at h
  exact List.map_injective_iff.mpr (fun _ _ heq => Component.normal.inj heq) h.2

theorem absolutePath_concat (names : List (List UInt8)) (name : List UInt8) :
    absolutePath (names ++ [name]) = absolutePath names ++ [.normal name] := by
  rw [absolutePath, List.map_append]
  rfl

@[simp] theorem parent_absolutePath_nil : parent (absolutePath []) = none := rfl

@[simp] theorem parent_absolutePath_concat (names : List (List UInt8)) (name : List UInt8) :
    parent (absolutePath (names ++ [name])) = some (absolutePath names) := by
  rw [absolutePath_concat, parent, List.getLast?_concat, List.dropLast_concat]

@[simp] theorem fileName_absolutePath_concat (names : List (List UInt8)) (name : List UInt8) :
    fileName (absolutePath (names ++ [name])) = some name := by
  rw [absolutePath_concat, fileName, List.getLast?_concat]

/-- A path in normal form is names behind the root, or names. -/
inductive IsNormal : Path → Prop
  | absolute (names : List (List UInt8)) : IsNormal (absolutePath names)
  | relative (names : List (List UInt8)) : IsNormal (names.map .normal)

variable {path : Path}

/-- Leaving the last name. -/
theorem IsNormal.pop (h : IsNormal path) : IsNormal ((parent path).getD path) := by
  cases h with
  | absolute names =>
      rcases names.eq_nil_or_concat with rfl | ⟨init, name, rfl⟩
      · exact .absolute []
      · rw [List.concat_eq_append, parent_absolutePath_concat]
        exact .absolute init
  | relative names =>
      rcases names.eq_nil_or_concat with rfl | ⟨init, name, rfl⟩
      · exact .relative []
      · have hparent : parent ((init.concat name).map .normal) = some (init.map .normal) := by
          rw [List.concat_eq_append, List.map_append, parent, List.map_singleton,
            List.getLast?_concat, List.dropLast_concat]
        rw [hparent]
        exact .relative init

/-- Every step keeps to normal forms. -/
theorem IsNormal.step (h : IsNormal path) (component : Component) :
    IsNormal (normalizeStep path component) := by
  cases component with
  | rootDir => exact .absolute []
  | curDir => exact h
  | parentDir => exact h.pop
  | normal name =>
      rw [normalizeStep]
      cases h with
      | absolute names =>
          rw [← absolutePath_concat]
          exact .absolute _
      | relative names =>
          have happend : names.map Component.normal ++ [.normal name] =
              (names ++ [name]).map .normal := by
            rw [List.map_append]
            rfl
          rw [happend]
          exact .relative _

theorem isNormal_normalize (path : Path) : IsNormal (normalize path) := by
  have hfold : ∀ normalized, IsNormal normalized →
      IsNormal (path.foldl normalizeStep normalized) := by
    induction path with
    | nil => exact fun _ h => h
    | cons component path ih => exact fun _ h => ih _ (h.step component)
  exact hfold [] (.relative [])

/-- Only a path of one more name has this parent. -/
theorem IsNormal.parent_eq (h : IsNormal path) {names : List (List UInt8)} :
    parent path = some (absolutePath names) ↔ ∃ name, path = absolutePath (names ++ [name]) := by
  constructor
  · intro hparent
    cases h with
    | absolute others =>
        rcases others.eq_nil_or_concat with rfl | ⟨init, name, rfl⟩
        · cases hparent
        · rw [List.concat_eq_append, parent_absolutePath_concat, Option.some.injEq] at hparent
          rw [List.concat_eq_append, absolutePath_injective hparent]
          exact ⟨name, rfl⟩
    | relative others =>
        rcases others.eq_nil_or_concat with rfl | ⟨init, name, rfl⟩
        · cases hparent
        · -- a relative path has no parent that begins at the root
          rw [List.concat_eq_append, List.map_append, parent, List.map_singleton,
            List.getLast?_concat, List.dropLast_concat] at hparent
          have hmem : Component.rootDir ∈ init.map .normal := by
            rw [Option.some.inj hparent]
            exact List.mem_cons_self
          obtain ⟨name, -, heq⟩ := List.mem_map.mp hmem
          cases heq
  · rintro ⟨name, rfl⟩
    exact parent_absolutePath_concat names name

/-! ## Layouts -/

inductive Node
  | file
  | directory
  | symlink (target : List UInt8)
  deriving DecidableEq, Repr

/-- What stands at each place, a place being the names on the way from the root. -/
structure Layout where
  node : List (List UInt8) → Option Node
  root : node [] = some .directory
  closed : ∀ place name, node (place ++ [name]) ≠ none → node place = some .directory
  target : ∀ place, node place ≠ some (.symlink [])

/-- What a system call that follows a path fails with. -/
inductive IoError
  | notFound
  | notADirectory
  | filesystemLoop
  | invalidInput
  deriving DecidableEq, Repr

/-- A step of the walk; unlike in `components` a single dot is one, and so is a slash at the
end. -/
def step? (piece : List UInt8) : Option Component :=
  if piece = [] then none
  else if piece = [dot] then some .curDir
  else if piece = [dot, dot] then some .parentDir
  else some (.normal piece)

/-- The steps of a link's target. -/
def steps (target : List UInt8) : List Component :=
  (if isAbsolute target then [.rootDir] else []) ++
    (target.splitOn slash).dropLast.filterMap step? ++
    [(((target.splitOn slash).getLast?).bind step?).getD .curDir]

/-- How many links a path may go through. -/
def maxLinks : ℕ := 40

namespace Layout

section

variable (layout : Layout)

/-- The walk, from a place; `follow` goes on behind a link. -/
def walkFrom (follow : List (List UInt8) → List Component → Except IoError (ℕ × List (List UInt8)))
    (links : ℕ) : List (List UInt8) → List Component → Except IoError (ℕ × List (List UInt8))
  | place, [] => .ok (links, place)
  | _, .rootDir :: pending => walkFrom follow links [] pending
  | place, .curDir :: pending =>
      if layout.node place = some .directory then walkFrom follow links place pending
      else .error .notADirectory
  | place, .parentDir :: pending =>
      if layout.node place = some .directory then walkFrom follow links place.dropLast pending
      else .error .notADirectory
  | place, .normal name :: pending =>
      if layout.node place = some .directory then
        match layout.node (place ++ [name]) with
        | none => .error .notFound
        | some (.symlink target) => follow place (steps target ++ pending)
        | some _ => walkFrom follow links (place ++ [name]) pending
      else .error .notADirectory

/-- The walk that may go through so many links: how many are left, and the place. -/
def walk : ℕ → List (List UInt8) → List Component → Except IoError (ℕ × List (List UInt8))
  | 0 => layout.walkFrom (fun _ _ => .error .filesystemLoop) 0
  | links + 1 => layout.walkFrom (walk links) (links + 1)

/-- `fs::canonicalize`, of an absolute path. -/
def canonicalize (path : Path) : Except IoError Path :=
  (fun reached => absolutePath reached.2) <$> layout.walk maxLinks [] path

/-- `fs::read_link`, of an absolute path. -/
def readLink (path : Path) : Except IoError (List UInt8) :=
  match fileName path with
  | none => layout.walk maxLinks [] path >>= fun _ => .error .invalidInput
  | some name =>
      layout.walk maxLinks [] path.dropLast >>= fun reached =>
        if layout.node reached.2 = some .directory then
          match layout.node (reached.2 ++ [name]) with
          | none => .error .notFound
          | some (.symlink target) => .ok target
          | some _ => .error .invalidInput
        else .error .notADirectory

/-- `Path::is_dir`. -/
def isDir (path : Path) : Bool :=
  match layout.walk maxLinks [] path with
  | .ok reached => layout.node reached.2 = some .directory
  | .error _ => false

end

/-! ## The walk -/

variable {layout : Layout} {links : ℕ} {place : List (List UInt8)}

/-- The steps `rest` may be taken after the others. -/
def Composes (layout : Layout) (rest : List Component)
    (walk : List (List UInt8) → List Component → Except IoError (ℕ × List (List UInt8))) : Prop :=
  ∀ place path, walk place (path ++ rest) =
    walk place path >>= fun reached => layout.walk reached.1 reached.2 rest

/-- Along the path, when it is so behind a link. -/
theorem composes_walkFrom {rest : List Component}
    {follow : List (List UInt8) → List Component → Except IoError (ℕ × List (List UInt8))}
    (hwalk : layout.walk links = layout.walkFrom follow links)
    (hfollow : Composes layout rest follow) :
    Composes layout rest (layout.walkFrom follow links) := by
  intro place path
  induction path generalizing place with
  | nil =>
      rw [List.nil_append, walkFrom, ← hwalk]
      rfl
  | cons component path ih =>
      rw [List.cons_append]
      cases component with
      | rootDir => exact ih []
      | curDir =>
          rw [walkFrom, walkFrom]
          split_ifs
          · exact ih place
          · rfl
      | parentDir =>
          rw [walkFrom, walkFrom]
          split_ifs
          · exact ih place.dropLast
          · rfl
      | normal name =>
          rw [walkFrom, walkFrom]
          split_ifs
          · cases hnode : layout.node (place ++ [name]) with
            | none => rfl
            | some node =>
                cases node with
                | file => exact ih (place ++ [name])
                | directory => exact ih (place ++ [name])
                | symlink target =>
                    dsimp only
                    rw [← List.append_assoc]
                    exact hfollow place (steps target ++ path)
          · rfl

/-- **Resolving in two parts.**  The second part goes on with the links that are left. -/
theorem walk_append (links : ℕ) (place : List (List UInt8)) (path rest : List Component) :
    layout.walk links place (path ++ rest) =
      layout.walk links place path >>= fun reached => layout.walk reached.1 reached.2 rest := by
  induction links generalizing place path with
  | zero => exact composes_walkFrom rfl (fun _ _ => rfl) place path
  | succ links ih => exact composes_walkFrom rfl ih place path

/-- A place that a path can end at: no link stands there. -/
def Real (layout : Layout) (place : List (List UInt8)) : Prop :=
  layout.node place = some .file ∨ layout.node place = some .directory

theorem real_dropLast (h : layout.node place = some .directory) :
    layout.node place.dropLast = some .directory := by
  rcases place.eq_nil_or_concat with rfl | ⟨init, name, rfl⟩
  · exact layout.root
  · rw [List.concat_eq_append] at h ⊢
    rw [List.dropLast_concat]
    refine layout.closed init name ?_
    rw [h]
    exact Option.some_ne_none _

/-- The walk ends at real places, when it does behind a link. -/
theorem real_walkFrom
    {follow : List (List UInt8) → List Component → Except IoError (ℕ × List (List UInt8))}
    (hfollow : ∀ place path reached, layout.Real place → follow place path = .ok reached →
      layout.Real reached.2) {path : List Component} {reached : ℕ × List (List UInt8)}
    (hplace : layout.Real place) (h : layout.walkFrom follow links place path = .ok reached) :
    layout.Real reached.2 := by
  induction path generalizing place with
  | nil =>
      cases h
      exact hplace
  | cons component path ih =>
      cases component with
      | rootDir => exact ih (Or.inr layout.root) h
      | curDir =>
          rw [walkFrom] at h
          split_ifs at h
          exact ih hplace h
      | parentDir =>
          rw [walkFrom] at h
          split_ifs at h with hdirectory
          exact ih (Or.inr (real_dropLast hdirectory)) h
      | normal name =>
          rw [walkFrom] at h
          split_ifs at h
          cases hnode : layout.node (place ++ [name]) with
          | none =>
              rw [hnode] at h
              cases h
          | some node =>
              rw [hnode] at h
              cases node with
              | file => exact ih (Or.inl hnode) h
              | directory => exact ih (Or.inr hnode) h
              | symlink target => exact hfollow place _ reached hplace h

/-- **No link is left** in what a walk reaches. -/
theorem real_walk {path : List Component} {reached : ℕ × List (List UInt8)}
    (hplace : layout.Real place) (h : layout.walk links place path = .ok reached) :
    layout.Real reached.2 := by
  induction links generalizing place path reached with
  | zero => exact real_walkFrom (fun _ _ _ _ hloop => by cases hloop) hplace h
  | succ links ih => exact real_walkFrom (fun _ _ _ hplace h => ih hplace h) hplace h

/-- A name of a file or a directory is itself. -/
theorem walk_real {name : List UInt8} (links : ℕ) (hreal : layout.Real (place ++ [name])) :
    layout.walk links place [.normal name] = .ok (links, place ++ [name]) := by
  have hplace : layout.node place = some .directory := by
    refine layout.closed place name ?_
    rcases hreal with hnode | hnode <;>
    · rw [hnode]
      exact Option.some_ne_none _
  cases links with
  | zero =>
      rw [walk, walkFrom, if_pos hplace]
      rcases hreal with hnode | hnode <;>
      · rw [hnode]
        rfl
  | succ links =>
      rw [walk, walkFrom, if_pos hplace]
      rcases hreal with hnode | hnode <;>
      · rw [hnode]
        rfl

/-- A real place is reached by its own names. -/
theorem walk_absolutePath (links : ℕ) {names : List (List UInt8)} (hreal : layout.Real names) :
    layout.walk links [] (absolutePath names) = .ok (links, names) := by
  induction names using List.reverseRecOn with
  | nil => cases links <;> rfl
  | append_singleton names name ih =>
      have hnames : layout.Real names := by
        refine Or.inr (layout.closed names name ?_)
        rcases hreal with hnode | hnode <;>
        · rw [hnode]
          exact Option.some_ne_none _
      rw [absolutePath_concat, walk_append, ih hnames]
      exact walk_real links hreal

/-- **One more name.**  The place `name` under what `names` resolve to is reached if and only
if no link stands there. -/
theorem canonicalize_child {names real : List (List UInt8)} {name : List UInt8}
    (hnames : layout.canonicalize (absolutePath names) = .ok (absolutePath real)) :
    layout.canonicalize (absolutePath (names ++ [name])) = .ok (absolutePath (real ++ [name])) ↔
      layout.Real (real ++ [name]) := by
  obtain ⟨⟨left, place⟩, hwalk, heq⟩ := map_eq_ok.mp hnames
  obtain rfl := absolutePath_injective heq
  have hchild : layout.walk maxLinks [] (absolutePath (names ++ [name])) =
      layout.walk left place [.normal name] := by
    rw [absolutePath_concat, walk_append, hwalk]
    rfl
  rw [canonicalize, hchild]
  constructor
  · intro h
    obtain ⟨reached, hreached, hplace⟩ := map_eq_ok.mp h
    rw [← absolutePath_injective hplace]
    exact real_walk (real_walk (Or.inr layout.root) hwalk) hreached
  · intro hreal
    rw [walk_real left hreal]
    rfl

/-- A real place is a directory or not. -/
theorem isDir_absolutePath {names : List (List UInt8)} (hreal : layout.Real names) :
    layout.isDir (absolutePath names) = true ↔ layout.node names = some .directory := by
  rw [isDir, walk_absolutePath maxLinks hreal]
  exact decide_eq_true_iff

/-- What a path resolves to is an absolute path. -/
theorem exists_of_canonicalize {path directory : Path}
    (h : layout.canonicalize path = .ok directory) :
    ∃ real, directory = absolutePath real ∧ layout.Real real := by
  obtain ⟨reached, hwalk, rfl⟩ := map_eq_ok.mp h
  exact ⟨reached.2, rfl, real_walk (Or.inr layout.root) hwalk⟩

/-- A link that is read has a name. -/
theorem exists_of_readLink {path : Path} {target : List UInt8}
    (h : layout.readLink path = .ok target) : ∃ init name, path = init ++ [.normal name] := by
  unfold readLink at h
  cases hname : fileName path with
  | none =>
      rw [hname] at h
      obtain ⟨_, -, hinvalid⟩ := bind_eq_ok.mp h
      cases hinvalid
  | some name =>
      rcases path.eq_nil_or_concat with rfl | ⟨init, last, rfl⟩
      · cases hname
      · rw [List.concat_eq_append, fileName, List.getLast?_concat] at hname
        cases last with
        | normal other => exact ⟨init, other, List.concat_eq_append⟩
        | rootDir => cases hname
        | curDir => cases hname
        | parentDir => cases hname

end Layout

/-! ## Names that share a beginning -/

theorem splitOn_append {name : List UInt8} (hname : slash ∉ name) (suffix : List UInt8) :
    (name ++ suffix).splitOn slash = (suffix.splitOn slash).modifyHead (name ++ ·) := by
  induction name with
  | nil =>
      rw [List.nil_append]
      cases suffix.splitOn slash <;> rfl
  | cons byte name ih =>
      rw [List.mem_cons, not_or] at hname
      rw [List.cons_append, List.splitOn_cons_eq_if_modifyHead, if_neg (by simpa using Ne.symm hname.1),
        ih hname.2, List.modifyHead_modifyHead]
      rfl

/-- A name as a directory holds it. -/
structure IsName (name : List UInt8) : Prop where
  whole : slash ∉ name
  named : piece? name = some (.normal name)

/-- The bytes of the absolute path of some names. -/
def bytes (names : List (List UInt8)) : List UInt8 := names.flatMap (slash :: ·)

theorem splitOn_bytes {names : List (List UInt8)} (hnames : ∀ name ∈ names, IsName name)
    (path : List UInt8) :
    (bytes names ++ slash :: path).splitOn slash = [] :: (names ++ path.splitOn slash) := by
  induction names with
  | nil =>
      show (slash :: path).splitOn slash = _
      rw [List.splitOn_cons_eq_if_modifyHead, if_pos (by decide)]
      rfl
  | cons name names ih =>
      rw [List.forall_mem_cons] at hnames
      have hbytes : bytes (name :: names) ++ slash :: path =
          slash :: (name ++ (bytes names ++ slash :: path)) := by
        simp [bytes]
      rw [hbytes, List.splitOn_cons_eq_if_modifyHead, if_pos (by decide),
        splitOn_append hnames.1.whole, ih hnames.2, List.modifyHead_cons, List.append_nil]
      rfl

theorem filterMap_names {names : List (List UInt8)} (hnames : ∀ name ∈ names, IsName name) :
    names.filterMap piece? = names.map .normal := by
  induction names with
  | nil => rfl
  | cons name names ih =>
      rw [List.forall_mem_cons] at hnames
      rw [List.filterMap_cons_some hnames.1.named, ih hnames.2, List.map_cons]

theorem piece?_eq_normal {piece : List UInt8} :
    piece? piece = some (.normal piece) ↔ piece ≠ [] ∧ piece ≠ [dot] ∧ piece ≠ [dot, dot] := by
  unfold piece?
  split_ifs with hskipped hparent
  · refine ⟨fun h => ?_, fun h => ?_⟩
    · cases h
    · exact absurd hskipped (not_or.mpr ⟨h.1, h.2.1⟩)
  · refine ⟨fun h => ?_, fun h => ?_⟩
    · cases h
    · exact absurd hparent h.2.2
  · exact ⟨fun _ => ⟨(not_or.mp hskipped).1, (not_or.mp hskipped).2, hparent⟩, fun _ => rfl⟩

/-- A longer name is no dots. -/
theorem piece?_append {name more : List UInt8} (hname : piece? name = some (.normal name))
    (hmore : more ≠ []) : piece? (name ++ more) = some (.normal (name ++ more)) := by
  rw [piece?_eq_normal] at hname ⊢
  obtain ⟨hempty, hdot, -⟩ := hname
  obtain ⟨byte, rest, rfl⟩ := List.exists_cons_of_ne_nil hempty
  obtain ⟨next, others, rfl⟩ := List.exists_cons_of_ne_nil hmore
  cases rest with
  | nil =>
      refine ⟨List.cons_ne_nil _ _, fun h => ?_, fun h => ?_⟩
      · cases h
      · rw [List.singleton_append, List.cons.injEq] at h
        exact hdot (by rw [h.1])
  | cons byte' rest =>
      refine ⟨List.cons_ne_nil _ _, fun h => ?_, fun h => ?_⟩
      · cases h
      · have hlength := congrArg List.length h
        simp at hlength

/-- The components of a path that begins with the bytes of another and goes on within the last
name. -/
theorem components_sibling {init : List (List UInt8)} {last suffix : List UInt8}
    (hinit : ∀ name ∈ init, IsName name) (hlast : IsName last) (hsuffix : suffix ≠ [])
    (hslash : suffix.head? ≠ some slash) :
    ∃ other rest, other ≠ last ∧
      components (bytes (init ++ [last]) ++ suffix) =
        absolutePath init ++ .normal other :: rest := by
  obtain ⟨byte, more, rfl⟩ := List.exists_cons_of_ne_nil hsuffix
  have hbyte : ¬ (byte == slash) = true := by
    rw [beq_iff_eq]
    rintro rfl
    exact hslash rfl
  obtain ⟨head, tail, hmore⟩ := List.exists_cons_of_ne_nil (List.splitOn_ne_nil slash more)
  have hpieces : (last ++ byte :: more).splitOn slash = (last ++ byte :: head) :: tail := by
    rw [splitOn_append hlast.whole, List.splitOn_cons_eq_if_modifyHead, if_neg hbyte, hmore]
    rfl
  have hbytes : bytes (init ++ [last]) ++ byte :: more =
      bytes init ++ slash :: (last ++ byte :: more) := by
    simp [bytes]
  have habsolute : isAbsolute (bytes init ++ slash :: (last ++ byte :: more)) = true := by
    cases init <;> rfl
  refine ⟨last ++ byte :: head, tail.filterMap piece?, ?_, ?_⟩
  · intro heq
    have hlength := congrArg List.length heq
    rw [List.length_append, List.length_cons] at hlength
    omega
  · rw [hbytes, components, if_pos habsolute, body, splitOn_bytes hinit, hpieces,
      List.filterMap_cons_none rfl, List.filterMap_append, filterMap_names hinit,
      List.filterMap_cons_some (piece?_append hlast.named (List.cons_ne_nil _ _))]
    rfl

/-- Where nothing leaves a name again, a path is its own normal form. -/
theorem normalize_of_forall {path : Path}
    (h : ∀ component ∈ path, ∃ name, component = .normal name) :
    normalize (.rootDir :: path) = .rootDir :: path := by
  obtain ⟨names, rfl⟩ : ∃ names : List (List UInt8), path = names.map .normal := by
    induction path with
    | nil => exact ⟨[], rfl⟩
    | cons component path ih =>
        rw [List.forall_mem_cons] at h
        obtain ⟨⟨name, rfl⟩, hpath⟩ := h
        obtain ⟨names, rfl⟩ := ih hpath
        exact ⟨name :: names, rfl⟩
  exact normalize_absolutePath names

/-- An absolute path without a step back is its own normal form. -/
theorem normalize_components {path : List UInt8} (habsolute : isAbsolute path = true)
    (hparent : Component.parentDir ∉ components path) :
    normalize (components path) = components path := by
  rw [components, if_pos habsolute] at hparent ⊢
  refine normalize_of_forall fun component hcomponent => ?_
  obtain ⟨piece, -, hpiece⟩ := List.mem_filterMap.mp hcomponent
  unfold piece? at hpiece
  split_ifs at hpiece
  · cases hpiece
    exact absurd (List.mem_cons_of_mem _ hcomponent) hparent
  · cases hpiece
    exact ⟨piece, rfl⟩

end Encoding.Paths
