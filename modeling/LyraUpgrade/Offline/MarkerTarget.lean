import LyraUpgrade.Encoding.Lines
import LyraUpgrade.Encoding.Paths

/-!
# Whose marker it is

`offline/src/request.rs`: the link `/system-update` tells an updater at boot that it has work.
The target of the link says whose work it is, and that is decided by its text; only a target
under the state root is looked at in the file system.

The checks are made one after the other on the file system as it stands (`Layout`); reading it
does not fail otherwise.

## Main definitions

* `resolve`: the decision.
* `absoluteTarget`: the target as written, behind the directory of the marker.
* `Owned`, `Foreign`: the two answers.

## Main results

* `resolve_exact`: when each of them is given.
-/

namespace LyraUpgrade.Request

open Encoding Encoding.Paths

/-! ## The decision -/

/-- What the operating system says of a failure. -/
def ioErrorText : IoError → String
  | .notFound => "No such file or directory (os error 2)"
  | .notADirectory => "Not a directory (os error 20)"
  | .filesystemLoop => "Too many levels of symbolic links (os error 40)"
  | .invalidInput => "Invalid argument (os error 22)"

/-- The target of the marker, as written. -/
def absoluteTarget (marker : Path) (target : List UInt8) : Except String Path :=
  if isAbsolute target then .ok (components target)
  else match parent marker with
    | none => .error "marker has no parent"
    | some directory => .ok (join directory target)

/-- `fs::canonicalize`, with the text of its error. -/
def canonicalizeOr (layout : Layout) (context : String) (path : Path) : Except String Path :=
  (layout.canonicalize path).mapError fun error => context ++ ": " ++ ioErrorText error

/-- The directory is where the normal form says. -/
def isExpected (normalized canonicalRoot directory : Path) : Except String Bool :=
  if parent directory ≠ some canonicalRoot then .ok false
  else match fileName normalized with
    | none => .error "missing operation id"
    | some name => .ok (directory = canonicalRoot ++ [.normal name])

/-- The checks of a target that lies under the root. -/
def resolveOwned (layout : Layout) (root normalized : Path) : Except String (Option Path) :=
  if parent normalized ≠ some root then
    .error "Lyra offline marker must name one operation directly under the state root"
  else do
    let canonicalRoot ← canonicalizeOr layout "cannot resolve Lyra offline state root" root
    let directory ← canonicalizeOr layout "cannot resolve Lyra offline operation" normalized
    let expected ← isExpected normalized canonicalRoot directory
    if !expected then .error "Lyra offline operation resolves outside its expected directory"
    else if !layout.isDir directory then .error "Lyra offline operation is not a directory"
    else .ok (some directory)

/-- `resolve`. -/
def resolve (layout : Layout) (marker root : Path) : Except String (Option Path) :=
  match layout.readLink marker with
  | .error .notFound => .ok none
  | .error error => .error ("cannot read offline update marker: " ++ ioErrorText error)
  | .ok target => do
      let absolute ← absoluteTarget marker target
      let normalized := normalize absolute
      -- foreign destinations are not looked at
      if !root.isPrefixOf absolute && !root.isPrefixOf normalized then .ok none
      else resolveOwned layout root normalized

/-! ## The answers -/

section

variable (layout : Layout) (marker : Path) (names : List (List UInt8))

/-- The marker names one operation under the root, and its directory really stands there: `names`
resolve to `real`, and under `real` the operation's name is a directory's own. -/
def Owned (directory : Path) : Prop :=
  ∃ target absolute name real, layout.readLink marker = .ok target ∧
    absoluteTarget marker target = .ok absolute ∧
    normalize absolute = absolutePath (names ++ [name]) ∧
    layout.canonicalize (absolutePath names) = .ok (absolutePath real) ∧
    layout.node (real ++ [name]) = some .directory ∧
    directory = absolutePath (real ++ [name])

/-- There is no marker. -/
def Absent : Prop := layout.readLink marker = .error .notFound

/-- Neither the target as written nor its normal form lies under the root. -/
def Foreign : Prop :=
  ∃ target absolute, layout.readLink marker = .ok target ∧
    absoluteTarget marker target = .ok absolute ∧
    ¬ absolutePath names <+: absolute ∧ ¬ absolutePath names <+: normalize absolute

end

/-! ## The checks -/

variable {layout : Layout} {marker : Path} {names : List (List UInt8)}

/-- A marker that is read has a directory. -/
theorem exists_absoluteTarget {target : List UInt8} (h : layout.readLink marker = .ok target) :
    ∃ absolute, absoluteTarget marker target = .ok absolute := by
  obtain ⟨init, name, rfl⟩ := Layout.exists_of_readLink h
  have hparent : parent (init ++ [.normal name]) = some init := by
    rw [parent, List.getLast?_concat, List.dropLast_concat]
  unfold absoluteTarget
  split_ifs
  · exact ⟨_, rfl⟩
  · rw [hparent]
    exact ⟨_, rfl⟩

theorem canonicalizeOr_eq_ok {context : String} {path directory : Path} :
    canonicalizeOr layout context path = .ok directory ↔
      layout.canonicalize path = .ok directory := by
  rw [canonicalizeOr]
  cases layout.canonicalize path with
  | error error => exact ⟨fun h => (by cases h), fun h => (by cases h)⟩
  | ok path => rw [Except.mapError, Except.ok.injEq, Except.ok.injEq]

/-- The operation's directory under the canonical root. -/
theorem isExpected_eq (name : List UInt8) (real place : List (List UInt8)) :
    isExpected (absolutePath (names ++ [name])) (absolutePath real) (absolutePath place) =
      .ok (place = real ++ [name]) := by
  unfold isExpected
  split_ifs with hparent
  · have hne : place ≠ real ++ [name] := by
      rintro rfl
      exact hparent (parent_absolutePath_concat real name)
    rw [decide_eq_false hne]
  · have hplace : decide (absolutePath place = absolutePath real ++ [.normal name]) =
        decide (place = real ++ [name]) := by
      rw [← absolutePath_concat]
      exact decide_eq_decide.mpr absolutePath_injective.eq_iff
    rw [fileName_absolutePath_concat]
    dsimp only
    rw [hplace]

/-- What the checks of a target under the root accept. -/
theorem resolveOwned_eq_ok {normalized : Path} (hnormal : IsNormal normalized)
    {answer : Option Path} :
    resolveOwned layout (absolutePath names) normalized = .ok answer ↔
      ∃ name real, normalized = absolutePath (names ++ [name]) ∧
        layout.canonicalize (absolutePath names) = .ok (absolutePath real) ∧
        layout.node (real ++ [name]) = some .directory ∧
        answer = some (absolutePath (real ++ [name])) := by
  unfold resolveOwned
  constructor
  · intro h
    split_ifs at h with hparent
    rw [not_not, hnormal.parent_eq] at hparent
    obtain ⟨name, rfl⟩ := hparent
    obtain ⟨canonicalRoot, hroot, h⟩ := bind_eq_ok.mp h
    obtain ⟨directory, hdirectory, h⟩ := bind_eq_ok.mp h
    rw [canonicalizeOr_eq_ok] at hroot hdirectory
    obtain ⟨real, rfl, -⟩ := Layout.exists_of_canonicalize hroot
    obtain ⟨place, rfl, hreal⟩ := Layout.exists_of_canonicalize hdirectory
    rw [isExpected_eq] at h
    obtain ⟨expected, hexpected, h⟩ := bind_eq_ok.mp h
    cases hexpected
    split_ifs at h with hplace hdir
    simp only [Bool.not_eq_true', decide_eq_false_iff_not, not_not] at hplace
    subst hplace
    rw [Bool.not_eq_true, Bool.not_eq_false', Layout.isDir_absolutePath hreal] at hdir
    cases h
    exact ⟨name, real, rfl, hroot, hdir, rfl⟩
  · rintro ⟨name, real, rfl, hroot, hnode, rfl⟩
    have hreal : layout.Real (real ++ [name]) := Or.inr hnode
    have hdirectory := (Layout.canonicalize_child hroot).mpr hreal
    have hdir := (Layout.isDir_absolutePath hreal).mpr hnode
    rw [if_neg (not_not.mpr (parent_absolutePath_concat names name))]
    refine bind_eq_ok.mpr ⟨_, canonicalizeOr_eq_ok.mpr hroot, ?_⟩
    refine bind_eq_ok.mpr ⟨_, canonicalizeOr_eq_ok.mpr hdirectory, ?_⟩
    rw [isExpected_eq]
    refine bind_eq_ok.mpr ⟨true, ?_, ?_⟩
    · rw [decide_eq_true rfl]
    · rw [hdir]
      rfl

/-! ## When each answer is given -/

/-- What `resolve` does with a marker that is there. -/
theorem resolve_of_readLink {target : List UInt8} {absolute : Path}
    (hlink : layout.readLink marker = .ok target)
    (habsolute : absoluteTarget marker target = .ok absolute) :
    resolve layout marker (absolutePath names) =
      if ¬ absolutePath names <+: absolute ∧ ¬ absolutePath names <+: normalize absolute then
        .ok none
      else resolveOwned layout (absolutePath names) (normalize absolute) := by
  rw [resolve, hlink]
  dsimp only
  rw [habsolute]
  show (if _ then _ else _) = _
  congr 1
  simp only [← List.isPrefixOf_iff_prefix, Bool.and_eq_true, Bool.not_eq_true', Bool.not_eq_true]

/-- The answers of `resolve`, all of them. -/
theorem resolve_cases (layout : Layout) (marker : Path) (names : List (List UInt8)) :
    (∃ error, layout.readLink marker = .error error ∧
      ∀ answer, resolve layout marker (absolutePath names) = .ok answer ↔
        error = .notFound ∧ answer = none) ∨
    ∃ target absolute, layout.readLink marker = .ok target ∧
      absoluteTarget marker target = .ok absolute ∧
      resolve layout marker (absolutePath names) =
        if ¬ absolutePath names <+: absolute ∧ ¬ absolutePath names <+: normalize absolute then
          .ok none
        else resolveOwned layout (absolutePath names) (normalize absolute) := by
  cases hlink : layout.readLink marker with
  | error error =>
      left
      refine ⟨error, rfl, fun answer => ?_⟩
      rw [resolve, hlink]
      cases error <;> simp [eq_comm]
  | ok target =>
      right
      obtain ⟨absolute, habsolute⟩ := exists_absoluteTarget hlink
      exact ⟨target, absolute, rfl, habsolute, resolve_of_readLink hlink habsolute⟩

/-- One more name lies under the root. -/
theorem prefix_child (names : List (List UInt8)) (name : List UInt8) :
    absolutePath names <+: absolutePath (names ++ [name]) := by
  rw [absolutePath_concat]
  exact List.prefix_append _ _

theorem resolve_eq_some {directory : Path} :
    resolve layout marker (absolutePath names) = .ok (some directory) ↔
      Owned layout marker names directory := by
  rcases resolve_cases layout marker names with
    ⟨error, hlink, hanswers⟩ | ⟨target, absolute, hlink, habsolute, hresolve⟩
  · rw [hanswers]
    constructor
    · rintro ⟨-, h⟩
      cases h
    · rintro ⟨target, absolute, name, real, hother, -⟩
      rw [hlink] at hother
      cases hother
  · rw [hresolve]
    constructor
    · intro h
      split_ifs at h with hforeign
      · cases h
      · obtain ⟨name, real, hnormal, hroot, hnode, heq⟩ :=
          (resolveOwned_eq_ok (isNormal_normalize absolute)).mp h
        cases heq
        exact ⟨target, absolute, name, real, hlink, habsolute, hnormal, hroot, hnode, rfl⟩
    · rintro ⟨other, otherAbsolute, name, real, hother, hotherAbsolute, hnormal, hroot, hnode, rfl⟩
      obtain rfl := Except.ok.inj (hlink.symm.trans hother)
      obtain rfl := Except.ok.inj (habsolute.symm.trans hotherAbsolute)
      have hunder : absolutePath names <+: normalize absolute := by
        rw [hnormal]
        exact prefix_child names name
      rw [if_neg fun hforeign => hforeign.2 hunder]
      exact (resolveOwned_eq_ok (isNormal_normalize absolute)).mpr
        ⟨name, real, hnormal, hroot, hnode, rfl⟩

theorem resolve_eq_none :
    resolve layout marker (absolutePath names) = .ok none ↔
      Absent layout marker ∨ Foreign layout marker names := by
  rcases resolve_cases layout marker names with
    ⟨error, hlink, hanswers⟩ | ⟨target, absolute, hlink, habsolute, hresolve⟩
  · rw [hanswers, Absent, hlink, Except.error.injEq]
    constructor
    · exact fun h => Or.inl h.1
    · rintro (rfl | ⟨target, absolute, hother, -⟩)
      · exact ⟨rfl, rfl⟩
      · rw [hlink] at hother
        cases hother
  · rw [hresolve]
    constructor
    · intro h
      split_ifs at h with hforeign
      · exact Or.inr ⟨target, absolute, hlink, habsolute, hforeign⟩
      · obtain ⟨_, _, _, _, _, heq⟩ := (resolveOwned_eq_ok (isNormal_normalize absolute)).mp h
        cases heq
    · rintro (habsent | ⟨other, otherAbsolute, hother, hotherAbsolute, hforeign⟩)
      · rw [Absent, hlink] at habsent
        cases habsent
      · obtain rfl := Except.ok.inj (hlink.symm.trans hother)
        obtain rfl := Except.ok.inj (habsolute.symm.trans hotherAbsolute)
        rw [if_pos hforeign]

/-- A target that goes on within the root's last name is somewhere else. -/
theorem foreign_sibling {init : List (List UInt8)} {last suffix target : List UInt8}
    (hinit : ∀ name ∈ init, IsName name) (hlast : IsName last) (hsuffix : suffix ≠ [])
    (hslash : suffix.head? ≠ some slash)
    (hparent : Component.parentDir ∉ components (bytes (init ++ [last]) ++ suffix))
    (hlink : layout.readLink marker = .ok target)
    (htarget : absoluteTarget marker target =
      .ok (components (bytes (init ++ [last]) ++ suffix))) :
    Foreign layout marker (init ++ [last]) := by
  have habsolute : isAbsolute (bytes (init ++ [last]) ++ suffix) = true := by
    cases init <;> rfl
  obtain ⟨other, rest, hother, heq⟩ := components_sibling hinit hlast hsuffix hslash
  have hnot : ¬ absolutePath (init ++ [last]) <+: components (bytes (init ++ [last]) ++ suffix) := by
    rw [heq, absolutePath_concat, List.prefix_append_right_inj]
    intro hprefix
    rw [List.cons_prefix_cons] at hprefix
    exact hother (Component.normal.inj hprefix.1).symm
  refine ⟨target, _, hlink, htarget, hnot, ?_⟩
  rw [normalize_components habsolute hparent]
  exact hnot

/-- **Whose marker it is.**  The answer is a directory if and only if the marker is owned, and
that directory; it is nothing if and only if there is no marker or it is foreign; everything
else is an error.  A target that shares with the root no more than the beginning of its last
name is foreign. -/
theorem resolve_exact (layout : Layout) (marker : Path) (names : List (List UInt8)) :
    (∀ directory, resolve layout marker (absolutePath names) = .ok (some directory) ↔
      Owned layout marker names directory) ∧
    (resolve layout marker (absolutePath names) = .ok none ↔
      Absent layout marker ∨ Foreign layout marker names) ∧
    ((∃ error, resolve layout marker (absolutePath names) = .error error) ↔
      (¬ ∃ directory, Owned layout marker names directory) ∧
      ¬ (Absent layout marker ∨ Foreign layout marker names)) ∧
    ∀ init last suffix target, names = init ++ [last] → (∀ name ∈ names, IsName name) →
      suffix ≠ [] → suffix.head? ≠ some slash →
      Component.parentDir ∉ components (bytes names ++ suffix) →
      layout.readLink marker = .ok target →
      absoluteTarget marker target = .ok (components (bytes names ++ suffix)) →
      resolve layout marker (absolutePath names) = .ok none := by
  refine ⟨fun directory => resolve_eq_some, resolve_eq_none, ?_, ?_⟩
  · constructor
    · rintro ⟨error, h⟩
      refine ⟨fun ⟨directory, howned⟩ => ?_, fun hnone => ?_⟩
      · rw [resolve_eq_some.mpr howned] at h
        cases h
      · rw [resolve_eq_none.mpr hnone] at h
        cases h
    · rintro ⟨hnot, hsome⟩
      cases h : resolve layout marker (absolutePath names) with
      | error error => exact ⟨error, rfl⟩
      | ok answer =>
          cases answer with
          | none => exact absurd (resolve_eq_none.mp h) hsome
          | some directory => exact absurd ⟨directory, resolve_eq_some.mp h⟩ hnot
  · rintro init last suffix target rfl hnames hsuffix hslash hparent hlink htarget
    rw [List.forall_mem_append, List.forall_mem_singleton] at hnames
    exact resolve_eq_none.mpr <| Or.inr <|
      foreign_sibling hnames.1 hnames.2 hsuffix hslash hparent hlink htarget

/-! ### A sample -/

/-- The names of the state root. -/
def stateNames : List (List UInt8) :=
  ["var", "lib", "lyra-upgrade", "operations"].map fun name => utf8 name.toList

def sampleJob : List UInt8 := utf8 "job".toList

def systemUpdate : List UInt8 := utf8 "system-update".toList

/-- The marker points at one operation, and nothing else is there. -/
def sampleLayout : Layout where
  node place :=
    if place = [systemUpdate] then some (.symlink (bytes (stateNames ++ [sampleJob])))
    else if place <+: stateNames ++ [sampleJob] then some .directory
    else none
  root := by decide +kernel
  closed place name h := by
    by_cases hlink : place ++ [name] = [systemUpdate]
    · have hplace : place = [] := by
        have := congrArg List.dropLast hlink
        rwa [List.dropLast_concat] at this
      rw [hplace]
      decide +kernel
    · rw [if_neg hlink] at h
      have hwhole : place ++ [name] <+: stateNames ++ [sampleJob] := by
        by_contra hnot
        exact h (if_neg hnot)
      have hprefix := (List.prefix_append place [name]).trans hwhole
      have hother : place ≠ [systemUpdate] := by
        rintro rfl
        exact absurd hprefix (by decide +kernel)
      rw [if_neg hother, if_pos hprefix]
  target place := by
    split_ifs <;> simp [bytes, stateNames]

/-- The operation of the sample is found; and where the state root's name goes on, the same
marker is foreign. -/
theorem resolve_exact_sample :
    resolve sampleLayout (absolutePath [systemUpdate]) (absolutePath stateNames) =
      .ok (some (absolutePath (stateNames ++ [sampleJob]))) ∧
    resolve sampleLayout (absolutePath [systemUpdate])
      (absolutePath (stateNames ++ [utf8 "jo".toList])) = .ok none := by
  have hlink : sampleLayout.readLink (absolutePath [systemUpdate]) =
      .ok (bytes (stateNames ++ [sampleJob])) := by decide +kernel
  have habsolute : absoluteTarget (absolutePath [systemUpdate])
      (bytes (stateNames ++ [sampleJob])) = .ok (absolutePath (stateNames ++ [sampleJob])) := by
    decide +kernel
  refine ⟨((resolve_exact _ _ _).1 _).mpr ⟨_, _, sampleJob, stateNames, hlink, habsolute,
    normalize_absolutePath _, ?_, ?_, rfl⟩, ?_⟩
  · decide +kernel
  · decide +kernel
  · refine (resolve_exact _ _ _).2.2.2 stateNames (utf8 "jo".toList) (utf8 "b".toList) _ rfl ?_ ?_ ?_
      ?_ hlink ?_
    · intro name hname
      have hnames : ∀ name ∈ stateNames ++ [utf8 "jo".toList],
          slash ∉ name ∧ piece? name = some (.normal name) := by decide +kernel
      exact ⟨(hnames name hname).1, (hnames name hname).2⟩
    · decide +kernel
    · decide +kernel
    · decide +kernel
    · decide +kernel

end LyraUpgrade.Request
