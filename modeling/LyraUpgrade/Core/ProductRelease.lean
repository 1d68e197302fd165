import LyraUpgrade.Core.TextLines
import Mathlib.Data.List.Basic

/-!
# The product release of a host

`parse_release` of `core/src/discovery.rs`: the identity that a host states in
`/usr/lib/lyra-os/product-release`.  Four names are assigned there, each on one line and
in single quotes; lines of other names do not matter.

## Main results

* `StatesRelease` — a text assigns the four values of an identity, each once.
* `releaseIdentity_eq_ok` — which texts are accepted, and for which identity.
-/

namespace LyraUpgrade

inductive DiscoverError
  | commandFailed (command : String)
  | invalidRelease
  | invalidPackageInventory
  deriving DecidableEq, Repr

/-! ## Assignments -/

/-- `'`. -/
def singleQuote : Char := Char.ofNat 0x27

/-- The text between single quotes. -/
def quoted (value : List Char) : List Char := singleQuote :: (value ++ [singleQuote])

/-- What stands behind `NAME=` on the lines that begin so. -/
def assignedValues (content : List Char) (name : String) : List (List Char) :=
  (lines content).filterMap (stripPrefix (name.toList ++ ['=']))

/-- `parse_assignment`: the quoted value of the only line that assigns the name. -/
def parseAssignment (content : List Char) (name : String) : Option (List Char) :=
  match assignedValues content name with
  | [value] => (stripPrefix [singleQuote] value).bind (stripSuffix [singleQuote])
  | _ => none

/-- The text assigns the value to the name, and assigns the name nothing else. -/
def Assigns (content : List Char) (name value : String) : Prop :=
  assignedValues content name = [quoted value.toList]

theorem parseAssignment_eq_some {content value : List Char} {name : String} :
    parseAssignment content name = some value ↔ assignedValues content name = [quoted value] := by
  have hquoted : ∀ text, (stripPrefix [singleQuote] text).bind (stripSuffix [singleQuote]) =
      some value ↔ text = quoted value := by
    intro text
    rw [Option.bind_eq_some_iff]
    constructor
    · rintro ⟨rest, hrest, hvalue⟩
      rw [stripPrefix_eq_some.mp hrest, stripSuffix_eq_some.mp hvalue]
      rfl
    · rintro rfl
      exact ⟨value ++ [singleQuote], stripPrefix_eq_some.mpr rfl, stripSuffix_eq_some.mpr rfl⟩
  unfold parseAssignment
  split
  · next text htext => rw [hquoted, htext, List.cons.injEq, and_iff_left rfl]
  · next hnone =>
      refine ⟨fun h => (by cases h), fun h => absurd h ?_⟩
      exact hnone (quoted value)

/-! ## The release -/

/-- `is_safe_release_byte`. -/
def isSafeReleaseByte (c : Char) : Bool := c.isAlphanum || c = '.' || c = '-' || c = '_'

/-- A value that a release may state. -/
def safeReleaseValue (value : List Char) : Bool := !value.isEmpty && value.all isSafeReleaseByte

/-- `parse_release`, as `release_identity_at` returns it. -/
def releaseIdentity (content : List Char) : Except DiscoverError ReleaseIdentity :=
  if parseAssignment content "LYRA_EDITION" ≠ some "desktop".toList then .error .invalidRelease
  else match parseAssignment content "LYRA_VERSION_ID", parseAssignment content "LYRA_ARCHITECTURE",
      parseAssignment content "LYRA_BUILD_ID" with
    | some version, some architecture, some buildId =>
        if safeReleaseValue version && safeReleaseValue architecture && safeReleaseValue buildId then
          .ok ⟨String.ofList version, "desktop", String.ofList architecture, String.ofList buildId⟩
        else .error .invalidRelease
    | _, _, _ => .error .invalidRelease

/-- The text states the identity: it assigns its four values. -/
structure StatesRelease (content : List Char) (identity : ReleaseIdentity) : Prop where
  edition : Assigns content "LYRA_EDITION" identity.edition
  version : Assigns content "LYRA_VERSION_ID" identity.version
  architecture : Assigns content "LYRA_ARCHITECTURE" identity.architecture
  buildId : Assigns content "LYRA_BUILD_ID" identity.buildId

/-- An identity that a host can have. -/
structure Expressible (identity : ReleaseIdentity) : Prop where
  edition : identity.edition = "desktop"
  version : safeReleaseValue identity.version.toList
  architecture : safeReleaseValue identity.architecture.toList
  buildId : safeReleaseValue identity.buildId.toList

/-- **The identity of a text** is the one it states, if that is expressible. -/
theorem releaseIdentity_eq_ok {content : List Char} {identity : ReleaseIdentity} :
    releaseIdentity content = .ok identity ↔
      StatesRelease content identity ∧ Expressible identity := by
  unfold releaseIdentity
  constructor
  · intro h
    split_ifs at h with hedition
    split at h
    · next version architecture buildId hversion harchitecture hbuildId =>
        split_ifs at h with hsafe
        simp only [Bool.and_eq_true] at hsafe
        cases h
        rw [ne_eq, not_not] at hedition
        refine ⟨⟨?_, ?_, ?_, ?_⟩, rfl, ?_, ?_, ?_⟩
        · exact parseAssignment_eq_some.mp hedition
        · rw [Assigns, String.toList_ofList]
          exact parseAssignment_eq_some.mp hversion
        · rw [Assigns, String.toList_ofList]
          exact parseAssignment_eq_some.mp harchitecture
        · rw [Assigns, String.toList_ofList]
          exact parseAssignment_eq_some.mp hbuildId
        · rw [String.toList_ofList]
          exact hsafe.1.1
        · rw [String.toList_ofList]
          exact hsafe.1.2
        · rw [String.toList_ofList]
          exact hsafe.2
    · cases h
  · rintro ⟨hstates, hsafe⟩
    have hedition : parseAssignment content "LYRA_EDITION" = some "desktop".toList := by
      rw [← hsafe.edition]
      exact parseAssignment_eq_some.mpr hstates.edition
    rw [if_neg (not_not.mpr hedition), parseAssignment_eq_some.mpr hstates.version,
      parseAssignment_eq_some.mpr hstates.architecture, parseAssignment_eq_some.mpr hstates.buildId]
    simp only [hsafe.version, hsafe.architecture, hsafe.buildId, Bool.and_self, if_true,
      String.ofList_toList, ← hsafe.edition]

/-! ## A text that states an identity -/

/-- The line that assigns a value. -/
def assignment (name value : String) : List Char := name.toList ++ '=' :: quoted value.toList

/-- The four assignments. -/
def releaseAssignments (identity : ReleaseIdentity) : List (String × String) :=
  [("LYRA_EDITION", identity.edition), ("LYRA_VERSION_ID", identity.version),
   ("LYRA_ARCHITECTURE", identity.architecture), ("LYRA_BUILD_ID", identity.buildId)]

/-- The text with a line for each assignment. -/
def releaseText (identity : ReleaseIdentity) : List Char :=
  unlines ((releaseAssignments identity).map fun entry => assignment entry.1 entry.2)

theorem chomp_assignment (name value : String) :
    chomp (assignment name value) = assignment name value := by
  refine chomp_of_getLast? ?_
  have hlast : (assignment name value).getLast? = some singleQuote := by
    simp [assignment, quoted, List.getLast?_cons]
  rw [hlast]
  decide

/-- A line assigns one name. -/
theorem stripPrefix_assignment {name other : String} (hname : '=' ∉ name.toList)
    (hother : '=' ∉ other.toList) (value : String) :
    stripPrefix (name.toList ++ ['=']) (assignment other value) =
      if other = name then some (quoted value.toList) else none := by
  split_ifs with hsame
  · rw [stripPrefix_eq_some, assignment, hsame]
    simp
  · refine Option.eq_none_iff_forall_not_mem.mpr fun rest hrest => hsame ?_
    have hline := stripPrefix_eq_some.mp hrest
    rw [assignment, List.append_assoc, List.singleton_append] at hline
    have hkeys := congrArg (splitOnce '=') hline
    rw [splitOnce_append hother, splitOnce_append hname, Option.some.injEq, Prod.mk.injEq] at hkeys
    exact String.toList_injective hkeys.1

/-- The names of a release are lines without an equals sign. -/
theorem releaseAssignments_names {identity : ReleaseIdentity} {entry : String × String}
    (h : entry ∈ releaseAssignments identity) :
    '\n' ∉ entry.1.toList ∧ '=' ∉ entry.1.toList := by
  have hnames : ∀ name ∈ ["LYRA_EDITION", "LYRA_VERSION_ID", "LYRA_ARCHITECTURE", "LYRA_BUILD_ID"],
      '\n' ∉ name.toList ∧ '=' ∉ name.toList := by
    decide +kernel
  exact hnames entry.1 (List.mem_map_of_mem (f := Prod.fst) h)

/-- What the text assigns to a name. -/
theorem assignedValues_releaseText {identity : ReleaseIdentity} {name : String}
    (hvalues : ∀ entry ∈ releaseAssignments identity, '\n' ∉ entry.2.toList)
    (hname : '=' ∉ name.toList) :
    assignedValues (releaseText identity) name = (releaseAssignments identity).filterMap fun entry =>
      if entry.1 = name then some (quoted entry.2.toList) else none := by
  have hlines : ∀ line ∈ (releaseAssignments identity).map fun entry => assignment entry.1 entry.2,
      '\n' ∉ line := by
    intro line hline
    obtain ⟨entry, hentry, rfl⟩ := List.mem_map.mp hline
    have hquote : '\n' ≠ singleQuote := by decide
    simp [assignment, quoted, (releaseAssignments_names hentry).1, hvalues entry hentry, hquote]
  rw [assignedValues, releaseText, lines_unlines hlines, List.map_map, List.filterMap_map]
  refine List.filterMap_congr fun entry hentry => ?_
  rw [Function.comp_apply, Function.comp_apply, chomp_assignment,
    stripPrefix_assignment hname (releaseAssignments_names hentry).2]

/-- **Every identity of single lines can be stated.** -/
theorem statesRelease_releaseText {identity : ReleaseIdentity}
    (hvalues : ∀ entry ∈ releaseAssignments identity, '\n' ∉ entry.2.toList) :
    StatesRelease (releaseText identity) identity := by
  have hname : ∀ entry ∈ releaseAssignments identity,
      Assigns (releaseText identity) entry.1 entry.2 := by
    intro entry hentry
    rw [Assigns, assignedValues_releaseText hvalues (releaseAssignments_names hentry).2]
    simp only [releaseAssignments, List.mem_cons, List.not_mem_nil, or_false] at hentry
    rcases hentry with rfl | rfl | rfl | rfl <;> simp [releaseAssignments]
  simp only [releaseAssignments, List.forall_mem_cons] at hname
  exact ⟨hname.1, hname.2.1, hname.2.2.1, hname.2.2.2.1⟩

end LyraUpgrade
