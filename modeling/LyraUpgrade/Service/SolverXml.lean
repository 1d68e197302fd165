import LyraUpgrade.Core.Solver
import LyraUpgrade.Encoding.Result
import LyraUpgrade.Encoding.Xml

/-!
# The output of the solver

`service/src/solver_xml.rs`: the summary of a dry run, read event by event.  What counts
is where an element stands: a package is a `solvable` directly below a section of the
summary, and the section says what is done to it.  A package that stands in several
sections is one change (`insertChange`).

`parseSolverXml_reports` is the result: no package of a section the parser knows is lost.
-/

namespace LyraUpgrade

open Encoding

/-- `SolverXmlError`, with the texts of the source. -/
inductive SolverXmlError
  | xml
  | invalidNumber (field : String)
  | missingSummary
  | invalidPackage (field : String)
  | conflictingPackage
  | architectureChange
  deriving DecidableEq, Repr

/-- `section_action`. -/
def sectionAction : String → Option PackageAction
  | "to-install" => some .install
  | "to-remove" => some .remove
  | "to-upgrade" | "to-upgrade-change-arch" => some .upgrade
  | "to-downgrade" | "to-downgrade-change-arch" => some .downgrade
  | "to-reinstall" | "to-change-arch" | "to-change-vendor" => some .reinstall
  | _ => none

/-! ## Attributes -/

/-- `attribute`. -/
def elementAttribute (element : Xml.Element) (name : String) : Except SolverXmlError (Option String) :=
  match element.get? name with
  | .error _ => .error .xml
  | .ok value => .ok value

/-- An attribute that has to be there and must not be empty. -/
def requiredAttribute (element : Xml.Element) (name field : String) :
    Except SolverXmlError String := do
  match (← elementAttribute element name).filter (!·.isEmpty) with
  | some value => return value
  | none => throw (.invalidPackage field)

/-- `required_number`. -/
def requiredNumber (element : Xml.Element) (name : String) : Except SolverXmlError ℕ := do
  match (← elementAttribute element name).bind fun value => parseU64 value.toList with
  | some n => return n
  | none => throw (.invalidNumber "unsigned summary field")

/-- `required_signed_number`. -/
def requiredSignedNumber (element : Xml.Element) (name : String) : Except SolverXmlError ℤ := do
  match (← elementAttribute element name).bind fun value => parseI64 value.toList with
  | some n => return n
  | none => throw (.invalidNumber "signed summary field")

/-! ## Summary and packages -/

structure Summary where
  packagesToChange : ℕ
  downloadBytes : ℕ
  spaceUsageDiff : ℤ
  snapshotBytes : ℕ
  needReboot : Bool
  deriving DecidableEq, Repr

/-- `parse_summary`. -/
def parseSummary (element : Xml.Element) : Except SolverXmlError Summary := do
  let packagesToChange ← requiredNumber element "packages-to-change"
  let downloadBytes ← requiredNumber element "download-size"
  let spaceUsageDiff ← requiredSignedNumber element "space-usage-diff"
  let spaceUsageInstalled ← requiredNumber element "space-usage-installed"
  let spaceUsageRemoved ← requiredNumber element "space-usage-removed"
  let needReboot ← elementAttribute element "need-reboot"
  return { packagesToChange, downloadBytes, spaceUsageDiff
           snapshotBytes := saturatingAdd spaceUsageInstalled spaceUsageRemoved
           needReboot := needReboot.any fun value => value = "true" || value = "1" }

/-- The versions before and after. -/
def solvableVersions (action : PackageAction) (version : String) (old : Option String) :
    Except SolverXmlError (Option String × Option String) :=
  match action, old with
  | .remove, _ => .ok (some version, none)
  | .install, _ => .ok (none, some version)
  | _, some old => .ok (some old, some version)
  | _, none => .error (.invalidPackage "edition-old")

/-- The repository of a candidate; a removal has none. -/
def solvableRepository (element : Xml.Element) (action : PackageAction) :
    Except SolverXmlError (Option String) :=
  if action = .remove then .ok none else elementAttribute element "repository"

/-- A package of a section.  An architecture that changes is refused: the contract cannot
say which package is meant. -/
def parsePackage (element : Xml.Element) (action : PackageAction) :
    Except SolverXmlError PackageChange := do
  let name ← requiredAttribute element "name" "name"
  let architecture ← requiredAttribute element "arch" "architecture"
  if (← elementAttribute element "arch-old").any (· ≠ architecture) then throw .architectureChange
  let version ← requiredAttribute element "edition" "edition"
  let old ← elementAttribute element "edition-old"
  let versions ← solvableVersions action version old
  let repository ← solvableRepository element action
  return { name, architecture, action
           currentVersion := versions.1, proposedVersion := versions.2
           currentVendor := none, proposedVendor := none, repositoryAlias := repository
           downloadBytes := 0, installedSizeBefore := 0, installedSizeAfter := 0 }

/-- `parse_solvable`: what is not a package is passed over. -/
def parseSolvable (element : Xml.Element) (action : PackageAction) :
    Except SolverXmlError (Option PackageChange) := do
  match ← elementAttribute element "type" with
  | some "pattern" | some "product" | some "patch" | some "application" => return none
  | some "package" => some <$> parsePackage element action
  | _ => throw (.invalidPackage "unsupported solvable type")

/-- What identifies a change while it is collected. -/
def PackageChange.key (self : PackageChange) :
    String × String × Option String × Option String × Option String :=
  (self.name, self.architecture, self.currentVersion, self.proposedVersion, self.repositoryAlias)

/-- One change for each key: a reinstallation gives way to what else is done to the
package, and two other actions exclude each other. -/
def insertChange (change : PackageChange) :
    List PackageChange → Except SolverXmlError (List PackageChange)
  | [] => .ok [change]
  | existing :: changes =>
      if existing.key = change.key then
        if existing.action = change.action then .ok (existing :: changes)
        else if existing.action = .reinstall then
          .ok ({ existing with action := change.action } :: changes)
        else if change.action = .reinstall then .ok (existing :: changes)
        else .error .conflictingPackage
      else (existing :: ·) <$> insertChange change changes

/-! ## The loop -/

/-- The variables of the loop; `path` are the open elements, the innermost first. -/
structure SolverParse where
  path : List String := []
  changes : List PackageChange := []
  problems : List String := []
  summary : Option Summary := none
  inErrorMessage : Bool := false

namespace SolverParse

def readSummary (self : SolverParse) (element : Xml.Element) :
    Except SolverXmlError SolverParse := do
  if element.name ≠ "install-summary" then return self
  if self.summary.isSome || self.path ≠ ["stream"] then
    throw (.invalidPackage "duplicate or misplaced summary")
  let summary ← parseSummary element
  return { self with summary := some summary }

/-- The action of the section that is open, directly below a summary. -/
def section? (self : SolverParse) : Option PackageAction :=
  match self.path with
  | [name, "install-summary", _] => sectionAction name
  | _ => none

def readSolvable (self : SolverParse) (element : Xml.Element) :
    Except SolverXmlError SolverParse := do
  if element.name ≠ "solvable" then return self
  match self.section? with
  | none => return self
  | some action =>
      match ← parseSolvable element action with
      | none => return self
      | some change => return { self with changes := ← insertChange change self.changes }

def readMessage (self : SolverParse) (element : Xml.Element) :
    Except SolverXmlError SolverParse := do
  if element.name ≠ "message" then return self
  if (← elementAttribute element "type") = some "error" then
    return { self with
      inErrorMessage := true, problems := self.problems ++ ["zypper reported an error"] }
  return { self with inErrorMessage := false }

def readElement (self : SolverParse) (element : Xml.Element) :
    Except SolverXmlError SolverParse := do
  let self ← self.readSummary element
  let self ← self.readSolvable element
  self.readMessage element

/-- One event. -/
def step (self : SolverParse) : Xml.Event → Except SolverXmlError SolverParse
  | .start element => do
      let self ← self.readElement element
      if 32 ≤ self.path.length then throw (.invalidPackage "excessive nesting")
      return { self with path := element.name :: self.path }
  | .empty element => self.readElement element
  | .text content =>
      if self.inErrorMessage then
        match content with
        | none => .error .xml
        | some value =>
            let value := trim value.toList
            if value.isEmpty then .ok self
            else .ok { self with problems := self.problems ++ [String.ofList value] }
      else .ok self
  | .close name => .ok
      { self with
        path := self.path.tail
        inErrorMessage := if name = "message" then false else self.inErrorMessage }
  | .docType => .error (.invalidPackage "DTD not allowed")
  | .malformed => .error .xml
  | _ => .ok self

/-- What is checked and normalized after the last event. -/
def finish (self : SolverParse) (metadataValidRepositories : List String)
    (estimatedSnapshotBytes : ℕ) : Except SolverXmlError SolverResult :=
  match self.summary with
  | none => .error .missingSummary
  | some summary =>
      if !self.path.isEmpty || self.changes.length ≠ summary.packagesToChange ||
          self.changes.any (fun change =>
            change.action = .reinstall && change.currentVersion ≠ change.proposedVersion) then
        .error .conflictingPackage
      else
        let problems := dedup (sort self.problems)
        .ok
          { schemaVersion := 1
            successful := problems.isEmpty
            problems := problems
            metadataValidRepositories := metadataValidRepositories
            changes := sort self.changes
            downloadBytes := summary.downloadBytes
            transactionSizeIncrease := summary.spaceUsageDiff.toNat
            estimatedSnapshotBytes := max estimatedSnapshotBytes summary.snapshotBytes
            rebootRequired := summary.needReboot }

end SolverParse

/-- `parse_solver_xml`. -/
def parseSolverXml (xml : List Xml.Event) (metadataValidRepositories : List String)
    (estimatedSnapshotBytes : ℕ) : Except SolverXmlError SolverResult := do
  let parsed ← xml.foldlM SolverParse.step {}
  parsed.finish metadataValidRepositories estimatedSnapshotBytes

/-! ## No package is lost -/

/-- A package that the summary reports below a section of an action. -/
structure ReportedPackage (xml : List Xml.Event) (action : PackageAction)
    (element : Xml.Element) : Prop where
  inSection : ∃ root name, sectionAction name = some action ∧
    Xml.Within xml [name, "install-summary", root] element
  solvable : element.name = "solvable"
  package : elementAttribute element "type" = .ok (some "package")

section

variable {xml : List Xml.Event} {state state' : SolverParse} {element : Xml.Element}
variable {event : Xml.Event} {action : PackageAction} {change existing : PackageChange}
variable {changes changes' : List PackageChange}

/-- Collecting a change keeps every key and adds its own. -/
theorem insertChange_keys (h : insertChange change changes = .ok changes') :
    ∀ c ∈ change :: changes, ∃ c' ∈ changes', c'.key = c.key := by
  induction changes generalizing changes' with
  | nil =>
      cases h
      exact fun c hc => ⟨c, hc, rfl⟩
  | cons existing changes ih =>
      rw [insertChange] at h
      split_ifs at h with hkey haction hreinstall hgives
      · cases h
        rw [List.forall_mem_cons]
        exact ⟨⟨existing, List.mem_cons_self .., hkey⟩, fun c hc => ⟨c, hc, rfl⟩⟩
      · cases h
        rw [List.forall_mem_cons, List.forall_mem_cons]
        refine ⟨⟨_, List.mem_cons_self .., hkey⟩, ⟨_, List.mem_cons_self .., rfl⟩, fun c hc => ?_⟩
        exact ⟨c, List.mem_cons_of_mem _ hc, rfl⟩
      · cases h
        rw [List.forall_mem_cons]
        exact ⟨⟨existing, List.mem_cons_self .., hkey⟩, fun c hc => ⟨c, hc, rfl⟩⟩
      · cases hrest : insertChange change changes with
        | error e =>
            rw [hrest] at h
            cases h
        | ok rest =>
            rw [hrest] at h
            cases h
            have hmem := ih hrest
            rw [List.forall_mem_cons] at hmem ⊢
            obtain ⟨⟨c', hc', hsame⟩, hchanges⟩ := hmem
            refine ⟨⟨c', List.mem_cons_of_mem _ hc', hsame⟩, ?_⟩
            rw [List.forall_mem_cons]
            refine ⟨⟨existing, List.mem_cons_self .., rfl⟩, fun c hc => ?_⟩
            obtain ⟨c', hc', hsame⟩ := hchanges c hc
            exact ⟨c', List.mem_cons_of_mem _ hc', hsame⟩

/-- A solvable that says it is a package is read as one. -/
theorem parseSolvable_of_package {parsed : Option PackageChange}
    (hpackage : elementAttribute element "type" = .ok (some "package"))
    (h : parseSolvable element action = .ok parsed) :
    ∃ change, parsePackage element action = .ok change ∧ parsed = some change := by
  rw [parseSolvable, hpackage] at h
  change some <$> parsePackage element action = _ at h
  cases hparse : parsePackage element action with
  | error e =>
      rw [hparse] at h
      cases h
  | ok change =>
      rw [hparse] at h
      cases h
      exact ⟨change, rfl, rfl⟩

namespace SolverParse

/-- What a step leaves of the changes: it keeps every key. -/
def Keeps (state state' : SolverParse) : Prop :=
  ∀ c ∈ state.changes, ∃ c' ∈ state'.changes, c'.key = c.key

theorem Keeps.of_eq (h : state'.changes = state.changes) : Keeps state state' :=
  fun c hc => ⟨c, h ▸ hc, rfl⟩

theorem Keeps.trans {state'' : SolverParse} (h : Keeps state state') (h' : Keeps state' state'') :
    Keeps state state'' := by
  intro c hc
  obtain ⟨c', hc', hsame⟩ := h c hc
  obtain ⟨c'', hc'', hsame'⟩ := h' c' hc'
  exact ⟨c'', hc'', hsame'.trans hsame⟩

/-- The package of a section is collected. -/
def Collects (state state' : SolverParse) (element : Xml.Element) : Prop :=
  ∀ action, element.name = "solvable" → state.section? = some action →
    elementAttribute element "type" = .ok (some "package") →
    ∃ change, parsePackage element action = .ok change ∧ ∃ c ∈ state'.changes, c.key = change.key

theorem readSummary_ok (h : state.readSummary element = .ok state') :
    state'.path = state.path ∧ state'.changes = state.changes := by
  unfold readSummary at h
  split_ifs at h with hname hplace
  · cases h
    exact ⟨rfl, rfl⟩
  · cases h
  · obtain ⟨summary, -, h⟩ := bind_eq_ok.mp h
    cases h
    exact ⟨rfl, rfl⟩

theorem readMessage_ok (h : state.readMessage element = .ok state') :
    state'.path = state.path ∧ state'.changes = state.changes := by
  unfold readMessage at h
  split_ifs at h with hname
  · cases h
    exact ⟨rfl, rfl⟩
  · obtain ⟨kind, -, h⟩ := bind_eq_ok.mp h
    split_ifs at h
    · cases h
      exact ⟨rfl, rfl⟩
    · cases h
      exact ⟨rfl, rfl⟩

theorem readSolvable_ok (h : state.readSolvable element = .ok state') :
    state'.path = state.path ∧ Keeps state state' ∧ Collects state state' element := by
  unfold readSolvable at h
  split_ifs at h with hname
  · cases h
    exact ⟨rfl, .of_eq rfl, fun _ hsolvable => absurd hsolvable hname⟩
  · cases hsection : state.section? with
    | none =>
        rw [hsection] at h
        cases h
        exact ⟨rfl, .of_eq rfl, fun _ _ hsome => (by rw [hsection] at hsome; cases hsome)⟩
    | some known =>
        rw [hsection] at h
        obtain ⟨parsed, hparsed, h⟩ := bind_eq_ok.mp h
        cases parsed with
        | none =>
            cases h
            refine ⟨rfl, .of_eq rfl, fun action _ hsome hpackage => ?_⟩
            obtain rfl : known = action := Option.some.inj (hsection.symm.trans hsome)
            obtain ⟨change, -, hnone⟩ := parseSolvable_of_package hpackage hparsed
            cases hnone
        | some change =>
            obtain ⟨changes, hinsert, h⟩ := bind_eq_ok.mp h
            cases h
            have hkeys := insertChange_keys hinsert
            rw [List.forall_mem_cons] at hkeys
            refine ⟨rfl, hkeys.2, fun action _ hsome hpackage => ?_⟩
            obtain rfl : known = action := Option.some.inj (hsection.symm.trans hsome)
            obtain ⟨change', hparse, hsame⟩ := parseSolvable_of_package hpackage hparsed
            cases hsame
            exact ⟨change, hparse, hkeys.1⟩

theorem readElement_ok (h : state.readElement element = .ok state') :
    state'.path = state.path ∧ Keeps state state' ∧ Collects state state' element := by
  unfold readElement at h
  obtain ⟨state₁, hsummary, h⟩ := bind_eq_ok.mp h
  obtain ⟨state₂, hsolvable, h⟩ := bind_eq_ok.mp h
  obtain ⟨hpath₁, hchanges₁⟩ := readSummary_ok hsummary
  obtain ⟨hpath₂, hkeeps₂, hcollected⟩ := readSolvable_ok hsolvable
  obtain ⟨hpath₃, hchanges₃⟩ := readMessage_ok h
  refine ⟨hpath₃.trans (hpath₂.trans hpath₁),
    (Keeps.of_eq hchanges₁).trans (hkeeps₂.trans (.of_eq hchanges₃)),
    fun action hname hsection htype => ?_⟩
  have hsame : state₁.section? = some action := by rw [section?, hpath₁, ← hsection, section?]
  obtain ⟨change, hparse, hmem⟩ := hcollected action hname hsame htype
  exact ⟨change, hparse, by rwa [hchanges₃]⟩

/-- **One step**: the open elements are followed, no key is dropped, and the package of a
section is collected. -/
theorem step_ok (h : state.step event = .ok state') :
    state'.path = event.openElements state.path ∧ Keeps state state' ∧
    ∀ element, event.element? = some element → Collects state state' element := by
  cases event with
  | start opened =>
      obtain ⟨state₁, hread, h⟩ := bind_eq_ok.mp h
      obtain ⟨hpath, hkeeps, hcollected⟩ := readElement_ok hread
      split_ifs at h with hdeep
      · cases h
      · cases h
        refine ⟨by rw [hpath]; rfl, hkeeps, fun element hsame => ?_⟩
        cases hsame
        exact hcollected
  | empty opened =>
      obtain ⟨hpath, hkeeps, hcollected⟩ := readElement_ok h
      refine ⟨hpath, hkeeps, fun element hsame => ?_⟩
      cases hsame
      exact hcollected
  | close name =>
      cases h
      exact ⟨rfl, .of_eq rfl, fun _ hnone => (by cases hnone)⟩
  | text content =>
      have hsame : state'.path = state.path ∧ state'.changes = state.changes := by
        simp only [step] at h
        split_ifs at h with herror
        · cases content with
          | none => cases h
          | some value =>
              dsimp only at h
              split_ifs at h
              · cases h
                exact ⟨rfl, rfl⟩
              · cases h
                exact ⟨rfl, rfl⟩
        · cases h
          exact ⟨rfl, rfl⟩
      exact ⟨hsame.1, .of_eq hsame.2, fun _ hnone => (by cases hnone)⟩
  | cdata content | reference content | other =>
      cases h
      exact ⟨rfl, .of_eq rfl, fun _ hnone => (by cases hnone)⟩
  | docType | malformed => cases h

/-- **The loop**: the state follows the open elements, and every package reported so far
has a change with its key. -/
theorem foldlM_step_ok (h : xml.foldlM step {} = .ok state) :
    state.path = Xml.path xml ∧ ∀ action element, ReportedPackage xml action element →
      ∃ change, parsePackage element action = .ok change ∧
        ∃ c ∈ state.changes, c.key = change.key := by
  induction xml using List.reverseRecOn generalizing state with
  | nil =>
      cases h
      refine ⟨rfl, fun action element hreported => ?_⟩
      obtain ⟨_, _, -, hwithin⟩ := hreported.inSection
      exact absurd hwithin Xml.not_within_nil
  | append_singleton xml event ih =>
      rw [List.foldlM_append] at h
      obtain ⟨before, hbefore, h⟩ := bind_eq_ok.mp h
      obtain ⟨state', hstep, h⟩ := bind_eq_ok.mp h
      cases h
      obtain ⟨hpath, hreports⟩ := ih hbefore
      refine ⟨?_, fun action element hreported => ?_⟩
      · rw [(step_ok hstep).1, hpath, Xml.path_append_singleton]
      · obtain ⟨-, hkeeps, hcollected⟩ := step_ok hstep
        obtain ⟨⟨root, name, haction, hwithin⟩, hname, hpackage⟩ := hreported
        rcases Xml.within_append_singleton.mp hwithin with hearlier | ⟨hevent, hopen⟩
        · obtain ⟨change, hparse, c, hc, hkey⟩ :=
            hreports action element ⟨⟨root, name, haction, hearlier⟩, hname, hpackage⟩
          obtain ⟨c', hc', hkey'⟩ := hkeeps c hc
          exact ⟨change, hparse, c', hc', hkey'.trans hkey⟩
        · -- the last event reports the package itself
          refine hcollected element hevent action hname ?_ hpackage
          rw [section?, hpath, hopen]
          exact haction

theorem finish_ok {metadata : List String} {snapshot : ℕ} {solver : SolverResult}
    (h : state.finish metadata snapshot = .ok solver) :
    solver.changes = sort state.changes ∧ solver.metadataValidRepositories = metadata := by
  unfold finish at h
  cases hsummary : state.summary with
  | none =>
      rw [hsummary] at h
      cases h
  | some summary =>
      rw [hsummary] at h
      dsimp only at h
      split_ifs at h
      cases h
      exact ⟨rfl, rfl⟩

end SolverParse

variable {metadata : List String} {snapshot : ℕ} {solver : SolverResult}

/-- **No package is lost**: a package the summary reports below a section is one of the
changes of the result. -/
theorem parseSolverXml_reports (h : parseSolverXml xml metadata snapshot = .ok solver)
    (hreported : ReportedPackage xml action element) :
    ∃ change, parsePackage element action = .ok change ∧
      ∃ c ∈ solver.changes, c.key = change.key := by
  obtain ⟨state, hloop, hfinish⟩ := bind_eq_ok.mp h
  obtain ⟨change, hparse, c, hc, hkey⟩ :=
    (SolverParse.foldlM_step_ok hloop).2 action element hreported
  refine ⟨change, hparse, c, ?_, hkey⟩
  rw [(SolverParse.finish_ok hfinish).1]
  exact (sort_perm _).mem_iff.mpr hc

theorem parseSolverXml_metadata (h : parseSolverXml xml metadata snapshot = .ok solver) :
    solver.metadataValidRepositories = metadata := by
  obtain ⟨state, -, hfinish⟩ := bind_eq_ok.mp h
  exact (SolverParse.finish_ok hfinish).2

end

end LyraUpgrade
