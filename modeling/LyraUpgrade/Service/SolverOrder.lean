import LyraUpgrade.Service.SolverSummary
import LyraUpgrade.Core.ArrivalOrder
import Mathlib.Logic.Relation

/-!
# The summary is read in any order

Two neighbours in the summary, or in one of its sections, may exchange places: what stands
between two points with the same open elements is read in the same way wherever it stands,
as long as no error message is open at these points.  An error message that is an empty
element is never closed by the parser, and the texts of later elements become problems; that
is the only case in which the order of sections and packages can be seen
(`parseSolverXml_unclosed`).
-/

namespace LyraUpgrade

open Encoding

/-- The summary itself, or a section of it that the parser knows. -/
def SummaryPart (names : List String) : Prop :=
  ∃ root, names = ["install-summary", root] ∨
    ∃ name, sectionAction name ≠ none ∧ names = [name, "install-summary", root]

/-- Two neighbours of the summary, or of a section, have exchanged their places. -/
inductive Exchanged : List Xml.Event → List Xml.Event → Prop
  | neighbours (before a b after : List Xml.Event) (ha : Xml.WellFormed a)
      (hb : Xml.WellFormed b) (hplace : SummaryPart (Xml.path before)) :
      Exchanged (before ++ (a ++ (b ++ after))) (before ++ (b ++ (a ++ after)))

/-- Sections of the summary, and packages of its sections, stand in another order. -/
abbrev Rearranged : List Xml.Event → List Xml.Event → Prop := Relation.ReflTransGen Exchanged

/-- No error message is an empty element. -/
def NoEmptyErrorMessage (xml : List Xml.Event) : Prop :=
  ∀ element, .empty element ∈ xml → ¬ ErrorMessage element

section

variable {xml xml' events : List Xml.Event} {event : Xml.Event} {state state' found : SolverParse}

theorem Exchanged.symm (h : Exchanged xml xml') : Exchanged xml' xml := by
  obtain ⟨before, a, b, after, ha, hb, hplace⟩ := h
  exact .neighbours before b a after hb ha hplace

theorem Exchanged.mem_iff (h : Exchanged xml xml') (event : Xml.Event) :
    event ∈ xml ↔ event ∈ xml' := by
  obtain ⟨before, a, b, after⟩ := h
  simp only [List.mem_append]
  tauto

theorem Exchanged.wellFormed (h : Exchanged xml xml') (hxml : Xml.WellFormed xml) :
    Xml.WellFormed xml' := by
  obtain ⟨before, a, b, after, ha, hb⟩ := h
  exact ha.exchange hb hxml

theorem Exchanged.noEmptyErrorMessage (h : Exchanged xml xml') (hxml : NoEmptyErrorMessage xml) :
    NoEmptyErrorMessage xml' :=
  fun element hmem => hxml element ((h.mem_iff _).mpr hmem)

namespace SolverParse

/-! ## Error messages are closed -/

/-- An error message that is being read is an open element. -/
def Closed (self : SolverParse) : Prop := self.inErrorMessage → "message" ∈ self.path

/-- **One event** inside a part of the summary. -/
theorem step_inside {opened next outer : List String} (h : state.blank.step event = .ok found)
    (hpath : state.path = opened ++ outer) (hnest : event.nest opened = some next)
    (hempty : ∀ element, event = .empty element → ¬ ErrorMessage element)
    (hclosed : state.Closed) :
    found.path = next ++ outer ∧ found.Closed ∧
      (2 ≤ outer.length → found.summary = state.summary) := by
  have hfinds := step_findsIn h
  -- what is closed is the innermost element, and the last that was opened
  have hclose : ∀ name, event = .close name → opened = name :: next := by
    rintro name rfl
    simp only [Xml.Event.nest] at hnest
    split_ifs at hnest with hhead
    cases hnest
    exact (List.cons_head?_tail hhead).symm
  have hnext : found.path = next ++ outer := by
    rw [hfinds.path, hpath]
    cases event with
    | close name =>
        rw [hclose name rfl]
        rfl
    | _ =>
        cases hnest
        rfl
  refine ⟨hnext, fun hflag => ?_, ?_⟩
  · rw [hfinds.path]
    rcases hfinds.flag hflag with ⟨element, hsome, herror⟩ | ⟨hopen, hother⟩
    · cases event with
      | start _ =>
          cases hsome
          exact List.mem_cons.mpr (.inl herror.1.symm)
      | empty _ =>
          cases hsome
          exact absurd herror (hempty element rfl)
      | _ => cases hsome
    · have hmem := hclosed hopen
      cases event with
      | start _ => exact List.mem_cons_of_mem _ hmem
      | close name =>
          rw [hpath, hclose name rfl] at hmem ⊢
          refine List.mem_of_ne_of_mem ?_ hmem
          rintro rfl
          exact hother rfl
      | _ => exact hmem
  · intro hdeep
    refine hfinds.summary.resolve_right ?_
    rintro ⟨hstream, -⟩
    rw [hpath] at hstream
    have hlength := congrArg List.length hstream
    rw [List.length_append, List.length_singleton] at hlength
    omega

/-- **A run** inside a part of the summary. -/
theorem run_inside {opened closed outer : List String}
    (h : events.foldlM scan state.blank = .ok found) (hpath : state.path = opened ++ outer)
    (hnest : Xml.nested opened events = some closed) (hempty : NoEmptyErrorMessage events)
    (hclosed : state.Closed) :
    found.path = closed ++ outer ∧ found.Closed ∧
      (2 ≤ outer.length → found.summary = state.summary) := by
  induction events generalizing state found opened with
  | nil =>
      cases h
      cases hnest
      exact ⟨hpath, hclosed, fun _ => rfl⟩
  | cons event events ih =>
      rw [show event :: events = [event] ++ events from rfl, scan_append_eq_ok] at h
      obtain ⟨first, hfirst, later, hlater, rfl⟩ := h
      rw [scan_singleton_eq_ok] at hfirst
      rw [Xml.nested, List.foldlM_cons] at hnest
      obtain ⟨next, hnext, hrest⟩ := Option.bind_eq_some_iff.mp hnest
      obtain ⟨hpath', hclosed', hsummary⟩ := step_inside hfirst hpath hnext
        (fun element hsame => hempty element (hsame ▸ List.mem_cons_self)) hclosed
      obtain ⟨hpath'', hclosed'', hsummary'⟩ := ih hlater hpath' hrest
        (fun element hmem => hempty element (List.mem_cons_of_mem _ hmem)) hclosed'
      exact ⟨hpath'', hclosed'', fun hdeep => (hsummary' hdeep).trans (hsummary hdeep)⟩

/-- What is well formed leaves the state as it was, but for what it lists. -/
theorem run_inside_part {names : List String} (h : events.foldlM scan state.blank = .ok found)
    (hpath : state.path = names) (hdeep : 2 ≤ names.length) (hmessage : "message" ∉ names)
    (hevents : Xml.WellFormed events) (hempty : NoEmptyErrorMessage events)
    (hclosed : state.Closed) : found.blank = state.blank := by
  have hfalse : ∀ s : SolverParse, s.path = names → s.Closed → s.inErrorMessage = false := by
    intro s hs hc
    refine Bool.eq_false_iff.mpr fun hflag => hmessage ?_
    rw [← hs]
    exact hc hflag
  obtain ⟨hpath', hclosed', hsummary⟩ := run_inside h
    (show state.path = [] ++ names from hpath) hevents hempty hclosed
  rw [blank, blank, hpath', hsummary hdeep, hfalse found hpath' hclosed', hfalse state hpath hclosed,
    hpath]
  rfl

/-! ## Neighbours exchange places -/

/-- Two states that say the same in another order. -/
structure SameFindings (found found' : SolverParse) : Prop where
  path : found'.path = found.path
  summary : found'.summary = found.summary
  changes : found'.changes.Perm found.changes
  problems : found'.problems.Perm found.problems

theorem summaryPart_inside {names : List String} (hpart : SummaryPart names)
    (h : FindsAll events found) (hpath : found.path = names) :
    2 ≤ names.length ∧ "message" ∉ names := by
  obtain ⟨root, rfl | ⟨name, haction, rfl⟩⟩ := hpart
  · cases h.place [] root hpath
    exact ⟨by simp, by decide⟩
  · cases h.place [name] root hpath
    refine ⟨by simp, ?_⟩
    simp only [List.mem_cons, List.not_mem_nil, or_false, not_or]
    refine ⟨?_, by decide, by decide⟩
    rintro rfl
    exact haction rfl

/-- **Exchanged neighbours** are found as before. -/
theorem run_exchanged (h : Exchanged xml xml') (hxml : Xml.WellFormed xml)
    (hempty : NoEmptyErrorMessage xml) (hfound : xml.foldlM scan {} = .ok found) :
    ∃ found', xml'.foldlM scan {} = .ok found' ∧ SameFindings found found' := by
  obtain ⟨before, a, b, after, ha, hb, hpart⟩ := h
  obtain ⟨first, hfirst, second, hsecond, rfl⟩ := scan_append_eq_ok.mp hfound
  obtain ⟨inA, hinA, third, hthird, rfl⟩ := scan_append_eq_ok.mp hsecond
  obtain ⟨inB, hinB, last, hlast, rfl⟩ := scan_append_eq_ok.mp hthird
  have hall := run_finds hfirst
  obtain ⟨hdeep, hmessage⟩ := summaryPart_inside hpart hall hall.path
  simp only [NoEmptyErrorMessage, List.mem_append] at hempty
  -- before the two, no error message is open
  obtain ⟨names, hnames, -⟩ := Option.bind_eq_some_iff.mp ((Xml.nested_append [] before _).symm.trans hxml)
  obtain ⟨-, hclosed, -⟩ := run_inside (show before.foldlM scan (blank {}) = .ok first from hfirst)
    (show ({} : SolverParse).path = [] ++ [] from rfl) hnames
    (fun element hmem => hempty element (.inl hmem)) (fun hflag => absurd hflag Bool.false_ne_true)
  have hsameA : inA.blank = first.blank :=
    run_inside_part hinA hall.path hdeep hmessage ha
      (fun element hmem => hempty element (.inr (.inl hmem))) hclosed
  have hsameB : inB.blank = first.blank := by
    rw [hsameA] at hinB
    exact run_inside_part hinB hall.path hdeep hmessage hb
      (fun element hmem => hempty element (.inr (.inr (.inl hmem)))) hclosed
  rw [hsameA] at hinB
  rw [hsameB] at hlast
  refine ⟨first.prepend (inB.prepend (inA.prepend last)), ?_, ?_⟩
  · refine scan_append_eq_ok.mpr ⟨first, hfirst, _, ?_, rfl⟩
    refine scan_append_eq_ok.mpr ⟨inB, hinB, _, ?_, rfl⟩
    rw [hsameB]
    refine scan_append_eq_ok.mpr ⟨inA, hinA, last, ?_, rfl⟩
    rw [hsameA]
    exact hlast
  · have hmiddle : ∀ {α : Type} (w x y z : List α), (w ++ (y ++ (x ++ z))).Perm (w ++ (x ++ (y ++ z))) := by
      intro α w x y z
      refine List.Perm.append_left w ?_
      rw [← List.append_assoc, ← List.append_assoc]
      exact List.perm_append_comm.append_right z
    exact ⟨rfl, rfl, hmiddle _ _ _ _, hmiddle _ _ _ _⟩

/-- What is checked after the last event does not see the order either. -/
theorem SameFindings.finish_congr (h : SameFindings state state') (metadata : List String) (snapshot : ℕ) :
    state'.finish metadata snapshot = state.finish metadata snapshot := by
  have hany : ∀ p : PackageChange → Bool, state'.changes.any p = state.changes.any p := by
    intro p
    rw [Bool.eq_iff_iff, List.any_eq_true, List.any_eq_true]
    simp only [h.changes.mem_iff]
  rw [finish, finish, h.summary, h.path, h.changes.length_eq, hany, sort_congr h.changes,
    dedup_sort_congr fun problem => h.problems.mem_iff]

end SolverParse

/-! ## The result -/

/-- The summary lists a package of this key below a section of this action. -/
def Lists (xml : List Xml.Event)
    (key : String × String × Option String × Option String × Option String)
    (action : PackageAction) : Prop :=
  ∃ element change, ReportedPackage xml action element ∧
    parsePackage element action = .ok change ∧ change.key = key

/-- The changes are exactly those of the summary, with the one thing that is done to each. -/
structure ReadExactly (xml : List Xml.Event) (solver : SolverResult) : Prop where
  sorted : Ascending solver.changes
  distinct : (solver.changes.map (·.key)).Nodup
  complete : ∀ action element, ReportedPackage xml action element →
    ∃ change, parsePackage element action = .ok change
  keys : ∀ key, key ∈ solver.changes.map (·.key) ↔ ∃ action, Lists xml key action
  count : ∃ element, Xml.Within xml ["stream"] element ∧ element.name = "install-summary" ∧
    requiredNumber element "packages-to-change" = .ok solver.changes.length
  action : ∀ change ∈ solver.changes,
    (change.action ≠ .reinstall ∧ Lists xml change.key change.action ∧
      ∀ action, Lists xml change.key action → action = change.action ∨ action = .reinstall) ∨
    (change.action = .reinstall ∧ change.currentVersion = change.proposedVersion ∧
      ∀ action, Lists xml change.key action → action = .reinstall)
  successful : solver.successful = true ↔
    ¬ ∃ event ∈ xml, ∃ element, event.element? = some element ∧ ErrorMessage element

/-- What is read of a package has the action of its section, and nothing else but its key. -/
theorem parsePackage_bare {element : Xml.Element} {action : PackageAction} {change : PackageChange}
    (h : parsePackage element action = .ok change) : change.Bare ∧ change.action = action := by
  rw [parsePackage] at h
  obtain ⟨name, -, h⟩ := bind_eq_ok.mp h
  obtain ⟨architecture, -, h⟩ := bind_eq_ok.mp h
  obtain ⟨old, -, h⟩ := bind_eq_ok.mp h
  split_ifs at h with hchanged
  · cases h
  · obtain ⟨version, -, h⟩ := bind_eq_ok.mp h
    obtain ⟨edition, -, h⟩ := bind_eq_ok.mp h
    obtain ⟨versions, -, h⟩ := bind_eq_ok.mp h
    obtain ⟨repository, -, h⟩ := bind_eq_ok.mp h
    cases h
    exact ⟨⟨rfl, rfl, rfl, rfl, rfl⟩, rfl⟩

theorem parseSummary_count {element : Xml.Element} {summary : Summary}
    (h : parseSummary element = .ok summary) :
    requiredNumber element "packages-to-change" = .ok summary.packagesToChange := by
  rw [parseSummary] at h
  obtain ⟨packagesToChange, hcount, h⟩ := bind_eq_ok.mp h
  obtain ⟨_, -, h⟩ := bind_eq_ok.mp h
  obtain ⟨_, -, h⟩ := bind_eq_ok.mp h
  obtain ⟨_, -, h⟩ := bind_eq_ok.mp h
  obtain ⟨_, -, h⟩ := bind_eq_ok.mp h
  obtain ⟨_, -, h⟩ := bind_eq_ok.mp h
  cases h
  exact hcount

variable {metadata : List String} {snapshot : ℕ} {solver : SolverResult}

/-- A result is a run that lists, a merge, and the checks after the last event. -/
theorem parseSolverXml_eq_ok : parseSolverXml xml metadata snapshot = .ok solver ↔
    ∃ found, xml.foldlM SolverParse.scan {} = .ok found ∧
      ∃ changes, insertAll found.changes [] = .ok changes ∧
        SolverParse.finish { found with changes := changes } metadata snapshot = .ok solver := by
  rw [parseSolverXml, bind_eq_ok]
  constructor
  · rintro ⟨state, hrun, hfinish⟩
    obtain ⟨found, hfound, hchanges, hsame⟩ := SolverParse.run_eq_ok.mp hrun
    refine ⟨found, hfound, state.changes, hchanges, ?_⟩
    rw [← hfinish, hsame]
    rfl
  · rintro ⟨found, hfound, changes, hchanges, hfinish⟩
    exact ⟨_, SolverParse.run_eq_ok.mpr ⟨found, hfound, hchanges, rfl⟩, hfinish⟩

/-- What is listed has nothing but keys and actions. -/
theorem bare_of_run (h : xml.foldlM SolverParse.scan {} = .ok found) :
    ∀ change ∈ found.changes, change.Bare := by
  intro change hmem
  obtain ⟨_, _, -, hread⟩ := ((SolverParse.run_finds h).changes change).mp hmem
  exact (parsePackage_bare hread).1

/-- **What is read is what the summary says.** -/
theorem readExactly_of_ok (h : parseSolverXml xml metadata snapshot = .ok solver) :
    ReadExactly xml solver := by
  obtain ⟨found, hfound, changes, hchanges, hfinish⟩ := parseSolverXml_eq_ok.mp h
  have hall := SolverParse.run_finds hfound
  have hmerged := merged_of_insertAll (bare_of_run hfound) hchanges
  have hlists : ∀ key action, Lists xml key action ↔
      ∃ change ∈ found.changes, change.key = key ∧ change.action = action := by
    intro key action
    constructor
    · rintro ⟨element, change, hreported, hread, hkey⟩
      exact ⟨change, (hall.changes change).mpr ⟨action, element, hreported, hread⟩, hkey,
        (parsePackage_bare hread).2⟩
    · rintro ⟨change, hmem, hkey, rfl⟩
      obtain ⟨action, element, hreported, hread⟩ := (hall.changes change).mp hmem
      rw [(parsePackage_bare hread).2]
      exact ⟨element, change, hreported, hread, hkey⟩
  rw [SolverParse.finish] at hfinish
  cases hsummary : found.summary with
  | none =>
      rw [hsummary] at hfinish
      cases hfinish
  | some summary =>
      rw [hsummary] at hfinish
      dsimp only at hfinish
      split_ifs at hfinish with hrefused
      have hmem : ∀ change, change ∈ sort changes ↔ change ∈ changes :=
        fun change => (sort_perm changes).mem_iff
      have hkeys : ((sort changes).map (·.key)).Nodup :=
        ((sort_perm changes).map _).nodup_iff.mpr hmerged.keys
      simp only [Bool.or_eq_true, not_or, decide_eq_true_eq, not_not, ne_eq] at hrefused
      obtain ⟨⟨-, hcount⟩, hversions⟩ := hrefused
      cases hfinish
      constructor
      · -- equal changes would have equal keys
        refine ascending_of_pairwise (sort_pairwise changes) ?_
        exact List.Pairwise.isChain (List.Pairwise.of_map _ (fun a b h hab => h (by rw [hab])) hkeys)
      · exact hkeys
      · intro action element hreported
        obtain ⟨change, hread, -⟩ := parseSolverXml_reports h hreported
        exact ⟨change, hread⟩
      · intro key
        rw [List.mem_map]
        constructor
        · rintro ⟨change, hchange, hkey⟩
          exact ⟨change.action, (hlists key change.action).mpr
            ⟨change, hmerged.mem change ((hmem change).mp hchange), hkey, rfl⟩⟩
        · rintro ⟨action, hlisted⟩
          obtain ⟨listed, hfoundListed, rfl, -⟩ := (hlists key action).mp hlisted
          obtain ⟨change, hchange, hkey, -⟩ := hmerged.covers listed hfoundListed
          exact ⟨change, (hmem change).mpr hchange, hkey⟩
      · obtain ⟨element, hwithin, hname, hread⟩ := hall.summary summary hsummary
        refine ⟨element, hwithin, hname, ?_⟩
        rw [parseSummary_count hread, ← hcount, (sort_perm changes).length_eq]
      · intro change hchange
        have hlisted : Lists xml change.key change.action := (hlists _ _).mpr
          ⟨change, hmerged.mem change ((hmem change).mp hchange), rfl, rfl⟩
        have hother : ∀ action, Lists xml change.key action →
            action = change.action ∨ action = .reinstall := by
          intro action hlists'
          obtain ⟨listed, hmem', hkey, rfl⟩ := (hlists _ _).mp hlists'
          obtain ⟨change', hchange', hkey', haction⟩ := hmerged.covers listed hmem'
          cases List.inj_on_of_nodup_map hmerged.keys hchange' ((hmem change).mp hchange)
            (hkey'.trans hkey)
          exact haction
        by_cases hreinstall : change.action = .reinstall
        · refine .inr ⟨hreinstall, ?_, fun action hlists' => ?_⟩
          · by_contra hversion
            refine hversions (List.any_eq_true.mpr ⟨change, (hmem change).mp hchange, ?_⟩)
            simp [hreinstall, hversion]
          · exact (hother action hlists').elim (·.trans hreinstall) id
        · exact .inl ⟨hreinstall, hlisted, hother⟩
      · rw [← hall.problems, not_not]
        show (dedup (sort found.problems)).isEmpty = true ↔ _
        rw [List.isEmpty_iff, dedup_sort_eq_nil]

/-- Sections and packages in another order are read as before. -/
theorem parseSolverXml_rearranged {xml' : List Xml.Event} (h : Rearranged xml xml')
    (hxml : Xml.WellFormed xml) (hempty : NoEmptyErrorMessage xml) (solver : SolverResult) :
    parseSolverXml xml' metadata snapshot = .ok solver ↔
      parseSolverXml xml metadata snapshot = .ok solver := by
  -- one exchange keeps a result, and can be undone
  have hone : ∀ {a b : List Xml.Event}, Exchanged a b → Xml.WellFormed a → NoEmptyErrorMessage a →
      parseSolverXml a metadata snapshot = .ok solver →
      parseSolverXml b metadata snapshot = .ok solver := by
    intro a b hexchanged ha hnone hresult
    obtain ⟨found, hfound, changes, hchanges, hfinish⟩ := parseSolverXml_eq_ok.mp hresult
    obtain ⟨found', hfound', hsame⟩ := SolverParse.run_exchanged hexchanged ha hnone hfound
    obtain ⟨changes', hchanges', hperm⟩ :=
      insertAll_perm hsame.changes.symm (bare_of_run hfound) hchanges
    refine parseSolverXml_eq_ok.mpr ⟨found', hfound', changes', hchanges', ?_⟩
    have hagrees : SolverParse.SameFindings { found with changes := changes }
        { found' with changes := changes' } := ⟨hsame.path, hsame.summary, hperm, hsame.problems⟩
    rw [hagrees.finish_congr, hfinish]
  have hboth : Xml.WellFormed xml' ∧ NoEmptyErrorMessage xml' ∧
      (parseSolverXml xml' metadata snapshot = .ok solver ↔
        parseSolverXml xml metadata snapshot = .ok solver) := by
    induction h with
    | refl => exact ⟨hxml, hempty, Iff.rfl⟩
    | tail _ hexchanged ih =>
        obtain ⟨ha, hnone, hsame⟩ := ih
        have hb := hexchanged.wellFormed ha
        have hnone' := hexchanged.noEmptyErrorMessage hnone
        exact ⟨hb, hnone', ⟨fun hresult => hsame.mp (hone hexchanged.symm hb hnone' hresult),
          fun hresult => hone hexchanged ha hnone (hsame.mpr hresult)⟩⟩
  exact hboth.2.2

/-- **The summary is read exactly**: what comes out is what the summary lists, one change for
each key; and where no error message is an empty element, the order of its sections and of
their packages does not matter. -/
theorem parseSolverXml_exact (xml : List Xml.Event) (metadata : List String) (snapshot : ℕ) :
    (∀ solver, parseSolverXml xml metadata snapshot = .ok solver → ReadExactly xml solver) ∧
    (Xml.WellFormed xml → NoEmptyErrorMessage xml → ∀ xml', Rearranged xml xml' →
      ∀ solver, parseSolverXml xml' metadata snapshot = .ok solver ↔
        parseSolverXml xml metadata snapshot = .ok solver) := by
  constructor
  · intro solver h
    exact readExactly_of_ok h
  · intro hxml hempty xml' h solver
    exact parseSolverXml_rearranged h hxml hempty solver

/-! ## An error message that is never closed -/

namespace Sample

def elementNamed (name : String) (attributes : List (String × String)) : Xml.Element where
  name := name
  localName := name
  uri := .unbound
  attributes := attributes.map fun (key, value) => .entry key (some value)

/-- A summary of one package that is removed. -/
def removal : List Xml.Event :=
  [.start (elementNamed "to-remove" []),
    .start (elementNamed "solvable" [("type", "package"), ("name", "nano"), ("arch", "x86_64"),
      ("edition", "7.2-1")]),
    .text (some "An editor"), .close "solvable", .close "to-remove"]

/-- A section with an error message that is an empty element. -/
def complaint : List Xml.Event :=
  [.start (elementNamed "to-upgrade" []), .empty (elementNamed "message" [("type", "error")]),
    .close "to-upgrade"]

def summaryOf (sections : List Xml.Event) : List Xml.Event :=
  [.start (elementNamed "stream" []), .start (elementNamed "install-summary"
    [("packages-to-change", "1"), ("download-size", "0"), ("space-usage-diff", "0"),
      ("space-usage-installed", "0"), ("space-usage-removed", "0")])] ++
    (sections ++ [.close "install-summary", .close "stream"])

end Sample

open Sample in
/-- The text of a package is a problem behind the message, and it is none before it. -/
theorem parseSolverXml_unclosed :
    Xml.WellFormed (summaryOf (complaint ++ removal)) ∧
    Rearranged (summaryOf (complaint ++ removal)) (summaryOf (removal ++ complaint)) ∧
    (parseSolverXml (summaryOf (complaint ++ removal)) [] 0).map (·.problems) =
      .ok ["An editor", "zypper reported an error"] ∧
    (parseSolverXml (summaryOf (removal ++ complaint)) [] 0).map (·.problems) =
      .ok ["zypper reported an error"] := by
  refine ⟨by decide, .single ?_, by decide +kernel, by decide +kernel⟩
  exact .neighbours ((summaryOf []).take 2) complaint removal [.close "install-summary", .close "stream"]
    (by decide) (by decide) ⟨"stream", .inl rfl⟩

end

end LyraUpgrade
