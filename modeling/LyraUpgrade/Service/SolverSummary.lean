import LyraUpgrade.Service.SolverMerge

/-!
# What a run finds in the summary

`parse_solver_xml` merges the changes while it reads.  Reading and merging can be taken
apart (`run_eq_ok`): a run that only lists what each event reports, and then one merge.  How
an event is read depends on the open elements, on whether there was a summary, and on
whether an error message is open; not on what was listed before.

What a run lists is what the document says (`run_finds`): the packages below its sections,
the summary below `stream`, and a problem if and only if there is an error message.
-/

namespace LyraUpgrade

open Encoding

namespace SolverParse

/-! ## Reading and merging -/

/-- The state before anything is listed. -/
def blank (self : SolverParse) : SolverParse := { self with changes := [], problems := [] }

/-- What another state has listed, behind what this one has. -/
def prepend (self found : SolverParse) : SolverParse :=
  { found with
    changes := self.changes ++ found.changes, problems := self.problems ++ found.problems }

/-- One event, its changes listed and not merged. -/
def scan (self : SolverParse) (event : Xml.Event) : Except SolverXmlError SolverParse :=
  self.prepend <$> self.blank.step event

/-- A state after what was found is merged. -/
def Merges (self found merged : SolverParse) : Prop :=
  insertAll found.changes self.changes = .ok merged.changes ∧
    merged = { found with
      changes := merged.changes, problems := self.problems ++ found.problems }

section

variable {state state' found : SolverParse} {element : Xml.Element} {event : Xml.Event}
variable {events : List Xml.Event}

@[simp] theorem blank_blank : state.blank.blank = state.blank := rfl

/-- Where no change is listed, only the problems are added. -/
theorem merges_of_nil (h : found.changes = []) : Merges state found state' ↔
    state' = { found with
      changes := state.changes, problems := state.problems ++ found.problems } := by
  constructor
  · rintro ⟨hchanges, hsame⟩
    have heq : state.changes = state'.changes := by simpa [h, insertAll, pure, Except.pure] using hchanges
    rw [← heq] at hsame
    exact hsame
  · rintro rfl
    refine ⟨?_, rfl⟩
    rw [h]
    rfl

theorem merges_blank : Merges state state.blank state' ↔ state' = state := by
  rw [merges_of_nil rfl]
  simp [blank]

theorem readSummary_eq (h : element.name = "install-summary") : state.readSummary element =
    if state.summary.isSome || state.path ≠ ["stream"] then
      .error (.invalidPackage "duplicate or misplaced summary")
    else (fun summary => { state with summary := some summary }) <$> parseSummary element := by
  rw [readSummary, if_neg (not_not.mpr h)]
  cases parseSummary element <;> rfl

theorem readSolvable_eq (h : element.name = "solvable") : state.readSolvable element =
    match state.section? with
    | none => .ok state
    | some action => do
        match ← parseSolvable element action with
        | none => return state
        | some change => return { state with changes := ← insertChange change state.changes } := by
  rw [readSolvable, if_neg (not_not.mpr h)]
  rfl

theorem readMessage_eq (h : element.name = "message") : state.readMessage element =
    (fun kind => if kind = some "error" then
      { state with
        inErrorMessage := true, problems := state.problems ++ ["zypper reported an error"] }
      else { state with inErrorMessage := false }) <$> elementAttribute element "type" := by
  rw [readMessage, if_neg (not_not.mpr h)]
  cases elementAttribute element "type" with
  | error e => rfl
  | ok kind =>
      show (if kind = some "error" then _ else _) = _
      split_ifs with hkind
      · exact congrArg Except.ok (if_pos hkind).symm
      · exact congrArg Except.ok (if_neg hkind).symm

/-- An element has one name, so that it is a summary, a package, a message or none of them. -/
theorem readElement_eq : state.readElement element =
    if element.name = "install-summary" then state.readSummary element
    else if element.name = "solvable" then state.readSolvable element
    else if element.name = "message" then state.readMessage element
    else .ok state := by
  have hsummary : element.name ≠ "install-summary" → state.readSummary element = .ok state :=
    fun h => if_pos h
  have hsolvable : ∀ s : SolverParse, element.name ≠ "solvable" → s.readSolvable element = .ok s :=
    fun s h => if_pos h
  have hmessage : ∀ s : SolverParse, element.name ≠ "message" → s.readMessage element = .ok s :=
    fun s h => if_pos h
  rw [readElement]
  by_cases h₁ : element.name = "install-summary"
  · rw [if_pos h₁]
    cases hread : state.readSummary element with
    | error e => rfl
    | ok s =>
        show (s.readSolvable element >>= fun s => s.readMessage element) = .ok s
        rw [hsolvable s (by rw [h₁]; decide)]
        exact hmessage s (by rw [h₁]; decide)
  · rw [if_neg h₁, hsummary h₁]
    show (state.readSolvable element >>= fun s => s.readMessage element) = _
    by_cases h₂ : element.name = "solvable"
    · rw [if_pos h₂]
      cases hread : state.readSolvable element with
      | error e => rfl
      | ok s => exact hmessage s (by rw [h₂]; decide)
    · rw [if_neg h₂, hsolvable state h₂]
      by_cases h₃ : element.name = "message"
      · rw [if_pos h₃]
        rfl
      · rw [if_neg h₃]
        exact hmessage state h₃

theorem readElement_merges : state.readElement element = .ok state' ↔
    ∃ found, state.blank.readElement element = .ok found ∧ Merges state found state' := by
  rw [readElement_eq, readElement_eq]
  split_ifs with hsummary hsolvable hmessage
  · -- the summary
    rw [readSummary_eq hsummary, readSummary_eq hsummary]
    show (if (state.summary.isSome || state.path ≠ ["stream"]) = true then _ else _) = _ ↔
      ∃ found, (if (state.summary.isSome || state.path ≠ ["stream"]) = true then _ else _) = _ ∧ _
    split_ifs
    · simp
    · simp only [map_eq_ok]
      constructor
      · rintro ⟨summary, hsummary, rfl⟩
        exact ⟨_, ⟨summary, hsummary, rfl⟩, (merges_of_nil rfl).mpr (by simp [blank])⟩
      · rintro ⟨_, ⟨summary, hsummary, rfl⟩, hmerges⟩
        refine ⟨summary, hsummary, ?_⟩
        rw [(merges_of_nil rfl).mp hmerges]
        simp [blank]
  · -- a package
    rw [readSolvable_eq hsolvable, readSolvable_eq hsolvable]
    have hsection : state.blank.section? = state.section? := rfl
    rw [hsection]
    cases state.section? with
    | none => simp [merges_blank, eq_comm]
    | some action =>
        dsimp only
        cases parseSolvable element action with
        | error e => simp [bind, Except.bind]
        | ok parsed =>
            cases parsed with
            | none => simp [bind, Except.bind, pure, Except.pure, merges_blank, eq_comm]
            | some change =>
                have hone : insertAll [change] state.changes = insertChange change state.changes := by
                  simp [insertAll]
                show (insertChange change state.changes >>= fun changes => pure
                  { state with changes := changes }) = .ok state' ↔
                  ∃ found, Except.ok { state.blank with changes := [change] } = Except.ok found ∧ _
                simp only [bind_eq_ok, Except.ok.injEq, exists_eq_left', Merges, hone]
                constructor
                · rintro ⟨changes, hchanges, h⟩
                  cases h
                  exact ⟨hchanges, by simp [blank]⟩
                · rintro ⟨hchanges, hsame⟩
                  refine ⟨state'.changes, hchanges, ?_⟩
                  rw [hsame]
                  simp [blank, pure, Except.pure]
  · -- a message
    rw [readMessage_eq hmessage, readMessage_eq hmessage]
    simp only [map_eq_ok]
    constructor
    · rintro ⟨kind, hkind, rfl⟩
      refine ⟨_, ⟨kind, hkind, rfl⟩, ?_⟩
      split_ifs <;> exact (merges_of_nil rfl).mpr (by simp [blank])
    · rintro ⟨_, ⟨kind, hkind, rfl⟩, hmerges⟩
      refine ⟨kind, hkind, ?_⟩
      split_ifs at hmerges ⊢ <;> simp [(merges_of_nil rfl).mp hmerges, blank]
  · simp [merges_blank, eq_comm]

theorem step_start : state.step (.start element) = state.readElement element >>= fun read =>
    if 32 ≤ read.path.length then .error (.invalidPackage "excessive nesting")
    else .ok { read with path := element.name :: read.path } := by
  rw [step]
  cases state.readElement element <;> rfl

/-- A text is a problem while an error message is open. -/
theorem step_text (h : state.inErrorMessage) (content : Option String) :
    state.step (.text content) =
      match content with
      | none => .error .xml
      | some value =>
          if (trim value.toList).isEmpty then .ok state
          else .ok { state with
            problems := state.problems ++ [String.ofList (trim value.toList)] } :=
  if_pos h

theorem step_text_closed (h : ¬ state.inErrorMessage) (content : Option String) :
    state.step (.text content) = .ok state :=
  if_neg h

/-- **One event** is read as from a state that has listed nothing, and merged. -/
theorem step_merges : state.step event = .ok state' ↔
    ∃ found, state.blank.step event = .ok found ∧ Merges state found state' := by
  cases event with
  | start element =>
      rw [step_start, step_start, bind_eq_ok]
      constructor
      · rintro ⟨merged, hread, hnext⟩
        obtain ⟨found, hfound, hchanges, hsame⟩ := readElement_merges.mp hread
        have hpath : merged.path = found.path := by rw [hsame]
        rw [hpath] at hnext
        split_ifs at hnext with hdeep
        cases hnext
        refine ⟨_, bind_eq_ok.mpr ⟨found, hfound, if_neg hdeep⟩, hchanges, ?_⟩
        rw [hsame]
      · rintro ⟨opened, hopened, hchanges, hsame⟩
        obtain ⟨found, hfound, hnext⟩ := bind_eq_ok.mp hopened
        split_ifs at hnext with hdeep
        cases hnext
        have hread : Merges state found { found with
            changes := state'.changes, problems := state.problems ++ found.problems } :=
          ⟨hchanges, rfl⟩
        refine ⟨_, readElement_merges.mpr ⟨found, hfound, hread⟩, ?_⟩
        rw [if_neg hdeep, hsame]
  | empty element => exact readElement_merges
  | text content =>
      by_cases herror : state.inErrorMessage
      · rw [step_text herror, step_text (show state.blank.inErrorMessage from herror)]
        cases content with
        | none => simp
        | some value =>
            dsimp only
            split_ifs
            · simp [merges_blank, eq_comm]
            · simp [merges_of_nil, blank, eq_comm]
      · rw [step_text_closed herror,
          step_text_closed (show ¬ state.blank.inErrorMessage from herror)]
        simp [merges_blank, eq_comm]
  | close name =>
      simp [step, merges_of_nil, blank, eq_comm]
  | docType => simp [step]
  | malformed => simp [step]
  | cdata content => simp [step, merges_blank, eq_comm]
  | reference content => simp [step, merges_blank, eq_comm]
  | other => simp [step, merges_blank, eq_comm]

theorem prepend_blank : state.prepend state.blank = state := by
  simp [prepend, blank]

theorem blank_prepend : state.blank.prepend found = found := by
  simp [prepend, blank]

/-- A run lists what it finds behind what is listed already. -/
theorem scan_run (state : SolverParse) (events : List Xml.Event) :
    events.foldlM scan state = state.prepend <$> events.foldlM scan state.blank := by
  induction events generalizing state with
  | nil => exact congrArg Except.ok prepend_blank.symm
  | cons event events ih =>
      rw [List.foldlM_cons, List.foldlM_cons, scan, scan, blank_blank]
      cases state.blank.step event with
      | error e => rfl
      | ok next =>
          show events.foldlM scan (state.prepend next) =
            state.prepend <$> events.foldlM scan (state.blank.prepend next)
          rw [blank_prepend, ih (state.prepend next), ih next]
          show (state.prepend next).prepend <$> events.foldlM scan next.blank =
            state.prepend <$> next.prepend <$> events.foldlM scan next.blank
          cases events.foldlM scan next.blank with
          | error e => rfl
          | ok last =>
              refine congrArg Except.ok ?_
              simp [prepend]

/-- What a run finds first, and then. -/
theorem scan_append_eq_ok {xs ys : List Xml.Event} :
    (xs ++ ys).foldlM scan state = .ok found ↔ ∃ first, xs.foldlM scan state = .ok first ∧
      ∃ later, ys.foldlM scan first.blank = .ok later ∧ found = first.prepend later := by
  rw [List.foldlM_append, bind_eq_ok]
  refine exists_congr fun first => and_congr_right fun _ => ?_
  rw [scan_run, map_eq_ok]
  exact exists_congr fun later => and_congr_right fun _ => eq_comm

theorem scan_singleton_eq_ok :
    [event].foldlM scan state.blank = .ok found ↔ state.blank.step event = .ok found := by
  rw [List.foldlM_cons, scan, blank_blank]
  cases state.blank.step event with
  | error e => exact Iff.of_eq rfl
  | ok next =>
      show Except.ok (state.blank.prepend next) = _ ↔ _
      rw [blank_prepend]

/-- Merging twice is merging what both found. -/
theorem merges_prepend {later : SolverParse} : Merges state (found.prepend later) state' ↔
    ∃ merged, Merges state found merged ∧ Merges merged later state' := by
  have hall : ∀ merged : SolverParse,
      insertAll (found.prepend later).changes state.changes = .ok merged.changes ↔
        ∃ changes, insertAll found.changes state.changes = .ok changes ∧
          insertAll later.changes changes = .ok merged.changes := by
    intro merged
    rw [← bind_eq_ok, insertAll, prepend, List.foldlM_append]
    rfl
  constructor
  · rintro ⟨hchanges, hsame⟩
    obtain ⟨changes, hfirst, hsecond⟩ := (hall state').mp hchanges
    refine ⟨{ found with changes := changes, problems := state.problems ++ found.problems },
      ⟨hfirst, rfl⟩, hsecond, ?_⟩
    rw [hsame]
    simp [prepend]
  · rintro ⟨merged, ⟨hfirst, hmerged⟩, hsecond, hsame⟩
    refine ⟨(hall state').mpr ⟨merged.changes, hfirst, hsecond⟩, ?_⟩
    have hproblems : merged.problems = state.problems ++ found.problems := by rw [hmerged]
    rw [hsame, hproblems]
    simp [prepend]

/-- **Reading and merging taken apart.** -/
theorem run_eq_ok : events.foldlM step state = .ok state' ↔
    ∃ found, events.foldlM scan state.blank = .ok found ∧ Merges state found state' := by
  induction events generalizing state with
  | nil =>
      show Except.ok state = Except.ok state' ↔ ∃ found, Except.ok state.blank = Except.ok found ∧ _
      simp [merges_blank, eq_comm]
  | cons event events ih =>
      have hblank : ∀ {found merged : SolverParse}, Merges state found merged →
          merged.blank = found.blank := by
        rintro found merged ⟨-, hsame⟩
        rw [hsame]
        rfl
      rw [List.foldlM_cons, bind_eq_ok, show event :: events = [event] ++ events from rfl]
      simp only [scan_append_eq_ok]
      constructor
      · rintro ⟨merged, hstep, hrun⟩
        obtain ⟨found, hfound, hmerges⟩ := step_merges.mp hstep
        obtain ⟨later, hlater, hmerges'⟩ := ih.mp hrun
        rw [hblank hmerges] at hlater
        exact ⟨_, ⟨found, scan_singleton_eq_ok.mpr hfound, later, hlater, rfl⟩,
          merges_prepend.mpr ⟨merged, hmerges, hmerges'⟩⟩
      · rintro ⟨_, ⟨found, hfound, later, hlater, rfl⟩, hmerges⟩
        obtain ⟨merged, hfirst, hsecond⟩ := merges_prepend.mp hmerges
        refine ⟨merged, step_merges.mpr ⟨found, scan_singleton_eq_ok.mp hfound, hfirst⟩,
          ih.mpr ⟨later, ?_, hsecond⟩⟩
        rwa [hblank hfirst]

/-! ## What an event is found to say -/

end

end SolverParse

/-- An element that says that something went wrong. -/
def ErrorMessage (element : Xml.Element) : Prop :=
  element.name = "message" ∧ elementAttribute element "type" = .ok (some "error")

/-- A summary, as it is read. -/
def ReadsSummary (element : Xml.Element) (summary : Summary) : Prop :=
  element.name = "install-summary" ∧ parseSummary element = .ok summary

/-- A package below an open section, as it is read. -/
def ReadsPackage (section? : Option PackageAction) (element : Xml.Element)
    (change : PackageChange) : Prop :=
  element.name = "solvable" ∧ elementAttribute element "type" = .ok (some "package") ∧
    ∃ action, section? = some action ∧ parsePackage element action = .ok change

/-- A change is read of nothing but a package. -/
theorem parseSolvable_eq_some {element : Xml.Element} {action : PackageAction}
    {change : PackageChange} (h : parseSolvable element action = .ok (some change)) :
    elementAttribute element "type" = .ok (some "package") ∧
      parsePackage element action = .ok change := by
  rw [parseSolvable] at h
  obtain ⟨kind, hkind, h⟩ := bind_eq_ok.mp h
  split at h
  · cases h
  · cases h
  · cases h
  · cases h
  · obtain ⟨change', hread, hsame⟩ := map_eq_ok.mp h
    cases hsame
    exact ⟨hkind, hread⟩
  · cases h

namespace SolverParse

/-- What is found in an element by a state that has listed nothing. -/
structure Finds (state : SolverParse) (element : Xml.Element) (found : SolverParse) : Prop where
  path : found.path = state.path
  place : element.name = "install-summary" → state.path = ["stream"]
  summary : found.summary = state.summary ∨
    state.path = ["stream"] ∧ ∃ summary, ReadsSummary element summary ∧ found.summary = some summary
  flag : found.inErrorMessage → ErrorMessage element ∨
    element.name ≠ "message" ∧ state.inErrorMessage
  problems : found.problems = [] ↔ ¬ ErrorMessage element
  changes : ∀ change, change ∈ found.changes ↔ ReadsPackage state.section? element change

section

variable {state state' found : SolverParse} {element : Xml.Element} {event : Xml.Event}
variable {events : List Xml.Event}

/-- An element that is neither a package nor a message says at most what the summary is. -/
theorem finds_of_other (hsolvable : element.name ≠ "solvable") (hmessage : element.name ≠ "message")
    (hplace : element.name = "install-summary" → state.path = ["stream"])
    {summary : Option Summary} (hsummary : summary = state.summary ∨ state.path = ["stream"] ∧
      ∃ s, ReadsSummary element s ∧ summary = some s) :
    Finds state element { state.blank with summary := summary } := by
  constructor
  · rfl
  · exact hplace
  · exact hsummary
  · exact fun hflag => .inr ⟨hmessage, hflag⟩
  · exact iff_of_true rfl fun herror => hmessage herror.1
  · exact fun change => iff_of_false (List.not_mem_nil) fun hpackage => hsolvable hpackage.1

theorem readElement_finds (h : state.blank.readElement element = .ok found) :
    Finds state element found := by
  rw [readElement_eq] at h
  split_ifs at h with hsummary hsolvable hmessage
  · rw [readSummary_eq hsummary] at h
    split_ifs at h with hplace
    obtain ⟨summary, hread, rfl⟩ := map_eq_ok.mp h
    rw [Bool.or_eq_true, not_or, decide_eq_true_eq, not_not] at hplace
    have hstream : state.path = ["stream"] := hplace.2
    refine finds_of_other (by rw [hsummary]; decide) (by rw [hsummary]; decide)
      (fun _ => hstream) (.inr ?_)
    exact ⟨hstream, summary, ⟨hsummary, hread⟩, rfl⟩
  · rw [readSolvable_eq hsolvable] at h
    have herror : ¬ ErrorMessage element := by
      rintro ⟨hname, -⟩
      rw [hsolvable] at hname
      exact absurd hname (by decide)
    have hmessage : element.name ≠ "message" := by
      rw [hsolvable]
      decide
    -- nothing but the changes depends on what is read
    have hfinds : ∀ changes : List PackageChange,
        (∀ c, c ∈ changes ↔ ReadsPackage state.section? element c) →
        Finds state element { state.blank with changes := changes } := fun changes hchanges =>
      ⟨rfl, fun h => absurd h hsummary, .inl rfl, fun hflag => .inr ⟨hmessage, hflag⟩,
        iff_of_true rfl herror, hchanges⟩
    change (match state.section? with | none => _ | some action => _) = _ at h
    cases hsection : state.section? with
    | none =>
        rw [hsection] at h
        cases h
        refine hfinds [] fun c => iff_of_false (List.not_mem_nil) ?_
        rintro ⟨-, -, action, hnone, -⟩
        rw [hsection] at hnone
        cases hnone
    | some action =>
        rw [hsection] at h
        obtain ⟨parsed, hparsed, h⟩ := bind_eq_ok.mp h
        cases parsed with
        | none =>
            cases h
            refine hfinds [] fun c => iff_of_false (List.not_mem_nil) ?_
            rintro ⟨-, hpackage, -⟩
            obtain ⟨change, -, hnone⟩ := parseSolvable_of_package hpackage hparsed
            cases hnone
        | some change =>
            cases h
            obtain ⟨hpackage, hread⟩ := parseSolvable_eq_some hparsed
            refine hfinds [change] fun c => ?_
            rw [List.mem_singleton, ReadsPackage, hsection]
            constructor
            · rintro rfl
              exact ⟨hsolvable, hpackage, action, rfl, hread⟩
            · rintro ⟨-, -, _, hsame, hread'⟩
              cases hsame
              rw [hread] at hread'
              exact (Except.ok.inj hread').symm
  · rw [readMessage_eq hmessage] at h
    obtain ⟨kind, hkind, rfl⟩ := map_eq_ok.mp h
    have hnone : ∀ change, ¬ ReadsPackage state.section? element change := by
      rintro change ⟨hname, -⟩
      rw [hmessage] at hname
      exact absurd hname (by decide)
    split_ifs with herror
    · have hmessageError : ErrorMessage element := ⟨hmessage, by rw [hkind, herror]⟩
      constructor
      · rfl
      · exact fun h => absurd h hsummary
      · exact .inl rfl
      · exact fun _ => .inl hmessageError
      · exact iff_of_false (by simp) (not_not.mpr hmessageError)
      · exact fun change => iff_of_false (List.not_mem_nil) (hnone change)
    · have hmessageError : ¬ ErrorMessage element := by
        rintro ⟨-, htype⟩
        rw [hkind] at htype
        exact herror (Except.ok.inj htype)
      constructor
      · rfl
      · exact fun h => absurd h hsummary
      · exact .inl rfl
      · exact fun hflag => nomatch hflag
      · exact iff_of_true rfl hmessageError
      · exact fun change => iff_of_false (List.not_mem_nil) (hnone change)
  · cases h
    exact finds_of_other hsolvable hmessage (fun h => absurd h hsummary) (.inl rfl)

/-- What is found in an event by a state that has listed nothing. -/
structure FindsIn (state : SolverParse) (event : Xml.Event) (found : SolverParse) : Prop where
  path : found.path = event.openElements state.path
  place : ∀ element, event.element? = some element → element.name = "install-summary" →
    state.path = ["stream"]
  summary : found.summary = state.summary ∨ state.path = ["stream"] ∧
    ∃ element, event.element? = some element ∧
      ∃ summary, ReadsSummary element summary ∧ found.summary = some summary
  flag : found.inErrorMessage → (∃ element, event.element? = some element ∧ ErrorMessage element) ∨
    state.inErrorMessage ∧ event ≠ .close "message"
  problems : (∃ element, event.element? = some element ∧ ErrorMessage element) →
    found.problems ≠ []
  no_problems : found.problems ≠ [] →
    (∃ element, event.element? = some element ∧ ErrorMessage element) ∨ state.inErrorMessage
  changes : ∀ change, change ∈ found.changes ↔
    ∃ element, event.element? = some element ∧ ReadsPackage state.section? element change

/-- An event without an element finds nothing but problems. -/
theorem findsIn_of_none (hnone : event.element? = none) {path : List String}
    {problems : List String} {flag : Bool} (hpath : path = event.openElements state.path)
    (hproblems : problems ≠ [] → state.inErrorMessage)
    (hflag : flag → state.inErrorMessage ∧ event ≠ .close "message") :
    FindsIn state event
      { state.blank with path := path, problems := problems, inErrorMessage := flag } := by
  have habsurd : ∀ {p : Xml.Element → Prop}, ¬ ∃ element, event.element? = some element ∧ p element := by
    rintro p ⟨element, hsome, -⟩
    rw [hnone] at hsome
    cases hsome
  constructor
  · exact hpath
  · intro element hsome
    rw [hnone] at hsome
    cases hsome
  · exact .inl rfl
  · exact fun h => .inr (hflag h)
  · exact fun h => absurd h habsurd
  · exact fun h => .inr (hproblems h)
  · exact fun c => iff_of_false List.not_mem_nil habsurd

/-- An event with an element finds what is found in the element. -/
theorem Finds.findsIn (h : Finds state element found) (hsome : event.element? = some element)
    {path : List String} (hpath : path = event.openElements state.path) :
    FindsIn state event { found with path := path } := by
  have hmessageError : (∃ element, event.element? = some element ∧ ErrorMessage element) ↔
      ErrorMessage element := by simp [hsome]
  constructor
  · exact hpath
  · intro element' hsome' hname
    cases hsome.symm.trans hsome'
    exact h.place hname
  · exact h.summary.imp_right fun ⟨hplace, hread⟩ => ⟨hplace, element, hsome, hread⟩
  · intro hflag
    refine (h.flag hflag).imp hmessageError.mpr fun ⟨_, hopen⟩ => ⟨hopen, ?_⟩
    rintro rfl
    cases hsome
  · exact fun herror hnil => h.problems.mp hnil (hmessageError.mp herror)
  · exact fun hproblems => .inl (hmessageError.mpr (not_not.mp fun hnone => hproblems (h.problems.mpr hnone)))
  · intro change
    rw [show change ∈ ({ found with path := path } : SolverParse).changes ↔
      change ∈ found.changes from Iff.rfl, h.changes change]
    simp [hsome]

/-- **One event**, read by a state that has listed nothing. -/
theorem step_findsIn (h : state.blank.step event = .ok found) : FindsIn state event found := by
  cases event with
  | start element =>
      rw [step_start] at h
      obtain ⟨read, hread, h⟩ := bind_eq_ok.mp h
      have hfinds := readElement_finds hread
      have hpath : element.name :: read.path = element.name :: state.path := by rw [hfinds.path]
      split_ifs at h with hdeep
      cases h
      exact hfinds.findsIn rfl hpath
  | empty element =>
      have hfinds := readElement_finds h
      exact hfinds.findsIn rfl hfinds.path
  | text content =>
      by_cases hopen : state.inErrorMessage
      · rw [step_text (show state.blank.inErrorMessage from hopen)] at h
        cases content with
        | none => cases h
        | some value =>
            dsimp only at h
            split_ifs at h
            · cases h
              exact findsIn_of_none rfl rfl (fun h => absurd rfl h) fun hflag => ⟨hflag, by simp⟩
            · cases h
              exact findsIn_of_none rfl rfl (fun _ => hopen) fun hflag => ⟨hflag, by simp⟩
      · rw [step_text_closed (show ¬ state.blank.inErrorMessage from hopen)] at h
        cases h
        exact findsIn_of_none rfl rfl (fun h => absurd rfl h) fun hflag => ⟨hflag, by simp⟩
  | close name =>
      cases h
      refine findsIn_of_none rfl rfl (fun h => absurd rfl h) fun hflag => ?_
      split_ifs at hflag with hname
      exact ⟨hflag, by simpa using hname⟩
  | cdata content | reference content | other =>
      cases h
      exact findsIn_of_none rfl rfl (fun h => absurd rfl h) fun hflag => ⟨hflag, by simp⟩
  | docType | malformed => cases h

/-! ## What a run finds -/

/-- What is found in a document: the open elements, its summary, its error messages and its
packages. -/
structure FindsAll (events : List Xml.Event) (found : SolverParse) : Prop where
  path : found.path = Xml.path events
  place : ∀ names root, found.path = names ++ ["install-summary", root] → root = "stream"
  summary : ∀ summary, found.summary = some summary →
    ∃ element, Xml.Within events ["stream"] element ∧ ReadsSummary element summary
  problems : found.problems ≠ [] ↔
    ∃ event ∈ events, ∃ element, event.element? = some element ∧ ErrorMessage element
  flag : found.inErrorMessage → found.problems ≠ []
  changes : ∀ change, change ∈ found.changes ↔ ∃ action element,
    ReportedPackage events action element ∧ parsePackage element action = .ok change

/-- A package is reported by the last event, or it was reported before. -/
theorem reportedPackage_append_singleton {action : PackageAction} :
    ReportedPackage (events ++ [event]) action element ↔ ReportedPackage events action element ∨
      (event.element? = some element ∧ element.name = "solvable" ∧
        elementAttribute element "type" = .ok (some "package") ∧
        ∃ root name, sectionAction name = some action ∧
          Xml.path events = [name, "install-summary", root]) := by
  constructor
  · rintro ⟨⟨root, name, haction, hwithin⟩, hname, hpackage⟩
    rcases Xml.within_append_singleton.mp hwithin with hearlier | ⟨hevent, hopen⟩
    · exact .inl ⟨⟨root, name, haction, hearlier⟩, hname, hpackage⟩
    · exact .inr ⟨hevent, hname, hpackage, root, name, haction, hopen⟩
  · rintro (⟨⟨root, name, haction, hwithin⟩, hname, hpackage⟩ |
      ⟨hevent, hname, hpackage, root, name, haction, hopen⟩)
    · exact ⟨⟨root, name, haction, Xml.within_append_singleton.mpr (.inl hwithin)⟩, hname, hpackage⟩
    · exact ⟨⟨root, name, haction, Xml.within_append_singleton.mpr (.inr ⟨hevent, hopen⟩)⟩, hname,
        hpackage⟩

theorem section?_eq_some {action : PackageAction} : state.section? = some action ↔
    ∃ root name, sectionAction name = some action ∧
      state.path = [name, "install-summary", root] := by
  rw [section?]
  constructor
  · intro h
    split at h
    · rename_i name root hpath
      exact ⟨root, name, h, hpath⟩
    · cases h
  · rintro ⟨root, name, haction, hpath⟩
    rw [hpath]
    exact haction

/-- **A run finds** what the document says. -/
theorem run_finds (h : events.foldlM scan {} = .ok found) : FindsAll events found := by
  induction events using List.reverseRecOn generalizing found with
  | nil =>
      cases h
      constructor
      · rfl
      · intro names root hpath
        simp at hpath
      · exact fun _ hnone => nomatch hnone
      · simp
      · exact fun hflag => nomatch hflag
      · intro change
        refine iff_of_false List.not_mem_nil ?_
        rintro ⟨action, element, ⟨⟨_, _, -, hwithin⟩, -, -⟩, -⟩
        exact Xml.not_within_nil hwithin
  | append_singleton events event ih =>
      obtain ⟨before, hbefore, last, hlast, rfl⟩ := scan_append_eq_ok.mp h
      have hall := ih hbefore
      have hlast := step_findsIn (scan_singleton_eq_ok.mp hlast)
      have hproblems : (before.prepend last).problems ≠ [] ↔
          before.problems ≠ [] ∨ last.problems ≠ [] := by
        rw [prepend, ne_eq, List.append_eq_nil_iff, not_and_or]
      constructor
      · show last.path = _
        rw [hlast.path, hall.path, Xml.path_append_singleton]
      · intro names root hpath
        change last.path = _ at hpath
        rw [hlast.path] at hpath
        cases event with
        | start element =>
            change element.name :: before.path = _ at hpath
            cases names with
            | nil =>
                obtain ⟨hname, hbefore⟩ := List.cons.inj hpath
                cases hbefore.symm.trans (hlast.place element rfl hname)
                rfl
            | cons name names => exact hall.place names root (List.cons.inj hpath).2
        | close name =>
            change before.path.tail = _ at hpath
            cases hopen : before.path with
            | nil =>
                rw [hopen] at hpath
                simp at hpath
            | cons first rest =>
                rw [hopen] at hpath
                change rest = _ at hpath
                refine hall.place (first :: names) root ?_
                rw [hopen, hpath]
                rfl
        | _ => exact hall.place names root hpath
      · intro summary hsome
        rcases hlast.summary with hsame | ⟨hplace, element, hevent, _, hread, hsame⟩
        · obtain ⟨element, hwithin, hread⟩ := hall.summary summary (hsame.symm.trans hsome)
          exact ⟨element, Xml.within_append_singleton.mpr (.inl hwithin), hread⟩
        · cases hsame.symm.trans hsome
          exact ⟨element, Xml.within_append_singleton.mpr (.inr ⟨hevent, hall.path ▸ hplace⟩), hread⟩
      · have hsplit : (∃ e ∈ events ++ [event], ∃ element, e.element? = some element ∧
            ErrorMessage element) ↔ (∃ e ∈ events, ∃ element, e.element? = some element ∧
            ErrorMessage element) ∨ ∃ element, event.element? = some element ∧
            ErrorMessage element := by
          simp [or_and_right, exists_or]
        rw [hproblems, hsplit, ← hall.problems]
        constructor
        · rintro (hbefore | hlater)
          · exact .inl hbefore
          · exact (hlast.no_problems hlater).symm.imp_left hall.flag
        · exact Or.imp_right hlast.problems
      · intro hflag
        rw [hproblems]
        exact (hlast.flag hflag).symm.imp (fun hopen => hall.flag hopen.1) hlast.problems
      · intro change
        show change ∈ before.changes ++ last.changes ↔ _
        rw [List.mem_append, hall.changes, hlast.changes]
        constructor
        · rintro (⟨action, element, hreported, hread⟩ |
            ⟨element, hevent, hname, hpackage, action, hsection, hread⟩)
          · exact ⟨action, element, reportedPackage_append_singleton.mpr (.inl hreported), hread⟩
          · rw [section?_eq_some, hall.path] at hsection
            exact ⟨action, element, reportedPackage_append_singleton.mpr
              (.inr ⟨hevent, hname, hpackage, hsection⟩), hread⟩
        · rintro ⟨action, element, hreported, hread⟩
          rcases reportedPackage_append_singleton.mp hreported with
            hearlier | ⟨hevent, hname, hpackage, hsection⟩
          · exact .inl ⟨action, element, hearlier, hread⟩
          · rw [← hall.path, ← section?_eq_some] at hsection
            exact .inr ⟨element, hevent, hname, hpackage, action, hsection, hread⟩

end

end SolverParse

end LyraUpgrade
