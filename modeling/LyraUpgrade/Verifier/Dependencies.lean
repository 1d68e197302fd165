import LyraUpgrade.Core.Text
import LyraUpgrade.Encoding.Utf8
import LyraUpgrade.Encoding.XmlTree

/-!
# The dependency probe

`verifier/src/dependencies.rs`: after the reboot the verifier asks zypper for the repairs it
would make, and goes on only where the answer proves that there are none.  `healthyOutput`
reads the answer token by token; what it accepts is described here as a tree.

## Main definitions

* `healthyOutput` — the probe.
* `HealthyDocument` — a document that proves an empty repair.

## Main results

* `healthyOutput_iff` — the probe accepts exactly such documents.
-/

namespace LyraUpgrade

open Encoding Xml

/-! ## The probe -/

/-- `MAX_OUTPUT`. -/
def maxOutput : ℕ := 1024 * 1024

/-- `u8::is_ascii_whitespace`. -/
def isAsciiBlank (c : Char) : Bool := c = ' ' || c = '\t' || c = '\n' || c = '\x0c' || c = '\r'

def isBlankText (content : String) : Bool := content.toList.all isAsciiBlank

/-- `attributes.insert(key, value)`, where a later value takes the place of an earlier one. -/
def insertAttribute (attributes : List (String × String)) :
    Attribute → Option (List (String × String))
  | .malformed => none
  | .entry _ none => none
  | .entry key (some value) => some ((key, value) :: attributes)

/-- All attributes of an element. -/
def decodeAttributes (tag : Tag) : Option (List (String × String)) :=
  tag.attributes.foldlM insertAttribute []

/-- The counters of the summary. -/
def counters : List String :=
  ["packages-to-change", "download-size", "space-usage-diff", "space-usage-installed",
    "space-usage-removed"]

/-- Every counter is there, and is zero. -/
def countersZero (attributes : List (String × String)) : Bool :=
  counters.all fun field =>
    ((attributes.lookup field).bind fun value => parseI64 value.toList) = some 0

/-- What no healthy document contains. -/
def isRepair (name : String) (attributes : List (String × String)) : Bool :=
  name = "prompt" || name = "solvable" || "to-".toList.isPrefixOf name.toList ||
    (name = "message" && attributes.lookup "type" = some "error")

/-- The variables of the loop. -/
structure DependencyScan where
  /-- The innermost element first. -/
  path : List String := []
  rootSeen : Bool := false
  declarationSeen : Bool := false
  summarySeen : Bool := false
  deriving DecidableEq, Repr

namespace DependencyScan

/-- A start tag, or the tag of an empty element. -/
def element (scan : DependencyScan) (tag : Tag) : Option DependencyScan :=
  if scan.path = [] ∧ (scan.rootSeen ∨ tag.name ≠ "stream") then none
  else if "install-summary" ∈ scan.path then none
  else
    match decodeAttributes tag with
    | none => none
    | some attributes =>
        if tag.name = "install-summary" ∧
            (scan.summarySeen ∨ scan.path ≠ ["stream"] ∨ !countersZero attributes) then none
        else if isRepair tag.name attributes then none
        else some { scan with
          rootSeen := true
          summarySeen := scan.summarySeen || tag.name = "install-summary" }

/-- Where only blanks may stand. -/
def bare (scan : DependencyScan) : Bool := scan.path = [] || scan.path.head? = some "install-summary"

/-- One round of the loop. -/
def next (scan : DependencyScan) : Token → Option DependencyScan
  | .start tag => do
      let scan ← scan.element tag
      if 32 ≤ scan.path.length then none else some { scan with path := tag.name :: scan.path }
  | .close name =>
      if scan.path.head? = some name then some { scan with path := scan.path.tail } else none
  | .leaf (.empty tag) => scan.element tag
  | .leaf (.text content) => if scan.bare && !isBlankText content then none else some scan
  | .leaf (.reference reference) =>
      if scan.bare then none
      else match reference with
        | .malformed => none
        | .character _ => some scan
        | .entity name => if name ∈ ["amp", "lt", "gt", "apos", "quot"] then some scan else none
  | .leaf .declaration =>
      if scan.declarationSeen || scan.rootSeen then none
      else some { scan with declarationSeen := true }
  | .leaf .comment => some scan
  | .leaf .docType | .leaf .instruction | .leaf .cdata | .leaf .malformed => none

/-- The loop. -/
def run (scan : DependencyScan) (tokens : List Token) : Option DependencyScan := tokens.foldlM next scan

/-- What holds at the end of a healthy document. -/
def complete (scan : DependencyScan) : Bool :=
  scan.rootSeen && scan.summarySeen && scan.path = []

end DependencyScan

/-- `healthy_output`, with the tokenizer of quick-xml. -/
def healthyOutput (tokenize : String → List Token) (success : Bool) (bytes : List UInt8) :
    Except Unit Unit :=
  if !success || maxOutput < bytes.length then .error ()
  else match String.fromUTF8? bytes.toByteArray with
    | none => .error ()
    | some xml =>
        if (DependencyScan.run {} (tokenize xml)).any DependencyScan.complete then .ok () else .error ()

/-! ## A document that proves an empty repair -/

/-- A comment or blanks. -/
def isMargin : Leaf → Bool
  | .text content => isBlankText content
  | .comment => true
  | _ => false

/-- A tag that proposes nothing, and can be read. -/
def Harmless (tag : Tag) : Prop :=
  ∃ attributes, decodeAttributes tag = some attributes ∧ isRepair tag.name attributes = false

/-- The tag of a summary without changes. -/
def UnchangedSummary (tag : Tag) : Prop :=
  tag.name = "install-summary" ∧ ∃ attributes, decodeAttributes tag = some attributes ∧ countersZero attributes

/-- What may stand in an element. -/
def isKnown : Leaf → Bool
  | .empty _ | .text _ | .comment | .reference (.character _) => true
  | .reference (.entity name) => name ∈ ["amp", "lt", "gt", "apos", "quot"]
  | _ => false

/-- A summary without changes, in which only `inside` stands. -/
def IsSummary (inside : Leaf → Prop) : XmlNode → Prop
  | .element tag content =>
      UnchangedSummary tag ∧ ∃ leaves : List Leaf, content = leaves.map XmlNode.leaf ∧ ∀ leaf ∈ leaves, inside leaf
  | .leaf (.empty tag) => UnchangedSummary tag
  | .leaf _ => False

/-- One element, and what stands around it. -/
structure ProbedDocument where
  prolog : List Leaf
  root : Tag
  content : List XmlNode
  epilog : List Leaf

namespace ProbedDocument

def stream (document : ProbedDocument) : XmlNode := .element document.root document.content

def nodes (document : ProbedDocument) : List XmlNode :=
  document.prolog.map XmlNode.leaf ++ document.stream :: document.epilog.map XmlNode.leaf

/-- **A document that proves an empty repair.**  How deep it may be, and what may stand in the
summary, are parameters. -/
structure Proves (bounded : XmlNode → Prop) (inside : Leaf → Prop) (document : ProbedDocument) : Prop where
  prolog : ∀ leaf ∈ document.prolog, isMargin leaf ∨ leaf = .declaration
  declaration : document.prolog.count .declaration ≤ 1
  epilog : ∀ leaf ∈ document.epilog, isMargin leaf
  root : document.root.name = "stream"
  bounded : bounded document.stream
  tags : ∀ tag ∈ document.stream.tags, Harmless tag
  leaves : ∀ leaf ∈ document.stream.leaves, isKnown leaf
  summary : ∃ before summary after, document.content = before ++ summary :: after ∧
    IsSummary inside summary ∧
    ∀ tag ∈ forestTags (before ++ after), tag.name ≠ "install-summary"

end ProbedDocument

/-- At most 32 elements are open at once, and only blanks and comments stand in the summary. -/
def HealthyDocument (tokens : List Token) : Prop :=
  ∃ document : ProbedDocument, tokens = forestTokens document.nodes ∧
    document.Proves (fun node => node.openDepth ≤ 32) fun leaf => isMargin leaf

/-! ## One token -/

namespace DependencyScan

section

variable {scan after : DependencyScan} {tag : Tag} {leaf : Leaf}

/-- **What the check of a tag says.** -/
theorem element_eq_some : scan.element tag = some after ↔
    (scan.path = [] → scan.rootSeen = false ∧ tag.name = "stream") ∧
    "install-summary" ∉ scan.path ∧ Harmless tag ∧
    (tag.name = "install-summary" →
      scan.summarySeen = false ∧ scan.path = ["stream"] ∧ UnchangedSummary tag) ∧
    after = { scan with
      rootSeen := true, summarySeen := scan.summarySeen || tag.name = "install-summary" } := by
  rw [element, Harmless, UnchangedSummary]
  by_cases hroot : scan.path = [] ∧ (scan.rootSeen ∨ tag.name ≠ "stream")
  · rw [if_pos hroot]
    refine iff_of_false (by simp) fun h => ?_
    obtain ⟨hseen, hname⟩ := h.1 hroot.1
    rw [hseen, hname] at hroot
    simp at hroot
  by_cases hinside : "install-summary" ∈ scan.path
  · rw [if_neg hroot, if_pos hinside]
    exact iff_of_false (by simp) fun h => h.2.1 hinside
  rw [if_neg hroot, if_neg hinside]
  have hfirst : scan.path = [] → scan.rootSeen = false ∧ tag.name = "stream" := by
    intro hpath
    simpa [hpath] using hroot
  cases hread : decodeAttributes tag with
  | none => simp
  | some attributes =>
      dsimp only
      split_ifs with hsummary hrepair
      · refine iff_of_false (by simp) fun h => ?_
        obtain ⟨hseen, hpath, -, other, hother, hzero⟩ := h.2.2.2.1 hsummary.1
        cases hother
        simp [hseen, hpath, hzero] at hsummary
      · refine iff_of_false (by simp) fun h => ?_
        obtain ⟨other, hother, hharmless⟩ := h.2.2.1
        cases hother
        rw [hharmless] at hrepair
        cases hrepair
      · rw [Option.some.injEq]
        constructor
        · rintro rfl
          refine ⟨hfirst, hinside, ⟨attributes, rfl, by simpa using hrepair⟩, fun hname => ?_, rfl⟩
          simp only [hname, true_and, not_or, Bool.not_eq_true, Decidable.not_not,
            Bool.not_eq_eq_eq_not, Bool.not_true, Bool.not_eq_false] at hsummary
          exact ⟨hsummary.1, hsummary.2.1, hname, attributes, rfl, hsummary.2.2⟩
        · exact fun h => h.2.2.2.2.symm

/-- Only blanks and comments may stand in the summary, and around the root but for a
declaration. -/
theorem next_leaf_bare (hbare : scan.bare) (hempty : ∀ tag, leaf = .empty tag → scan.element tag = none) :
    scan.next (.leaf leaf) = some after ↔
      (isMargin leaf ∧ after = scan) ∨ (leaf = .declaration ∧ scan.declarationSeen = false ∧
        scan.rootSeen = false ∧ after = { scan with declarationSeen := true }) := by
  cases leaf with
  | empty tag => simp [next, hempty tag rfl, isMargin]
  | text content => simp [next, hbare, isMargin, eq_comm (a := scan)]
  | reference reference => simp [next, hbare, isMargin]
  | declaration =>
      simp only [next, isMargin]
      split_ifs with hseen
      · simp only [Bool.or_eq_true] at hseen
        refine iff_of_false (by simp) ?_
        rintro (⟨h, -⟩ | ⟨-, h₁, h₂, -⟩)
        · cases h
        · simp [h₁, h₂] at hseen
      · simp only [Bool.or_eq_true, not_or, Bool.not_eq_true] at hseen
        simp [hseen.1, hseen.2, eq_comm]
  | comment => simp [next, isMargin, eq_comm (a := scan)]
  | docType | instruction | cdata | malformed => simp [next, isMargin]

/-- Elsewhere a leaf has to be known. -/
theorem next_leaf_inside (hbare : scan.bare = false) (hroot : scan.rootSeen)
    (hempty : ∀ tag, leaf ≠ .empty tag) :
    scan.next (.leaf leaf) = some after ↔ isKnown leaf ∧ after = scan := by
  cases leaf with
  | empty tag => exact absurd rfl (hempty tag)
  | text content => simp [next, hbare, isKnown, eq_comm (a := scan)]
  | reference reference =>
      cases reference with
      | malformed => simp [next, isKnown]
      | character c => simp [next, hbare, isKnown, eq_comm (a := scan)]
      | entity name =>
          simp only [next, hbare, isKnown, decide_eq_true_eq, Bool.false_eq_true, if_false]
          split_ifs with hname
          · simp [hname, eq_comm (a := scan)]
          · simp [hname]
  | declaration => simp [next, hroot, isKnown]
  | comment => simp [next, isKnown, eq_comm (a := scan)]
  | docType | instruction | cdata | malformed => simp [next, isKnown]

/-- **Every round keeps track of the open elements.** -/
theorem nest_of_next {token : Token} (h : scan.next token = some after) :
    token.nest scan.path = some after.path := by
  have hpath : ∀ tag, scan.element tag = some after → scan.path = after.path := by
    intro tag htag
    rw [(element_eq_some.mp htag).2.2.2.2]
  cases token with
  | start tag =>
      obtain ⟨opened, hopened, h⟩ := Option.bind_eq_some_iff.mp h
      have hsame : scan.path = opened.path := by rw [(element_eq_some.mp hopened).2.2.2.2]
      split_ifs at h
      cases h
      rw [Token.nest, hsame]
  | close name =>
      rw [next] at h
      split_ifs at h with hname
      cases h
      rw [Token.nest, if_pos hname]
  | leaf leaf =>
      rw [Token.nest]
      cases leaf with
      | empty tag => rw [hpath tag h]
      | _ =>
          simp only [next] at h
          repeat' split at h
          all_goals first | cases h; rfl | cases h

theorem run_cons (token : Token) (tokens : List Token) :
    scan.run (token :: tokens) = (scan.next token).bind fun scan => scan.run tokens := rfl

theorem run_singleton (token : Token) : scan.run [token] = scan.next token := by
  rw [run_cons]
  cases scan.next token <;> rfl

theorem run_append (tokens rest : List Token) :
    scan.run (tokens ++ rest) = (scan.run tokens).bind fun scan => scan.run rest := by
  rw [run, List.foldlM_append]
  rfl

theorem nestAll_of_run {tokens : List Token} (h : scan.run tokens = some after) :
    nestAll scan.path tokens = some after.path := by
  induction tokens generalizing scan with
  | nil =>
      cases h
      rfl
  | cons token tokens ih =>
      rw [run_cons] at h
      obtain ⟨middle, hmiddle, h⟩ := Option.bind_eq_some_iff.mp h
      rw [nestAll_cons, nest_of_next hmiddle, Option.bind_some]
      exact ih h

end

end DependencyScan

/-! ## Inside the elements -/

/-- Nodes below `depth` open elements, without a summary. -/
structure PlainContent (depth : ℕ) (nodes : List XmlNode) : Prop where
  tags : ∀ tag ∈ forestTags nodes, Harmless tag ∧ tag.name ≠ "install-summary"
  leaves : ∀ leaf ∈ forestLeaves nodes, isKnown leaf
  bounded : depth + forestOpenDepth nodes ≤ 32

section

variable {depth : ℕ} {tag : Tag} {leaf : Leaf} {node : XmlNode} {nodes content others : List XmlNode}

theorem plainContent_nil (hdepth : depth ≤ 32) : PlainContent depth [] :=
  ⟨by simp [forestTags], by simp [forestLeaves], by simpa [forestOpenDepth] using hdepth⟩

theorem plainContent_append :
    PlainContent depth (nodes ++ others) ↔ PlainContent depth nodes ∧ PlainContent depth others := by
  constructor
  · rintro ⟨ht, hl, hd⟩
    rw [forestTags_append, List.forall_mem_append] at ht
    rw [forestLeaves_append, List.forall_mem_append] at hl
    rw [forestOpenDepth_append] at hd
    exact ⟨⟨ht.1, hl.1, by omega⟩, ⟨ht.2, hl.2, by omega⟩⟩
  · rintro ⟨⟨ht, hl, hd⟩, ⟨ht', hl', hd'⟩⟩
    refine ⟨?_, ?_, ?_⟩
    · rw [forestTags_append, List.forall_mem_append]
      exact ⟨ht, ht'⟩
    · rw [forestLeaves_append, List.forall_mem_append]
      exact ⟨hl, hl'⟩
    · rw [forestOpenDepth_append]
      omega

theorem plainContent_element :
    PlainContent depth [.element tag content] ↔
      (Harmless tag ∧ tag.name ≠ "install-summary") ∧ PlainContent (depth + 1) content := by
  have htags : forestTags [.element tag content] = tag :: forestTags content := by
    simp [forestTags, XmlNode.tags]
  have hleaves : forestLeaves [.element tag content] = forestLeaves content := by
    simp [forestLeaves, XmlNode.leaves]
  have hopen : forestOpenDepth [.element tag content] = forestOpenDepth content + 1 := by
    simp [forestOpenDepth, XmlNode.openDepth]
  constructor
  · rintro ⟨ht, hl, hd⟩
    rw [htags, List.forall_mem_cons] at ht
    rw [hleaves] at hl
    exact ⟨ht.1, ht.2, hl, by omega⟩
  · rintro ⟨htag, ht, hl, hd⟩
    refine ⟨?_, ?_, by omega⟩
    · rw [htags, List.forall_mem_cons]
      exact ⟨htag, ht⟩
    · rw [hleaves]
      exact hl

theorem plainContent_leaf (hdepth : depth ≤ 32) :
    PlainContent depth [.leaf leaf] ↔
      isKnown leaf ∧ ∀ tag, leaf = .empty tag → Harmless tag ∧ tag.name ≠ "install-summary" := by
  have hopen : forestOpenDepth [.leaf leaf] = 0 := by simp [forestOpenDepth, XmlNode.openDepth]
  have hleaves : forestLeaves [.leaf leaf] = [leaf] := by simp [forestLeaves, XmlNode.leaves]
  constructor
  · rintro ⟨ht, hl, -⟩
    refine ⟨hl leaf (by simp [hleaves]), ?_⟩
    rintro tag rfl
    exact ht tag (by simp [forestTags, XmlNode.tags])
  · rintro ⟨hknown, htag⟩
    refine ⟨fun tag hmem => ?_, ?_, by omega⟩
    · cases leaf with
      | empty other =>
          simp only [forestTags, XmlNode.tags, List.append_nil, List.mem_singleton] at hmem
          exact htag tag (hmem ▸ rfl)
      | _ => simp [forestTags, XmlNode.tags] at hmem
    · rw [hleaves, List.forall_mem_singleton]
      exact hknown

end

namespace DependencyScan

section

variable {scan after : DependencyScan} {tag : Tag} {leaf : Leaf}

/-- Inside elements other than the summary. -/
structure Inside (scan : DependencyScan) : Prop where
  rootSeen : scan.rootSeen
  opened : scan.path ≠ []
  plain : "install-summary" ∉ scan.path

theorem Inside.bare (h : scan.Inside) : scan.bare = false := by
  obtain ⟨name, names, hpath⟩ := List.exists_cons_of_ne_nil h.opened
  have hname : name ≠ "install-summary" := by
    rintro rfl
    exact h.plain (hpath ▸ List.mem_cons_self ..)
  simp [DependencyScan.bare, hpath, hname]

/-- A tag that is no summary, inside an element. -/
theorem Inside.element (h : scan.Inside) (hname : tag.name ≠ "install-summary") :
    scan.element tag = some after ↔ Harmless tag ∧ after = scan := by
  have hsame : { scan with
      rootSeen := true
      summarySeen := scan.summarySeen || tag.name = "install-summary" : DependencyScan } = scan := by
    have := h.rootSeen
    cases scan
    simp_all
  rw [element_eq_some, hsame]
  simp [h.opened, h.plain, hname]

theorem Inside.next_leaf (h : scan.Inside) (hname : ∀ tag, leaf = .empty tag → tag.name ≠ "install-summary") :
    scan.next (.leaf leaf) = some after ↔
      (isKnown leaf ∧ ∀ tag, leaf = .empty tag → Harmless tag) ∧ after = scan := by
  cases leaf with
  | empty tag =>
      rw [next, h.element (hname tag rfl)]
      simp [isKnown]
  | _ =>
      rw [next_leaf_inside h.bare h.rootSeen (by simp)]
      simp

/-- What a start tag opens. -/
theorem Inside.next_start (h : scan.Inside) (hname : tag.name ≠ "install-summary") :
    scan.next (.start tag) = some after ↔
      Harmless tag ∧ scan.path.length < 32 ∧ after = { scan with path := tag.name :: scan.path } := by
  rw [next, Option.bind_eq_bind, Option.bind_eq_some_iff]
  constructor
  · rintro ⟨opened, hopened, hnext⟩
    obtain ⟨hharmless, rfl⟩ := (h.element hname).mp hopened
    split_ifs at hnext with hdeep
    cases hnext
    exact ⟨hharmless, Nat.not_le.mp hdeep, rfl⟩
  · rintro ⟨hharmless, hdepth, rfl⟩
    refine ⟨scan, (h.element hname).mpr ⟨hharmless, rfl⟩, ?_⟩
    rw [if_neg (Nat.not_le.mpr hdepth)]

theorem Inside.push (h : scan.Inside) (hname : tag.name ≠ "install-summary") :
    Inside { scan with path := tag.name :: scan.path } :=
  ⟨h.rootSeen, by simp, by simpa [hname.symm] using h.plain⟩

/-- A summary that is not the child of the root is refused. -/
theorem element_summary (hdeep : 2 ≤ scan.path.length)
    (hname : tag.name = "install-summary") : scan.element tag = none := by
  rw [Option.eq_none_iff_forall_ne_some]
  intro after hafter
  obtain ⟨-, hpath, -⟩ := (element_eq_some.mp hafter).2.2.2.1 hname
  rw [hpath] at hdeep
  exact absurd hdeep (by decide)

/-- An element is passed over, where its content is. -/
theorem Inside.run_element {content : List XmlNode} (h : scan.Inside)
    (hname : tag.name ≠ "install-summary") (hdepth : scan.path.length ≤ 32)
    (hcontent : scan.path.length < 32 → ∀ inner : DependencyScan, inner.Inside →
      inner.path.length = scan.path.length + 1 → ∀ last, inner.run (forestTokens content) = some last ↔
        PlainContent (scan.path.length + 1) content ∧ last = inner) :
    scan.run (XmlNode.element tag content).tokens = some after ↔
      PlainContent scan.path.length [.element tag content] ∧ after = scan := by
  have hclose : next { scan with path := tag.name :: scan.path } (.close tag.name) = some scan := by
    rw [next, if_pos List.head?_cons]
    rfl
  rw [tokens_element, run_cons, plainContent_element, Option.bind_eq_some_iff]
  constructor
  · rintro ⟨opened, hopened, hrest⟩
    obtain ⟨hharmless, hlt, rfl⟩ := (h.next_start hname).mp hopened
    rw [run_append, Option.bind_eq_some_iff] at hrest
    obtain ⟨last, hlast, hrest⟩ := hrest
    obtain ⟨hplain, rfl⟩ := (hcontent hlt _ (h.push hname) rfl last).mp hlast
    rw [run_cons, hclose] at hrest
    cases hrest
    exact ⟨⟨⟨hharmless, hname⟩, hplain⟩, rfl⟩
  · rintro ⟨⟨⟨hharmless, -⟩, hplain⟩, hsame⟩
    have hlt : scan.path.length < 32 := by
      have := hplain.bounded
      omega
    refine ⟨_, (h.next_start hname).mpr ⟨hharmless, hlt, rfl⟩, ?_⟩
    rw [run_append, (hcontent hlt _ (h.push hname) rfl _).mpr ⟨hplain, rfl⟩, Option.bind_some,
      run_cons, hclose, hsame]
    rfl

end

mutual

/-- **Deep inside** the root, nothing but plain nodes is accepted, and nothing changes. -/
theorem run_deep {scan after : DependencyScan} {node : XmlNode} (h : scan.Inside) (hdeep : 2 ≤ scan.path.length)
    (hdepth : scan.path.length ≤ 32) :
    scan.run node.tokens = some after ↔ PlainContent scan.path.length [node] ∧ after = scan := by
  cases node with
  | element tag content =>
      by_cases hname : tag.name = "install-summary"
      · refine iff_of_false ?_ fun hplain => ?_
        · rw [tokens_element, run_cons, next, element_summary hdeep hname]
          simp
        · exact (plainContent_element.mp hplain.1).1.2 hname
      · refine h.run_element hname hdepth fun hlt inner hinner hlength last => ?_
        rw [← hlength]
        exact run_forest_deep hinner (by omega) (by omega)
  | leaf leaf =>
      rw [plainContent_leaf hdepth, tokens_leaf, run_singleton]
      by_cases hname : ∀ tag, leaf = .empty tag → tag.name ≠ "install-summary"
      · rw [h.next_leaf hname]
        refine and_congr_left fun _ => and_congr_right fun _ => ?_
        exact forall₂_congr fun tag htag => (and_iff_left (hname tag htag)).symm
      · simp only [not_forall, Decidable.not_not] at hname
        obtain ⟨tag, rfl, hsummary⟩ := hname
        refine iff_of_false ?_ fun hplain => (hplain.1.2 tag rfl).2 hsummary
        rw [next, element_summary hdeep hsummary]
        simp

theorem run_forest_deep {scan after : DependencyScan} {nodes : List XmlNode} (h : scan.Inside) (hdeep : 2 ≤ scan.path.length)
    (hdepth : scan.path.length ≤ 32) :
    scan.run (forestTokens nodes) = some after ↔
      PlainContent scan.path.length nodes ∧ after = scan := by
  cases nodes with
  | nil =>
      rw [forestTokens_nil, and_iff_right (plainContent_nil hdepth)]
      exact ⟨fun h => (Option.some.inj h).symm, fun h => h ▸ rfl⟩
  | cons node nodes =>
      rw [forestTokens_cons, run_append, Option.bind_eq_some_iff,
        show node :: nodes = [node] ++ nodes from rfl, plainContent_append]
      constructor
      · rintro ⟨middle, hmiddle, hrest⟩
        obtain ⟨hnode, rfl⟩ := (run_deep h hdeep hdepth).mp hmiddle
        obtain ⟨hnodes, rfl⟩ := (run_forest_deep h hdeep hdepth).mp hrest
        exact ⟨⟨hnode, hnodes⟩, rfl⟩
      · rintro ⟨⟨hnode, hnodes⟩, rfl⟩
        exact ⟨_, (run_deep h hdeep hdepth).mpr ⟨hnode, rfl⟩,
          (run_forest_deep h hdeep hdepth).mpr ⟨hnodes, rfl⟩⟩

end

end DependencyScan

/-! ## Margins -/

section

variable {leaves : List Leaf}

theorem forestTags_margins (h : ∀ leaf ∈ leaves, isMargin leaf) :
    forestTags (leaves.map XmlNode.leaf) = [] := by
  induction leaves with
  | nil => rfl
  | cons leaf leaves ih =>
      rw [List.forall_mem_cons] at h
      rw [List.map_cons, forestTags, ih h.2]
      cases leaf with
      | empty tag => cases h.1
      | _ => rfl

theorem isKnown_of_isMargin {leaf : Leaf} (h : isMargin leaf) : isKnown leaf := by
  cases leaf with
  | text content => rfl
  | comment => rfl
  | _ => cases h

end

namespace DependencyScan

section

variable {scan after : DependencyScan} {tag : Tag} {node : XmlNode} {nodes : List XmlNode}

/-- Where no element may begin, blanks and comments are passed over. -/
theorem run_margins (hbare : scan.bare) (hroot : scan.rootSeen)
    (helement : ∀ tag, scan.element tag = none) :
    scan.run (forestTokens nodes) = some after ↔
      (∃ leaves : List Leaf, nodes = leaves.map XmlNode.leaf ∧ ∀ leaf ∈ leaves, isMargin leaf) ∧
        after = scan := by
  have hleaf : ∀ leaf middle, scan.next (.leaf leaf) = some middle ↔
      isMargin leaf ∧ middle = scan := by
    intro leaf middle
    rw [next_leaf_bare hbare fun tag _ => helement tag, hroot]
    simp
  induction nodes with
  | nil =>
      rw [and_iff_right ⟨[], rfl, by simp⟩]
      exact ⟨fun h => (Option.some.inj h).symm, fun h => h ▸ rfl⟩
  | cons node nodes ih =>
      rw [forestTokens_cons, run_append, Option.bind_eq_some_iff]
      cases node with
      | element tag content =>
          refine iff_of_false ?_ ?_
          · rintro ⟨middle, hmiddle, -⟩
            rw [tokens_element, run_cons, next, helement] at hmiddle
            cases hmiddle
          · rintro ⟨⟨leaves, hleaves, -⟩, -⟩
            cases leaves with
            | nil => cases hleaves
            | cons leaf leaves => cases hleaves
      | leaf leaf =>
          rw [tokens_leaf, run_singleton]
          constructor
          · rintro ⟨middle, hmiddle, hrest⟩
            obtain ⟨hmargin, rfl⟩ := (hleaf leaf middle).mp hmiddle
            obtain ⟨⟨leaves, rfl, hleaves⟩, hsame⟩ := ih.mp hrest
            exact ⟨⟨leaf :: leaves, rfl, List.forall_mem_cons.mpr ⟨hmargin, hleaves⟩⟩, hsame⟩
          · rintro ⟨⟨leaves, hleaves, hmargins⟩, hsame⟩
            cases leaves with
            | nil => cases hleaves
            | cons first leaves =>
                cases hleaves
                rw [List.forall_mem_cons] at hmargins
                exact ⟨scan, (hleaf leaf scan).mpr ⟨hmargins.1, rfl⟩,
                  ih.mpr ⟨⟨leaves, rfl, hmargins.2⟩, hsame⟩⟩

/-- Behind the root. -/
theorem run_epilog (hpath : scan.path = []) (hroot : scan.rootSeen) :
    scan.run (forestTokens nodes) = some after ↔
      (∃ leaves : List Leaf, nodes = leaves.map XmlNode.leaf ∧ ∀ leaf ∈ leaves, isMargin leaf) ∧
        after = scan := by
  refine run_margins (by simp [bare, hpath]) hroot fun tag => ?_
  rw [element, if_pos ⟨hpath, .inl hroot⟩]

/-- In the summary. -/
theorem run_summary (h : scan.path.head? = some "install-summary") (hroot : scan.rootSeen) :
    scan.run (forestTokens nodes) = some after ↔
      (∃ leaves : List Leaf, nodes = leaves.map XmlNode.leaf ∧ ∀ leaf ∈ leaves, isMargin leaf) ∧
        after = scan := by
  refine run_margins (by simp [bare, h]) hroot fun tag => ?_
  exact Option.eq_none_iff_forall_ne_some.mpr fun _ hsome =>
    (element_eq_some.mp hsome).2.1 (List.mem_of_mem_head? h)

/-! ## The children of the root -/

/-- A summary that is accepted. -/
def AcceptedSummary (node : XmlNode) : Prop :=
  IsSummary (fun leaf => isMargin leaf) node ∧ ∀ tag ∈ node.tags, Harmless tag

/-- In the root, with nothing else open. -/
structure AtRoot (scan : DependencyScan) : Prop where
  rootSeen : scan.rootSeen
  path : scan.path = ["stream"]

theorem AtRoot.inside (h : scan.AtRoot) : scan.Inside :=
  ⟨h.rootSeen, by simp [h.path], by simp [h.path]⟩

/-- The tag of a summary. -/
theorem AtRoot.element_summary (h : scan.AtRoot) (hname : tag.name = "install-summary") :
    scan.element tag = some after ↔
      (UnchangedSummary tag ∧ Harmless tag) ∧ scan.summarySeen = false ∧
        after = { scan with summarySeen := true } := by
  have hsame : { scan with
      rootSeen := true
      summarySeen := scan.summarySeen || tag.name = "install-summary" : DependencyScan } =
        { scan with summarySeen := true } := by
    have := h.rootSeen
    simp_all
  rw [element_eq_some, hsame]
  simp only [h.path, hname, reduceCtorEq, false_implies, true_and, forall_const]
  constructor
  · rintro ⟨-, hharmless, ⟨hseen, hunchanged⟩, rfl⟩
    exact ⟨⟨hunchanged, hharmless⟩, hseen, rfl⟩
  · rintro ⟨⟨hunchanged, hharmless⟩, hseen, rfl⟩
    exact ⟨by decide, hharmless, ⟨hseen, hunchanged⟩, rfl⟩

/-- The summary as an element of its own. -/
theorem AtRoot.run_summary_node {content : List XmlNode} (h : scan.AtRoot)
    (hname : tag.name = "install-summary") :
    scan.run (XmlNode.element tag content).tokens = some after ↔
      AcceptedSummary (.element tag content) ∧ scan.summarySeen = false ∧
        after = { scan with summarySeen := true } := by
  have hclose : next { scan with summarySeen := true, path := tag.name :: scan.path }
      (.close tag.name) = some { scan with summarySeen := true } := by
    rw [next, if_pos List.head?_cons]
    rfl
  have hhead : (tag.name :: scan.path).head? = some "install-summary" := by
    rw [hname]
    rfl
  have hcontent := fun last => @run_summary
    { scan with summarySeen := true, path := tag.name :: scan.path } last content hhead h.rootSeen
  rw [tokens_element, run_cons, next, Option.bind_eq_bind, Option.bind_assoc,
    Option.bind_eq_some_iff]
  constructor
  · rintro ⟨opened, hopened, hrest⟩
    obtain ⟨⟨hunchanged, hharmless⟩, hseen, rfl⟩ := (h.element_summary hname).mp hopened
    rw [if_neg (by simp [h.path]), Option.bind_some, run_append, Option.bind_eq_some_iff] at hrest
    obtain ⟨last, hlast, hrest⟩ := hrest
    obtain ⟨⟨leaves, rfl, hleaves⟩, rfl⟩ := (hcontent last).mp hlast
    rw [run_cons, hclose] at hrest
    cases hrest
    refine ⟨⟨⟨hunchanged, leaves, rfl, hleaves⟩, fun other hother => ?_⟩, hseen, rfl⟩
    rw [XmlNode.tags, forestTags_margins hleaves, List.mem_singleton] at hother
    exact hother ▸ hharmless
  · rintro ⟨⟨⟨hunchanged, leaves, rfl, hleaves⟩, htags⟩, hseen, rfl⟩
    have hharmless : Harmless tag := htags tag (by simp [XmlNode.tags])
    refine ⟨_, (h.element_summary hname).mpr ⟨⟨hunchanged, hharmless⟩, hseen, rfl⟩, ?_⟩
    rw [if_neg (by simp [h.path]), Option.bind_some, run_append,
      (hcontent _).mpr ⟨⟨leaves, rfl, hleaves⟩, rfl⟩, Option.bind_some, run_cons, hclose]
    rfl

/-- **A child of the root** is plain, or it is the summary. -/
theorem AtRoot.run_child (h : scan.AtRoot) :
    scan.run node.tokens = some after ↔
      (PlainContent 1 [node] ∧ after = scan) ∨
      (AcceptedSummary node ∧ scan.summarySeen = false ∧
        after = { scan with summarySeen := true }) := by
  have hlength : scan.path.length = 1 := by rw [h.path]; rfl
  cases node with
  | element tag content =>
      by_cases hname : tag.name = "install-summary"
      · rw [h.run_summary_node hname, or_iff_right]
        exact fun hplain => (plainContent_element.mp hplain.1).1.2 hname
      · rw [or_iff_left fun haccepted => hname haccepted.1.1.1.1, ← hlength]
        refine h.inside.run_element hname (by omega) fun hlt inner hinner hinnerLength last => ?_
        rw [← hinnerLength]
        exact run_forest_deep hinner (by omega) (by omega)
  | leaf leaf =>
      rw [tokens_leaf, run_singleton, plainContent_leaf (by decide)]
      by_cases hname : ∀ tag, leaf = .empty tag → tag.name ≠ "install-summary"
      · rw [h.inside.next_leaf hname, or_iff_left]
        · refine and_congr_left fun _ => and_congr_right fun _ => ?_
          exact forall₂_congr fun tag htag => (and_iff_left (hname tag htag)).symm
        · rintro ⟨⟨hsummary, -⟩, -⟩
          cases leaf with
          | empty tag => exact hname tag rfl hsummary.1
          | _ => exact hsummary
      · simp only [not_forall, Decidable.not_not] at hname
        obtain ⟨tag, rfl, hsummary⟩ := hname
        rw [next, h.element_summary hsummary, or_iff_right fun hplain => (hplain.1.2 tag rfl).2 hsummary]
        refine and_congr_left fun _ => and_congr_right fun _ => ?_
        simp [XmlNode.tags]

/-- **The content of the root.** -/
theorem AtRoot.run_content (h : scan.AtRoot) :
    scan.run (forestTokens nodes) = some after ↔
      (PlainContent 1 nodes ∧ after = scan) ∨
      (scan.summarySeen = false ∧ after = { scan with summarySeen := true } ∧
        ∃ before summary behind, nodes = before ++ summary :: behind ∧ PlainContent 1 before ∧
          AcceptedSummary summary ∧ PlainContent 1 behind) := by
  induction nodes generalizing scan with
  | nil =>
      rw [or_iff_left, and_iff_right (plainContent_nil (by decide))]
      · exact ⟨fun h => (Option.some.inj h).symm, fun h => h ▸ rfl⟩
      · rintro ⟨-, -, before, summary, behind, hnil, -⟩
        simp at hnil
  | cons node nodes ih =>
      have hsplit : PlainContent 1 (node :: nodes) ↔ PlainContent 1 [node] ∧ PlainContent 1 nodes :=
        @plainContent_append 1 [node] nodes
      rw [forestTokens_cons, run_append, Option.bind_eq_some_iff, hsplit]
      have hlater : AtRoot { scan with summarySeen := true } := ⟨h.rootSeen, h.path⟩
      constructor
      · rintro ⟨middle, hmiddle, hrest⟩
        rcases h.run_child.mp hmiddle with ⟨hnode, rfl⟩ | ⟨hsummary, hseen, rfl⟩
        · rcases (ih h).mp hrest with ⟨hnodes, rfl⟩ | ⟨hseen, rfl, before, summary, behind, rfl, hb, hs, ha⟩
          · exact .inl ⟨⟨hnode, hnodes⟩, rfl⟩
          · exact .inr ⟨hseen, rfl, node :: before, summary, behind, rfl,
              (@plainContent_append 1 [node] _).mpr ⟨hnode, hb⟩, hs, ha⟩
        · rcases (ih hlater).mp hrest with
            ⟨hnodes, rfl⟩ | ⟨hagain, -⟩
          · exact .inr ⟨hseen, rfl, [], node, nodes, rfl, plainContent_nil (by decide), hsummary, hnodes⟩
          · cases hagain
      · rintro (⟨⟨hnode, hnodes⟩, rfl⟩ | ⟨hseen, rfl, before, summary, behind, hsame, hb, hs, ha⟩)
        · exact ⟨_, h.run_child.mpr (.inl ⟨hnode, rfl⟩), (ih h).mpr (.inl ⟨hnodes, rfl⟩)⟩
        · cases before with
          | nil =>
              cases hsame
              exact ⟨_, h.run_child.mpr (.inr ⟨hs, hseen, rfl⟩),
                (ih hlater).mpr
                  (.inl ⟨ha, rfl⟩)⟩
          | cons first before =>
              cases hsame
              obtain ⟨hnode, hb⟩ := (@plainContent_append 1 [node] _).mp hb
              exact ⟨_, h.run_child.mpr (.inl ⟨hnode, rfl⟩),
                (ih h).mpr (.inr ⟨hseen, rfl, before, summary, behind, rfl, hb, hs, ha⟩)⟩

end

end DependencyScan

/-! ## The document -/

/-- One summary without changes among plain nodes. -/
def HasSummary (content : List XmlNode) : Prop :=
  ∃ before summary behind, content = before ++ summary :: behind ∧ PlainContent 1 before ∧
    DependencyScan.AcceptedSummary summary ∧ PlainContent 1 behind

/-- A document that is accepted while `declarations` may still come. -/
def ReadDocument (declarations : ℕ) (nodes : List XmlNode) : Prop :=
  ∃ (prolog : List Leaf) (root : Tag) (content : List XmlNode) (epilog : List Leaf),
    nodes = prolog.map XmlNode.leaf ++ .element root content :: epilog.map XmlNode.leaf ∧
    (∀ leaf ∈ prolog, isMargin leaf ∨ leaf = .declaration) ∧
    prolog.count .declaration ≤ declarations ∧ (∀ leaf ∈ epilog, isMargin leaf) ∧
    root.name = "stream" ∧ Harmless root ∧ HasSummary content

section

variable {declarations : ℕ} {tag : Tag} {leaf : Leaf} {content nodes : List XmlNode}

theorem not_readDocument_nil : ¬ ReadDocument declarations [] := by
  rintro ⟨prolog, root, content, epilog, hnil, -⟩
  simp at hnil

theorem readDocument_leaf : ReadDocument declarations (.leaf leaf :: nodes) ↔
    (isMargin leaf ∧ ReadDocument declarations nodes) ∨
      (leaf = .declaration ∧ 0 < declarations ∧ ReadDocument (declarations - 1) nodes) := by
  constructor
  · rintro ⟨prolog, root, content, epilog, hsame, hprolog, hcount, hrest⟩
    cases prolog with
    | nil => cases hsame
    | cons first prolog =>
        cases hsame
        rw [List.forall_mem_cons] at hprolog
        rcases hprolog.1 with hmargin | rfl
        · have hother : leaf ≠ .declaration := by
            rintro rfl
            cases hmargin
          rw [List.count_cons_of_ne hother] at hcount
          exact .inl ⟨hmargin, prolog, root, content, epilog, rfl, hprolog.2, hcount, hrest⟩
        · rw [List.count_cons_self] at hcount
          exact .inr ⟨rfl, by omega, prolog, root, content, epilog, rfl, hprolog.2, by omega, hrest⟩
  · rintro (⟨hmargin, prolog, root, content, epilog, rfl, hprolog, hcount, hrest⟩ |
      ⟨rfl, hsome, prolog, root, content, epilog, rfl, hprolog, hcount, hrest⟩)
    · have hother : leaf ≠ .declaration := by
        rintro rfl
        cases hmargin
      exact ⟨leaf :: prolog, root, content, epilog, rfl,
        List.forall_mem_cons.mpr ⟨.inl hmargin, hprolog⟩,
        by rwa [List.count_cons_of_ne hother], hrest⟩
    · exact ⟨.declaration :: prolog, root, content, epilog, rfl,
        List.forall_mem_cons.mpr ⟨.inr rfl, hprolog⟩,
        by rw [List.count_cons_self]; omega, hrest⟩

theorem readDocument_element : ReadDocument declarations (.element tag content :: nodes) ↔
    (tag.name = "stream" ∧ Harmless tag ∧ HasSummary content) ∧
      ∃ leaves : List Leaf, nodes = leaves.map XmlNode.leaf ∧ ∀ leaf ∈ leaves, isMargin leaf := by
  constructor
  · rintro ⟨prolog, root, inner, epilog, hsame, -, -, hepilog, hroot⟩
    cases prolog with
    | nil =>
        cases hsame
        exact ⟨hroot, epilog, rfl, hepilog⟩
    | cons first prolog => cases hsame
  · rintro ⟨hroot, leaves, rfl, hleaves⟩
    exact ⟨[], tag, content, leaves, rfl, by simp, by simp, hleaves, hroot⟩

end

namespace DependencyScan

section

variable {scan after : DependencyScan} {tag : Tag} {nodes content : List XmlNode}

/-- Before the root. -/
structure BeforeRoot (scan : DependencyScan) : Prop where
  rootSeen : scan.rootSeen = false
  summarySeen : scan.summarySeen = false
  path : scan.path = []

/-- The declarations that may still come. -/
def remaining (scan : DependencyScan) : ℕ := if scan.declarationSeen then 0 else 1

theorem BeforeRoot.element (h : scan.BeforeRoot) : scan.element tag = some after ↔
    tag.name = "stream" ∧ Harmless tag ∧ after = { scan with rootSeen := true } := by
  rw [element_eq_some]
  simp only [h.path, h.rootSeen, h.summarySeen, forall_const, true_and, List.not_mem_nil,
    not_false_eq_true, Bool.false_or, reduceCtorEq, false_and, imp_false]
  constructor
  · rintro ⟨hname, hharmless, hother, rfl⟩
    refine ⟨hname, hharmless, ?_⟩
    rw [decide_eq_false hother]
  · rintro ⟨hname, hharmless, rfl⟩
    have hother : tag.name ≠ "install-summary" := by
      rw [hname]
      decide
    exact ⟨hname, hharmless, hother, by rw [decide_eq_false hother]⟩

/-- A leaf before the root. -/
theorem BeforeRoot.next_leaf {leaf : Leaf} (h : scan.BeforeRoot) (hempty : ∀ tag, leaf ≠ .empty tag) :
    scan.next (.leaf leaf) = some after ↔
      (isMargin leaf ∧ after = scan) ∨ (leaf = .declaration ∧ scan.declarationSeen = false ∧
        after = { scan with declarationSeen := true }) := by
  rw [next_leaf_bare (by simp [bare, h.path]) fun tag heq => absurd heq (hempty tag), h.rootSeen]
  simp

/-- **The root.** -/
theorem BeforeRoot.run_root (h : scan.BeforeRoot) :
    scan.run (XmlNode.element tag content).tokens = some after ↔
      (tag.name = "stream" ∧ Harmless tag) ∧
        ((PlainContent 1 content ∧ after = { scan with rootSeen := true }) ∨
          (HasSummary content ∧ after = { scan with rootSeen := true, summarySeen := true })) := by
  have hclose : ∀ seen, next { scan with
      rootSeen := true, summarySeen := seen, path := tag.name :: scan.path } (.close tag.name) =
      some { scan with rootSeen := true, summarySeen := seen } := by
    intro seen
    rw [next, if_pos List.head?_cons]
    rfl
  have hinner : tag.name = "stream" →
      AtRoot { scan with rootSeen := true, path := tag.name :: scan.path } :=
    fun hname => ⟨rfl, by rw [hname, h.path]⟩
  rw [tokens_element, run_cons, next, Option.bind_eq_bind, Option.bind_assoc,
    Option.bind_eq_some_iff]
  constructor
  · rintro ⟨opened, hopened, hrest⟩
    obtain ⟨hname, hharmless, rfl⟩ := h.element.mp hopened
    rw [if_neg (by simp [h.path]), Option.bind_some, run_append, Option.bind_eq_some_iff] at hrest
    obtain ⟨last, hlast, hrest⟩ := hrest
    refine ⟨⟨hname, hharmless⟩, ?_⟩
    rcases (hinner hname).run_content.mp hlast with ⟨hplain, rfl⟩ | ⟨-, rfl, hsummary⟩
    · rw [run_cons, hclose] at hrest
      cases hrest
      exact .inl ⟨hplain, rfl⟩
    · rw [run_cons, hclose] at hrest
      cases hrest
      exact .inr ⟨hsummary, rfl⟩
  · rintro ⟨⟨hname, hharmless⟩, hcontent⟩
    refine ⟨_, h.element.mpr ⟨hname, hharmless, rfl⟩, ?_⟩
    rw [if_neg (by simp [h.path]), Option.bind_some, run_append]
    rcases hcontent with ⟨hplain, rfl⟩ | ⟨hsummary, rfl⟩
    · rw [(hinner hname).run_content.mpr (.inl ⟨hplain, rfl⟩), Option.bind_some, run_cons, hclose]
      rfl
    · rw [(hinner hname).run_content.mpr (.inr ⟨h.summarySeen, rfl, hsummary⟩), Option.bind_some,
        run_cons, hclose]
      rfl

/-- **A whole document**, one equation for each thing that may come first. -/
theorem BeforeRoot.run_document (h : scan.BeforeRoot) :
    (∃ after, scan.run (forestTokens nodes) = some after ∧ after.complete) ↔
      ReadDocument scan.remaining nodes := by
  induction nodes generalizing scan with
  | nil =>
      refine iff_of_false ?_ not_readDocument_nil
      rintro ⟨after, hrun, hcomplete⟩
      cases hrun
      rw [complete, h.rootSeen] at hcomplete
      cases hcomplete
  | cons node nodes ih =>
      simp only [forestTokens_cons, run_append, Option.bind_eq_some_iff]
      have hepilog := fun seen last => @run_epilog
        { scan with rootSeen := true, summarySeen := seen } last nodes h.path rfl
      cases node with
      | element tag content =>
          rw [readDocument_element]
          constructor
          · rintro ⟨after, ⟨middle, hmiddle, hrest⟩, hcomplete⟩
            obtain ⟨hroot, ⟨-, rfl⟩ | ⟨hsummary, rfl⟩⟩ := h.run_root.mp hmiddle
            · -- without a summary the document is not complete
              obtain ⟨-, rfl⟩ := (hepilog _ _).mp hrest
              simp [complete, h.summarySeen] at hcomplete
            · obtain ⟨hleaves, -⟩ := (hepilog _ _).mp hrest
              exact ⟨⟨hroot.1, hroot.2, hsummary⟩, hleaves⟩
          · rintro ⟨⟨hname, hharmless, hsummary⟩, hleaves⟩
            refine ⟨_, ⟨_, h.run_root.mpr ⟨⟨hname, hharmless⟩, .inr ⟨hsummary, rfl⟩⟩,
              (hepilog _ _).mpr ⟨hleaves, rfl⟩⟩, ?_⟩
            simp [complete, h.path]
      | leaf leaf =>
          simp only [tokens_leaf, run_singleton]
          rw [readDocument_leaf]
          by_cases hempty : ∃ tag, leaf = .empty tag
          · obtain ⟨tag, rfl⟩ := hempty
            refine iff_of_false ?_ (by simp [isMargin])
            rintro ⟨after, ⟨middle, hmiddle, hrest⟩, hcomplete⟩
            obtain ⟨-, -, rfl⟩ := h.element.mp hmiddle
            obtain ⟨-, rfl⟩ := (hepilog _ _).mp hrest
            simp [complete, h.summarySeen] at hcomplete
          · simp only [h.next_leaf fun tag htag => hempty ⟨tag, htag⟩]
            have hdeclared : BeforeRoot { scan with declarationSeen := true } :=
              ⟨h.rootSeen, h.summarySeen, h.path⟩
            constructor
            · rintro ⟨after, ⟨middle, ⟨hmargin, rfl⟩ | ⟨rfl, hseen, rfl⟩, hrest⟩, hcomplete⟩
              · exact .inl ⟨hmargin, (ih h).mp ⟨after, hrest, hcomplete⟩⟩
              · refine .inr ⟨rfl, by simp [remaining, hseen], ?_⟩
                rw [remaining, hseen, if_neg Bool.false_ne_true]
                exact (ih hdeclared).mp ⟨after, hrest, hcomplete⟩
            · rintro (⟨hmargin, hwritten⟩ | ⟨rfl, hsome, hwritten⟩)
              · obtain ⟨after, hrest, hcomplete⟩ := (ih h).mpr hwritten
                exact ⟨after, ⟨scan, .inl ⟨hmargin, rfl⟩, hrest⟩, hcomplete⟩
              · have hseen : scan.declarationSeen = false := by
                  cases hseen : scan.declarationSeen with
                  | false => rfl
                  | true =>
                      rw [remaining, hseen, if_pos rfl] at hsome
                      cases hsome
                rw [remaining, hseen, if_neg Bool.false_ne_true] at hwritten
                obtain ⟨after, hrest, hcomplete⟩ := (ih hdeclared).mpr hwritten
                exact ⟨after, ⟨_, .inr ⟨rfl, hseen, rfl⟩, hrest⟩, hcomplete⟩

end

end DependencyScan

/-! ## The description -/

section

variable {document : ProbedDocument} {tokens : List Token}

/-- The content of the root, as it is described and as it is read. -/
theorem hasSummary_iff {content : List XmlNode} :
    HasSummary content ↔
      (∀ tag ∈ forestTags content, Harmless tag) ∧ (∀ leaf ∈ forestLeaves content, isKnown leaf) ∧
      1 + forestOpenDepth content ≤ 32 ∧ ∃ before summary behind,
        content = before ++ summary :: behind ∧ IsSummary (fun leaf => isMargin leaf) summary ∧
        ∀ tag ∈ forestTags (before ++ behind), tag.name ≠ "install-summary" := by
  have hsummary : ∀ summary, DependencyScan.AcceptedSummary summary →
      (∀ leaf ∈ summary.leaves, isKnown leaf) ∧ summary.openDepth ≤ 1 := by
    rintro summary ⟨hsummary, htags⟩
    cases summary with
    | element tag content =>
        obtain ⟨-, leaves, rfl, hleaves⟩ := hsummary
        rw [XmlNode.leaves, XmlNode.openDepth, forestLeaves_leaves, forestOpenDepth_leaves]
        exact ⟨fun leaf hleaf => isKnown_of_isMargin (hleaves leaf hleaf), Nat.le_refl _⟩
    | leaf leaf =>
        cases leaf with
        | empty tag => exact ⟨by simp [XmlNode.leaves, isKnown], Nat.zero_le _⟩
        | _ => exact hsummary.elim
  constructor
  · rintro ⟨before, summary, behind, rfl, hbefore, haccepted, hbehind⟩
    obtain ⟨hknown, hdepth⟩ := hsummary summary haccepted
    have hbound := hbefore.bounded
    have hbound' := hbehind.bounded
    simp only [forestTags_append, forestLeaves_append, forestOpenDepth_append, forestTags,
      forestLeaves, forestOpenDepth, List.forall_mem_append]
    refine ⟨⟨fun tag htag => (hbefore.tags tag htag).1, haccepted.2,
        fun tag htag => (hbehind.tags tag htag).1⟩, ⟨hbefore.leaves, hknown, hbehind.leaves⟩,
      by omega, before, summary, behind, rfl, haccepted.1, ?_⟩
    exact ⟨fun tag htag => (hbefore.tags tag htag).2, fun tag htag => (hbehind.tags tag htag).2⟩
  · rintro ⟨htags, hleaves, hdepth, before, summary, behind, rfl, hsummary, hnames⟩
    simp only [forestTags_append, forestLeaves_append, forestOpenDepth_append, forestTags,
      forestLeaves, forestOpenDepth, List.forall_mem_append] at htags hleaves hdepth hnames
    exact ⟨before, summary, behind, rfl,
      ⟨fun tag htag => ⟨htags.1 tag htag, hnames.1 tag htag⟩, hleaves.1, by omega⟩,
      ⟨hsummary, htags.2.1⟩,
      ⟨fun tag htag => ⟨htags.2.2 tag htag, hnames.2 tag htag⟩, hleaves.2.2, by omega⟩⟩

theorem readDocument_iff {nodes : List XmlNode} : ReadDocument 1 nodes ↔
    ∃ document : ProbedDocument, nodes = document.nodes ∧
      document.Proves (fun node => node.openDepth ≤ 32) fun leaf => isMargin leaf := by
  constructor
  · rintro ⟨prolog, root, content, epilog, rfl, hprolog, hcount, hepilog, hname, hharmless, hcontent⟩
    obtain ⟨htags, hleaves, hdepth, hsummary⟩ := hasSummary_iff.mp hcontent
    refine ⟨⟨prolog, root, content, epilog⟩, rfl, hprolog, hcount, hepilog, hname, ?_, ?_, hleaves,
      hsummary⟩
    · show forestOpenDepth content + 1 ≤ 32
      omega
    · exact List.forall_mem_cons.mpr ⟨hharmless, htags⟩
  · rintro ⟨⟨prolog, root, content, epilog⟩, rfl, h⟩
    obtain ⟨hharmless, htags⟩ := List.forall_mem_cons.mp h.tags
    have hdepth : forestOpenDepth content + 1 ≤ 32 := h.bounded
    exact ⟨prolog, root, content, epilog, rfl, h.prolog, h.declaration, h.epilog, h.root, hharmless,
      hasSummary_iff.mpr ⟨htags, h.leaves, by omega, h.summary⟩⟩

/-- The loop accepts what is described. -/
theorem run_complete_iff :
    (∃ scan, DependencyScan.run {} tokens = some scan ∧ scan.complete) ↔ HealthyDocument tokens := by
  have hstart : DependencyScan.BeforeRoot {} := ⟨rfl, rfl, rfl⟩
  constructor
  · rintro ⟨scan, hrun, hcomplete⟩
    have hpath : scan.path = [] := by
      rw [DependencyScan.complete, Bool.and_eq_true, decide_eq_true_eq] at hcomplete
      exact hcomplete.2
    have hnested := DependencyScan.nestAll_of_run hrun
    rw [hpath] at hnested
    obtain ⟨nodes, rfl⟩ := exists_forest hnested
    obtain ⟨document, rfl, hproves⟩ :=
      readDocument_iff.mp (hstart.run_document.mp ⟨scan, hrun, hcomplete⟩)
    exact ⟨document, rfl, hproves⟩
  · rintro ⟨document, rfl, hproves⟩
    exact hstart.run_document.mpr (readDocument_iff.mpr ⟨document, rfl, hproves⟩)

end

/-- **The dependency probe passes only a provably empty repair**: it accepts the bytes exactly
when they are at most 1 MiB of UTF-8 that is tokenized as a healthy document. -/
theorem healthyOutput_iff (tokenize : String → List Token) (bytes : List UInt8) :
    healthyOutput tokenize true bytes = .ok () ↔
      bytes.length ≤ maxOutput ∧
        ∃ xml, String.fromUTF8? bytes.toByteArray = some xml ∧ HealthyDocument (tokenize xml) := by
  rw [healthyOutput, Bool.not_true, Bool.false_or]
  split_ifs with hlong
  · exact iff_of_false (by simp) fun h => absurd h.1 (Nat.not_le.mpr (of_decide_eq_true hlong))
  · have hshort : bytes.length ≤ maxOutput := Nat.not_lt.mp (by simpa using hlong)
    rw [and_iff_right hshort]
    cases hxml : String.fromUTF8? bytes.toByteArray with
    | none => simp
    | some xml =>
        have hany : (DependencyScan.run {} (tokenize xml)).any DependencyScan.complete = true ↔
            HealthyDocument (tokenize xml) := by
          rw [Option.any_eq_true, run_complete_iff]
        simp only [Option.some.injEq, exists_eq_left', ← hany]
        split_ifs with hcomplete
        · exact iff_of_true rfl hcomplete
        · exact iff_of_false (by simp) hcomplete

/-! ## What is not refused, and what is -/

/-- No element is deeper than 32, and a blank in the summary may be written as a reference. -/
def ShallowDocument (tokens : List Token) : Prop :=
  ∃ document : ProbedDocument, tokens = forestTokens document.nodes ∧
    document.Proves (fun node => node.depth ≤ 32) fun leaf =>
      isMargin leaf ∨ ∃ c, leaf = .reference (.character c) ∧ isAsciiBlank c

/-- A bound for all elements is one for those that can be counted in the tokens. -/
theorem ShallowDocument.tokenDepth_le {tokens : List Token} (h : ShallowDocument tokens) :
    tokenDepth 0 tokens ≤ 32 := by
  obtain ⟨document, rfl, hproves⟩ := h
  have hflat : ∀ leaves : List Leaf, (∀ leaf ∈ leaves, ∀ tag, leaf ≠ .empty tag) →
      forestDepth (leaves.map XmlNode.leaf) = 0 := by
    intro leaves hleaves
    induction leaves with
    | nil => rfl
    | cons leaf leaves ih =>
        rw [List.forall_mem_cons] at hleaves
        rw [List.map_cons, forestDepth, ih hleaves.2]
        cases leaf with
        | empty tag => exact absurd rfl (hleaves.1 tag)
        | _ => rfl
  have hprolog := hflat document.prolog fun leaf hleaf tag htag => by
    rcases hproves.prolog leaf hleaf with hmargin | hdeclaration
    · rw [htag] at hmargin
      cases hmargin
    · rw [htag] at hdeclaration
      cases hdeclaration
  have hepilog := hflat document.epilog fun leaf hleaf tag htag => by
    have hmargin := hproves.epilog leaf hleaf
    rw [htag] at hmargin
    cases hmargin
  have hbound : document.stream.depth ≤ 32 := hproves.bounded
  have hle := tokenDepth_forest 0 document.nodes []
  rw [List.append_nil, ProbedDocument.nodes, forestDepth_append, forestDepth, hprolog, hepilog] at hle
  have hmax : max (0 + max 0 (max document.stream.depth 0)) (tokenDepth 0 []) = document.stream.depth := by
    simp [tokenDepth]
  exact Nat.le_trans hle (Nat.le_trans (Nat.le_of_eq hmax) hbound)

namespace Sample

/-- A summary without changes. -/
def summaryTag : Tag :=
  ⟨"install-summary", counters.map fun field => .entry field (some "0")⟩

/-- An empty element below `n` open elements. -/
def deepNode : ℕ → XmlNode
  | 0 => .leaf (.empty ⟨"b", []⟩)
  | n + 1 => .element ⟨"a", []⟩ [deepNode n]

def deepDocument : ProbedDocument :=
  ⟨[], ⟨"stream", []⟩, [deepNode 31, .leaf (.empty summaryTag)], []⟩

/-- What the tokenizer makes of `deepText`. -/
def deepTokens : List Token := forestTokens deepDocument.nodes

def summaryText : String :=
  "install-summary packages-to-change=\"0\" download-size=\"0\" space-usage-diff=\"0\" " ++
    "space-usage-installed=\"0\" space-usage-removed=\"0\""

def deepText : String :=
  "<stream>" ++ String.join (List.replicate 31 "<a>") ++ "<b/>" ++
    String.join (List.replicate 31 "</a>") ++ "<" ++ summaryText ++ "/></stream>"

/-- A summary in which a blank is written as a reference. -/
def spacedDocument : ProbedDocument :=
  ⟨[], ⟨"stream", []⟩, [.element summaryTag [.leaf (.reference (.character ' '))]], []⟩

/-- What the tokenizer makes of `spacedText`. -/
def spacedTokens : List Token := forestTokens spacedDocument.nodes

def spacedText : String :=
  "<stream><" ++ summaryText ++ ">&#32;</install-summary></stream>"

theorem harmless_summaryTag : Harmless summaryTag := ⟨_, rfl, by decide +kernel⟩

theorem unchanged_summaryTag : UnchangedSummary summaryTag := ⟨rfl, _, rfl, by decide +kernel⟩

theorem harmless_plain {name : String} (h : isRepair name [] = false) : Harmless ⟨name, []⟩ :=
  ⟨[], rfl, h⟩

theorem plainContent_deepNode {depth n : ℕ} (h : depth + n ≤ 32) : PlainContent depth [deepNode n] := by
  induction n generalizing depth with
  | zero =>
      refine (plainContent_leaf (by omega)).mpr ⟨rfl, fun tag htag => ?_⟩
      cases htag
      exact ⟨harmless_plain (by decide +kernel), by decide⟩
  | succ n ih =>
      refine plainContent_element.mpr ⟨⟨harmless_plain (by decide +kernel), by decide⟩, ih (by omega)⟩

/-- The deep document is healthy. -/
theorem healthyDocument_deepTokens : HealthyDocument deepTokens := by
  have hsummary : DependencyScan.AcceptedSummary (.leaf (.empty summaryTag)) :=
    ⟨unchanged_summaryTag, by simpa [XmlNode.tags] using harmless_summaryTag⟩
  have hcontent : HasSummary deepDocument.content :=
    ⟨[deepNode 31], .leaf (.empty summaryTag), [], rfl, plainContent_deepNode (by decide), hsummary,
      plainContent_nil (by decide)⟩
  obtain ⟨document, hnodes, hproves⟩ := readDocument_iff.mp (show ReadDocument 1 deepDocument.nodes from
    ⟨[], deepDocument.root, deepDocument.content, [], rfl, by simp, by simp, by simp, rfl,
      harmless_plain (by decide +kernel), hcontent⟩)
  exact ⟨document, congrArg forestTokens hnodes, hproves⟩

/-- The reference stops the walk. -/
theorem run_spacedTokens : DependencyScan.run {} spacedTokens = none := by
  refine Option.eq_none_iff_forall_ne_some.mpr fun scan hrun => ?_
  rw [show spacedTokens = [.start ⟨"stream", []⟩, .start summaryTag,
    .leaf (.reference (.character ' ')), .close "install-summary", .close "stream"] from rfl,
    DependencyScan.run_cons] at hrun
  obtain ⟨first, -, hrun⟩ := Option.bind_eq_some_iff.mp hrun
  rw [DependencyScan.run_cons] at hrun
  obtain ⟨second, hsecond, hrun⟩ := Option.bind_eq_some_iff.mp hrun
  rw [DependencyScan.run_cons] at hrun
  obtain ⟨third, hthird, -⟩ := Option.bind_eq_some_iff.mp hrun
  have hpath : second.path = "install-summary" :: first.path :=
    (Option.some.inj (DependencyScan.nest_of_next hsecond)).symm
  have hbare : second.bare := by simp [DependencyScan.bare, hpath]
  rw [DependencyScan.next, if_pos hbare] at hthird
  cases hthird

/-- The other document would be healthy if a reference were a blank. -/
theorem shallowDocument_spacedTokens : ShallowDocument spacedTokens := by
  refine ⟨spacedDocument, rfl, ?_⟩
  refine ⟨by simp [spacedDocument], by simp [spacedDocument], by simp [spacedDocument], rfl,
    by decide, ?_, ?_, ?_⟩
  · rintro tag (_ | ⟨_, _ | ⟨_, hnil⟩⟩)
    · exact harmless_plain (by decide +kernel)
    · exact harmless_summaryTag
    · cases hnil
  · rintro leaf (_ | ⟨_, hnil⟩)
    · rfl
    · cases hnil
  · refine ⟨[], _, [], rfl, ⟨unchanged_summaryTag, [.reference (.character ' ')], rfl, ?_⟩, ?_⟩
    · rintro leaf (_ | ⟨_, hnil⟩)
      · exact .inr ⟨' ', rfl, rfl⟩
      · cases hnil
    · exact fun tag hmem => nomatch hmem

end Sample

section

variable {tokenize : String → List Token} {xml : String}

theorem toByteArray_utf8 (xml : String) : (utf8 xml.toList).toByteArray = xml.toByteArray :=
  String.utf8Encode_toList

theorem length_utf8_toList (xml : String) : (utf8 xml.toList).length = xml.utf8ByteSize := by
  rw [String.utf8ByteSize, ← toByteArray_utf8, List.size_toByteArray]

theorem fromUTF8?_utf8 (xml : String) :
    String.fromUTF8? (utf8 xml.toList).toByteArray = some xml := by
  have hvalid : xml.toByteArray.IsValidUTF8 := xml.isValidUTF8
  rw [toByteArray_utf8, String.fromUTF8?, dif_pos hvalid]
  rfl

/-- The bytes of a short text. -/
theorem healthyOutput_utf8 (hsize : xml.utf8ByteSize ≤ maxOutput) :
    healthyOutput tokenize true (utf8 xml.toList) =
      if (DependencyScan.run {} (tokenize xml)).any DependencyScan.complete then .ok ()
      else .error () := by
  have hshort : ¬ (!true || decide (maxOutput < (utf8 xml.toList).length)) = true := by
    rw [length_utf8_toList]
    simpa using hsize
  rw [healthyOutput, if_neg hshort, fromUTF8?_utf8]

end

/-- **An element at depth 33 is accepted, and a blank that is written as a reference is not.** -/
theorem healthyOutput_bounds :
    (healthyOutput (fun _ => Sample.deepTokens) true (utf8 Sample.deepText.toList) = .ok () ∧
      ¬ ShallowDocument Sample.deepTokens) ∧
    (healthyOutput (fun _ => Sample.spacedTokens) true (utf8 Sample.spacedText.toList) = .error () ∧
      (utf8 Sample.spacedText.toList).length ≤ maxOutput ∧
      String.fromUTF8? (utf8 Sample.spacedText.toList).toByteArray = some Sample.spacedText ∧
      ShallowDocument Sample.spacedTokens) := by
  have hdeep : Sample.deepText.utf8ByteSize ≤ maxOutput := by decide +kernel
  have hspaced : Sample.spacedText.utf8ByteSize ≤ maxOutput := by decide +kernel
  refine ⟨⟨?_, fun h => absurd h.tokenDepth_le (by decide +kernel)⟩, ?_,
    length_utf8_toList _ ▸ hspaced, fromUTF8?_utf8 _, Sample.shallowDocument_spacedTokens⟩
  · rw [healthyOutput_utf8 hdeep]
    obtain ⟨scan, hrun, hcomplete⟩ := run_complete_iff.mpr Sample.healthyDocument_deepTokens
    rw [hrun]
    exact if_pos hcomplete
  · rw [healthyOutput_utf8 hspaced, Sample.run_spacedTokens]
    rfl

end LyraUpgrade
