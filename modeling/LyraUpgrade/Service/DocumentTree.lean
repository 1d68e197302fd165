import LyraUpgrade.Service.VendorMetadata

/-!
# Documents as trees

`walk` reports the elements of a document as they are closed, each with the elements that
are open around it.  Here a document is a tree, and the reader is a traversal of the tree
that meets the children of an element before the element itself (`visits`).

The tree is read by the reader itself, with a visitor that adopts the children of each
element it is called with (`readTree`).  For any visitor that does not look at the texts of
open elements (`TextBlind`), which are not complete yet, a successful walk is the traversal
of that tree (`walk_eq_ok`).
-/

namespace LyraUpgrade

open Encoding

/-! ## Trees and their traversal -/

/-- An element and what it contains. -/
inductive ElementTree
  | element (node : Node) (children : List ElementTree)

namespace ElementTree

def node : ElementTree → Node
  | .element node _ => node

def children : ElementTree → List ElementTree
  | .element _ children => children

/-- The children of a name. -/
def named (self : ElementTree) (ns name : String) : List ElementTree :=
  self.children.filter (·.node.is ns name)

end ElementTree

/-- A node before its text. -/
def Node.head (self : Node) : Node := { self with text := "" }

mutual

/-- The calls of a visitor for a tree: the children, then the element. -/
def visits (parents : List Node) : ElementTree → List (List Node × Node)
  | .element node children => visitsOf (parents ++ [node.head]) children ++ [(parents, node)]

def visitsOf (parents : List Node) : List ElementTree → List (List Node × Node)
  | [] => []
  | tree :: trees => visits parents tree ++ visitsOf parents trees

end

theorem visitsOf_eq (parents : List Node) (trees : List ElementTree) :
    visitsOf parents trees = trees.flatMap (visits parents) := by
  induction trees with
  | nil => rfl
  | cons tree trees ih => rw [visitsOf, ih, List.flatMap_cons]

/-! ## The tree of a document -/

/-- The finished trees, each with how many elements are open around it; an element adopts
those directly below it. -/
def adopt : Visitor (List (ℕ × ElementTree)) := fun finished parents node =>
  .ok (finished.filter (·.1 ≤ parents.length) ++
    [(parents.length,
      .element node ((finished.filter (·.1 = parents.length + 1)).map (·.2)))])

/-- The tree of a document. -/
def readTree (document : XmlDocument) (rootNs rootName : String) : VendorResult ElementTree := do
  match ← walk document rootNs rootName adopt [] with
  | [(_, root)] => return root
  | _ => throw (.invalid "invalid XML root")

section

variable {σ : Type}

/-- The visitor does not look at the texts of the open elements. -/
def TextBlind (closed : Visitor σ) : Prop :=
  ∀ s parents node, closed s (parents.map Node.head) node = closed s parents node

/-- A visitor that is called with everything of a list. -/
def callAll (closed : Visitor σ) (s : σ) (calls : List (List Node × Node)) : VendorResult σ :=
  calls.foldlM (fun s call => closed s call.1 call.2) s

/-- The calls for the finished trees while elements are open. -/
def finishedCalls (stack : List Node) (finished : List (ℕ × ElementTree)) : List (List Node × Node) :=
  finished.flatMap fun entry => visits ((stack.reverse.map Node.head).take entry.1) entry.2

/-- Two walks over the same document, one that builds trees and one with a visitor: the
finished trees are sorted by depth, none is deeper than the open elements, and the visitor
was called with them. -/
structure Builds (closed : Visitor σ) (start : σ) (trees : Walk (List (ℕ × ElementTree)))
    (walked : Walk σ) : Prop where
  stack : trees.stack = walked.stack
  roots : trees.roots = walked.roots
  sorted : trees.collected.Pairwise (·.1 ≤ ·.1)
  depth : ∀ entry ∈ trees.collected, entry.1 ≤ trees.stack.length
  rootCount : trees.roots = (trees.collected.filter (·.1 = 0)).length +
    (if trees.stack.isEmpty then 0 else 1)
  calls : callAll closed start (finishedCalls trees.stack trees.collected) = .ok walked.collected

variable {closed : Visitor σ} {start : σ} {trees trees' : Walk (List (ℕ × ElementTree))}
variable {walked walked' : Walk σ} {rootNs rootName : String} {node : Node} {nodes : List Node}
variable {finished : List (ℕ × ElementTree)} {text : String} {element : Xml.Element}
  {event : Xml.Event}

theorem callAll_append (closed : Visitor σ) (s : σ) (xs ys : List (List Node × Node)) :
    callAll closed s (xs ++ ys) = callAll closed s xs >>= fun s => callAll closed s ys := by
  rw [callAll, List.foldlM_append]
  rfl

theorem callAll_singleton (closed : Visitor σ) (s : σ) (parents : List Node) (node : Node) :
    callAll closed s [(parents, node)] = closed s parents node := by
  rw [callAll, List.foldlM_cons]
  cases closed s parents node <;> rfl

/-! ## Finished trees -/

/-- What is deepest comes last. -/
theorem filter_depth {d : ℕ} (hsorted : finished.Pairwise (·.1 ≤ ·.1))
    (hdepth : ∀ entry ∈ finished, entry.1 ≤ d + 1) :
    finished.filter (·.1 ≤ d) ++ finished.filter (·.1 = d + 1) = finished := by
  induction finished with
  | nil => rfl
  | cons entry finished ih =>
      obtain ⟨hfirst, hrest⟩ := List.pairwise_cons.mp hsorted
      have htail := ih hrest fun e he => hdepth e (List.mem_cons_of_mem _ he)
      by_cases hentry : entry.1 ≤ d
      · have hne : entry.1 ≠ d + 1 := by omega
        rw [List.filter_cons, List.filter_cons, if_pos (by simpa using hentry),
          if_neg (by simpa using hne), List.cons_append, htail]
      · have heq : entry.1 = d + 1 := by
          have := hdepth entry List.mem_cons_self
          omega
        -- then all that follow are as deep
        have hnone : finished.filter (·.1 ≤ d) = [] := by
          rw [List.filter_eq_nil_iff]
          intro e he
          have := hfirst e he
          simp
          omega
        rw [List.filter_cons, List.filter_cons, if_neg (by simpa using hentry),
          if_pos (by simpa using heq), hnone, List.nil_append]
        rw [hnone, List.nil_append] at htail
        rw [htail]

theorem finishedCalls_append (stack : List Node) (xs ys : List (ℕ × ElementTree)) :
    finishedCalls stack (xs ++ ys) = finishedCalls stack xs ++ finishedCalls stack ys := by
  rw [finishedCalls, List.flatMap_append]
  rfl

theorem finishedCalls_singleton (stack : List Node) (d : ℕ) (tree : ElementTree) :
    finishedCalls stack [(d, tree)] = visits ((stack.reverse.map Node.head).take d) tree := by
  simp [finishedCalls]

/-- An element that is opened is around nothing that is finished. -/
theorem finishedCalls_push (hdepth : ∀ entry ∈ finished, entry.1 ≤ nodes.length) (node : Node) :
    finishedCalls (node :: nodes) finished = finishedCalls nodes finished := by
  refine List.flatMap_congr fun entry hentry => ?_
  rw [List.reverse_cons, List.map_append, List.take_append_of_le_length]
  simpa using hdepth entry hentry

/-- What the element adopts are the trees between it and the element around it. -/
theorem finishedCalls_adopt (hsorted : finished.Pairwise (·.1 ≤ ·.1))
    (hdepth : ∀ entry ∈ finished, entry.1 ≤ nodes.length + 1) :
    finishedCalls nodes (finished.filter (·.1 ≤ nodes.length) ++
      [(nodes.length, .element node ((finished.filter (·.1 = nodes.length + 1)).map (·.2)))]) =
    finishedCalls (node :: nodes) finished ++ [(nodes.reverse.map Node.head, node)] := by
  have hkept : ∀ entry ∈ finished.filter (·.1 ≤ nodes.length), entry.1 ≤ nodes.length := by
    intro entry hentry
    simpa using (List.mem_filter.mp hentry).2
  have hchildren : finishedCalls (node :: nodes) (finished.filter (·.1 = nodes.length + 1)) =
      visitsOf (nodes.reverse.map Node.head ++ [node.head])
        ((finished.filter (·.1 = nodes.length + 1)).map (·.2)) := by
    rw [visitsOf_eq, List.flatMap_map, finishedCalls]
    refine List.flatMap_congr fun entry hentry => ?_
    have hdeep : entry.1 = nodes.length + 1 := by simpa using (List.mem_filter.mp hentry).2
    rw [hdeep, List.take_of_length_le (by simp), List.reverse_cons, List.map_append]
    rfl
  have hsplit := congrArg (finishedCalls (node :: nodes)) (filter_depth hsorted hdepth)
  rw [finishedCalls_append, finishedCalls_push hkept, hchildren] at hsplit
  rw [finishedCalls_append, ← hsplit, List.append_assoc]
  have htake : (nodes.reverse.map Node.head).take nodes.length = nodes.reverse.map Node.head :=
    List.take_of_length_le (by simp)
  rw [finishedCalls_singleton, htake, visits]

/-! ## The two walks -/

theorem head_append {node' : Node} (h : node.append text = .ok node') : node'.head = node.head := by
  unfold Node.append at h
  split_ifs at h
  · cases h
    rfl
  · cases h
    rfl

/-- Opening an element counts the roots, and depends on nothing that was collected. -/
theorem openElement_ok (hstack : trees.stack = walked.stack) (hroots : trees.roots = walked.roots)
    (h : walked.openElement rootNs rootName element = .ok (walked', node)) :
    ∃ roots, roots = (if walked.stack.isEmpty then walked.roots + 1 else walked.roots) ∧
      walked' = { walked with roots := roots } ∧
      trees.openElement rootNs rootName element = .ok ({ trees with roots := roots }, node) := by
  unfold Walk.openElement at h ⊢
  obtain ⟨opened, hopened, h⟩ := bind_eq_ok.mp h
  rw [hopened, hstack, hroots]
  refine ⟨_, rfl, ?_⟩
  simp only [bind, Except.bind, pure, Except.pure, throw, throwThe, MonadExceptOf.throw] at h ⊢
  split_ifs at h ⊢ <;> cases h
  all_goals exact ⟨rfl, rfl⟩

/-- An element is closed in both walks: the visitor is called with what the tree adopts. -/
theorem Builds.close (hblind : TextBlind closed)
    (hsorted : finished.Pairwise (·.1 ≤ ·.1))
    (hdepth : ∀ entry ∈ finished, entry.1 ≤ nodes.length + 1)
    (hrootCount : trees.roots = (finished.filter (·.1 = 0)).length + 1)
    (hroots : trees.roots = walked.roots)
    (hstart : callAll closed start (finishedCalls (node :: nodes) finished) = .ok walked.collected)
    {collected : σ} (hclosed : closed walked.collected nodes.reverse node = .ok collected) :
    ∃ finished', adopt finished nodes.reverse node = .ok finished' ∧
      Builds closed start { trees with stack := nodes, collected := finished' }
        { walked with stack := nodes, collected := collected } := by
  refine ⟨_, rfl, ?_⟩
  simp only [List.length_reverse]
  have hkept : ∀ entry ∈ finished.filter (·.1 ≤ nodes.length), entry.1 ≤ nodes.length := by
    intro entry hentry
    simpa using (List.mem_filter.mp hentry).2
  constructor
  · rfl
  · exact hroots
  · refine List.pairwise_append.mpr ⟨hsorted.filter _, List.pairwise_singleton _ _, ?_⟩
    intro a ha b hb
    rw [List.mem_singleton.mp hb]
    exact hkept a ha
  · intro entry hentry
    rcases List.mem_append.mp hentry with hentry | hentry
    · exact hkept entry hentry
    · rw [List.mem_singleton.mp hentry]
  · have hzero : (finished.filter (·.1 ≤ nodes.length)).filter (·.1 = 0) =
        finished.filter (·.1 = 0) := by
      rw [List.filter_filter]
      refine List.filter_congr fun entry _ => ?_
      by_cases hentry : entry.1 = 0 <;> simp [hentry]
    rw [hrootCount, List.filter_append, hzero]
    cases nodes <;> simp
  · rw [finishedCalls_adopt hsorted hdepth, callAll_append, hstart]
    show callAll closed walked.collected [(nodes.reverse.map Node.head, node)] = .ok collected
    rw [callAll_singleton, hblind, hclosed]

/-- Only the text of the innermost element changes. -/
theorem Builds.append (h : Builds closed start trees walked)
    (hwalked : walked.append text = .ok walked') :
    ∃ trees', trees.append text = .ok trees' ∧ Builds closed start trees' walked' := by
  cases hstack : walked.stack with
  | nil =>
      have hempty : trees.stack = [] := h.stack.trans hstack
      rw [Walk.append, hstack] at hwalked
      cases hwalked
      exact ⟨trees, by rw [Walk.append, hempty], h⟩
  | cons node nodes =>
      have hfull : trees.stack = node :: nodes := h.stack.trans hstack
      rw [Walk.append, hstack] at hwalked
      obtain ⟨node', hnode, hwalked⟩ := bind_eq_ok.mp hwalked
      cases hwalked
      have htrees : trees.append text = .ok { trees with stack := node' :: nodes } := by
        rw [Walk.append, hfull]
        exact bind_eq_ok.mpr ⟨node', hnode, rfl⟩
      refine ⟨_, htrees, ?_⟩
      have hcalls : finishedCalls (node' :: nodes) trees.collected =
          finishedCalls trees.stack trees.collected := by
        rw [hfull, finishedCalls, finishedCalls]
        simp [head_append hnode]
      constructor
      · rfl
      · exact h.roots
      · exact h.sorted
      · simpa [hfull] using h.depth
      · simpa [hfull] using h.rootCount
      · exact (congrArg _ hcalls).trans h.calls

/-- With one more root open there is one more than is finished. -/
theorem Builds.roots_of_open (h : Builds closed start trees walked) :
    (if walked.stack.isEmpty then walked.roots + 1 else walked.roots) =
      (trees.collected.filter (·.1 = 0)).length + 1 := by
  have hcount := h.rootCount
  rw [h.stack, h.roots] at hcount
  split_ifs at hcount ⊢ with hempty
  · rw [hcount, Nat.add_zero]
  · exact hcount

/-- **One event in both walks.** -/
theorem Builds.step (hblind : TextBlind closed) (h : Builds closed start trees walked)
    (hwalked : walked.step rootNs rootName closed event = .ok walked') :
    ∃ trees', trees.step rootNs rootName adopt event = .ok trees' ∧
      Builds closed start trees' walked' := by
  cases event with
  | start element =>
      obtain ⟨⟨opened, node⟩, hopened, hwalked⟩ := bind_eq_ok.mp hwalked
      obtain ⟨roots, hroots, rfl, htrees⟩ := openElement_ok h.stack h.roots hopened
      cases hwalked
      refine ⟨_, bind_eq_ok.mpr ⟨_, htrees, rfl⟩, ?_⟩
      constructor
      · exact congrArg (node :: ·) h.stack
      · rfl
      · exact h.sorted
      · exact fun entry hentry => (h.depth entry hentry).trans (Nat.le_succ _)
      · exact hroots.trans h.roots_of_open
      · exact (congrArg _ (finishedCalls_push h.depth node)).trans h.calls
  | empty element =>
      obtain ⟨⟨opened, node⟩, hopened, hwalked⟩ := bind_eq_ok.mp hwalked
      obtain ⟨roots, hroots, rfl, htrees⟩ := openElement_ok h.stack h.roots hopened
      obtain ⟨collected, hclosed, hwalked⟩ := bind_eq_ok.mp hwalked
      cases hwalked
      obtain ⟨finished', hadopt, hbuilds⟩ := @Builds.close σ closed start
        { trees with roots := roots } { walked with roots := roots } node trees.stack
        trees.collected hblind h.sorted
        (fun entry hentry => (h.depth entry hentry).trans (Nat.le_succ _))
        (hroots.trans h.roots_of_open) rfl
        ((congrArg _ (finishedCalls_push h.depth node)).trans h.calls) collected
        (by rw [h.stack]; exact hclosed)
      rw [h.stack] at hbuilds
      refine ⟨_, bind_eq_ok.mpr ⟨_, htrees, bind_eq_ok.mpr ⟨finished', hadopt, rfl⟩⟩, ?_⟩
      rw [h.stack]
      exact hbuilds
  | close name =>
      cases hstack : walked.stack with
      | nil =>
          rw [Walk.step, hstack] at hwalked
          cases hwalked
      | cons node nodes =>
          have hfull : trees.stack = node :: nodes := h.stack.trans hstack
          rw [Walk.step, hstack] at hwalked
          obtain ⟨collected, hclosed, hwalked⟩ := bind_eq_ok.mp hwalked
          cases hwalked
          obtain ⟨finished', hadopt, hbuilds⟩ := Builds.close hblind h.sorted
            (by simpa [hfull] using h.depth) (by simpa [hfull] using h.rootCount) h.roots
            (by simpa [hfull] using h.calls) hclosed
          refine ⟨_, ?_, hbuilds⟩
          rw [Walk.step, hfull]
          exact bind_eq_ok.mpr ⟨finished', hadopt, rfl⟩
  | text content =>
      cases content with
      | none => cases hwalked
      | some text =>
          rw [Walk.step, h.stack]
          rw [Walk.step] at hwalked
          split_ifs at hwalked ⊢ with houtside
          exact h.append hwalked
  | cdata content =>
      cases content with
      | none =>
          rw [Walk.step, h.stack]
          rw [Walk.step] at hwalked
          split_ifs at hwalked ⊢ with houtside
          cases hwalked
          exact ⟨trees, rfl, h⟩
      | some text => exact h.append hwalked
  | reference content =>
      cases content with
      | none => cases hwalked
      | some text => exact h.append hwalked
  | other =>
      cases hwalked
      exact ⟨trees, rfl, h⟩
  | docType | malformed => cases hwalked

theorem Builds.run {events : List Xml.Event} (hblind : TextBlind closed)
    (h : Builds closed start trees walked)
    (hwalked : events.foldlM (Walk.step rootNs rootName closed) walked = .ok walked') :
    ∃ trees', events.foldlM (Walk.step rootNs rootName adopt) trees = .ok trees' ∧
      Builds closed start trees' walked' := by
  induction events generalizing trees walked with
  | nil =>
      cases hwalked
      exact ⟨trees, rfl, h⟩
  | cons event events ih =>
      rw [List.foldlM_cons] at hwalked
      obtain ⟨next, hstep, hrest⟩ := bind_eq_ok.mp hwalked
      obtain ⟨trees₁, htrees, hbuilds⟩ := h.step hblind hstep
      obtain ⟨trees₂, htrees', hbuilds'⟩ := ih hbuilds hrest
      exact ⟨trees₂, by rw [List.foldlM_cons]; exact bind_eq_ok.mpr ⟨trees₁, htrees, htrees'⟩,
        hbuilds'⟩

/-- **A walk is a traversal of the document's tree.** -/
theorem walk_eq_ok {document : XmlDocument} (hblind : TextBlind closed) {collected : σ}
    (h : walk document rootNs rootName closed start = .ok collected) :
    ∃ root, readTree document rootNs rootName = .ok root ∧
      callAll closed start (visits [] root) = .ok collected := by
  obtain ⟨walked, hwalked, h⟩ := bind_eq_ok.mp h
  have hstart : Builds closed start ⟨[], 0, []⟩ ⟨[], 0, start⟩ :=
    ⟨rfl, rfl, List.Pairwise.nil, by simp, rfl, rfl⟩
  obtain ⟨trees, htrees, hbuilds⟩ := hstart.run hblind hwalked
  dsimp only at h
  split_ifs at h with htruncated
  · cases h
  cases h
  simp only [Bool.or_eq_true, not_or, decide_eq_true_eq, ne_eq, not_not, Bool.not_eq_true,
    Bool.not_eq_false', List.isEmpty_iff] at htruncated
  obtain ⟨⟨hroots, hstack⟩, hbytes⟩ := htruncated
  have hempty : trees.stack = [] := hbuilds.stack.trans hstack
  -- one root was opened, and everything that is finished is one
  have hshallow : ∀ entry ∈ trees.collected, entry.1 = 0 := by
    intro entry hentry
    have := hbuilds.depth entry hentry
    rw [hempty] at this
    simpa using this
  have hone : trees.collected.length = 1 := by
    have hcount := hbuilds.rootCount
    rw [List.filter_eq_self.mpr (by simpa using hshallow), hempty, hbuilds.roots, hroots] at hcount
    simpa using hcount.symm
  obtain ⟨⟨depth, root⟩, hcollected⟩ := List.length_eq_one_iff.mp hone
  obtain rfl : depth = 0 := hshallow (depth, root) (by rw [hcollected]; exact List.mem_cons_self)
  refine ⟨root, ?_, ?_⟩
  · refine bind_eq_ok.mpr ⟨[(0, root)], bind_eq_ok.mpr ⟨trees, htrees, ?_⟩, rfl⟩
    rw [if_neg (by simp [hbuilds.roots, hroots, hempty, hbytes]), hcollected]
    rfl
  · have hcalls := hbuilds.calls
    rw [hempty, hcollected, finishedCalls_singleton] at hcalls
    exact hcalls

end

end LyraUpgrade
