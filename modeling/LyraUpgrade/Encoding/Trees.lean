import LyraUpgrade.Encoding.Paths
import Mathlib.Logic.Relation
import Mathlib.Logic.Function.Basic

/-!
# Trees of files

Resolving a path is a run of single steps (`Layout.Step`): into a directory, out of one, to the
root, or on along a link.  What a run keeps is then shown of one step.

A tree that was copied is compared with what it was copied from.  The copy may hold a file where
the original holds a link (`Mirror`); a path then reads the same in both.  A part of a layout
whose links have only steps downward (`Confined`) is never left again.

## Main definitions

* `Layout.Step`, `Layout.Confined`, `Mirror`.
* `Files`: what stands at each place, with the contents of the files.

## Main results

* `walk_eq_ok_iff`: the walk is the run of its steps.
* `Confined.walk`: a path stays under a confined place.
* `Mirror.walk`: a path reads the same in the copy.
-/

namespace Encoding.Paths

/-- A place, by the names that lead to it. -/
abbrev Names := List (List UInt8)

theorem absolutePath_append (names others : Names) :
    absolutePath (names ++ others) = absolutePath names ++ others.map .normal := by
  rw [absolutePath, List.map_append]
  rfl

/-- A step that leaves no directory. -/
def Component.isDownward : Component → Bool
  | .rootDir => false
  | .curDir => true
  | .parentDir => false
  | .normal _ => true

theorem isDownward_names (names : Names) :
    ∀ step ∈ names.map Component.normal, step.isDownward = true := by
  intro step hstep
  obtain ⟨name, -, rfl⟩ := List.mem_map.mp hstep
  rfl

/-- Where a walk stands: how many links it may still go through, the place, and the steps that
are pending. -/
structure Position where
  links : ℕ
  place : Names
  pending : List Component

namespace Layout

variable {layout : Layout} {links : ℕ} {place base : Names} {pending : List Component}
  {position next last : Position}

/-! ## The walk, step by step -/

/-- One step of a walk. -/
inductive Step (layout : Layout) : Position → Position → Prop
  | root (links : ℕ) (place : Names) (pending : List Component) :
      Step layout ⟨links, place, .rootDir :: pending⟩ ⟨links, [], pending⟩
  | stay (links : ℕ) (place : Names) (pending : List Component)
      (hplace : layout.node place = some .directory) :
      Step layout ⟨links, place, .curDir :: pending⟩ ⟨links, place, pending⟩
  | leave (links : ℕ) (place : Names) (pending : List Component)
      (hplace : layout.node place = some .directory) :
      Step layout ⟨links, place, .parentDir :: pending⟩ ⟨links, place.dropLast, pending⟩
  | enter (links : ℕ) (place : Names) (name : List UInt8) (pending : List Component)
      (hplace : layout.node place = some .directory) (hreal : layout.Real (place ++ [name])) :
      Step layout ⟨links, place, .normal name :: pending⟩ ⟨links, place ++ [name], pending⟩
  | follow (links : ℕ) (place : Names) (name target : List UInt8) (pending : List Component)
      (hplace : layout.node place = some .directory)
      (hlink : layout.node (place ++ [name]) = some (.symlink target)) :
      Step layout ⟨links + 1, place, .normal name :: pending⟩
        ⟨links, place, steps target ++ pending⟩

/-- A run of steps. -/
abbrev Steps (layout : Layout) : Position → Position → Prop :=
  Relation.ReflTransGen (Step layout)

/-- What is left to walk stays the same. -/
theorem Step.walk_eq (h : layout.Step position next) :
    layout.walk position.links position.place position.pending =
      layout.walk next.links next.place next.pending := by
  cases h with
  | root links => cases links <;> rfl
  | stay links place pending hplace =>
      cases links <;>
      · rw [walk, walkFrom, if_pos hplace]
  | leave links place pending hplace =>
      cases links <;>
      · rw [walk, walkFrom, if_pos hplace]
  | enter links place name pending hplace hreal =>
      cases links <;>
      · rw [walk, walkFrom, if_pos hplace]
        rcases hreal with hnode | hnode <;>
        · rw [hnode]
  | follow links place name target pending hplace hlink =>
      rw [walk, walkFrom, if_pos hplace, hlink]

theorem Steps.walk_eq (h : layout.Steps position last) :
    layout.walk position.links position.place position.pending =
      layout.walk last.links last.place last.pending := by
  induction h with
  | refl => rfl
  | tail _ hstep ih => rw [ih, hstep.walk_eq]

/-- The first step of a walk that succeeds, and that less is left after it. -/
theorem exists_step {component : Component} {reached : ℕ × Names}
    (h : layout.walk links place (component :: pending) = .ok reached) :
    ∃ next, layout.Step ⟨links, place, component :: pending⟩ next ∧
      (next.links = links ∧ next.pending = pending ∨ next.links + 1 = links) := by
  cases component with
  | rootDir => exact ⟨_, .root links place pending, .inl ⟨rfl, rfl⟩⟩
  | curDir =>
      by_cases hplace : layout.node place = some .directory
      · exact ⟨_, .stay links place pending hplace, .inl ⟨rfl, rfl⟩⟩
      · cases links <;>
        · rw [walk, walkFrom, if_neg hplace] at h
          cases h
  | parentDir =>
      by_cases hplace : layout.node place = some .directory
      · exact ⟨_, .leave links place pending hplace, .inl ⟨rfl, rfl⟩⟩
      · cases links <;>
        · rw [walk, walkFrom, if_neg hplace] at h
          cases h
  | normal name =>
      by_cases hplace : layout.node place = some .directory
      · cases hnode : layout.node (place ++ [name]) with
        | none =>
            cases links <;>
            · rw [walk, walkFrom, if_pos hplace, hnode] at h
              cases h
        | some node =>
            cases node with
            | file =>
                exact ⟨_, .enter links place name pending hplace (.inl hnode), .inl ⟨rfl, rfl⟩⟩
            | directory =>
                exact ⟨_, .enter links place name pending hplace (.inr hnode), .inl ⟨rfl, rfl⟩⟩
            | symlink target =>
                cases links with
                | zero =>
                    rw [walk, walkFrom, if_pos hplace, hnode] at h
                    cases h
                | succ links =>
                    exact ⟨_, .follow links place name target pending hplace hnode, .inr rfl⟩
      · cases links <;>
        · rw [walk, walkFrom, if_neg hplace] at h
          cases h

/-- A walk that succeeds is a run of steps. -/
theorem steps_of_walk {reached : ℕ × Names} (h : layout.walk links place pending = .ok reached) :
    layout.Steps ⟨links, place, pending⟩ ⟨reached.1, reached.2, []⟩ := by
  induction links using Nat.strongRecOn generalizing place pending with
  | _ links ihlinks =>
    induction pending generalizing place with
    | nil =>
        have hreached : reached = (links, place) := by
          cases links <;>
          · cases h
            rfl
        rw [hreached]
    | cons component pending ih =>
        obtain ⟨next, hstep, hless⟩ := exists_step h
        rw [show layout.walk links place (component :: pending) = _ from hstep.walk_eq] at h
        refine .head hstep ?_
        obtain ⟨links', place', pending'⟩ := next
        rcases hless with ⟨rfl, rfl⟩ | rfl
        · exact ih h
        · exact ihlinks links' (Nat.lt_succ_self links') h

/-- **The walk is the run of its steps.** -/
theorem walk_eq_ok_iff {reached : ℕ × Names} :
    layout.walk links place pending = .ok reached ↔
      layout.Steps ⟨links, place, pending⟩ ⟨reached.1, reached.2, []⟩ := by
  refine ⟨steps_of_walk, fun h => ?_⟩
  rw [show layout.walk links place pending = _ from h.walk_eq]
  cases reached with
  | mk left place => cases left <;> rfl

/-! ## More links -/

/-- With more links left the same step can be taken. -/
theorem Step.more (h : layout.Step position next) (more : ℕ) :
    layout.Step ⟨position.links + more, position.place, position.pending⟩
      ⟨next.links + more, next.place, next.pending⟩ := by
  cases h with
  | root links place pending => exact .root _ place pending
  | stay links place pending hplace => exact .stay _ place pending hplace
  | leave links place pending hplace => exact .leave _ place pending hplace
  | enter links place name pending hplace hreal => exact .enter _ place name pending hplace hreal
  | follow links place name target pending hplace hlink =>
      have hstep := Step.follow (links + more) place name target pending hplace hlink
      rwa [show links + more + 1 = links + 1 + more by omega] at hstep

theorem walk_more {left : ℕ} {real : Names} (h : layout.walk links place pending = .ok (left, real))
    (more : ℕ) : layout.walk (links + more) place pending = .ok (left + more, real) := by
  rw [walk_eq_ok_iff] at h ⊢
  exact Relation.ReflTransGen.lift (fun position : Position =>
    (⟨position.links + more, position.place, position.pending⟩ : Position))
    (fun _ _ hstep => hstep.more more) _ _ h

/-- How many links may be gone through does not change where a walk ends. -/
theorem walk_unique {links' left left' : ℕ} {real real' : Names}
    (h : layout.walk links place pending = .ok (left, real))
    (h' : layout.walk links' place pending = .ok (left', real')) : real = real' := by
  have hmore := walk_more h links'
  have hmore' := walk_more h' links
  rw [Nat.add_comm links' links, hmore, Except.ok.injEq, Prod.mk.injEq] at hmore'
  exact hmore'.2

/-- A walk uses links up. -/
theorem walk_le {left : ℕ} {real : Names} (h : layout.walk links place pending = .ok (left, real)) :
    left ≤ links := by
  suffices hle : ∀ position last : Position, layout.Steps position last →
      last.links ≤ position.links from hle _ _ (steps_of_walk h)
  intro position last hrun
  induction hrun with
  | refl => exact Nat.le_refl _
  | tail _ hstep ih =>
      cases hstep with
      | follow => exact Nat.le_of_succ_le ih
      | root => exact ih
      | stay => exact ih
      | leave => exact ih
      | enter => exact ih

/-- Real places are reached by their names, from any directory above them. -/
theorem walk_names (links : ℕ) {names : Names} (hreal : layout.Real (place ++ names)) :
    layout.walk links place (names.map .normal) = .ok (links, place ++ names) := by
  induction names using List.reverseRecOn with
  | nil =>
      rw [List.append_nil]
      cases links <;> rfl
  | append_singleton names name ih =>
      rw [← List.append_assoc] at hreal ⊢
      have hnames : layout.Real (place ++ names) := by
        refine .inr (layout.closed _ name ?_)
        rcases hreal with hnode | hnode <;>
        · rw [hnode]
          exact Option.some_ne_none _
      rw [List.map_append, walk_append, ih hnames]
      exact walk_real links hreal

/-! ## Confinement -/

/-- Every link under the place has only steps downward. -/
def Confined (layout : Layout) (base : Names) : Prop :=
  ∀ place target, base <+: place → layout.node place = some (.symlink target) →
    ∀ step ∈ steps target, step.isDownward = true

/-- One step stays under a confined place. -/
theorem Confined.step (hbase : layout.Confined base) (h : layout.Step position next)
    (hplace : base <+: position.place)
    (hpending : ∀ step ∈ position.pending, step.isDownward = true) :
    base <+: next.place ∧ ∀ step ∈ next.pending, step.isDownward = true := by
  cases h with
  | root => cases hpending _ List.mem_cons_self
  | stay => exact ⟨hplace, fun step hstep => hpending step (List.mem_cons_of_mem _ hstep)⟩
  | leave => cases hpending _ List.mem_cons_self
  | enter links place name =>
      exact ⟨hplace.trans (List.prefix_append place [name]),
        fun step hstep => hpending step (List.mem_cons_of_mem _ hstep)⟩
  | follow links place name target pending hdirectory hlink =>
      refine ⟨hplace, fun step hstep => ?_⟩
      rcases List.mem_append.mp hstep with htarget | hrest
      · exact hbase _ target (hplace.trans (List.prefix_append place [name])) hlink step htarget
      · exact hpending step (List.mem_cons_of_mem _ hrest)

/-- **A path stays under a confined place.** -/
theorem Confined.walk (hbase : layout.Confined base) {reached : ℕ × Names}
    (hplace : base <+: place) (hpending : ∀ step ∈ pending, step.isDownward = true)
    (h : layout.walk links place pending = .ok reached) : base <+: reached.2 := by
  have hsteps := steps_of_walk h
  suffices hinv : ∀ position last : Position, layout.Steps position last →
      base <+: position.place → (∀ step ∈ position.pending, step.isDownward = true) →
      base <+: last.place from hinv _ _ hsteps hplace hpending
  intro position last hrun
  induction hrun using Relation.ReflTransGen.head_induction_on with
  | refl => exact fun hplace _ => hplace
  | head hstep _ ih =>
      intro hplace hpending
      obtain ⟨hnext, hrest⟩ := hbase.step hstep hplace hpending
      exact ih hnext hrest

end Layout

/-! ## Copies -/

section

variable {original copy : Layout} {same : Names → Names → Prop} {source target : Names}

/-- Under `target` the copy repeats what the original holds under `source`.  For a link it may
hold what the link resolves to, when that is a file. -/
structure Mirror (original copy : Layout) (same : Names → Names → Prop) (source target : Names) :
    Prop where
  directory : ∀ names, original.node (source ++ names) = some .directory →
    copy.node (target ++ names) = some .directory
  file : ∀ names, original.node (source ++ names) = some .file →
    copy.node (target ++ names) = some .file ∧ same (source ++ names) (target ++ names)
  link : ∀ names name link,
    original.node (source ++ (names ++ [name])) = some (.symlink link) →
      (copy.node (target ++ (names ++ [name])) = some (.symlink link) ∧
        ∀ step ∈ steps link, step.isDownward = true) ∨
      (copy.node (target ++ (names ++ [name])) = some .file ∧ ∃ links left real,
        original.walk links (source ++ names) [.normal name] = .ok (left, real) ∧
        original.node real = some .file ∧ same real (target ++ (names ++ [name])))

/-- Behind a file no step downward is left. -/
theorem eq_nil_of_walk_file {layout : Layout} {links : ℕ} {place : Names}
    {pending : List Component} {reached : ℕ × Names} (hfile : layout.node place = some .file)
    (hpending : ∀ step ∈ pending, step.isDownward = true)
    (h : layout.walk links place pending = .ok reached) : pending = [] := by
  cases pending with
  | nil => rfl
  | cons component pending =>
      obtain ⟨next, hstep, -⟩ := Layout.exists_step h
      cases hstep with
      | root => cases hpending _ List.mem_cons_self
      | stay _ _ _ hplace => simp [hfile] at hplace
      | leave _ _ _ hplace => simp [hfile] at hplace
      | enter _ _ _ _ hplace => simp [hfile] at hplace
      | follow _ _ _ _ _ hplace => simp [hfile] at hplace

/-- **The copy reads the same.**  A path downward that ends at a file of the original ends at
such a file of the copy, which needs no more links for it. -/
theorem Mirror.walk (hmirror : Mirror original copy same source target) {names : Names}
    {links left more : ℕ} {real : Names} {pending : List Component}
    (hpending : ∀ step ∈ pending, step.isDownward = true)
    (h : original.walk links (source ++ names) pending = .ok (left, real))
    (hstart : original.Real (source ++ names))
    (hreal : original.node real = some .file) (hmore : links ≤ more) :
    ∃ left' real', copy.walk more (target ++ names) pending = .ok (left', real') ∧
      copy.node real' = some .file ∧ same real real' := by
  have hrun := Layout.steps_of_walk h
  clear h
  suffices hsim : ∀ position last : Position, original.Steps position last →
      last.pending = [] → original.node last.place = some .file →
      ∀ names more, position.place = source ++ names → original.Real (source ++ names) →
      (∀ step ∈ position.pending, step.isDownward = true) → position.links ≤ more →
      ∃ left' real', copy.walk more (target ++ names) position.pending = .ok (left', real') ∧
        copy.node real' = some .file ∧ same last.place real' from
    hsim _ _ hrun rfl hreal names more rfl hstart hpending hmore
  clear hrun hreal hstart hpending hmore names more
  intro position last hrun hlast hfile
  induction hrun using Relation.ReflTransGen.head_induction_on with
  | refl =>
      intro names more hplace hstart hpending hmore
      rw [hplace] at hfile
      obtain ⟨hcopy, hsame⟩ := hmirror.file names hfile
      refine ⟨more, target ++ names, ?_, hcopy, ?_⟩
      · rw [hlast]
        cases more <;> rfl
      · rwa [hplace]
  | @head position next hstep hrest ih =>
      intro names more hplace hstart hpending hmore
      cases hstep with
      | root => cases hpending _ List.mem_cons_self
      | stay links place pending hdirectory =>
          obtain rfl : place = source ++ names := hplace
          obtain ⟨left', real', hwalk, hrest⟩ := ih names more rfl hstart
            (fun step hmem => hpending step (List.mem_cons_of_mem _ hmem)) hmore
          refine ⟨left', real', ?_, hrest⟩
          exact (Layout.Step.stay more _ pending (hmirror.directory names hdirectory)).walk_eq.trans
            hwalk
      | leave => cases hpending _ List.mem_cons_self
      | enter links place name pending hdirectory hchild =>
          obtain rfl : place = source ++ names := hplace
          rw [List.append_assoc] at hchild ih
          obtain ⟨left', real', hwalk, hrest⟩ := ih (names ++ [name]) more rfl hchild
            (fun step hmem => hpending step (List.mem_cons_of_mem _ hmem)) hmore
          refine ⟨left', real', ?_, hrest⟩
          have hcopy : copy.Real (target ++ names ++ [name]) := by
            rw [List.append_assoc]
            exact hchild.imp (fun hnode => (hmirror.file _ hnode).1) (hmirror.directory _)
          rw [← List.append_assoc] at hwalk
          exact (Layout.Step.enter more _ name pending (hmirror.directory names hdirectory)
            hcopy).walk_eq.trans hwalk
      | follow links place name link pending hdirectory hlink =>
          obtain rfl : place = source ++ names := hplace
          have hdownward : ∀ step ∈ pending, step.isDownward = true :=
            fun step hmem => hpending step (List.mem_cons_of_mem _ hmem)
          have hdirectory' := hmirror.directory names hdirectory
          have hlink' := hlink
          rw [List.append_assoc] at hlink'
          rcases hmirror.link names name link hlink' with ⟨hcopy, hsteps⟩ | ⟨hcopy, hresolved⟩
          · -- the link was copied, and the copy goes through it as well
            obtain ⟨more, rfl⟩ : ∃ fewer, more = fewer + 1 :=
              ⟨more - 1, by dsimp only at hmore; omega⟩
            obtain ⟨left', real', hwalk, hrest⟩ := ih names more rfl hstart
              (fun step hmem => (List.mem_append.mp hmem).elim (hsteps step) (hdownward step))
              (Nat.le_of_succ_le_succ hmore)
            refine ⟨left', real', ?_, hrest⟩
            rw [← List.append_assoc] at hcopy
            exact (Layout.Step.follow more _ name link pending hdirectory'
              hcopy).walk_eq.trans hwalk
          · -- the copy holds the file that the link resolves to, and nothing follows it
            obtain ⟨links₀, left₀, real₀, hwalk₀, hfile₀, hsame⟩ := hresolved
            have hwalk : original.walk (links + 1) (source ++ names) (.normal name :: pending) =
                .ok (last.links, last.place) := by
              rw [Layout.walk_eq_ok_iff]
              refine Relation.ReflTransGen.head
                (.follow links _ name link pending hdirectory hlink) ?_
              rw [← hlast]
              exact hrest
            rw [show Component.normal name :: pending = [Component.normal name] ++ pending from rfl,
              Layout.walk_append] at hwalk
            obtain ⟨⟨left₁, real₁⟩, hfirst, hlater⟩ := bind_eq_ok.mp hwalk
            obtain rfl := Layout.walk_unique hwalk₀ hfirst
            obtain rfl := eq_nil_of_walk_file hfile₀ hdownward hlater
            have hplace : real₀ = last.place := by
              cases left₁ <;>
              · rw [Layout.walk, Layout.walkFrom] at hlater
                exact congrArg Prod.snd (Except.ok.inj hlater)
            have hcopy' : copy.Real (target ++ names ++ [name]) := by
              rw [List.append_assoc]
              exact .inl hcopy
            refine ⟨more, target ++ names ++ [name], Layout.walk_real more hcopy', ?_, ?_⟩
            · rwa [List.append_assoc]
            · rwa [← hplace, List.append_assoc]

end

/-! ## Files -/

/-- What stands at a place; a special file is a device, a socket or a pipe. -/
inductive Item
  | directory
  | file (content : List UInt8)
  | special
  | symlink (target : List UInt8)
  deriving DecidableEq, Repr

/-- What resolving a path sees of it. -/
def Item.node : Item → Node
  | .directory => .directory
  | .file _ => .file
  | .special => .file
  | .symlink target => .symlink target

namespace Item

variable {item : Item}

theorem node_eq_directory : item.node = .directory ↔ item = .directory := by
  cases item <;> simp [node]

theorem node_eq_file : item.node = .file ↔ (∃ content, item = .file content) ∨ item = .special := by
  cases item <;> simp [node]

theorem node_eq_symlink {target : List UInt8} :
    item.node = .symlink target ↔ item = .symlink target := by
  cases item <;> simp [node]

end Item

/-- A tree of files, with what they hold. -/
structure Files where
  item : Names → Option Item
  root : item [] = some .directory
  closed : ∀ place name, item (place ++ [name]) ≠ none → item place = some .directory
  target : ∀ place, item place ≠ some (.symlink [])

namespace Files

variable {files : Files} {place : Names}

/-- What resolving a path sees of the files. -/
def layout (files : Files) : Layout where
  node place := (files.item place).map Item.node
  root := by rw [files.root]; rfl
  closed place name h := by
    rw [files.closed place name fun hnone => h (by rw [hnone]; rfl)]
    rfl
  target place h := by
    obtain ⟨item, hitem, hnode⟩ := Option.map_eq_some_iff.mp h
    exact files.target place (hitem.trans (congrArg some (Item.node_eq_symlink.mp hnode)))

theorem node_eq_directory : files.layout.node place = some .directory ↔
    files.item place = some .directory := by
  rw [layout, Option.map_eq_some_iff]
  exact ⟨fun ⟨_, hitem, hnode⟩ => hitem.trans (congrArg some (Item.node_eq_directory.mp hnode)),
    fun hitem => ⟨_, hitem, rfl⟩⟩

theorem node_eq_file : files.layout.node place = some .file ↔
    (∃ content, files.item place = some (.file content)) ∨ files.item place = some .special := by
  rw [layout, Option.map_eq_some_iff]
  constructor
  · rintro ⟨item, hitem, hnode⟩
    rw [hitem]
    exact (Item.node_eq_file.mp hnode).imp (fun ⟨content, heq⟩ => ⟨content, by rw [heq]⟩)
      (by rw [Option.some.injEq]; exact id)
  · rintro (⟨content, hitem⟩ | hitem) <;>
    · exact ⟨_, hitem, rfl⟩

theorem node_eq_symlink {target : List UInt8} : files.layout.node place = some (.symlink target) ↔
    files.item place = some (.symlink target) := by
  rw [layout, Option.map_eq_some_iff]
  exact ⟨fun ⟨_, hitem, hnode⟩ => hitem.trans (congrArg some (Item.node_eq_symlink.mp hnode)),
    fun hitem => ⟨_, hitem, rfl⟩⟩

/-- Nothing stands behind what is no directory. -/
theorem item_append_eq_none (hplace : files.item place ≠ some .directory) {names : Names}
    (hnames : names ≠ []) : files.item (place ++ names) = none := by
  induction names using List.reverseRecOn with
  | nil => exact absurd rfl hnames
  | append_singleton names name ih =>
      by_contra hitem
      rw [← List.append_assoc] at hitem
      have hinit := files.closed _ name hitem
      rcases names.eq_nil_or_concat with rfl | ⟨init, last, rfl⟩
      · rw [List.append_nil] at hinit
        exact hplace hinit
      · rw [ih (by simp)] at hinit
        cases hinit

/-- Where something stands, its directories do. -/
theorem item_above {above : Names} (hle : above <+: place) (hne : above ≠ place)
    (hplace : files.item place ≠ none) : files.item above = some .directory := by
  obtain ⟨names, rfl⟩ := hle
  by_contra habove
  exact hplace (item_append_eq_none habove fun hnil => hne (by rw [hnil, List.append_nil]))

/-- `fs::read`, of an absolute path. -/
def read (files : Files) (path : Path) : Option (List UInt8) :=
  match files.layout.walk maxLinks [] path with
  | .error _ => none
  | .ok reached =>
      match files.item reached.2 with
      | some (.file content) => some content
      | _ => none

theorem read_eq_some {path : Path} {content : List UInt8} : files.read path = some content ↔
    ∃ reached, files.layout.walk maxLinks [] path = .ok reached ∧
      files.item reached.2 = some (.file content) := by
  rw [read]
  cases files.layout.walk maxLinks [] path with
  | error error => simp
  | ok reached =>
      dsimp only
      constructor
      · intro h
        split at h
        · rename_i found hitem
          rw [← Option.some.inj h]
          exact ⟨reached, rfl, hitem⟩
        · cases h
      · rintro ⟨_, heq, hitem⟩
        rw [← Except.ok.inj heq] at hitem
        rw [hitem]

/-- No files but the root. -/
def empty : Files where
  item place := if place = [] then some .directory else none
  root := rfl
  closed place name h := absurd (if_neg (by simp)) h
  target place := by
    split_ifs
    · exact fun h => by cases h
    · exact fun h => by cases h

/-- Something is put into a directory. -/
def put (files : Files) (place : Names) (item : Item)
    (hinit : place ≠ [] ∧ files.item place.dropLast = some .directory)
    (hplace : files.item place ≠ some .directory) (hitem : item ≠ .symlink []) : Files where
  item other := if other = place then some item else files.item other
  root := by rw [if_neg (Ne.symm hinit.1)]; exact files.root
  closed other name h := by
    have hother : files.item other = some .directory := by
      -- only what is put can be new in a directory
      by_cases heq : other ++ [name] = place
      · rw [← hinit.2, ← heq, List.dropLast_concat]
      · rw [if_neg heq] at h
        exact files.closed other name h
    have hne : other ≠ place := by
      rintro rfl
      exact hplace hother
    rw [if_neg hne]
    exact hother
  target other := by
    split_ifs
    · rw [ne_eq, Option.some.injEq]
      exact hitem
    · exact files.target other

/-- The files under a root of their own. -/
def mount (files : Files) (root : Names) : Files where
  item place :=
    if root <+: place then files.item (place.drop root.length)
    else if place <+: root then some .directory else none
  root := by
    by_cases hroot : root = []
    · rw [hroot, if_pos (List.prefix_refl _)]
      exact files.root
    · rw [if_neg fun hle => hroot (List.prefix_nil.mp hle), if_pos List.nil_prefix]
  closed place name h := by
    by_cases hle : root <+: place
    · rw [if_pos (hle.trans (List.prefix_append _ _)),
        List.drop_append_of_le_length hle.length_le] at h
      rw [if_pos hle]
      exact files.closed _ name h
    · rw [if_neg hle]
      refine if_pos ?_
      by_cases hroot : root <+: place ++ [name]
      · rcases List.prefix_concat_iff.mp hroot with rfl | hle'
        · exact List.prefix_append _ _
        · exact absurd hle' hle
      · rw [if_neg hroot] at h
        by_contra hnot
        exact h (if_neg fun hle' => hnot ((List.prefix_append _ _).trans hle'))
  target place := by
    split_ifs
    · exact files.target _
    · exact fun h => by cases h
    · exact fun h => by cases h

theorem item_mount (files : Files) (root place : Names) :
    (files.mount root).item (root ++ place) = files.item place := by
  show (if root <+: root ++ place then _ else _) = _
  rw [if_pos (List.prefix_append _ _), List.drop_left]

end Files

end Encoding.Paths
