import LyraUpgrade.Service.SimulatedCopies

/-!
# What the solver reads

The solver of a preview is run with the simulated root as its own.  It sees there what the
system holds under the copied paths, and it is not led out of the root, neither by a path that
it was given nor by a link that was copied.

## Main results

* `holds_new`: what a simulation holds.
* `simulation_isolated`: it holds copies only, and no path of its commands leads out of it.
* `simulation_complete`: what the system reads is read in it as well.
-/

namespace LyraUpgrade.SimulatedRoot

open Encoding Encoding.Paths

variable {calls : Calls} {host : Host} {directory : Names} {withCurrentRepositories : Bool}
  {simulation : Simulation}

/-! ## What a simulation holds -/

/-- The paths that are copied, with their places in the root. -/
def copies (withCurrentRepositories : Bool) : List (Names × Names) :=
  fixedPaths.map (fun path => (place path, place path)) ++
    if withCurrentRepositories then
      (place "/etc/zypp/services.d", place "etc/zypp/services.d") :: repositoryPaths
    else []

/-- The context as it stands in a file system that has the root. -/
def contextAt (root : Names) : RepositoryContext :=
  { RepositoryContext.prepared (root ++ place "var/lib/lyra-upgrade-simulation") with
    simulationRoot := some root }

theorem holds_tmp {files : Files} (h : createDir calls (place "tmp") Files.empty = .ok files) :
    Holds host [place "tmp"] [] files := by
  have hitem := item_of_createDir h ⟨by decide +kernel, by decide +kernel⟩
  refine ⟨fun q hq => .inl ?_, fun c hc => by cases hc⟩
  rw [hitem] at hq ⊢
  split_ifs at hq ⊢ with htmp
  · exact ⟨rfl, _, List.mem_cons_self, htmp ▸ List.prefix_refl _⟩
  · by_cases hroot : q = []
    · rw [hroot]
      exact ⟨rfl, _, List.mem_cons_self, List.nil_prefix⟩
    · exact absurd (if_neg hroot) hq

theorem holds_new
    (h : Simulation.new calls host directory withCurrentRepositories = .ok simulation) :
    (∃ makes copied, Holds host makes copied simulation.files ∧
      ∀ c, c ∈ copied ↔ c ∈ copies withCurrentRepositories) ∧
    simulation.root = directory ++ place "root" ∧
    simulation.context = contextAt simulation.root := by
  unfold Simulation.new at h
  obtain ⟨files₁, htmp, h⟩ := bind_eq_ok.mp h
  obtain ⟨files₂, hvar, h⟩ := bind_eq_ok.mp h
  obtain ⟨files₃, hfixed, h⟩ := bind_eq_ok.mp h
  obtain ⟨files₄, hrepos, h⟩ := bind_eq_ok.mp h
  obtain ⟨files₅, hcache, h⟩ := bind_eq_ok.mp h
  have h₂ : Holds host [place "var/tmp", place "tmp"] [] files₂ :=
    (holds_tmp htmp).makeDirs (fun c hc => by cases hc) hvar
  have h₃ := h₂.copyEach (by decide +kernel) hfixed
  have h₄ := h₃.makeDirs (by decide +kernel) hrepos
  have h₅ := h₄.makeDirs (by decide +kernel) hcache
  cases withCurrentRepositories with
  | false =>
      rw [if_neg Bool.false_ne_true] at h
      cases h
      exact ⟨⟨_, _, h₅, fun c => by simp [copies]⟩, rfl, rfl⟩
  | true =>
      rw [if_pos rfl] at h
      obtain ⟨files₆, hservices, h⟩ := bind_eq_ok.mp h
      obtain ⟨files₇, hothers, h⟩ := bind_eq_ok.mp h
      cases h
      have h₆ := @Holds.copy _ _ _ _ _ _ h₅
        (place "/etc/zypp/services.d", place "etc/zypp/services.d") (by decide +kernel) _ hservices
      have h₇ := @Holds.copyEach _ _ _ _ _ _ _ Prod.fst Prod.snd _ _ h₆ (by decide +kernel) hothers
      refine ⟨⟨_, _, h₇, fun c => ?_⟩, rfl, rfl⟩
      show c ∈ (repositoryPaths.map id).reverse ++ _ ↔ _
      rw [List.map_id, List.append_nil, copies, if_pos rfl]
      simp only [List.mem_append, List.mem_reverse, List.mem_cons]
      tauto

/-! ## Nothing else is in the root -/

/-- What may stand at a place of the root: a directory, a file that the system reads at the path
it was copied from, or a marker. -/
inductive Isolated (host : Host) (withCurrentRepositories : Bool) (q : Names) : Item → Prop
  | directory : Isolated host withCurrentRepositories q .directory
  | file (c : Names × Names) (names : Names) (content : List UInt8)
      (hcopy : c ∈ copies withCurrentRepositories)
      (hread : host.files.read (absolutePath (c.1 ++ names)) = some content)
      (hplace : q = c.2 ++ names ∨ names = [] ∧ ∃ name, q = c.2 ++ [name]) :
      Isolated host withCurrentRepositories q (.file content)
  | marker (target : List UInt8) (htarget : target ∈ markerTargets)
      (hname : q.getLast? = some repoGpgcheck) :
      Isolated host withCurrentRepositories q (.symlink target)

theorem copies_named (withCurrentRepositories : Bool) :
    ∀ c ∈ copies withCurrentRepositories, c.1.getLast? ≠ some repoGpgcheck := by
  cases withCurrentRepositories with
  | false => decide +kernel
  | true => decide +kernel

/-- The copy of what stands at a path is isolated. -/
theorem isolated_of_copyOf {c : Names × Names} (hcopy : c ∈ copies withCurrentRepositories)
    {names : Names} {found item : Item} (h : copyOf host (c.1 ++ names) found = some item) :
    Isolated host withCurrentRepositories (c.2 ++ names) item := by
  have hfile : ∀ content, (host.files.read (absolutePath (c.1 ++ names))).map Item.file =
      some content → Isolated host withCurrentRepositories (c.2 ++ names) content := by
    intro copied hcopied
    obtain ⟨content, hread, rfl⟩ := Option.map_eq_some_iff.mp hcopied
    exact .file c names content hcopy hread (.inl rfl)
  cases found with
  | directory =>
      cases h
      exact .directory
  | file => exact hfile _ h
  | special => cases h
  | symlink target =>
      rw [copyOf] at h
      split_ifs at h with hmarker
      · cases h
        refine .marker target hmarker.2 ?_
        rcases names.eq_nil_or_concat with rfl | ⟨names, last, rfl⟩
        · rw [List.append_nil] at hmarker
          exact absurd hmarker.1 (copies_named _ c hcopy)
        · rw [List.concat_eq_append, ← List.append_assoc] at hmarker
          rw [List.concat_eq_append, ← List.append_assoc, List.getLast?_concat,
            (isMarker_concat.mp hmarker).1]
      · exact hfile _ h

theorem isolated_of_shows {files : Files} {c : Names × Names}
    (hcopy : c ∈ copies withCurrentRepositories) (h : Shows host c.1 c.2 files) {names : Names}
    {item : Item} (hitem : files.item (c.2 ++ names) = some item) :
    Isolated host withCurrentRepositories (c.2 ++ names) item := by
  cases h with
  | missing init name hsource hmissing hdestination hbelow =>
      by_cases hnames : names = []
      · rw [hnames, List.append_nil] at hitem
        rcases hdestination with hnone | hdirectory
        · rw [hnone] at hitem
          cases hitem
        · rw [hdirectory] at hitem
          cases hitem
          exact .directory
      · rw [hbelow names hnames] at hitem
        cases hitem
  | copy init name left parent found hsource hlocated hshows hcomplete =>
      rw [hshows, image] at hitem
      obtain ⟨found, -, hcopied⟩ := Option.bind_eq_some_iff.mp hitem
      exact isolated_of_copyOf hcopy hcopied
  | nested init name left parent found name' content hsource hlocated hfound hrepos hread hshows =>
      rw [hshows] at hitem
      split_ifs at hitem with hname' hnil
      · cases hitem
        refine .file c [] content hcopy (by rwa [List.append_nil]) (.inr ⟨rfl, name', ?_⟩)
        rw [hname']
      · cases hitem
        exact .directory

/-- A layout that has the files under a place. -/
def Mounted (outer : Layout) (root : Names) (files : Files) : Prop :=
  ∀ names, outer.node (root ++ names) = files.layout.node names

theorem markers_downward : ∀ target ∈ markerTargets, ∀ step ∈ steps target,
    step.isDownward = true := by
  decide +kernel

/-- A root of isolated items is not left. -/
theorem confined_of_isolated {outer : Layout} {root : Names} {files : Files}
    (hmount : Mounted outer root files)
    (hitems : ∀ q item, files.item q = some item → Isolated host withCurrentRepositories q item) :
    outer.Confined root := by
  rintro _ target ⟨names, rfl⟩ hlink
  rw [hmount, Files.node_eq_symlink] at hlink
  cases hitems names _ hlink with
  | marker _ htarget _ => exact markers_downward target htarget

/-- The paths of a command lie under the root. -/
theorem paths_under (root : Names) (euid : ℕ) :
    ∀ path ∈ ((contextAt root).command euid).paths, ∃ names, path = root ++ names := by
  intro path hpath
  obtain ⟨argument, hargument, hname⟩ := List.mem_filterMap.mp hpath
  have hunder : ∀ argument ∈ ((contextAt root).command euid).arguments ++
      ((contextAt root).command euid).environment.map Prod.snd,
      ∀ path, argument = .path path → ∃ names, path = root ++ names := by
    intro argument hmem path hpath
    subst hpath
    rcases List.mem_append.mp hmem with hargument | hvariable
    · by_cases hmapped : euid ≠ 0 <;>
      · simp [contextAt, RepositoryContext.command, RepositoryContext.arguments,
          RepositoryContext.prepared, hmapped] at hargument
        rcases hargument with rfl | rfl | rfl | rfl | rfl | rfl
        · exact ⟨[], (List.append_nil _).symm⟩
        all_goals exact ⟨_, rfl⟩
    · simp [contextAt, RepositoryContext.command, RepositoryContext.prepared] at hvariable
      rcases hvariable with rfl | rfl <;>
      · exact ⟨_, rfl⟩
  cases argument with
  | text => cases hname
  | path other =>
      cases hname
      exact hunder _ hargument _ rfl

namespace Sample

/-- Every call answers as the files have it. -/
def answers : Calls where
  unreadable := fun _ => false
  refuses := fun _ => false
  elsewhere := fun _ _ => .error .refused

def file (text : String) : Item := .file (utf8 text.toList)

def link (target : String) : Item := .symlink (utf8 target.toList)

/-- A system with a package database, an alias of its release file and a cache. -/
def system : Host where
  entries :=
    [([], .directory), (place "usr", .directory), (place "usr/lib", .directory),
      (place "usr/lib/os-release", file "ID=lyra"), (place "usr/lib/sysimage", .directory),
      (place "usr/lib/sysimage/rpm", .directory),
      (place "usr/lib/sysimage/rpm/rpmdb.sqlite", file "database"), (place "etc", .directory),
      (place "etc/os-release", link "../usr/lib/os-release"), (place "var", .directory),
      (place "var/cache", .directory), (place "var/cache/zypp", .directory),
      (place "var/cache/zypp/raw", .directory), (place "var/cache/zypp/raw/oss", .directory),
      (place "var/cache/zypp/raw/oss/true", file ""),
      (place "var/cache/zypp/raw/oss/.repo_gpgcheck", link "./true")]
  nodup := by decide +kernel
  root := by decide +kernel
  listed := by decide +kernel
  target := by decide +kernel

theorem exists_simulation : ∃ simulation,
    Simulation.new answers system (place "/tmp/lyra-sim-1") true = .ok simulation := by
  have hok : (Simulation.new answers system (place "/tmp/lyra-sim-1") true).toBool = true := by
    decide +kernel
  cases hnew : Simulation.new answers system (place "/tmp/lyra-sim-1") true with
  | ok simulation => exact ⟨simulation, rfl⟩
  | error error =>
      rw [hnew] at hok
      cases hok

end Sample

/-- **Isolation.**  The root of a simulation holds nothing but copies, and wherever it stands in
a file system, no path that zypper is given leads out of it. -/
theorem simulation_isolated
    (h : Simulation.new calls host directory withCurrentRepositories = .ok simulation) :
    (∀ q item, simulation.files.item q = some item →
      Isolated host withCurrentRepositories q item) ∧
    ∀ outer, Mounted outer simulation.root simulation.files → ∀ euid,
      ∀ path ∈ (simulation.context.command euid).paths, ∀ names reached,
        outer.walk maxLinks [] (absolutePath (path ++ names)) = .ok reached →
          simulation.root <+: reached.2 := by
  obtain ⟨⟨makes, copied, hholds, hcopied⟩, -, hcontext⟩ := holds_new h
  have hitems : ∀ q item, simulation.files.item q = some item →
      Isolated host withCurrentRepositories q item := by
    intro q item hitem
    rcases hholds.known q (by rw [hitem]; exact Option.some_ne_none _) with
      ⟨hdirectory, -⟩ | ⟨c, hc, names, rfl⟩
    · rw [hitem, Option.some.injEq] at hdirectory
      rw [hdirectory]
      exact .directory
    · exact isolated_of_shows ((hcopied c).mp hc) (hholds.shows c hc) hitem
  refine ⟨hitems, fun outer hmount euid path hpath names reached hwalk => ?_⟩
  rw [hcontext] at hpath
  obtain ⟨others, rfl⟩ := paths_under _ _ path hpath
  -- the root itself is reached without a link, and is not left from there
  have hroot : outer.Real simulation.root := by
    have hnode := hmount []
    rw [List.append_nil] at hnode
    exact .inr (hnode.trans simulation.files.layout.root)
  rw [List.append_assoc, absolutePath_append, Layout.walk_append,
    Layout.walk_absolutePath _ hroot] at hwalk
  exact (confined_of_isolated hmount hitems).walk (List.prefix_refl _) (isDownward_names _) hwalk

theorem simulation_isolated_sample : ∃ simulation,
    Simulation.new Sample.answers Sample.system (place "/tmp/lyra-sim-1") true = .ok simulation ∧
    (∀ q item, simulation.files.item q = some item → Isolated Sample.system true q item) ∧
    ∀ euid, ∀ path ∈ (simulation.context.command euid).paths, ∀ names reached,
      (simulation.files.mount simulation.root).layout.walk maxLinks []
        (absolutePath (path ++ names)) = .ok reached → simulation.root <+: reached.2 := by
  obtain ⟨simulation, hnew⟩ := Sample.exists_simulation
  obtain ⟨hitems, hpaths⟩ := simulation_isolated hnew
  exact ⟨simulation, hnew, hitems, hpaths _ fun names => by
    show Option.map _ _ = Option.map _ _
    rw [Files.item_mount]⟩

/-! ## Everything is in the root -/

variable {outer : Files} {init parent target names : Names} {name content : List UInt8} {left : ℕ}
  {item : Item}

/-- A missing path is not read. -/
theorem read_missing (h : host.symlinkMetadata (init ++ [name]) = .error .notFound)
    (names : Names) : host.files.read (absolutePath (init ++ [name] ++ names)) = none := by
  by_contra hread
  obtain ⟨content, hread⟩ := Option.ne_none_iff_exists'.mp hread
  obtain ⟨reached, hwalk, -⟩ := Files.read_eq_some.mp hread
  rw [List.append_assoc, absolutePath_append, Layout.walk_append] at hwalk
  obtain ⟨⟨left, parent⟩, hinit, hwalk⟩ := bind_eq_ok.mp hwalk
  obtain ⟨next, hstep, -⟩ := Layout.exists_step hwalk
  have hthere : host.item parent = some .directory ∧ host.item (parent ++ [name]) ≠ none := by
    cases hstep with
    | enter _ _ _ _ hdirectory hreal =>
        refine ⟨Files.node_eq_directory.mp hdirectory, fun hnone => ?_⟩
        have hnode : host.files.layout.node (parent ++ [name]) = none :=
          congrArg (Option.map Item.node) hnone
        rcases hreal with hfile | hdirectory
        · exact absurd (hnode.symm.trans hfile) (by simp)
        · exact absurd (hnode.symm.trans hdirectory) (by simp)
    | follow _ _ _ _ _ hdirectory hlink =>
        refine ⟨Files.node_eq_directory.mp hdirectory, fun hnone => ?_⟩
        exact absurd (hnone.symm.trans (Files.node_eq_symlink.mp hlink)) (by simp)
  obtain ⟨item, hitem⟩ := Option.ne_none_iff_exists'.mp hthere.2
  rw [Host.symlinkMetadata, List.getLast?_concat] at h
  dsimp only at h
  rw [List.dropLast_concat, hinit] at h
  change (if host.item parent = some .directory then _ else _) = _ at h
  rw [if_pos hthere.1] at h
  dsimp only at h
  rw [hitem] at h
  cases h

/-- Nothing is read behind a file. -/
theorem names_eq_nil {files : Files} {source : Names} {content' : List UInt8}
    (hfile : files.read (absolutePath source) = some content)
    (hread : files.read (absolutePath (source ++ names)) = some content') : names = [] := by
  obtain ⟨reached, hwalk, hitem⟩ := Files.read_eq_some.mp hfile
  obtain ⟨last, hlast, -⟩ := Files.read_eq_some.mp hread
  rw [absolutePath_append, Layout.walk_append, hwalk] at hlast
  have hnil := eq_nil_of_walk_file (Files.node_eq_file.mpr (.inl ⟨content, hitem⟩))
    (isDownward_names names) hlast
  exact List.map_eq_nil_iff.mp hnil

/-- The contents of a file and of its copy. -/
def SameContent (host : Host) (outer : Files) (original copied : Names) : Prop :=
  ∃ content, host.item original = some (.file content) ∧
    outer.item copied = some (.file content)

/-- The copy of a directory mirrors it. -/
theorem Located.mirror (h : Located host init name left parent .directory)
    (hshows : ∀ names, outer.item (target ++ names) =
      image host (init ++ [name]) (parent ++ [name]) names)
    (hcomplete : ∀ names, host.item (parent ++ [name] ++ names) ≠ none →
      image host (init ++ [name]) (parent ++ [name]) names ≠ none) :
    Mirror host.files.layout outer.layout (SameContent host outer) (parent ++ [name]) target := by
  have hitem : ∀ names item, host.item (parent ++ [name] ++ names) = some item →
      ∃ copied, copyOf host (init ++ [name] ++ names) item = some copied ∧
        outer.item (target ++ names) = some copied := by
    intro names item hitem
    obtain ⟨copied, hcopied⟩ := Option.ne_none_iff_exists'.mp
      (hcomplete names (by rw [hitem]; exact Option.some_ne_none _))
    refine ⟨copied, ?_, (hshows names).trans hcopied⟩
    rw [image, hitem] at hcopied
    exact hcopied
  -- a place under the directory is reached by the names that lead to it
  have hreaches : ∀ names, host.files.layout.Real (parent ++ [name] ++ names) →
      host.files.layout.walk maxLinks [] (absolutePath (init ++ [name] ++ names)) =
        .ok (left, parent ++ [name] ++ names) := by
    intro names hreal
    rw [absolutePath_append, Layout.walk_append, h.walk]
    exact Layout.walk_names left hreal
  constructor
  · intro names hnode
    obtain ⟨copied, hcopied, houter⟩ := hitem names _ (Files.node_eq_directory.mp hnode)
    cases hcopied
    exact Files.node_eq_directory.mpr houter
  · intro names hnode
    rcases Files.node_eq_file.mp hnode with ⟨content, hfile⟩ | hspecial
    · obtain ⟨copied, hcopied, houter⟩ := hitem names _ hfile
      have hread : host.files.read (absolutePath (init ++ [name] ++ names)) = some content :=
        Files.read_eq_some.mpr ⟨_, hreaches names (.inl hnode), hfile⟩
      rw [copyOf, hread] at hcopied
      cases hcopied
      exact ⟨Files.node_eq_file.mpr (.inl ⟨content, houter⟩), content, hfile, houter⟩
    · obtain ⟨copied, hcopied, -⟩ := hitem names _ hspecial
      cases hcopied
  · intro names last link hnode
    have hlink := Files.node_eq_symlink.mp hnode
    obtain ⟨copied, hcopied, houter⟩ := hitem _ _ hlink
    rw [copyOf] at hcopied
    split_ifs at hcopied with hmarker
    · cases hcopied
      exact .inl ⟨Files.node_eq_symlink.mpr houter, markers_downward link hmarker.2⟩
    · obtain ⟨content, hread, rfl⟩ := Option.map_eq_some_iff.mp hcopied
      obtain ⟨⟨left', real⟩, hwalk, hfile⟩ := Files.read_eq_some.mp hread
      have hinit : host.files.layout.Real (parent ++ [name] ++ names) := by
        rw [← List.append_assoc] at hlink
        refine .inr (Files.node_eq_directory.mpr (host.files.closed _ last ?_))
        rw [show host.files.item _ = _ from hlink]
        exact Option.some_ne_none _
      rw [← List.append_assoc, absolutePath_concat, Layout.walk_append,
        hreaches names hinit] at hwalk
      exact .inr ⟨Files.node_eq_file.mpr (.inl ⟨content, houter⟩), left, left', real, hwalk,
        Files.node_eq_file.mpr (.inl ⟨content, hfile⟩), content, hfile, houter⟩

/-- A file system reads at a place what stands there. -/
theorem read_place {files : Files} {q : Names} (hitem : files.item q = some (.file content)) :
    files.read (absolutePath q) = some content :=
  Files.read_eq_some.mpr ⟨(maxLinks, q),
    Layout.walk_absolutePath maxLinks (.inl (Files.node_eq_file.mpr (.inl ⟨content, hitem⟩))),
    hitem⟩

/-- What is read under a path that was copied is read in the copy. -/
theorem read_copy (h : Located host init name left parent item) (hname : name ≠ repoGpgcheck)
    (hshows : ∀ names, outer.item (target ++ names) =
      image host (init ++ [name]) (parent ++ [name]) names)
    (hcomplete : ∀ names, host.item (parent ++ [name] ++ names) ≠ none →
      image host (init ++ [name]) (parent ++ [name]) names ≠ none)
    (hread : host.files.read (absolutePath (init ++ [name] ++ names)) = some content) :
    outer.read (absolutePath (target ++ names)) = some content := by
  by_cases hdirectory : item = .directory
  · subst hdirectory
    have hmirror := h.mirror hshows hcomplete
    obtain ⟨⟨left', real⟩, hwalk, hitem⟩ := Files.read_eq_some.mp hread
    rw [absolutePath_append, Layout.walk_append, h.walk] at hwalk
    have hstart : host.files.layout.Real (parent ++ [name] ++ []) := by
      rw [List.append_nil]
      exact .inr (Files.node_eq_directory.mpr h.item_eq)
    have hleft : left ≤ maxLinks := Layout.walk_le h.reaches
    obtain ⟨left'', real', hcopy, -, content', hsame, hsame'⟩ :=
      @Mirror.walk _ _ _ _ _ hmirror [] left left' maxLinks real _ (isDownward_names names)
        (by rw [List.append_nil]; exact hwalk) hstart
        (Files.node_eq_file.mpr (.inl ⟨content, hitem⟩)) hleft
    have hcontent : content' = content := by
      rw [show host.item real = _ from hitem] at hsame
      cases hsame
      rfl
    rw [List.append_nil] at hcopy
    refine Files.read_eq_some.mpr ⟨(left'', real'), ?_, hcontent ▸ hsame'⟩
    have htarget : outer.layout.Real target := by
      have hnode := hmirror.directory [] (by
        rw [List.append_nil]
        exact Files.node_eq_directory.mpr h.item_eq)
      rw [List.append_nil] at hnode
      exact .inr hnode
    rw [absolutePath_append, Layout.walk_append, Layout.walk_absolutePath maxLinks htarget]
    exact hcopy
  · -- no directory: the copy is the file that the path leads to
    have hcopied := hcomplete [] (by
      rw [List.append_nil, h.item_eq]
      exact Option.some_ne_none _)
    have himage : image host (init ++ [name]) (parent ++ [name]) [] =
        (host.files.read (absolutePath (init ++ [name]))).map .file := by
      rw [image, List.append_nil, List.append_nil, h.item_eq] at hcopied ⊢
      cases item with
      | directory => exact absurd rfl hdirectory
      | file => rfl
      | special => exact absurd rfl hcopied
      | symlink link =>
          exact if_neg fun hmarker => hname (isMarker_concat.mp hmarker).1
    rw [himage] at hcopied
    obtain ⟨content', hfile⟩ :=
      Option.ne_none_iff_exists'.mp (mt Option.map_eq_none_iff.mpr hcopied)
    obtain rfl := names_eq_nil hfile hread
    rw [List.append_nil, hfile] at hread
    cases hread
    rw [List.append_nil]
    refine read_place ?_
    have houter := hshows []
    rwa [List.append_nil, himage, hfile] at houter

/-- **Completeness.**  What the system reads at a copied path, or under it, is read in the root,
wherever it stands in a file system.  A directory is made for the repositories first; a file in
the place of `/etc/zypp/repos.d` is put into it. -/
theorem simulation_complete
    (h : Simulation.new calls host directory withCurrentRepositories = .ok simulation)
    {c : Names × Names} (hcopy : c ∈ copies withCurrentRepositories)
    (hnames : c.2 = innerContext.repos → names ≠ [])
    (hread : host.files.read (absolutePath (c.1 ++ names)) = some content)
    (hmount : ∀ q, outer.item (simulation.root ++ q) = simulation.files.item q) :
    outer.read (absolutePath (simulation.root ++ c.2 ++ names)) = some content := by
  obtain ⟨⟨makes, copied, hholds, hcopied⟩, -, -⟩ := holds_new h
  have hnamed := copies_named _ c hcopy
  cases hholds.shows c ((hcopied c).mpr hcopy) with
  | missing init name hsource hmissing hitem hbelow =>
      rw [hsource] at hread hmissing
      rw [read_missing hmissing names] at hread
      cases hread
  | copy init name left parent item hsource hlocated hshows hcomplete =>
      rw [hsource] at hread hshows hcomplete hnamed
      refine read_copy hlocated (fun hname => ?_) (fun names => ?_) hcomplete hread
      · rw [List.getLast?_concat, hname] at hnamed
        exact hnamed rfl
      · rw [List.append_assoc, hmount]
        exact hshows names
  | nested init name left parent item name' content' hsource hlocated hitem hrepos hfile hshows =>
      exact absurd (names_eq_nil hfile hread) (hnames hrepos)

theorem simulation_complete_sample : ∃ simulation,
    Simulation.new Sample.answers Sample.system (place "/tmp/lyra-sim-1") true = .ok simulation ∧
    (simulation.files.mount simulation.root).read
        (absolutePath (simulation.root ++ place "etc/os-release" ++ [])) =
      some (utf8 "ID=lyra".toList) ∧
    (simulation.files.mount simulation.root).read
        (absolutePath (simulation.root ++ innerContext.raw ++ place "oss/.repo_gpgcheck")) =
      some [] := by
  obtain ⟨simulation, hnew⟩ := Sample.exists_simulation
  refine ⟨simulation, hnew, ?_, ?_⟩
  · exact @simulation_complete _ _ _ _ _ _ _ _ hnew
      (place "/etc/os-release", place "etc/os-release") (by decide +kernel) (by decide +kernel)
      (by decide +kernel) (Files.item_mount _ _)
  · exact @simulation_complete _ _ _ _ _ _ _ _ hnew
      (place "/var/cache/zypp/raw", innerContext.raw) (by decide +kernel) (by decide +kernel)
      (by decide +kernel) (Files.item_mount _ _)

end LyraUpgrade.SimulatedRoot
