import LyraUpgrade.Service.SimulatedRoot

/-!
# What a simulated root holds

The solver is to see the configuration of the system, and to reach nothing of it.  A copy is
described place by place: what stands at a place of the copy is determined by what the system
has at the place it was copied from (`image`), and nothing else is written (`Copied`).  From one
copy to the next the root is described by `Holds`.

## Main results

* `copyTree_spec`: what one copy writes.
* `copyTree_height`: the bound of the recursion is never met.
* `Holds.copyEach`: what the root holds after one copy and the next.
-/

namespace LyraUpgrade.SimulatedRoot

open Encoding Encoding.Paths

variable {calls : Calls} {host : Host} {files files' : Files}
  {source destination at' made rest : Names} {content target : List UInt8}

/-- A place is not under what stands under it. -/
theorem not_under_self {names : Names} (hnames : names ≠ []) :
    ¬ destination ++ names <+: destination := by
  intro hle
  have hlength := hle.length_le
  have hpos := List.length_pos_of_ne_nil hnames
  rw [List.length_append] at hlength
  omega

theorem name_eq_of_under {name name' : List UInt8} {names : Names}
    (h : destination ++ [name] <+: destination ++ name' :: names) : name = name' := by
  rw [List.prefix_append_right_inj, List.cons_prefix_cons] at h
  exact h.1

/-- What is on the way to a place, without the place. -/
theorem prefix_dropLast_iff {q : Names} (hq : q ≠ destination) :
    q <+: destination.dropLast ↔ q <+: destination := by
  refine ⟨fun hle => hle.trans (List.dropLast_prefix _), ?_⟩
  rintro ⟨tail, rfl⟩
  have htail : tail ≠ [] := by
    rintro rfl
    exact hq (List.append_nil q).symm
  rw [List.dropLast_append_of_ne_nil htail]
  exact List.prefix_append _ _

/-! ## The calls -/

theorem item_of_createDir (h : createDir calls at' files = .ok files')
    (hinit : at' ≠ [] ∧ files.item at'.dropLast = some .directory) (q : Names) :
    files'.item q = if q = at' then some .directory else files.item q := by
  unfold createDir at h
  rw [dif_pos hinit] at h
  split_ifs at h
  cases h
  rfl

/-- Nothing but directories is on the way. -/
def IsClear (files : Files) (destination : Names) : Prop :=
  ∀ above, above <+: destination → files.item above = none ∨ files.item above = some .directory

theorem item_of_createDirsFrom (h : createDirsFrom calls made rest files = .ok files')
    (hmade : files.item made = some .directory) (hclear : IsClear files (made ++ rest))
    (q : Names) : files'.item q = if q <+: made ++ rest then some .directory else files.item q := by
  induction rest generalizing made files with
  | nil =>
      cases h
      rw [List.append_nil]
      split_ifs with hq
      · by_cases heq : q = made
        · rw [heq, hmade]
        · exact Files.item_above hq heq (by rw [hmade]; exact Option.some_ne_none _)
      · rfl
  | cons name rest ih =>
      have happend : made ++ name :: rest = made ++ [name] ++ rest := by simp
      have hnext : made ++ [name] <+: made ++ name :: rest := happend ▸ List.prefix_append _ _
      rw [happend] at hclear ⊢
      rw [createDirsFrom] at h
      rcases hclear (made ++ [name]) (happend ▸ hnext) with hnone | hdirectory
      · rw [hnone] at h
        obtain ⟨files₁, hcreate, h⟩ := bind_eq_ok.mp h
        have hitem := item_of_createDir hcreate ⟨by simp, by rwa [List.dropLast_concat]⟩
        have hclear₁ : IsClear files₁ (made ++ [name] ++ rest) := by
          intro above habove
          rw [hitem]
          split_ifs
          · exact .inr rfl
          · exact hclear above habove
        rw [ih h (by rw [hitem, if_pos rfl]) hclear₁, hitem]
        split_ifs with hq heq
        · rfl
        · -- only a directory on the way is new
          exact absurd (heq ▸ List.prefix_append _ _) hq
        · rfl
      · rw [hdirectory] at h
        exact ih h hdirectory hclear

/-- The directories on the way are made, and nothing else. -/
theorem item_of_createDirAll (h : createDirAll calls at' files = .ok files')
    (hclear : IsClear files at') (q : Names) :
    files'.item q = if q <+: at' then some .directory else files.item q :=
  item_of_createDirsFrom h files.root hclear q

theorem item_of_symlink (h : symlink calls target at' files = .ok files')
    (hinit : at' ≠ [] ∧ files.item at'.dropLast = some .directory) :
    files.item at' = none ∧ ∀ q, files'.item q =
      if q = at' then some (.symlink target) else files.item q := by
  unfold symlink at h
  rw [dif_pos hinit] at h
  split_ifs at h with _ hfree
  cases h
  exact ⟨hfree.1, fun _ => rfl⟩

theorem item_of_writeFile (h : writeFile calls content at' files = .ok files')
    (hinit : at' ≠ [] ∧ files.item at'.dropLast = some .directory)
    (hfree : files.item at' = none) (q : Names) :
    files'.item q = if q = at' then some (.file content) else files.item q := by
  unfold writeFile at h
  rw [dif_pos hinit] at h
  split_ifs at h
  split at h
  · cases h
    rfl
  · simp_all
  · simp_all
  · simp_all

/-- A file is written at the destination, or in the directory that stands there. -/
theorem item_of_cp {resolved : Names} (hresolved : resolved ≠ [])
    (h : cp calls resolved content destination files = .ok files')
    (hinit : destination ≠ [] ∧ files.item destination.dropLast = some .directory)
    (hbelow : ∀ name, files.item (destination ++ [name]) = none)
    (hitem : files.item destination = none ∨ files.item destination = some .directory) :
    (files.item destination = none ∧ ∀ q, files'.item q =
      if q = destination then some (.file content) else files.item q) ∨
    (files.item destination = some .directory ∧ ∃ name, ∀ q, files'.item q =
      if q = destination ++ [name] then some (.file content) else files.item q) := by
  rw [cp] at h
  rcases hitem with hnone | hdirectory
  · rw [if_neg (by simp [hnone])] at h
    exact .inl ⟨hnone, item_of_writeFile h hinit hnone⟩
  · rw [if_pos hdirectory, List.getLast?_eq_getLast_of_ne_nil hresolved] at h
    exact .inr ⟨hdirectory, _, item_of_writeFile h
      ⟨by simp, by rwa [List.dropLast_concat]⟩ (hbelow _)⟩

/-! ## What is copied -/

/-- The copy of what stands at a path. -/
def copyOf (host : Host) (source : Names) : Item → Option Item
  | .directory => some .directory
  | .file _ => (host.files.read (absolutePath source)).map .file
  | .special => none
  | .symlink target =>
      if IsMarker source target then some (.symlink target)
      else (host.files.read (absolutePath source)).map .file

/-- What the copy of the tree at a place has under it. -/
def image (host : Host) (source found names : Names) : Option Item :=
  (host.item (found ++ names)).bind (copyOf host (source ++ names))

theorem image_cons (source found names : Names) (name : List UInt8) :
    image host (source ++ [name]) (found ++ [name]) names =
      image host source found (name :: names) := by
  simp [image]

/-- The path `init` leads to the directory `parent`, with so many links left, and `name` is in
it. -/
structure Located (host : Host) (init : Names) (name : List UInt8) (left : ℕ) (parent : Names)
    (item : Item) : Prop where
  reaches : host.files.layout.walk maxLinks [] (absolutePath init) = .ok (left, parent)
  directory : host.item parent = some .directory
  item_eq : host.item (parent ++ [name]) = some item

variable {init parent : Names} {name : List UInt8} {left : ℕ} {item : Item}

theorem exists_located (h : host.symlinkMetadata (init ++ [name]) = .ok item) :
    ∃ left parent, Located host init name left parent item := by
  rw [Host.symlinkMetadata, List.getLast?_concat] at h
  dsimp only at h
  rw [List.dropLast_concat] at h
  obtain ⟨⟨left, parent⟩, hreaches, h⟩ := bind_eq_ok.mp h
  dsimp only at h
  split_ifs at h with hdirectory
  split at h
  · cases h
  · rename_i hitem
    cases h
    exact ⟨left, parent, hreaches, hdirectory, hitem⟩

/-- A directory is reached by its own name. -/
theorem Located.walk (h : Located host init name left parent .directory) :
    host.files.layout.walk maxLinks [] (absolutePath (init ++ [name])) =
      .ok (left, parent ++ [name]) := by
  rw [absolutePath_concat, Layout.walk_append, h.reaches]
  exact Layout.walk_real left (.inr (Files.node_eq_directory.mpr h.item_eq))

/-- What a copy writes.  On the way to the destination directories are made. -/
structure Copied (host : Host) (source found destination : Names) (files files' : Files) :
    Prop where
  frame : ∀ q, ¬ destination <+: q →
    files'.item q = if q <+: destination then some .directory else files.item q
  shows : ∀ names, files'.item (destination ++ names) = image host source found names
  complete : ∀ names, host.item (found ++ names) ≠ none → image host source found names ≠ none

/-- A file that is written into a directory at the destination. -/
structure Nested (host : Host) (source destination : Names) (files files' : Files)
    (name content : List UInt8) : Prop where
  directory : files.item destination = some .directory
  read : host.files.read (absolutePath source) = some content
  writes : ∀ q, files'.item q =
    if q = destination ++ [name] then some (.file content) else files.item q

/-- The destination is free, but for a directory. -/
structure Ready (files : Files) (name : List UInt8) (destination : Names) : Prop where
  below : ∀ names, names ≠ [] → files.item (destination ++ names) = none
  clear : IsClear files destination
  named : destination ≠ []
  marker : name = repoGpgcheck → files.item destination.dropLast = some .directory

theorem Ready.free (h : Ready files name destination) :
    files.item destination = none ∨ files.item destination = some .directory :=
  h.clear destination (List.prefix_refl _)

/-- Only a directory has something under it. -/
theorem Located.under (h : Located host init name left parent item) (hitem : item ≠ .directory)
    {names : Names} (hnames : names ≠ []) : host.item (parent ++ [name] ++ names) = none := by
  refine @Files.item_append_eq_none host.files _ (fun hdirectory => hitem ?_) _ hnames
  exact Option.some.inj (h.item_eq.symm.trans hdirectory)

/-- The copy of what is no directory. -/
theorem Located.copied (h : Located host init name left parent item) (hitem : item ≠ .directory)
    (hready : Ready files name destination) {copy : Item}
    (hcopy : copyOf host (init ++ [name]) item = some copy) {files₁ : Files}
    (hway : ∀ q, q ≠ destination →
      files₁.item q = if q <+: destination then some .directory else files.item q)
    (hwrite : ∀ q, files'.item q = if q = destination then some copy else files₁.item q) :
    Copied host (init ++ [name]) (parent ++ [name]) destination files files' := by
  refine ⟨fun q hq => ?_, fun names => ?_, fun names hnames => ?_⟩
  · have hne : q ≠ destination := fun heq => hq (heq ▸ List.prefix_refl _)
    rw [hwrite, if_neg hne, hway q hne]
  · rcases names.eq_nil_or_concat with rfl | ⟨names, last, rfl⟩
    · rw [List.append_nil, hwrite, if_pos rfl, image, List.append_nil, List.append_nil, h.item_eq]
      exact hcopy.symm
    · rw [image, h.under hitem (by simp), hwrite, if_neg (by simp), hway _ (by simp),
        if_neg, hready.below _ (by simp)]
      · rfl
      · exact not_under_self (by simp)
  · rcases names.eq_nil_or_concat with rfl | ⟨names, last, rfl⟩
    · rw [image, List.append_nil, List.append_nil, h.item_eq]
      show copyOf host (init ++ [name]) item ≠ none
      rw [hcopy]
      exact Option.some_ne_none _
    · exact absurd (h.under hitem (by simp)) hnames

/-- A file, or what a link resolves to. -/
theorem Located.copyResolved (h : Located host init name left parent item)
    (hitem : item ≠ .directory) (hready : Ready files name destination)
    (hread : copyOf host (init ++ [name]) item =
      (host.files.read (absolutePath (init ++ [name]))).map .file)
    (hcopy : copyResolved calls host (init ++ [name]) destination files = .ok files') :
    Copied host (init ++ [name]) (parent ++ [name]) destination files files' ∨
      ∃ name' content, Nested host (init ++ [name]) destination files files' name' content := by
  unfold SimulatedRoot.copyResolved at hcopy
  obtain ⟨reached, hreached, hcopy⟩ := bind_eq_ok.mp hcopy
  have hwalk := mapError_eq_ok.mp hreached
  split at hcopy
  · rename_i content hfile
    obtain ⟨files₁, hway, hcopy⟩ := bind_eq_ok.mp hcopy
    have hcontent : host.files.read (absolutePath (init ++ [name])) = some content :=
      Files.read_eq_some.mpr ⟨reached, hwalk, hfile⟩
    have hitem₁ := item_of_createDirAll hway fun above habove =>
      hready.clear above (habove.trans (List.dropLast_prefix _))
    have hnot : ∀ names, ¬ destination ++ names <+: destination.dropLast := by
      intro names hle
      have hlength := hle.length_le
      have hpos := List.length_pos_of_ne_nil hready.named
      rw [List.length_append, List.length_dropLast] at hlength
      omega
    have hbelow₁ : ∀ names, files₁.item (destination ++ names) =
        files.item (destination ++ names) := fun names => by rw [hitem₁, if_neg (hnot names)]
    have hdestination := hbelow₁ []
    rw [List.append_nil] at hdestination
    have hresolved : reached.2 ≠ [] := by
      intro hnil
      rw [hnil] at hfile
      exact absurd (host.files.root.symm.trans hfile) (by simp)
    rcases item_of_cp hresolved hcopy ⟨hready.named, by rw [hitem₁, if_pos (List.prefix_refl _)]⟩
      (fun name => by rw [hbelow₁, hready.below _ (by simp)])
      (by rw [hdestination]; exact hready.free) with ⟨-, hwrite⟩ | ⟨hdirectory, name', hwrite⟩
    · refine .inl (h.copied hitem hready (by rw [hread, hcontent]; rfl) (fun q hq => ?_) hwrite)
      rw [hitem₁]
      exact if_congr (prefix_dropLast_iff hq) rfl rfl
    · rw [hdestination] at hdirectory
      refine .inr ⟨name', content, hdirectory, hcontent, fun q => ?_⟩
      rw [hwrite, hitem₁]
      split_ifs with _ hq
      · rfl
      · -- the directories on the way stand there already
        refine (Files.item_above (hq.trans (List.dropLast_prefix _)) ?_
          (by rw [hdirectory]; exact Option.some_ne_none _)).symm
        rintro rfl
        exact hnot [] (by rwa [List.append_nil])
      · rfl
  · cases hcopy

/-- What `copy_tree` does when it succeeds: nothing, where an optional path is missing, or a
copy. -/
def Spec (calls : Calls) (host : Host) (height : ℕ) : Prop :=
  ∀ (init : Names) (name : List UInt8) (destination : Names) (optional : Bool)
    (files files' : Files),
    copyTree calls host height (init ++ [name]) destination optional files = .ok files' →
    Ready files name destination →
    (optional = true ∧ host.symlinkMetadata (init ++ [name]) = .error .notFound ∧ files' = files) ∨
    ∃ left parent item, Located host init name left parent item ∧
      (Copied host (init ++ [name]) (parent ++ [name]) destination files files' ∨
        item ≠ .directory ∧ ∃ name' content,
          Nested host (init ++ [name]) destination files files' name' content)

theorem Host.nameIn_eq_some {entry : Names} :
    Host.nameIn source entry = some name ↔ entry = source ++ [name] := by
  unfold Host.nameIn
  constructor
  · intro hname
    split_ifs at hname with hin
    rw [← hin.2, List.dropLast_append_getLast? name hname]
  · rintro rfl
    rw [if_pos ⟨by simp, List.dropLast_concat⟩, List.getLast?_concat]

theorem Host.mem_names : name ∈ host.names source ↔ host.item (source ++ [name]) ≠ none := by
  rw [Option.ne_none_iff_exists', Host.names, List.mem_filterMap]
  constructor
  · rintro ⟨entry, hentry, hname⟩
    obtain ⟨⟨found, item⟩, hmem, rfl⟩ := List.mem_map.mp hentry
    obtain rfl := Host.nameIn_eq_some.mp hname
    exact ⟨item, Host.item_eq_some.mpr hmem⟩
  · rintro ⟨item, hitem⟩
    exact ⟨source ++ [name], List.mem_map.mpr ⟨_, Host.item_eq_some.mp hitem, rfl⟩,
      Host.nameIn_eq_some.mpr rfl⟩

theorem Host.nodup_names (host : Host) (source : Names) : (host.names source).Nodup := by
  refine List.Nodup.filterMap (fun entry other name hentry hother => ?_) host.nodup
  rw [Host.nameIn_eq_some.mp hentry, Host.nameIn_eq_some.mp hother]

/-- What is not there has nothing under it. -/
theorem Host.item_cons_eq_none (h : host.item (source ++ [name]) = none) (rest : Names) :
    host.item (source ++ name :: rest) = none := by
  have happend : source ++ name :: rest = source ++ [name] ++ rest := by simp
  by_cases hrest : rest = []
  · rw [hrest, h]
  · rw [happend]
    refine @Files.item_append_eq_none host.files _ (fun hdirectory => ?_) _ hrest
    exact absurd (h.symm.trans hdirectory) (by simp)

/-- The entries of a directory are copied one after the other, and beside each other. -/
theorem foldlM_copied {height : ℕ} (hspec : Spec calls host height) {names : List (List UInt8)}
    (hwalk : host.files.layout.walk maxLinks [] (absolutePath source) = .ok (left, parent))
    (hnodup : names.Nodup) (hdirectory : files.item destination = some .directory)
    (hfree : ∀ name ∈ names, ∀ rest, files.item (destination ++ name :: rest) = none)
    (h : names.foldlM (fun files name =>
      copyTree calls host height (source ++ [name]) (destination ++ [name]) false files) files =
      .ok files') :
    (∀ q, (∀ name ∈ names, ¬ destination ++ [name] <+: q) → files'.item q = files.item q) ∧
    ∀ name ∈ names, ∀ rest,
      files'.item (destination ++ name :: rest) = image host source parent (name :: rest) ∧
      (host.item (parent ++ name :: rest) ≠ none →
        image host source parent (name :: rest) ≠ none) := by
  induction names generalizing files with
  | nil =>
      cases h
      exact ⟨fun _ _ => rfl, fun _ hmem => by cases hmem⟩
  | cons name names ih =>
      rw [List.foldlM_cons] at h
      obtain ⟨files₁, hfirst, h⟩ := bind_eq_ok.mp h
      rw [List.nodup_cons] at hnodup
      rw [List.forall_mem_cons] at hfree
      have hready : Ready files name (destination ++ [name]) := by
        refine ⟨fun rest _ => ?_, fun above habove => ?_, by simp, fun _ => ?_⟩
        · rw [List.append_assoc]
          exact hfree.1 rest
        · rcases List.prefix_concat_iff.mp habove with rfl | hle
          · exact .inl (hfree.1 [])
          · by_cases heq : above = destination
            · rw [heq]
              exact .inr hdirectory
            · exact .inr (Files.item_above hle heq
                (by rw [hdirectory]; exact Option.some_ne_none _))
        · rwa [List.dropLast_concat]
      obtain ⟨hoptional, -⟩ | ⟨left', parent', item, hlocated, hcopied⟩ :=
        hspec source name _ false files files₁ hfirst hready
      · cases hoptional
      · -- the entry stands where its directory leads to
        have hparent : parent' = parent := by
          have hreaches := hlocated.reaches
          rw [hwalk, Except.ok.injEq, Prod.mk.injEq] at hreaches
          exact hreaches.2.symm
        subst hparent
        have hcopy : Copied host (source ++ [name]) (parent' ++ [name]) (destination ++ [name])
            files files₁ := by
          rcases hcopied with hcopy | ⟨-, name', content, hnested⟩
          · exact hcopy
          · exact absurd (hnested.directory.symm.trans (hfree.1 [])) (by simp)
        have hframe : ∀ q, ¬ destination ++ [name] <+: q → files₁.item q = files.item q := by
          intro q hq
          rw [hcopy.frame q hq]
          split_ifs with hle
          · rcases List.prefix_concat_iff.mp hle with rfl | hle
            · exact absurd (List.prefix_refl _) hq
            · by_cases heq : q = destination
              · rw [heq, hdirectory]
              · exact (Files.item_above hle heq
                  (by rw [hdirectory]; exact Option.some_ne_none _)).symm
          · rfl
        have hbeside : ∀ name' ∈ names, ∀ rest,
            ¬ destination ++ [name] <+: destination ++ name' :: rest := by
          intro name' hmem rest hle
          exact hnodup.1 (name_eq_of_under hle ▸ hmem)
        obtain ⟨hkeep, himage⟩ := ih hnodup.2
          (by rw [hframe _ (not_under_self (List.cons_ne_nil _ _)), hdirectory])
          (fun name' hmem rest => by
            rw [hframe _ (hbeside name' hmem rest), hfree.2 name' hmem rest])
          h
        refine ⟨fun q hq => ?_, ?_⟩
        · rw [List.forall_mem_cons] at hq
          rw [hkeep q hq.2, hframe q hq.1]
        · rw [List.forall_mem_cons]
          refine ⟨fun rest => ?_, himage⟩
          have happend : destination ++ name :: rest = destination ++ [name] ++ rest := by simp
          have hfound : parent' ++ name :: rest = parent' ++ [name] ++ rest := by simp
          rw [hkeep _, happend, hcopy.shows, image_cons, hfound]
          · exact ⟨rfl, fun hitem => @image_cons host source parent' rest name ▸
              hcopy.complete rest hitem⟩
          · intro name' hmem hle
            exact hnodup.1 (name_eq_of_under hle ▸ hmem)

/-- **What one copy writes.** -/
theorem copyTree_spec (calls : Calls) (host : Host) (height : ℕ) : Spec calls host height := by
  induction height with
  | zero => exact fun init name destination optional files files' h => by cases h
  | succ height ih =>
      intro init name destination optional files files' h hready
      rw [copyTree] at h
      split_ifs at h
      split at h
      · rename_i error hmetadata
        split_ifs at h with hmissing
        cases h
        rw [Bool.and_eq_true, decide_eq_true_eq] at hmissing
        exact .inl ⟨hmissing.1, hmissing.2 ▸ hmetadata, rfl⟩
      · rename_i hmetadata
        obtain ⟨left, parent, hlocated⟩ := exists_located hmetadata
        refine .inr ⟨left, parent, _, hlocated, .inl ?_⟩
        obtain ⟨files₁, hway, h⟩ := bind_eq_ok.mp h
        obtain ⟨names, hnames, h⟩ := bind_eq_ok.mp h
        have hitem₁ := item_of_createDirAll hway hready.clear
        have hread : host.readDir (init ++ [name]) = .ok (host.names (parent ++ [name])) := by
          rw [Host.readDir, hlocated.walk]
          exact if_pos hlocated.item_eq
        rw [hread] at hnames
        cases hnames
        have hnot : ∀ name' rest, ¬ destination ++ name' :: rest <+: destination :=
          fun name' rest => not_under_self (List.cons_ne_nil name' rest)
        have hbelow : ∀ name' rest, files₁.item (destination ++ name' :: rest) = none := by
          intro name' rest
          rw [hitem₁, if_neg (hnot name' rest), hready.below _ (by simp)]
        obtain ⟨hkeep, himage⟩ := foldlM_copied ih hlocated.walk (host.nodup_names _)
          (by rw [hitem₁, if_pos (List.prefix_refl _)]) (fun name' _ rest => hbelow name' rest) h
        refine ⟨fun q hq => ?_, fun names => ?_, fun names hnames => ?_⟩
        · rw [hkeep q fun name' _ hle => hq ((List.prefix_append _ _).trans hle), hitem₁]
        · cases names with
          | nil =>
              rw [List.append_nil, hkeep destination fun name' _ hle => hnot name' [] hle, hitem₁,
                if_pos (List.prefix_refl _), image, List.append_nil, hlocated.item_eq]
              rfl
          | cons name' rest =>
              by_cases hmem : name' ∈ host.names (parent ++ [name])
              · exact (himage name' hmem rest).1
              · -- what the directory does not list is not there
                have hnone := Host.item_cons_eq_none (not_not.mp (mt Host.mem_names.mpr hmem)) rest
                rw [image, hnone, hkeep, hbelow]
                · rfl
                · intro other hother hle
                  exact hmem (name_eq_of_under hle ▸ hother)
        · cases names with
          | nil =>
              rw [image, List.append_nil, hlocated.item_eq]
              exact Option.some_ne_none _
          | cons name' rest =>
              exact (himage name' (Host.mem_names.mpr fun hnone =>
                hnames (Host.item_cons_eq_none hnone rest)) rest).2 hnames
      · rename_i target hmetadata
        obtain ⟨left, parent, hlocated⟩ := exists_located hmetadata
        refine .inr ⟨left, parent, _, hlocated, ?_⟩
        split_ifs at h with hmarker
        · have hinit : files.item destination.dropLast = some .directory :=
            hready.marker (isMarker_concat.mp hmarker).1
          obtain ⟨-, hwrite⟩ := item_of_symlink h ⟨hready.named, hinit⟩
          refine .inl (hlocated.copied (by simp) hready (if_pos hmarker) (fun q hq => ?_) hwrite)
          split_ifs with hle
          · -- the directories on the way stand there already
            have hle' := (prefix_dropLast_iff hq).mpr hle
            by_cases heq : q = destination.dropLast
            · rw [heq, hinit]
            · exact Files.item_above hle' heq (by rw [hinit]; exact Option.some_ne_none _)
          · rfl
        · refine (hlocated.copyResolved (by simp) hready (if_neg hmarker) h).imp id
            fun hnested => ?_
          exact ⟨by simp, hnested⟩
      · rename_i hmetadata
        obtain ⟨left, parent, hlocated⟩ := exists_located hmetadata
        refine .inr ⟨left, parent, _, hlocated, ?_⟩
        refine (hlocated.copyResolved (by simp) hready rfl h).imp id fun hnested => ?_
        exact ⟨by simp, hnested⟩
      · cases h

/-! ## The height -/

theorem foldlM_congr {α β ε : Type} {f g : β → α → Except ε β} {names : List α}
    (h : ∀ name ∈ names, ∀ b, f b name = g b name) (b : β) :
    names.foldlM f b = names.foldlM g b := by
  induction names generalizing b with
  | nil => rfl
  | cons name names ih =>
      rw [List.forall_mem_cons] at h
      rw [List.foldlM_cons, List.foldlM_cons, h.1 b]
      exact bind_congr fun b => ih h.2 b

theorem Host.length_le_depth (h : host.item source ≠ none) : source.length ≤ host.depth := by
  obtain ⟨item, hitem⟩ := Option.ne_none_iff_exists'.mp h
  have hmem : source.length ∈ host.entries.map (·.1.length) :=
    List.mem_map.mpr ⟨(source, item), Host.item_eq_some.mp hitem, rfl⟩
  have hmax : ∀ lengths : List ℕ, ∀ n ∈ lengths, n ≤ lengths.foldr max 0 := by
    intro lengths n hn
    induction lengths with
    | nil => cases hn
    | cons m lengths ih =>
        rcases List.mem_cons.mp hn with rfl | hn
        · exact Nat.le_max_left _ _
        · exact (ih hn).trans (Nat.le_max_right _ _)
  exact hmax _ _ hmem

theorem copyTree_succ {height : ℕ} {optional : Bool} (h : Located host init name left parent item)
    (hheight : host.depth ≤ height + parent.length) :
    copyTree calls host (height + 1) (init ++ [name]) destination optional files =
      copyTree calls host height (init ++ [name]) destination optional files := by
  induction height generalizing init name left parent item destination optional files with
  | zero =>
      have hlength := Host.length_le_depth (h.item_eq ▸ Option.some_ne_none item)
      rw [List.length_append, List.length_singleton] at hlength
      omega
  | succ height ih =>
      rw [copyTree.eq_def _ _ (height + 1 + 1), copyTree.eq_def _ _ (height + 1)]
      dsimp only
      split_ifs
      · rfl
      · cases hmetadata : host.symlinkMetadata (init ++ [name]) with
        | error error => rfl
        | ok item' =>
            cases item' with
            | file => rfl
            | special => rfl
            | symlink => rfl
            | directory =>
                refine bind_congr fun files₁ => ?_
                obtain ⟨left', parent', hlocated⟩ := exists_located hmetadata
                have hparent : parent' = parent := by
                  have hreaches := hlocated.reaches
                  rw [h.reaches, Except.ok.injEq, Prod.mk.injEq] at hreaches
                  exact hreaches.2.symm
                subst hparent
                have hread : host.readDir (init ++ [name]) =
                    .ok (host.names (parent' ++ [name])) := by
                  rw [Host.readDir, hlocated.walk]
                  exact if_pos hlocated.item_eq
                rw [hread]
                refine foldlM_congr (fun name' hname' files₂ => ?_) files₁
                -- an entry stands one name deeper
                obtain ⟨item', hitem'⟩ := Option.ne_none_iff_exists'.mp (Host.mem_names.mp hname')
                refine ih ⟨hlocated.walk, hlocated.item_eq, hitem'⟩ ?_
                rw [List.length_append, List.length_singleton]
                omega

/-- **The number is high enough:** a copy does not run out of it. -/
theorem copyTree_height (optional : Bool) (more : ℕ) :
    copyTree calls host (host.depth + 1 + more) (init ++ [name]) destination optional files =
      copyAll calls host (init ++ [name]) destination optional files := by
  induction more with
  | zero => rfl
  | succ more ih =>
      rw [← ih]
      cases hmetadata : host.symlinkMetadata (init ++ [name]) with
      | error error =>
          rw [copyTree.eq_def _ _ (host.depth + 1 + (more + 1)),
            copyTree.eq_def _ _ (host.depth + 1 + more)]
          rw [show host.depth + 1 + (more + 1) = host.depth + more + 1 + 1 by omega,
            show host.depth + 1 + more = host.depth + more + 1 by omega]
          dsimp only
          rw [hmetadata]
      | ok item =>
          obtain ⟨left, parent, hlocated⟩ := exists_located hmetadata
          have hheight : host.depth ≤ host.depth + 1 + more + parent.length := by omega
          exact copyTree_succ hlocated hheight

/-! ## One copy after the other -/

/-- What stands at the destination of a path that was copied. -/
inductive Shows (host : Host) (source destination : Names) (files : Files) : Prop
  | missing (init : Names) (name : List UInt8) (hsource : source = init ++ [name])
      (hmissing : host.symlinkMetadata source = .error .notFound)
      (hitem : files.item destination = none ∨ files.item destination = some .directory)
      (hbelow : ∀ names, names ≠ [] → files.item (destination ++ names) = none)
  | copy (init : Names) (name : List UInt8) (left : ℕ) (parent : Names) (item : Item)
      (hsource : source = init ++ [name]) (hlocated : Located host init name left parent item)
      (hshows : ∀ names, files.item (destination ++ names) =
        image host source (parent ++ [name]) names)
      (hcomplete : ∀ names, host.item (parent ++ [name] ++ names) ≠ none →
        image host source (parent ++ [name]) names ≠ none)
  | nested (init : Names) (name : List UInt8) (left : ℕ) (parent : Names) (item : Item)
      (name' content : List UInt8) (hsource : source = init ++ [name])
      (hlocated : Located host init name left parent item) (hitem : item ≠ .directory)
      (hrepos : destination = innerContext.repos)
      (hread : host.files.read (absolutePath source) = some content)
      (hshows : ∀ names, files.item (destination ++ names) =
        if names = [name'] then some (.file content)
        else if names = [] then some .directory else none)

theorem Shows.congr (h : Shows host source destination files)
    (heq : ∀ names, files'.item (destination ++ names) = files.item (destination ++ names)) :
    Shows host source destination files' := by
  cases h with
  | missing init name hsource hmissing hitem hbelow =>
      have hdestination := heq []
      rw [List.append_nil] at hdestination
      exact .missing init name hsource hmissing (by rwa [hdestination])
        fun names hnames => (heq names).trans (hbelow names hnames)
  | copy init name left parent item hsource hlocated hshows hcomplete =>
      exact .copy init name left parent item hsource hlocated
        (fun names => (heq names).trans (hshows names)) hcomplete
  | nested init name left parent item name' content hsource hlocated hitem hrepos hread hshows =>
      exact .nested init name left parent item name' content hsource hlocated hitem hrepos hread
        fun names => (heq names).trans (hshows names)

/-- What the root holds: directories on the way to the places in `made`, and what was copied. -/
structure Holds (host : Host) (made : List Names) (copied : List (Names × Names)) (files : Files) :
    Prop where
  known : ∀ q, files.item q ≠ none →
    (files.item q = some .directory ∧ ∃ d ∈ made, q <+: d) ∨ ∃ c ∈ copied, c.2 <+: q
  shows : ∀ c ∈ copied, Shows host c.1 c.2 files

/-- Nothing was copied to or under the place, or above it. -/
def Apart (copied : List (Names × Names)) (destination : Names) : Prop :=
  ∀ c ∈ copied, ¬ c.2 <+: destination ∧ ¬ destination <+: c.2

instance (copied : List (Names × Names)) (destination : Names) :
    Decidable (Apart copied destination) :=
  inferInstanceAs (Decidable (∀ c ∈ copied, _ ∧ _))

variable {makes : List Names} {copied : List (Names × Names)}

theorem Holds.clear (h : Holds host makes copied files) (hapart : Apart copied destination) :
    IsClear files destination := by
  intro above habove
  by_cases hitem : files.item above = none
  · exact .inl hitem
  · rcases h.known above hitem with ⟨hdirectory, -⟩ | ⟨c, hc, hle⟩
    · exact .inr hdirectory
    · exact absurd (hle.trans habove) (hapart c hc).1

/-- What writes elsewhere keeps what was copied. -/
theorem Holds.keep (h : Holds host makes copied files) (hapart : Apart copied destination)
    (hframe : ∀ q, ¬ destination <+: q →
      files'.item q = if q <+: destination then some .directory else files.item q) :
    ∀ c ∈ copied, Shows host c.1 c.2 files' := by
  intro c hc
  refine (h.shows c hc).congr fun names => ?_
  have hnot : ¬ destination <+: c.2 ++ names := by
    intro hle
    rcases List.prefix_or_prefix_of_prefix hle (List.prefix_append _ _) with hle | hle
    · exact (hapart c hc).2 hle
    · exact (hapart c hc).1 hle
  rw [hframe _ hnot, if_neg fun hle => (hapart c hc).1 ((List.prefix_append _ _).trans hle)]

theorem Holds.makeDirs (h : Holds host makes copied files) (hapart : Apart copied at')
    (hmake : createDirAll calls at' files = .ok files') :
    Holds host (at' :: makes) copied files' := by
  have hitem := item_of_createDirAll hmake (h.clear hapart)
  refine ⟨fun q hq => ?_, h.keep hapart fun q _ => hitem q⟩
  rw [hitem] at hq ⊢
  split_ifs at hq ⊢ with hle
  · exact .inl ⟨rfl, at', List.mem_cons_self, hle⟩
  · exact (h.known q hq).imp (fun ⟨hdirectory, d, hd, hle⟩ =>
      ⟨hdirectory, d, List.mem_cons_of_mem _ hd, hle⟩) id

/-- A copy to a destination apart from the others, at which nothing stands yet; only the
directory of the repositories is made before it is copied to. -/
structure Fits (makes : List Names) (copied : List (Names × Names)) (pair : Names × Names) :
    Prop where
  source : pair.1 ≠ [] ∧ pair.1.getLast? ≠ some repoGpgcheck
  named : pair.2 ≠ []
  apart : Apart copied pair.2
  empty : ∀ d ∈ makes, pair.2 <+: d → d = pair.2 ∧ pair.2 = innerContext.repos

instance (pair : Names × Names) : Decidable (Fits makes copied pair) :=
  decidable_of_iff ((pair.1 ≠ [] ∧ pair.1.getLast? ≠ some repoGpgcheck) ∧ pair.2 ≠ [] ∧
      Apart copied pair.2 ∧ ∀ d ∈ makes, pair.2 <+: d → d = pair.2 ∧ pair.2 = innerContext.repos)
    ⟨fun ⟨hs, hn, ha, he⟩ => ⟨hs, hn, ha, he⟩, fun ⟨hs, hn, ha, he⟩ => ⟨hs, hn, ha, he⟩⟩

theorem Holds.ready (h : Holds host makes copied files) {pair : Names × Names}
    (hfits : Fits makes copied pair) (hname : pair.1 = init ++ [name]) :
    Ready files name pair.2 := by
  refine ⟨fun names hnames => ?_, h.clear hfits.apart, hfits.named, fun hmarker => ?_⟩
  · by_contra hitem
    rcases h.known _ hitem with ⟨-, d, hd, hle⟩ | ⟨c, hc, hle⟩
    · have hd' := (hfits.empty d hd ((List.prefix_append _ _).trans hle)).1
      rw [hd'] at hle
      exact not_under_self hnames hle
    · rcases List.prefix_or_prefix_of_prefix hle (List.prefix_append _ _) with hle | hle
      · exact (hfits.apart c hc).1 hle
      · exact (hfits.apart c hc).2 hle
  · have hlast := hfits.source.2
    rw [hname, List.getLast?_concat, hmarker] at hlast
    exact absurd rfl hlast

theorem Holds.copy (h : Holds host makes copied files) {pair : Names × Names}
    (hfits : Fits makes copied pair) {optional : Bool}
    (hcopy : copyAll calls host pair.1 pair.2 optional files = .ok files') :
    Holds host (pair.2 :: makes) (pair :: copied) files' := by
  obtain ⟨init, name, hname⟩ := (List.eq_nil_or_concat' pair.1).resolve_left hfits.source.1
  have hready := h.ready hfits hname
  rw [copyAll, hname] at hcopy
  have hkept : ∀ q, (files.item q = some .directory ∧ ∃ d ∈ makes, q <+: d) ∨
      (∃ c ∈ copied, c.2 <+: q) →
      (files.item q = some .directory ∧ ∃ d ∈ pair.2 :: makes, q <+: d) ∨
      ∃ c ∈ pair :: copied, c.2 <+: q := by
    intro q
    exact Or.imp (fun ⟨hdirectory, d, hd, hle⟩ => ⟨hdirectory, d, List.mem_cons_of_mem _ hd, hle⟩)
      fun ⟨c, hc, hle⟩ => ⟨c, List.mem_cons_of_mem _ hc, hle⟩
  rcases copyTree_spec calls host _ init name pair.2 optional files files' hcopy hready with
    ⟨-, hmissing, rfl⟩ | ⟨left, parent, item, hlocated, hcopied | ⟨hitem, name', content, hnested⟩⟩
  · refine ⟨fun q hq => hkept q (h.known q hq), ?_⟩
    rw [List.forall_mem_cons]
    exact ⟨.missing init name hname (hname ▸ hmissing) hready.free hready.below, h.shows⟩
  · refine ⟨fun q hq => ?_, ?_⟩
    · by_cases hunder : pair.2 <+: q
      · exact .inr ⟨pair, List.mem_cons_self, hunder⟩
      · rw [hcopied.frame q hunder] at hq ⊢
        split_ifs at hq ⊢ with hle
        · exact .inl ⟨rfl, pair.2, List.mem_cons_self, hle⟩
        · exact hkept q (h.known q hq)
    · rw [List.forall_mem_cons]
      refine ⟨.copy init name left parent item hname hlocated ?_ ?_,
        h.keep hfits.apart hcopied.frame⟩
      · rw [hname]
        exact hcopied.shows
      · rw [hname]
        exact hcopied.complete
  · have hframe : ∀ q, ¬ pair.2 <+: q →
        files'.item q = if q <+: pair.2 then some .directory else files.item q := by
      intro q hq
      have hne : q ≠ pair.2 ++ [name'] := by
        rintro rfl
        exact hq (List.prefix_append _ _)
      rw [hnested.writes, if_neg hne]
      split_ifs with hle
      · refine Files.item_above hle (fun heq => hq (heq ▸ List.prefix_refl _)) ?_
        rw [hnested.directory]
        exact Option.some_ne_none _
      · rfl
    have hrepos : pair.2 = innerContext.repos := by
      rcases h.known pair.2 (by rw [hnested.directory]; exact Option.some_ne_none _) with
        ⟨-, d, hd, hle⟩ | ⟨c, hc, hle⟩
      · exact (hfits.empty d hd hle).2
      · exact absurd hle (hfits.apart c hc).1
    refine ⟨fun q hq => ?_, ?_⟩
    · by_cases hunder : pair.2 <+: q
      · exact .inr ⟨pair, List.mem_cons_self, hunder⟩
      · rw [hframe q hunder] at hq ⊢
        split_ifs at hq ⊢ with hle
        · exact .inl ⟨rfl, pair.2, List.mem_cons_self, hle⟩
        · exact hkept q (h.known q hq)
    · rw [List.forall_mem_cons]
      refine ⟨.nested init name left parent item name' content hname hlocated hitem hrepos
        (hname ▸ hnested.read) fun names => ?_, h.keep hfits.apart hframe⟩
      rw [hnested.writes]
      by_cases hname' : names = [name']
      · rw [hname', if_pos rfl, if_pos rfl]
      · rw [if_neg fun heq => hname' (List.append_cancel_left heq), if_neg hname']
        split_ifs with hnil
        · rw [hnil, List.append_nil, hnested.directory]
        · exact hready.below names hnil

/-- Each copy fits where the ones before it stand. -/
def AllFit : List Names → List (Names × Names) → List (Names × Names) → Prop
  | _, _, [] => True
  | makes, copied, pair :: pairs =>
      Fits makes copied pair ∧ AllFit (pair.2 :: makes) (pair :: copied) pairs

instance decidableAllFit : (makes : List Names) → (copied pairs : List (Names × Names)) →
    Decidable (AllFit makes copied pairs)
  | _, _, [] => isTrue trivial
  | makes, copied, pair :: pairs =>
      have := decidableAllFit (pair.2 :: makes) (pair :: copied) pairs
      inferInstanceAs (Decidable (Fits makes copied pair ∧ _))

theorem Holds.copyEach {α : Type} {source destination : α → Names} {optional : α → Bool}
    {paths : List α} (h : Holds host makes copied files)
    (hfit : AllFit makes copied (paths.map fun path => (source path, destination path)))
    (hcopy : paths.foldlM (fun files path =>
      copyAll calls host (source path) (destination path) (optional path) files) files =
      .ok files') :
    Holds host ((paths.map destination).reverse ++ makes)
      ((paths.map fun path => (source path, destination path)).reverse ++ copied) files' := by
  induction paths generalizing files makes copied with
  | nil =>
      cases hcopy
      exact h
  | cons path paths ih =>
      rw [List.foldlM_cons] at hcopy
      obtain ⟨files₁, hfirst, hcopy⟩ := bind_eq_ok.mp hcopy
      rw [List.map_cons, AllFit] at hfit
      have hnext := ih (h.copy hfit.1 hfirst) hfit.2 hcopy
      rw [List.map_cons, List.map_cons, List.reverse_cons, List.reverse_cons, List.append_assoc,
        List.append_assoc]
      exact hnext

end LyraUpgrade.SimulatedRoot
