import LyraUpgrade.Core.TextLines
import LyraUpgrade.Offline.Publication
import LyraUpgrade.Service.Admission

/-!
# Repository files

The text of a `.repo` file is put together in three places: for the simulation that plans a
release (`plan_release_upgrade`), for the set that is staged (`stage_release_upgrade`), and for
the set that is published (`install_repository_set`).  The values of the signed manifest are
inserted as they are, so it is the checks of `validate_manifest_route` that keep them from
adding lines of their own.

## Main definitions

* `plannedRepositoryFile`, `stagedRepositoryFile` — the two texts of the service; the third
  is `repositoryFile`.
* `readSections` — the text as sections of keys and values.

## Main results

* `readSections_repositoryText` — each text is one section with the intended keys.
* `repositoryFiles_exact` — for every repository of an accepted manifest.
-/

namespace LyraUpgrade

/-! ## The texts -/

/-- `keys_dir.join(format!("{}.asc", alias))`. -/
def keyPath (directory : String) (repository : RepositoryTransition) : String :=
  directory ++ "/keys/" ++ repository.alias ++ ".asc"

/-- The text that `plan_release_upgrade` writes, below the root of the simulation. -/
def plannedRepositoryFile (root : String) (repository : RepositoryTransition) : List Char :=
  ("[" ++ repository.alias ++ "]\nname=" ++ repository.alias ++
    "\nenabled=1\nautorefresh=0\nkeeppackages=0\nbaseurl=" ++ repository.baseUrl ++
    "\ngpgkey=file://" ++ keyPath root repository ++
    "\ntype=rpm-md\ngpgcheck=1\npriority=" ++ toString repository.priority ++ "\n").toList

/-- The text that `stage_release_upgrade` writes, below the directory of the operation. -/
def stagedRepositoryFile (stateRoot operationId : String) (repository : RepositoryTransition) :
    List Char :=
  ("[" ++ repository.alias ++ "]\nname=" ++ repository.alias ++
    "\nenabled=1\nautorefresh=0\nkeeppackages=0\nbaseurl=" ++ repository.baseUrl ++
    "\ngpgkey=file://" ++ keyPath (stateRoot ++ "/" ++ operationId) repository ++
    "\ntype=rpm-md\ngpgcheck=1\npriority=" ++ toString repository.priority ++ "\n").toList

/-! ## Reading a text -/

/-- A section, with its keys and values in order. -/
structure RepositorySection where
  name : List Char
  entries : List (List Char × List Char)
  deriving DecidableEq, Repr

/-- The name in a header. -/
def sectionName (line : List Char) : Option (List Char) :=
  (stripPrefix ['['] line).bind (stripSuffix [']'])

/-- One line: a header begins a section, any other line is split at the first `=`. -/
def readLine (sections : List RepositorySection) (line : List Char) :
    Option (List RepositorySection) :=
  match sectionName line with
  | some name => some (sections ++ [⟨name, []⟩])
  | none =>
      match splitOnce '=' line, sections.getLast? with
      | some entry, some last =>
          some (sections.dropLast ++ [{ last with entries := last.entries ++ [entry] }])
      | _, _ => none

/-- The sections of a text; `none` where a line is neither. -/
def readSections (text : List Char) : Option (List RepositorySection) :=
  (lines text).foldlM readLine []

/-! ## One template -/

/-- The keys and values of a repository. -/
def repositoryEntries (autorefresh key : String) (repository : RepositoryTransition) :
    List (List Char × List Char) :=
  [("name".toList, repository.alias.toList), ("enabled".toList, ['1']),
   ("autorefresh".toList, autorefresh.toList), ("keeppackages".toList, ['0']),
   ("baseurl".toList, repository.baseUrl.toList),
   ("gpgkey".toList, "file://".toList ++ key.toList), ("type".toList, "rpm-md".toList),
   ("gpgcheck".toList, ['1']), ("priority".toList, decimal repository.priority)]

/-- The section of a repository. -/
def repositorySection (autorefresh key : String) (repository : RepositoryTransition) :
    RepositorySection :=
  ⟨repository.alias.toList, repositoryEntries autorefresh key repository⟩

/-- A section as lines. -/
def RepositorySection.lines (self : RepositorySection) : List (List Char) :=
  ('[' :: (self.name ++ [']'])) :: self.entries.map fun entry => entry.1 ++ '=' :: entry.2

section

variable {repository : RepositoryTransition}

/-- **The three texts do not drift**: each of them is the same section. -/
theorem plannedRepositoryFile_eq (root : String) : plannedRepositoryFile root repository =
    unlines (repositorySection "0" (keyPath root repository) repository).lines := by
  simp [plannedRepositoryFile, unlines, RepositorySection.lines, repositorySection,
    repositoryEntries, decimal]

theorem stagedRepositoryFile_eq (stateRoot operationId : String) :
    stagedRepositoryFile stateRoot operationId repository =
      unlines (repositorySection "0" (keyPath (stateRoot ++ "/" ++ operationId) repository)
        repository).lines := by
  simp [stagedRepositoryFile, unlines, RepositorySection.lines, repositorySection,
    repositoryEntries, decimal]

theorem repositoryFile_eq (operationId : String) : repositoryFile operationId repository =
    unlines (repositorySection "1"
      (keyPath ("/var/lib/lyra-upgrade/operations/" ++ operationId) repository) repository).lines := by
  simp [repositoryFile, unlines, RepositorySection.lines, repositorySection, repositoryEntries,
    decimal, keyPath]

end

/-! ## Reading a section back -/

/-- A text without line ends. -/
def OneLine (cs : List Char) : Prop := '\n' ∉ cs ∧ '\r' ∉ cs

instance (cs : List Char) : Decidable (OneLine cs) := inferInstanceAs (Decidable (_ ∧ _))

theorem OneLine.append {cs ds : List Char} (hc : OneLine cs) (hd : OneLine ds) :
    OneLine (cs ++ ds) :=
  ⟨by simp [hc.1, hd.1], by simp [hc.2, hd.2]⟩

theorem OneLine.cons {c : Char} {cs : List Char} (hc : OneLine [c]) (hcs : OneLine cs) :
    OneLine (c :: cs) := hc.append hcs

/-- A section that the line format can express. -/
structure RepositorySection.Plain (s : RepositorySection) : Prop where
  name : OneLine s.name
  keys : ∀ entry ∈ s.entries, entry.1 ≠ [] ∧ entry.1.head? ≠ some '[' ∧ '=' ∉ entry.1 ∧
    OneLine entry.1
  values : ∀ entry ∈ s.entries, OneLine entry.2

section

variable {s : RepositorySection} {entry : List Char × List Char}

theorem oneLine_lines (h : s.Plain) : ∀ line ∈ s.lines, OneLine line := by
  intro line hline
  rcases List.mem_cons.mp hline with rfl | hline
  · exact .cons (by decide) (h.name.append (by decide))
  · obtain ⟨entry, hentry, rfl⟩ := List.mem_map.mp hline
    exact (h.keys entry hentry).2.2.2.append (.cons (by decide) (h.values entry hentry))

theorem lines_unlines_section (h : s.Plain) : lines (unlines s.lines) = s.lines := by
  rw [lines_unlines fun line hline => (oneLine_lines h line hline).1]
  refine (List.map_congr_left fun line hline => ?_).trans (List.map_id _)
  refine chomp_of_getLast? fun hlast => ?_
  exact (oneLine_lines h line hline).2 (List.mem_of_getLast? hlast)

theorem readLine_header (name : List Char) :
    readLine [] ('[' :: (name ++ [']'])) = some [⟨name, []⟩] := by
  have hname : sectionName ('[' :: (name ++ [']'])) = some name := by
    rw [sectionName, stripPrefix_eq_some.mpr
      (show '[' :: (name ++ [']']) = ['['] ++ (name ++ [']']) from rfl),
      Option.bind_some]
    exact stripSuffix_eq_some.mpr rfl
  rw [readLine, hname]
  rfl

/-- A line of a section is no header, and is split behind its key. -/
theorem readLine_entry {read : List (List Char × List Char)} (hne : entry.1 ≠ [])
    (hheader : entry.1.head? ≠ some '[') (hequals : '=' ∉ entry.1) (name : List Char) :
    readLine [⟨name, read⟩] (entry.1 ++ '=' :: entry.2) = some [⟨name, read ++ [entry]⟩] := by
  have hnone : sectionName (entry.1 ++ '=' :: entry.2) = none := by
    rw [sectionName, Option.bind_eq_none_iff]
    intro rest hrest
    obtain ⟨c, key, hkey⟩ := List.exists_cons_of_ne_nil hne
    have hline := stripPrefix_eq_some.mp hrest
    rw [hkey, List.cons_append, List.singleton_append, List.cons.injEq] at hline
    exact absurd (by rw [hkey, hline.1]; rfl) hheader
  rw [readLine, hnone, splitOnce_append hequals]
  rfl

/-- **A section is read back.** -/
theorem readSections_lines (h : s.Plain) : readSections (unlines s.lines) = some [s] := by
  have hfrom : ∀ entries read : List (List Char × List Char), (∀ entry ∈ entries, entry ∈ s.entries) →
      (entries.map fun entry => entry.1 ++ '=' :: entry.2).foldlM readLine
        [⟨s.name, read⟩] = some [⟨s.name, read ++ entries⟩] := by
    intro entries
    induction entries with
    | nil =>
        intro read _
        rw [List.append_nil]
        rfl
    | cons entry entries ih =>
        intro read hsub
        rw [List.forall_mem_cons] at hsub
        obtain ⟨hne, hheader, hequals, -⟩ := h.keys entry hsub.1
        rw [List.map_cons, List.foldlM_cons, readLine_entry hne hheader hequals, Option.bind_eq_bind,
          Option.bind_some, ih _ hsub.2, List.append_assoc, List.singleton_append]
  rw [readSections, lines_unlines_section h, RepositorySection.lines, List.foldlM_cons,
    readLine_header, Option.bind_eq_bind, Option.bind_some,
    hfrom s.entries [] fun entry hentry => hentry, List.nil_append]

end

/-! ## What the checks promise -/

/-- The checked values of a repository. -/
structure CheckedRepository (repository : RepositoryTransition) : Prop where
  name : validAlias repository.alias
  baseUrl : repository.baseUrl.toList.any isWhitespace = false
  priority : 1 ≤ repository.priority ∧ repository.priority ≤ 200

section

variable {acceptsUrl : String → Bool} {repositories : List RepositoryTransition}
variable {seen : List String} {repository : RepositoryTransition}

/-- **Checked repositories** have checked values, and no two of them one alias. -/
theorem checked_of_checkRepositories (h : checkRepositories acceptsUrl seen repositories = .ok ()) :
    (∀ repository ∈ repositories, CheckedRepository repository ∧ repository.alias ∉ seen) ∧
      (repositories.map (·.alias)).Nodup := by
  induction repositories generalizing seen with
  | nil => exact ⟨by simp, List.nodup_nil⟩
  | cons repository repositories ih =>
      rw [checkRepositories] at h
      split_ifs at h with hvalues hseen hfingerprint
      obtain ⟨hrest, hnodup⟩ := ih h
      simp only [Bool.or_eq_true, Bool.not_eq_true', not_or, Bool.not_eq_false,
        Bool.and_eq_true, decide_eq_true_eq] at hvalues
      obtain ⟨⟨⟨halias, hurl⟩, -⟩, hpriority⟩ := hvalues
      have hspaces : repository.baseUrl.toList.any isWhitespace = false := by
        simpa using (Bool.and_eq_true_iff.mp hurl).1
      refine ⟨?_, ?_⟩
      · rw [List.forall_mem_cons]
        refine ⟨⟨⟨halias, hspaces, hpriority⟩, by simpa using hseen⟩, fun other hother => ?_⟩
        exact ⟨(hrest other hother).1,
          fun hmem => (hrest other hother).2 (List.mem_cons_of_mem _ hmem)⟩
      · rw [List.map_cons, List.nodup_cons]
        refine ⟨fun hmem => ?_, hnodup⟩
        obtain ⟨other, hother, hsame⟩ := List.mem_map.mp hmem
        exact (hrest other hother).2 (hsame ▸ List.mem_cons_self ..)

theorem oneLine_of_forall {cs : List Char} {p : Char → Prop} (h : ∀ c ∈ cs, p c)
    (hfeed : ¬ p '\n') (hreturn : ¬ p '\r') : OneLine cs :=
  ⟨fun hmem => hfeed (h _ hmem), fun hmem => hreturn (h _ hmem)⟩

theorem CheckedRepository.mem_alias (h : CheckedRepository repository) :
    repository.alias.toList ≠ [] ∧ ∀ c ∈ repository.alias.toList,
      c.isAlphanum || c = '.' || c = '-' || c = '_' || c = ':' := by
  have hname := h.name
  rw [validAlias, Bool.and_eq_true, List.all_eq_true] at hname
  refine ⟨fun hnil => ?_, hname.2⟩
  rw [String.toList_eq_nil_iff.mp hnil] at hname
  exact absurd hname.1 (by decide)

theorem CheckedRepository.oneLine_alias (h : CheckedRepository repository) :
    OneLine repository.alias.toList :=
  oneLine_of_forall h.mem_alias.2 (by decide) (by decide)

theorem CheckedRepository.oneLine_baseUrl (h : CheckedRepository repository) :
    OneLine repository.baseUrl.toList := by
  refine oneLine_of_forall (p := fun c => isWhitespace c = false) (fun c hc => ?_) (by decide)
    (by decide)
  rw [← Bool.not_eq_true]
  exact List.any_eq_false.mp h.baseUrl c hc

theorem oneLine_decimal (n : ℕ) : OneLine (decimal n) :=
  oneLine_of_forall (fun _ hc => isDigit_of_mem_decimal hc) (by decide) (by decide)

theorem oneLine_keyPath {directory : String} (h : CheckedRepository repository)
    (hdirectory : OneLine directory.toList) : OneLine (keyPath directory repository).toList := by
  rw [keyPath, String.toList_append, String.toList_append, String.toList_append]
  exact ((hdirectory.append (by decide)).append h.oneLine_alias).append (by decide)

/-- The section of a checked repository can be expressed. -/
theorem plain_repositorySection {autorefresh key : String} (h : CheckedRepository repository)
    (hautorefresh : OneLine autorefresh.toList) (hkey : OneLine key.toList) :
    (repositorySection autorefresh key repository).Plain := by
  refine ⟨h.oneLine_alias, fun entry hentry => ?_, fun entry hentry => ?_⟩
  · have hkeys : ∀ name ∈ ["name".toList, "enabled".toList, "autorefresh".toList,
        "keeppackages".toList, "baseurl".toList, "gpgkey".toList, "type".toList,
        "gpgcheck".toList, "priority".toList],
        name ≠ [] ∧ name.head? ≠ some '[' ∧ '=' ∉ name ∧ OneLine name := by
      decide +kernel
    exact hkeys entry.1 (List.mem_map_of_mem (f := Prod.fst) hentry)
  · have hvalues : ∀ value ∈ (repositoryEntries autorefresh key repository).map Prod.snd,
        OneLine value := by
      have hscheme : OneLine "file://".toList := by decide
      have htype : OneLine "rpm-md".toList := by decide
      simp only [repositoryEntries, List.map_cons, List.map_nil, List.forall_mem_cons]
      exact ⟨h.oneLine_alias, by decide, hautorefresh, by decide, h.oneLine_baseUrl,
        hscheme.append hkey, htype, by decide, oneLine_decimal _, by simp⟩
    exact hvalues entry.2 (List.mem_map_of_mem hentry)

/-- The file of a repository is one file in its directory. -/
structure PlainFileName (name : String) : Prop where
  slash : '/' ∉ name.toList
  nonempty : name ≠ ""
  current : name ≠ "."
  parent : name ≠ ".."

theorem plain_repositoryFileName (h : CheckedRepository repository) :
    PlainFileName (repositoryFileName repository) := by
  have hlength : 5 ≤ (repositoryFileName repository).toList.length := by
    simp [repositoryFileName]
  refine ⟨?_, ?_, ?_, ?_⟩
  · rw [repositoryFileName, String.toList_append, List.mem_append, not_or]
    exact ⟨fun hmem => absurd (h.mem_alias.2 '/' hmem) (by decide), by decide⟩
  · intro heq
    rw [heq] at hlength
    exact absurd hlength (by decide)
  · intro heq
    rw [heq] at hlength
    exact absurd hlength (by decide)
  · intro heq
    rw [heq] at hlength
    exact absurd hlength (by decide)

theorem repositoryFileName_injective {a b : RepositoryTransition}
    (h : repositoryFileName a = repositoryFileName b) : a.alias = b.alias := by
  have htext := congrArg String.toList h
  rw [repositoryFileName, repositoryFileName, String.toList_append, String.toList_append,
    List.append_cancel_right_eq] at htext
  exact String.toList_injective htext

theorem oneLine_uuid {id : String} (h : validUuid id) : OneLine id.toList := by
  rw [validUuid, Bool.and_eq_true, List.all_eq_true] at h
  refine oneLine_of_forall (p := fun c => c = '-' ∨ isHexLower c) (fun c hc => ?_) (by decide)
    (by decide)
  obtain ⟨i, hi⟩ := List.mem_iff_getElem?.mp hc
  have hchar := h.2 (c, i) (List.mem_zipIdx_iff_getElem?.mpr hi)
  dsimp only at hchar
  split_ifs at hchar with hdash
  · exact .inl (of_decide_eq_true hchar)
  · exact .inr hchar

end

/-! ## The files of an accepted manifest -/

/-- **Generated repository files say exactly what the signed manifest says**: read line by
line, each of the three texts is one section, named by the alias, with the intended keys and
values and nothing else; they differ in `autorefresh` and in the path of the key; and every
repository has a file of its own in the directory. -/
theorem repositoryFiles_exact {acceptsUrl : String → Bool} {manifest : ReleaseManifest}
    {installed : ReleaseIdentity} {lastSequence : Option ℕ} {updaterVersion : String}
    {channel : ManifestChannelPolicy} {root stateRoot operationId : String}
    (hroute : validateManifestRoute acceptsUrl manifest installed lastSequence updaterVersion
      channel = .ok ())
    (hroot : OneLine root.toList) (hstateRoot : OneLine stateRoot.toList)
    (hid : validUuid operationId) :
    (∀ repository ∈ manifest.repositories,
      readSections (plannedRepositoryFile root repository) =
        some [repositorySection "0" (keyPath root repository) repository] ∧
      readSections (stagedRepositoryFile stateRoot operationId repository) =
        some [repositorySection "0" (keyPath (stateRoot ++ "/" ++ operationId) repository)
          repository] ∧
      readSections (repositoryFile operationId repository) =
        some [repositorySection "1"
          (keyPath ("/var/lib/lyra-upgrade/operations/" ++ operationId) repository) repository] ∧
      parseU64 (decimal repository.priority) = some repository.priority ∧
      PlainFileName (repositoryFileName repository)) ∧
    (manifest.repositories.map repositoryFileName).Nodup := by
  obtain ⟨hchecked, hnodup⟩ :=
    checked_of_checkRepositories (validateManifestRoute_eq_ok.mp hroute).2.2.2.2.1
  constructor
  · intro repository hmem
    have h := (hchecked repository hmem).1
    have hoperation := oneLine_uuid hid
    refine ⟨?_, ?_, ?_, ?_, plain_repositoryFileName h⟩
    · rw [plannedRepositoryFile_eq]
      exact readSections_lines (plain_repositorySection h (by decide) (oneLine_keyPath h hroot))
    · have hdirectory : OneLine (stateRoot ++ "/" ++ operationId).toList := by
        rw [String.toList_append, String.toList_append]
        exact (hstateRoot.append (by decide)).append hoperation
      rw [stagedRepositoryFile_eq]
      exact readSections_lines (plain_repositorySection h (by decide) (oneLine_keyPath h hdirectory))
    · have hdirectory : OneLine ("/var/lib/lyra-upgrade/operations/" ++ operationId).toList := by
        rw [String.toList_append]
        exact OneLine.append (by decide) hoperation
      rw [repositoryFile_eq]
      exact readSections_lines (plain_repositorySection h (by decide) (oneLine_keyPath h hdirectory))
    · exact parseU64_decimal (Nat.le_trans h.priority.2 (by decide))
  · rw [List.nodup_iff_pairwise_ne, List.pairwise_map] at hnodup ⊢
    exact hnodup.imp fun hne heq => hne (repositoryFileName_injective heq)

theorem repositoryFiles_exact_sample :
    readSections (stagedRepositoryFile "/var/lib/lyra-upgrade/operations"
      "7a1c2f34-5b6d-4e8f-9a0b-1c2d3e4f5a6c" Sample.repository) =
    some [repositorySection "0" (keyPath ("/var/lib/lyra-upgrade/operations/" ++
      "7a1c2f34-5b6d-4e8f-9a0b-1c2d3e4f5a6c") Sample.repository) Sample.repository] :=
  ((@repositoryFiles_exact (fun _ => true) Sample.maintenance Sample.firstRelease none "0.2.7"
    .stable "/tmp/lyra-sim-1/root" "/var/lib/lyra-upgrade/operations"
    "7a1c2f34-5b6d-4e8f-9a0b-1c2d3e4f5a6c" (by decide +kernel) (by decide) (by decide)
    (by decide)).1 Sample.repository (by decide)).2.1

end LyraUpgrade
