import LyraUpgrade.Interaction.Alone
import LyraUpgrade.Interaction.Schedule
import LyraUpgrade.Service.Planner

/-!
# Publishing the target repositories

`install_repository_set` of `offline/src/main.rs`, call by call: the target set is written
beside the live directory, the live directory is renamed to a backup, and the target set takes
its place; if that fails, the backup is renamed back.

Every call may fail, and a write may be cut anywhere; the power may go at any point.  Calls
take effect in order, a rename entirely or not at all.

`publication_exact` says when the machine is left with one of the two sets: always, except
where the live directory was renamed away and no rename has filled its place
(`Withdrawn`).  `publication_cut` shows that this happens.
-/

namespace LyraUpgrade

open Encoding Interaction

/-! ## The directory of the repositories -/

/-- What a name in `/etc/zypp` stands for. -/
inductive ZyppEntry
  /-- A directory with the contents of its files. -/
  | directory (files : String → Option (List Char))
  | other

/-- Calls that may change `/etc/zypp`; all names are names in it. -/
inductive RepositoryChange
  | createDirectory (name : String)
  | setPermissions (name : String)
  /-- `open` with `create_new`, of a file in a directory. -/
  | createNew (directory file : String)
  | writeAll (directory file : String) (content : List Char)
  | rename (source target : String)

inductive RepositoryCall
  /-- `Path::exists`: `false` also when it cannot be found out. -/
  | present (name : String)
  | change (c : RepositoryChange)

/-- Errors of the operating system are passed on as texts. -/
@[reducible] def RepositoryCall.Answer : RepositoryCall → Type
  | present _ => Bool
  | change _ => Except String Unit

abbrev RepositorySig : Signature where
  Op := RepositoryCall
  Res := RepositoryCall.Answer

abbrev ZyppEntries := String → Option ZyppEntry

/-- `/etc/zypp`, and the calls so far with their answers. -/
structure Zypp where
  entries : ZyppEntries
  calls : List (Event RepositorySig)

/-- One path component. -/
def IsName (name : String) : Prop := '/' ∉ name.toList

instance (name : String) : Decidable (IsName name) := inferInstanceAs (Decidable (¬ _))

namespace RepositoryChange

/-- A name with a slash leads elsewhere. -/
def Inside : RepositoryChange → Prop
  | createDirectory name | setPermissions name => IsName name
  | createNew directory file | writeAll directory file _ => IsName directory ∧ IsName file
  | rename source target => IsName source ∧ IsName target

/-- What a change leaves when it succeeds. -/
def Done (entries : ZyppEntries) : RepositoryChange → ZyppEntries → Prop
  | createDirectory name, entries' => entries name = none ∧
      entries' = Function.update entries name (some (.directory fun _ => none))
  | setPermissions _, entries' => entries' = entries
  | createNew directory file, entries' => ∃ files,
      entries directory = some (.directory files) ∧ files file = none ∧
      entries' = Function.update entries directory
        (some (.directory (Function.update files file (some []))))
  | writeAll directory file content, entries' => ∃ files before,
      entries directory = some (.directory files) ∧ files file = some before ∧
      entries' = Function.update entries directory
        (some (.directory (Function.update files file (some (before ++ content)))))
  | rename source target, entries' => ∃ entry, entries source = some entry ∧
      entries' = Function.update (Function.update entries source none) target (some entry)

/-- What it leaves when it fails: a write may have written any part. -/
def Failed (entries : ZyppEntries) : RepositoryChange → ZyppEntries → Prop
  | writeAll directory file _, entries' => entries' = entries ∨ ∃ files part,
      entries directory = some (.directory files) ∧ entries' = Function.update entries directory
        (some (.directory (Function.update files file (some part))))
  | _, entries' => entries' = entries

end RepositoryChange

/-- What a call does to the entries. -/
def RepositoryCall.Effect (entries : ZyppEntries) :
    (call : RepositoryCall) → call.Answer → ZyppEntries → Prop
  | present name, found, entries' => entries' = entries ∧ (found = true → entries name ≠ none)
  | change c, .ok (), entries' => c.Inside → c.Done entries entries'
  | change c, .error _, entries' => c.Inside → c.Failed entries entries'

/-- `/etc/zypp` while nothing but the publication changes it. -/
def zyppMachine : Machine RepositorySig Zypp where
  exec := fun _ call zypp answer zypp' =>
    call.Effect zypp.entries answer zypp'.entries ∧ zypp'.calls = zypp.calls ++ [⟨call, answer⟩]
  crash := fun zypp zypp' => zypp' = zypp

/-! ## The function -/

abbrev Publishing := ExceptT String (Prog RepositorySig)

def isPresent (name : String) : Publishing Bool :=
  ExceptT.lift (Prog.request (S := RepositorySig) (.present name))

def change (c : RepositoryChange) : Publishing Unit :=
  ExceptT.mk (Prog.request (S := RepositorySig) (.change c))

def liveName : String := "repos.d"

def stagingName (operationId : String) : String := "repos.d.lyra-new-" ++ operationId

def backupName (operationId : String) : String := "repos.d.lyra-backup-" ++ operationId

def repositoryFileName (repository : RepositoryTransition) : String := repository.alias ++ ".repo"

/-- The text of a repository file. -/
def repositoryFile (operationId : String) (repository : RepositoryTransition) : List Char :=
  ("[" ++ repository.alias ++ "]\nname=" ++ repository.alias ++
    "\nenabled=1\nautorefresh=1\nkeeppackages=0\nbaseurl=" ++ repository.baseUrl ++
    "\ngpgkey=file:///var/lib/lyra-upgrade/operations/" ++ operationId ++ "/keys/" ++
    repository.alias ++ ".asc\ntype=rpm-md\ngpgcheck=1\npriority=" ++
    toString repository.priority ++ "\n").toList

def writeRepository (operationId : String) (repository : RepositoryTransition) :
    Publishing Unit := do
  change (.createNew (stagingName operationId) (repositoryFileName repository))
  change (.writeAll (stagingName operationId) (repositoryFileName repository)
    (repositoryFile operationId repository))

/-- The staged set takes the place of the live one; where it cannot, the backup is put back. -/
def replaceLive (operationId : String) : Publishing Unit := do
  change (.rename liveName (backupName operationId))
  tryCatch (change (.rename (stagingName operationId) liveName)) fun error => do
    tryCatch (change (.rename (backupName operationId) liveName)) fun _ => pure ()
    throw error

/-- `install_repository_set`. -/
def installRepositorySet (manifest : ReleaseManifest) (operationId : String) : Publishing Unit := do
  if ← isPresent (stagingName operationId) then
    throw "repository staging or backup already exists"
  if ← isPresent (backupName operationId) then
    throw "repository staging or backup already exists"
  change (.createDirectory (stagingName operationId))
  change (.setPermissions (stagingName operationId))
  manifest.repositories.forM (writeRepository operationId)
  replaceLive operationId

/-! ## One of two sets -/

/-- The files of some repositories. -/
def repositorySet (operationId : String) (repositories : List RepositoryTransition)
    (name : String) : Option (List Char) :=
  (repositories.find? fun repository => repositoryFileName repository = name).map
    (repositoryFile operationId)

/-- The live directory is what it was before, or has exactly one file for each repository. -/
def AllOrNothing (manifest : ReleaseManifest) (operationId : String) (previous : ZyppEntry)
    (entries : ZyppEntries) : Prop :=
  entries liveName = some previous ∨
    (manifest.repositories.map repositoryFileName).Nodup ∧
      entries liveName = some (.directory (repositorySet operationId manifest.repositories))

/-- The live directory was renamed away, and nothing was renamed to its place. -/
def Withdrawn (operationId : String) (calls : List (Event RepositorySig)) : Prop :=
  (⟨.change (.rename liveName (backupName operationId)), .ok ()⟩ : Event RepositorySig) ∈ calls ∧
    ∀ source, (⟨.change (.rename source liveName), .ok ()⟩ : Event RepositorySig) ∉ calls

/-! ## Before the first rename -/

/-- One of two sets is live, or the live directory is withdrawn. -/
def LiveAccounted (manifest : ReleaseManifest) (operationId : String) (previous : ZyppEntry)
    (zypp : Zypp) : Prop :=
  AllOrNothing manifest operationId previous zypp.entries ↔ ¬ Withdrawn operationId zypp.calls

/-- The previous set is live, and nothing was renamed. -/
structure Unpublished (previous : ZyppEntry) (zypp : Zypp) : Prop where
  live : zypp.entries liveName = some previous
  calls : ∀ source target,
    (⟨.change (.rename source target), .ok ()⟩ : Event RepositorySig) ∉ zypp.calls

/-- The staged directory has exactly one file for each of these repositories. -/
structure StagedSet (operationId : String) (repositories : List RepositoryTransition)
    (zypp : Zypp) : Prop where
  staged : zypp.entries (stagingName operationId) =
    some (.directory (repositorySet operationId repositories))
  nodup : (repositories.map repositoryFileName).Nodup

/-- The changes before the first rename. -/
inductive Stages (operationId : String) : RepositoryChange → Prop
  | createDirectory : Stages operationId (.createDirectory (stagingName operationId))
  | setPermissions : Stages operationId (.setPermissions (stagingName operationId))
  | createNew (file : String) (h : IsName file) :
      Stages operationId (.createNew (stagingName operationId) file)
  | writeAll (file : String) (content : List Char) (h : IsName file) :
      Stages operationId (.writeAll (stagingName operationId) file content)

section

variable {manifest : ReleaseManifest} {operationId : String} {previous : ZyppEntry}
variable {zypp zypp' : Zypp} {c : RepositoryChange} {r : Except String Unit}
variable {repositories done : List RepositoryTransition} {repository : RepositoryTransition}

theorem append_ne_of_length {p q : String} (h : q.toList.length < p.toList.length)
    (suffix : String) : p ++ suffix ≠ q := by
  intro hsame
  have hlength := congrArg (fun name => name.toList.length) hsame
  rw [String.toList_append, List.length_append] at hlength
  omega

theorem stagingName_ne_live (operationId : String) : stagingName operationId ≠ liveName :=
  append_ne_of_length (p := "repos.d.lyra-new-") (q := liveName) (by decide +kernel) operationId

theorem backupName_ne_live (operationId : String) : backupName operationId ≠ liveName :=
  append_ne_of_length (p := "repos.d.lyra-backup-") (q := liveName) (by decide +kernel) operationId

theorem stagingName_ne_backup (operationId : String) :
    stagingName operationId ≠ backupName operationId := by
  intro hsame
  have hletters : "repos.d.lyra-new-".toList ++ operationId.toList =
      "repos.d.lyra-backup-".toList ++ operationId.toList := by
    rw [← String.toList_append, ← String.toList_append]
    exact congrArg String.toList hsame
  exact absurd (List.append_cancel_right hletters) (by decide +kernel)

theorem isName_append {p q : String} : IsName (p ++ q) ↔ IsName p ∧ IsName q := by
  rw [IsName, String.toList_append, List.mem_append, not_or]
  rfl

theorem isName_stagingName (h : IsName operationId) : IsName (stagingName operationId) :=
  isName_append.mpr ⟨by decide, h⟩

theorem isName_backupName (h : IsName operationId) : IsName (backupName operationId) :=
  isName_append.mpr ⟨by decide, h⟩

theorem isName_repositoryFileName (h : validAlias repository.alias) :
    IsName (repositoryFileName repository) := by
  refine isName_append.mpr ⟨fun hslash => ?_, by decide⟩
  simp only [validAlias, Bool.and_eq_true, List.all_eq_true] at h
  exact absurd (h.2 '/' hslash) (by decide)

theorem Unpublished.accounted (h : Unpublished previous zypp) :
    LiveAccounted manifest operationId previous zypp :=
  iff_of_true (.inl h.live) fun hwithdrawn => h.calls _ _ hwithdrawn.1

theorem Stages.inside (h : Stages operationId c) (hid : IsName operationId) : c.Inside := by
  have hstaging := isName_stagingName hid
  cases h with
  | createDirectory | setPermissions => exact hstaging
  | createNew file hfile => exact ⟨hstaging, hfile⟩
  | writeAll file content hfile => exact ⟨hstaging, hfile⟩

/-- Staging does not touch the live directory. -/
theorem Stages.live {entries entries' : ZyppEntries} (h : Stages operationId c)
    (hchange : c.Done entries entries' ∨ c.Failed entries entries') :
    entries' liveName = entries liveName := by
  have hne := (stagingName_ne_live operationId).symm
  cases h with
  | createDirectory =>
      rcases hchange with ⟨-, rfl⟩ | rfl
      · exact Function.update_of_ne hne ..
      · rfl
  | setPermissions => rcases hchange with rfl | rfl <;> rfl
  | createNew file =>
      rcases hchange with ⟨files, -, -, rfl⟩ | rfl
      · exact Function.update_of_ne hne ..
      · rfl
  | writeAll file content =>
      rcases hchange with ⟨files, before, -, -, rfl⟩ | rfl | ⟨files, part, -, rfl⟩
      · exact Function.update_of_ne hne ..
      · rfl
      · exact Function.update_of_ne hne ..

/-- **A change of the staged directory** publishes nothing. -/
theorem Unpublished.stage (h : Unpublished previous zypp) (hc : Stages operationId c)
    (hid : IsName operationId) (hexec : zyppMachine.exec 0 (.change c) zypp r zypp') :
    Unpublished previous zypp' := by
  obtain ⟨heffect, hcalls⟩ := hexec
  have hchange : c.Done zypp.entries zypp'.entries ∨ c.Failed zypp.entries zypp'.entries := by
    cases r with
    | ok => exact .inl (heffect (hc.inside hid))
    | error e => exact .inr (heffect (hc.inside hid))
  refine ⟨(hc.live hchange).trans h.live, fun source target hmem => ?_⟩
  rw [hcalls, List.mem_append, List.mem_singleton] at hmem
  rcases hmem with hmem | hsame
  · exact h.calls source target hmem
  · cases hc <;> cases hsame

theorem Unpublished.present (h : Unpublished previous zypp) {name : String} {found : Bool}
    (hexec : zyppMachine.exec 0 (.present name) zypp found zypp') :
    Unpublished previous zypp' := by
  obtain ⟨⟨hentries, -⟩, hcalls⟩ := hexec
  refine ⟨by rw [hentries, h.live], fun source target hmem => ?_⟩
  rw [hcalls, List.mem_append, List.mem_singleton] at hmem
  rcases hmem with hmem | hsame
  · exact h.calls source target hmem
  · cases hsame

/-! ## Staging -/

/-- One more file makes the set of one more repository. -/
theorem repositorySet_append (h : repositorySet operationId done (repositoryFileName repository) = none) :
    repositorySet operationId (done ++ [repository]) =
      Function.update (repositorySet operationId done) (repositoryFileName repository)
        (some (repositoryFile operationId repository)) := by
  funext name
  rw [repositorySet, List.find?_append]
  by_cases hname : name = repositoryFileName repository
  · subst hname
    rw [Function.update_self]
    rw [repositorySet, Option.map_eq_none_iff] at h
    rw [h]
    simp
  · rw [Function.update_of_ne hname, repositorySet]
    have hother : decide (repositoryFileName repository = name) = false :=
      decide_eq_false fun hsame => hname hsame.symm
    simp [hother]

theorem not_mem_of_repositorySet {name : String} (h : repositorySet operationId done name = none) :
    name ∉ done.map repositoryFileName := by
  rw [repositorySet, Option.map_eq_none_iff, List.find?_eq_none] at h
  rintro hmem
  obtain ⟨repository, hrepository, hsame⟩ := List.mem_map.mp hmem
  exact h repository hrepository (decide_eq_true hsame)

/-- The contract: at every point, one of two sets is live or the live one is withdrawn. -/
abbrev accounts (manifest : ReleaseManifest) (operationId : String) (previous : ZyppEntry) :
    Contract RepositorySig Zypp :=
  zyppMachine.guarded 0 fun _ => LiveAccounted manifest operationId previous

/-- Sequencing, with the early return of a failure. -/
theorem wp_publishing_bind {K : Contract RepositorySig Zypp} {α β : Type}
    {x : Publishing α} {f : α → Publishing β} {Q : Except String β → Zypp → Prop} :
    (x >>= f).run.wp K Q zypp ↔ x.run.wp K (fun result zypp' => match result with
      | .ok a => (f a).run.wp K Q zypp'
      | .error e => Q (.error e) zypp') zypp := by
  rw [ExceptT.run_bind, Prog.wp_bind]
  refine iff_of_eq (congrArg (fun Q' => Prog.wp K Q' _ zypp) ?_)
  funext result zypp'
  cases result <;> rfl

/-- A change of the staged directory, and what follows it. -/
theorem wp_stage {Q : Except String Unit → Zypp → Prop} {f : Unit → Publishing Unit}
    (hc : Stages operationId c) (hid : IsName operationId) (h : Unpublished previous zypp)
    (hdone : ∀ zypp', Unpublished previous zypp' → c.Done zypp.entries zypp'.entries →
      (f ()).run.wp (accounts manifest operationId previous) Q zypp')
    (hfailed : ∀ e zypp', Unpublished previous zypp' → Q (.error e) zypp') :
    (change c >>= f).run.wp (accounts manifest operationId previous) Q zypp := by
  refine wp_publishing_bind.mpr ⟨h.accounted, fun result zypp' hexec => ?_⟩
  have hunpublished := h.stage hc hid hexec
  cases result with
  | ok => exact hdone zypp' hunpublished (hexec.1 (hc.inside hid))
  | error e => exact hfailed e zypp' hunpublished

/-- **One repository** is one more file of the staged directory. -/
theorem writeRepository_wp (halias : validAlias repository.alias) (hid : IsName operationId)
    (h : Unpublished previous zypp) (hstaged : StagedSet operationId done zypp) :
    (writeRepository operationId repository).run.wp (accounts manifest operationId previous)
      (fun result zypp' => Unpublished previous zypp' ∧
        (result = .ok () → StagedSet operationId (done ++ [repository]) zypp')) zypp := by
  have hfile := isName_repositoryFileName halias
  refine wp_stage (.createNew _ hfile) hid h (fun zypp₁ h₁ hcreated => ?_)
    fun e zypp' h' => ⟨h', fun hok => nomatch hok⟩
  obtain ⟨files, hfiles, hnew, hentries₁⟩ := hcreated
  cases hstaged.staged.symm.trans hfiles
  refine ⟨h₁.accounted, fun result zypp' hexec => ?_⟩
  refine ⟨h₁.stage (.writeAll _ _ hfile) hid hexec, fun hok => ?_⟩
  subst hok
  obtain ⟨files, before, hfiles', hbefore, hentries⟩ :=
    hexec.1 ((Stages.writeAll _ _ hfile).inside hid)
  rw [hentries₁, Function.update_self] at hfiles'
  cases hfiles'
  rw [Function.update_self] at hbefore
  cases hbefore
  constructor
  · rw [hentries, Function.update_self, repositorySet_append hnew, Function.update_idem,
      List.nil_append]
  · rw [List.map_append, List.map_singleton]
    exact hstaged.nodup.append (List.nodup_singleton _)
      (List.disjoint_singleton.mpr (not_mem_of_repositorySet hnew))

/-- **The loop** writes a file for each repository. -/
theorem writeRepositories_wp (haliases : ∀ repository ∈ repositories, validAlias repository.alias)
    (hid : IsName operationId) (h : Unpublished previous zypp)
    (hstaged : StagedSet operationId done zypp) :
    (repositories.forM (writeRepository operationId)).run.wp
      (accounts manifest operationId previous)
      (fun result zypp' => Unpublished previous zypp' ∧
        (result = .ok () → StagedSet operationId (done ++ repositories) zypp')) zypp := by
  induction repositories generalizing done zypp with
  | nil =>
      refine ⟨h, fun _ => ?_⟩
      rw [List.append_nil]
      exact hstaged
  | cons repository repositories ih =>
      rw [List.forall_mem_cons] at haliases
      show (writeRepository operationId repository >>= fun _ =>
        repositories.forM (writeRepository operationId)).run.wp _ _ zypp
      refine wp_publishing_bind.mpr (Prog.wp_mono ?_ (writeRepository_wp haliases.1 hid h hstaged))
      rintro result zypp' ⟨h', hstaged'⟩
      cases result with
      | error e => exact ⟨h', fun hok => nomatch hok⟩
      | ok =>
          have hrest := ih haliases.2 h' (hstaged' rfl)
          rwa [List.append_assoc] at hrest

/-! ## Replacing the live directory -/

/-- Between the renames: the previous set is in the backup, and the staged set is complete. -/
structure Between (manifest : ReleaseManifest) (operationId : String) (previous : ZyppEntry)
    (zypp : Zypp) : Prop extends StagedSet operationId manifest.repositories zypp where
  live : zypp.entries liveName = none
  backup : zypp.entries (backupName operationId) = some previous
  withdrawn : Withdrawn operationId zypp.calls

theorem Between.accounted (h : Between manifest operationId previous zypp) :
    LiveAccounted manifest operationId previous zypp := by
  refine iff_of_false ?_ (not_not.mpr h.withdrawn)
  rintro (hprevious | ⟨-, htarget⟩)
  · cases h.live.symm.trans hprevious
  · cases h.live.symm.trans htarget

/-- A rename that fails leaves everything as it was. -/
theorem Between.failed (h : Between manifest operationId previous zypp) {source target e : String}
    (hinside : (RepositoryChange.rename source target).Inside)
    (hexec : zyppMachine.exec 0 (.change (.rename source target)) zypp (.error e) zypp') :
    Between manifest operationId previous zypp' := by
  obtain ⟨heffect, hcalls⟩ := hexec
  have hentries : zypp'.entries = zypp.entries := heffect hinside
  refine ⟨⟨by rw [hentries, h.staged], h.nodup⟩, by rw [hentries, h.live],
    by rw [hentries, h.backup], ?_⟩
  rw [hcalls]
  refine ⟨List.mem_append_left _ h.withdrawn.1, fun source' hmem => ?_⟩
  rcases List.mem_append.mp hmem with hmem | hmem
  · exact h.withdrawn.2 source' hmem
  · cases List.mem_singleton.mp hmem

/-- What is renamed to the place of the live directory is live. -/
theorem live_of_rename {source : String}
    (hinside : (RepositoryChange.rename source liveName).Inside)
    (hexec : zyppMachine.exec 0 (.change (.rename source liveName)) zypp (.ok ()) zypp') :
    zypp'.entries liveName = zypp.entries source ∧ ¬ Withdrawn operationId zypp'.calls := by
  obtain ⟨heffect, hcalls⟩ := hexec
  obtain ⟨entry, hentry, hentries⟩ := heffect hinside
  refine ⟨by rw [hentries, Function.update_self, hentry], fun hwithdrawn => ?_⟩
  refine hwithdrawn.2 source ?_
  rw [hcalls]
  exact List.mem_append_right _ List.mem_cons_self

/-- The first rename makes the backup. -/
theorem Unpublished.withdraw (h : Unpublished previous zypp)
    (hstaged : StagedSet operationId manifest.repositories zypp) (hid : IsName operationId)
    (hexec : zyppMachine.exec 0 (.change (.rename liveName (backupName operationId))) zypp
      (.ok ()) zypp') : Between manifest operationId previous zypp' := by
  obtain ⟨heffect, hcalls⟩ := hexec
  obtain ⟨entry, hentry, hentries⟩ :=
    heffect ⟨(by decide : IsName liveName), isName_backupName hid⟩
  cases h.live.symm.trans hentry
  have hlive := (backupName_ne_live operationId).symm
  constructor
  · refine ⟨?_, hstaged.nodup⟩
    rw [hentries, Function.update_of_ne (stagingName_ne_backup operationId),
      Function.update_of_ne (stagingName_ne_live operationId), hstaged.staged]
  · rw [hentries, Function.update_of_ne hlive, Function.update_self]
  · rw [hentries, Function.update_self]
  · rw [hcalls]
    refine ⟨List.mem_append_right _ List.mem_cons_self, fun source hmem => ?_⟩
    rcases List.mem_append.mp hmem with hmem | hmem
    · exact h.calls _ _ hmem
    · have hsame := List.mem_singleton.mp hmem
      rw [Event.mk.injEq] at hsame
      have hchange := hsame.1
      injection hchange with hrename
      injection hrename with hsource htarget
      exact absurd htarget hlive

theorem Unpublished.failed (h : Unpublished previous zypp) {source target e : String}
    (hinside : (RepositoryChange.rename source target).Inside)
    (hexec : zyppMachine.exec 0 (.change (.rename source target)) zypp (.error e) zypp') :
    Unpublished previous zypp' := by
  obtain ⟨heffect, hcalls⟩ := hexec
  have hentries : zypp'.entries = zypp.entries := heffect hinside
  refine ⟨by rw [hentries, h.live], fun source' target' hmem => ?_⟩
  rw [hcalls] at hmem
  rcases List.mem_append.mp hmem with hmem | hmem
  · exact h.calls source' target' hmem
  · cases List.mem_singleton.mp hmem

theorem wp_publishing_tryCatch {K : Contract RepositorySig Zypp} {α : Type} {x : Publishing α}
    {f : String → Publishing α} {Q : Except String α → Zypp → Prop} :
    (tryCatch x f).run.wp K Q zypp ↔ x.run.wp K (fun result zypp' => match result with
      | .ok a => Q (.ok a) zypp'
      | .error e => (f e).run.wp K Q zypp') zypp := by
  have hrun : (tryCatch x f).run = x.run >>= fun result => match result with
      | .ok a => pure (.ok a)
      | .error e => (f e).run := by
    show x.run >>= _ = _
    congr 1
    funext result
    cases result <;> rfl
  rw [hrun, Prog.wp_bind]
  refine iff_of_eq (congrArg (fun Q' => Prog.wp K Q' _ zypp) ?_)
  funext result zypp'
  cases result <;> rfl

/-- **The renames**: what they leave is accounted for at every point. -/
theorem replaceLive_wp (hid : IsName operationId) (h : Unpublished previous zypp)
    (hstaged : StagedSet operationId manifest.repositories zypp) :
    (replaceLive operationId).run.wp (accounts manifest operationId previous)
      (fun _ zypp' => LiveAccounted manifest operationId previous zypp') zypp := by
  have hname : IsName liveName := by decide
  have hstaging : (RepositoryChange.rename (stagingName operationId) liveName).Inside :=
    ⟨isName_stagingName hid, hname⟩
  have hbackup : (RepositoryChange.rename (backupName operationId) liveName).Inside :=
    ⟨isName_backupName hid, hname⟩
  refine wp_publishing_bind.mpr ⟨h.accounted, fun result zypp₁ hexec => ?_⟩
  cases result with
  | error e => exact (h.failed ⟨hname, isName_backupName hid⟩ hexec).accounted
  | ok =>
      have hbetween := h.withdraw hstaged hid hexec
      refine wp_publishing_tryCatch.mpr ⟨hbetween.accounted, fun result zypp₂ hexec₂ => ?_⟩
      cases result with
      | ok =>
          -- the target set is live
          obtain ⟨hlive, hplaced⟩ := live_of_rename hstaging hexec₂
          exact iff_of_true (.inr ⟨hbetween.nodup, hlive.trans hbetween.staged⟩) hplaced
      | error e =>
          have hbetween₂ := hbetween.failed hstaging hexec₂
          refine wp_publishing_bind.mpr (wp_publishing_tryCatch.mpr
            ⟨hbetween₂.accounted, fun result zypp₃ hexec₃ => ?_⟩)
          cases result with
          | ok =>
              -- the previous set is live again
              obtain ⟨hlive, hplaced⟩ := live_of_rename hbackup hexec₃
              exact iff_of_true (.inl (hlive.trans hbetween₂.backup)) hplaced
          | error e => exact (hbetween₂.failed hbackup hexec₃).accounted

/-- A look at a name publishes nothing. -/
theorem wp_isPresent {name : String} {f : Bool → Publishing Unit}
    {Q : Except String Unit → Zypp → Prop} (h : Unpublished previous zypp)
    (hnext : ∀ found zypp', Unpublished previous zypp' →
      (f found).run.wp (accounts manifest operationId previous) Q zypp') :
    (isPresent name >>= f).run.wp (accounts manifest operationId previous) Q zypp :=
  wp_publishing_bind.mpr ⟨h.accounted, fun found zypp' hexec => hnext found zypp' (h.present hexec)⟩

/-- **The whole publication** is accounted for at every point. -/
theorem installRepositorySet_wp (hid : IsName operationId)
    (haliases : ∀ repository ∈ manifest.repositories, validAlias repository.alias)
    (h : Unpublished previous zypp) :
    (installRepositorySet manifest operationId).run.wp (accounts manifest operationId previous)
      (fun _ zypp' => LiveAccounted manifest operationId previous zypp') zypp := by
  have hrefused : ∀ (_ : String) zypp', Unpublished previous zypp' →
      LiveAccounted manifest operationId previous zypp' := fun _ _ h' => h'.accounted
  refine wp_isPresent h fun staged zypp₁ h₁ => ?_
  cases staged with
  | true => exact h₁.accounted
  | false =>
  refine wp_isPresent h₁ fun backed zypp₂ h₂ => ?_
  cases backed with
  | true => exact h₂.accounted
  | false =>
  refine wp_stage .createDirectory hid h₂ (fun zypp₃ h₃ hcreated => ?_) hrefused
  refine wp_stage .setPermissions hid h₃ (fun zypp₄ h₄ hsame => ?_) hrefused
  have hempty : StagedSet operationId [] zypp₄ := by
    refine ⟨?_, List.nodup_nil⟩
    rw [hsame, hcreated.2, Function.update_self]
    rfl
  refine wp_publishing_bind.mpr (Prog.wp_mono ?_ (writeRepositories_wp haliases hid h₄ hempty))
  rintro result zypp₅ ⟨h₅, hstaged⟩
  cases result with
  | error e => exact h₅.accounted
  | ok => exact replaceLive_wp hid h₅ (hstaged rfl)

/-! ## All or nothing -/

/-- Every point of a publication by itself, from `zypp`: before, between and after its calls,
and after a loss of power. -/
abbrev PublicationReaches (manifest : ReleaseManifest) (operationId : String) (zypp : Zypp)
    (c : Config RepositorySig Empty Zypp (Except String Unit)) : Prop :=
  Reach zyppMachine Empty.elim (fun _ _ => True)
    (Config.solo zypp (installRepositorySet manifest operationId).run) c

/-- **All or nothing, and when.**  At every point of the publication, however its calls are
answered and wherever the power is lost, the live directory holds the previous set or exactly the
target set, if and only if it is not withdrawn: its rename to the backup has not succeeded yet,
or a rename to its place has. -/
theorem publication_exact (hid : IsName operationId)
    (haliases : ∀ repository ∈ manifest.repositories, validAlias repository.alias)
    (hlive : zypp.entries liveName = some previous) (hfirst : zypp.calls = [])
    {c : Config RepositorySig Empty Zypp (Except String Unit)}
    (h : PublicationReaches manifest operationId zypp c) :
    AllOrNothing manifest operationId previous c.world.entries ↔
      ¬ Withdrawn operationId c.world.calls := by
  have hbefore : Unpublished previous zypp := by
    refine ⟨hlive, fun source target hmem => ?_⟩
    rw [hfirst] at hmem
    cases hmem
  refine Reach.throughout (I := LiveAccounted manifest operationId previous)
    (installRepositorySet_wp hid haliases hbefore) ?_ ?_ h
  · rintro w _ hw rfl
    exact hw
  · exact fun _ _ q => q.elim

end

/-! ## A loss of power between the renames -/

/-- A change that fails only where it cannot be made. -/
def RepositoryChange.make (entries : ZyppEntries) :
    RepositoryChange → Except String Unit × ZyppEntries
  | createDirectory name =>
      match entries name with
      | none => (.ok (), Function.update entries name (some (.directory fun _ => none)))
      | some _ => (.error "File exists", entries)
  | setPermissions _ => (.ok (), entries)
  | createNew directory file =>
      match entries directory with
      | some (.directory files) =>
          match files file with
          | none => (.ok (), Function.update entries directory
              (some (.directory (Function.update files file (some [])))))
          | some _ => (.error "File exists", entries)
      | _ => (.error "Not a directory", entries)
  | writeAll directory file content =>
      match entries directory with
      | some (.directory files) =>
          match files file with
          | some before => (.ok (), Function.update entries directory
              (some (.directory (Function.update files file (some (before ++ content))))))
          | none => (.error "No such file", entries)
      | _ => (.error "Not a directory", entries)
  | rename source target =>
      match entries source with
      | some entry => (.ok (),
          Function.update (Function.update entries source none) target (some entry))
      | none => (.error "No such file", entries)

theorem RepositoryChange.make_effect (entries : ZyppEntries) (c : RepositoryChange) :
    (RepositoryCall.change c).Effect entries (c.make entries).1 (c.make entries).2 := by
  cases c with
  | setPermissions name => exact fun _ => rfl
  | createDirectory name =>
      rw [make]
      cases hentry : entries name with
      | none => exact fun _ => ⟨hentry, rfl⟩
      | some _ => exact fun _ => rfl
  | rename source target =>
      rw [make]
      cases hentry : entries source with
      | none => exact fun _ => rfl
      | some entry => exact fun _ => ⟨entry, hentry, rfl⟩
  | createNew directory file =>
      rw [make]
      rcases hentry : entries directory with _ | ⟨files⟩ | _
      · exact fun _ => rfl
      · dsimp only
        cases hfile : files file with
        | none => exact fun _ => ⟨files, hentry, hfile, rfl⟩
        | some _ => exact fun _ => rfl
      · exact fun _ => rfl
  | writeAll directory file content =>
      rw [make]
      rcases hentry : entries directory with _ | ⟨files⟩ | _
      · exact fun _ => .inl rfl
      · dsimp only
        cases hfile : files file with
        | none => exact fun _ => .inl rfl
        | some before => exact fun _ => ⟨files, before, hentry, hfile, rfl⟩
      · exact fun _ => .inl rfl

/-- A machine on which nothing fails. -/
def zyppStrategy : Strategy zyppMachine where
  answer := fun _ call zypp =>
    match call with
    | .present name => (false, ⟨zypp.entries, zypp.calls ++ [⟨.present name, false⟩]⟩)
    | .change c => ((c.make zypp.entries).1,
        ⟨(c.make zypp.entries).2, zypp.calls ++ [⟨.change c, (c.make zypp.entries).1⟩]⟩)
  sound := by
    intro _ call zypp
    cases call with
    | present name => exact ⟨⟨rfl, fun hfound => nomatch hfound⟩, rfl⟩
    | change c => exact ⟨c.make_effect zypp.entries, rfl⟩
  crash := id
  crash_sound := fun _ => rfl

namespace Sample

def previousSet : ZyppEntry :=
  .directory fun name => if name = "old.repo" then some "[old]".toList else none

/-- `/etc/zypp` with the set of the release before. -/
def zypp : Zypp := ⟨fun name => if name = liveName then some previousSet else none, []⟩

/-- The calls up to the first rename, and then the power is lost. -/
def cutSchedule : List (Choice Empty) := List.replicate 7 (.act 0) ++ [.crash]

def cut : Config RepositorySig Empty Zypp (Except String Unit) :=
  zyppStrategy.plays Empty.elim (Config.solo zypp (installRepositorySet manifest "release").run)
    cutSchedule

theorem cut_reached : PublicationReaches manifest "release" zypp cut :=
  zyppStrategy.reach_if Empty.elim (I := fun _ => True) trivial
    fun _ _ _ _ => ⟨trivial, fun _ _ => trivial⟩

end Sample

open Sample in
/-- The power is lost after the first rename: there is no live directory. -/
theorem publication_cut : PublicationReaches manifest "release" zypp cut ∧
    ¬ AllOrNothing manifest "release" previousSet cut.world.entries := by
  refine ⟨cut_reached, ?_⟩
  have hnone : cut.world.entries liveName = none :=
    Option.isNone_iff_eq_none.mp (by decide +kernel)
  rintro (hprevious | ⟨-, htarget⟩)
  · cases hnone.symm.trans hprevious
  · cases hnone.symm.trans htarget

open Sample in
theorem publication_exact_cut :
    AllOrNothing manifest "release" previousSet cut.world.entries ↔
      ¬ Withdrawn "release" cut.world.calls :=
  publication_exact (by decide) (by decide) rfl rfl cut_reached

end LyraUpgrade
