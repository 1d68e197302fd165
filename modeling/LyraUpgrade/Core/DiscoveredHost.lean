import LyraUpgrade.Core.Discovery

/-!
# A host that may be upgraded

The facts of a host come from its probes, and the preflight decides on the facts.  Here both are
put together: what has the host to say, so that its facts pass?  A probe that gives no answer, or
one that is not understood, never lets a host pass.

## Main definitions

* `Ready`: what the probes say of a host that may be upgraded.
* `LockFree`, `SecureBootKnown`, `RepositoriesReady`, `StorageReady`: its parts.

## Main results

* `ready_iff`: the facts of a host raise nothing where it is ready.
* `preflight_exact`: the whole preflight, with the transaction.
-/

namespace LyraUpgrade.Discovery

section

open Encoding

variable {readMounts : List Char → Option (List Mount)} {backend : Backend}

/-! ## The other probes -/

/-- A command of the list succeeded, and said this. -/
def Says (backend : Backend) (program : String) (arguments : List String)
    (p : List Char → Prop) : Prop :=
  ∃ stdout, backend.run program arguments = .ok ⟨true, stdout⟩ ∧ p stdout

theorem successfulStdout_eq_ok {output : CommandOutput} {command : String} {stdout : List Char} :
    successfulStdout output command = .ok stdout ↔ output = ⟨true, stdout⟩ := by
  obtain ⟨success, text⟩ := output
  cases success <;> simp [successfulStdout]

theorem says_iff (command : String) {program : String} {arguments : List String}
    {p : List Char → Prop} :
    (∃ output, backend.run program arguments = .ok output ∧
      ∃ stdout, successfulStdout output command = .ok stdout ∧ p stdout) ↔
      Says backend program arguments p := by
  simp only [successfulStdout_eq_ok, Says]
  constructor
  · rintro ⟨_, hrun, stdout, rfl, hp⟩
    exact ⟨stdout, hrun, hp⟩
  · rintro ⟨stdout, hrun, hp⟩
    exact ⟨_, hrun, stdout, rfl, hp⟩

/-- A command that has only to succeed. -/
theorem succeeds_iff {program : String} {arguments : List String} :
    (∃ output, backend.run program arguments = .ok output ∧ output.success = true) ↔
      Says backend program arguments fun _ => True := by
  constructor
  · rintro ⟨⟨success, stdout⟩, hrun, rfl⟩
    exact ⟨stdout, hrun, trivial⟩
  · rintro ⟨stdout, hrun, -⟩
    exact ⟨_, hrun, rfl⟩

/-- No process holds the package manager. -/
def LockFree (backend : Backend) : Prop :=
  ∀ marker, backend.read "/run/zypp.pid" = .ok marker → trim marker ≠ [] →
    ∃ pid error, parseU64 (trim marker) = some pid ∧ 0 < pid ∧ pid < 0x100000000 ∧
      backend.read ("/proc/" ++ toString pid ++ "/comm") = .error error

theorem lockFree_iff : discoverPackageLock backend = .ok true ↔ LockFree backend := by
  unfold discoverPackageLock LockFree
  cases hmarker : backend.read "/run/zypp.pid" with
  | error error => exact iff_of_true rfl fun _ h => (by cases h)
  | ok marker =>
      simp only [Except.ok.injEq, forall_eq']
      by_cases hempty : trim marker = []
      · rw [if_pos (by rw [hempty]; rfl)]
        exact iff_of_true rfl fun hne => absurd hempty hne
      · rw [if_neg (by rwa [List.isEmpty_iff])]
        cases hpid : (parseU64 (trim marker)).filter fun pid => 0 < pid && pid < 0x100000000 with
        | none =>
            refine iff_of_false (by rintro ⟨⟩) fun h => ?_
            obtain ⟨pid, error, hparse, hpositive, hbound, -⟩ := h hempty
            have hrange : (decide (0 < pid) && decide (pid < 0x100000000)) = true := by
              rw [Bool.and_eq_true, decide_eq_true_eq, decide_eq_true_eq]
              exact ⟨hpositive, hbound⟩
            rw [hparse, Option.filter_some, if_pos hrange] at hpid
            cases hpid
        | some pid =>
            obtain ⟨hparse, hrange⟩ := Option.filter_eq_some_iff.mp hpid
            simp only [Bool.and_eq_true, decide_eq_true_eq] at hrange
            simp only [hparse, Option.some.injEq, forall_const, hempty, ne_eq, not_false_eq_true]
            cases hcomm : backend.read ("/proc/" ++ toString pid ++ "/comm") with
            | error error => exact iff_of_true rfl ⟨pid, error, rfl, hrange.1, hrange.2, hcomm⟩
            | ok comm =>
                refine iff_of_false (by rintro ⟨⟩) ?_
                rintro ⟨_, error, rfl, -, -, herror⟩
                rw [hcomm] at herror
                cases herror

/-- The answer about secure boot is clear. -/
def SecureBootKnown (backend : Backend) : Prop :=
  Says backend "mokutil" ["--sb-state"] fun stdout =>
    "secureboot enabled".toList <:+: lowercase stdout ∨
      "secureboot disabled".toList <:+: lowercase stdout

theorem secureBootKnown_iff : (discoverSecureBoot backend).isSome ↔ SecureBootKnown backend := by
  unfold discoverSecureBoot SecureBootKnown Says
  cases hrun : backend.run "mokutil" ["--sb-state"] with
  | error error => simp
  | ok output =>
      obtain ⟨success, stdout⟩ := output
      cases success with
      | false => simp
      | true =>
          simp only [Except.ok.injEq, CommandOutput.mk.injEq, true_and, exists_eq_left']
          split_ifs with hfailed henabled hdisabled
          · cases hfailed
          · exact iff_of_true rfl (.inl henabled)
          · exact iff_of_true rfl (.inr hdisabled)
          · exact iff_of_false Bool.false_ne_true (not_or.mpr ⟨henabled, hdisabled⟩)

/-- A row of the table, as an upgrade needs it. -/
structure RowReady (solver : SolverResult) (fields : List (List Char)) : Prop where
  named : isAlias (fields.getD 1 []) = true
  checked : (repositoryFact fields).enabled = true →
    (repositoryFact fields).signingKeyTrusted = true ∧
      (repositoryFact fields).alias ∈ solver.metadataValidRepositories

/-- The table of the repositories, as an upgrade needs it. -/
def RepositoriesReady (backend : Backend) (solver : SolverResult) : Prop :=
  Says backend "zypper" repositoriesProbe fun stdout =>
    ∀ line ∈ lines stdout, isRepositoryRow (repositoryFields line) = true →
      RowReady solver (repositoryFields line)

theorem repositoryLine_eq_ok {line : List Char} {facts : List RepositoryFact} :
    repositoryLine line = .ok facts ↔
      (isRepositoryRow (repositoryFields line) = false ∧ facts = []) ∨
      (isRepositoryRow (repositoryFields line) = true ∧
        isAlias ((repositoryFields line).getD 1 []) = true ∧
        facts = [repositoryFact (repositoryFields line)]) := by
  unfold repositoryLine
  dsimp only
  cases isRepositoryRow (repositoryFields line) with
  | false => simp
  | true =>
      cases isAlias ((repositoryFields line).getD 1 []) with
      | false => simp
      | true =>
          simp only [Bool.not_true, Bool.false_eq_true, if_false, Except.ok.injEq, false_and,
            true_and, false_or, eq_comm]

/-- What the preflight asks of a repository. -/
def IsChecked (solver : SolverResult) (repository : RepositoryFact) : Prop :=
  repository.enabled = true → repository.signingKeyTrusted = true ∧
    repository.alias ∈ solver.metadataValidRepositories

theorem repositoriesReady_iff {solver : SolverResult} :
    (∃ repositories, discoverRepositories backend = .ok repositories ∧
      ∀ repository ∈ repositories, IsChecked solver repository) ↔
      RepositoriesReady backend solver := by
  unfold discoverRepositories RepositoriesReady
  rw [← says_iff "zypper-lr"]
  constructor
  · rintro ⟨repositories, h, hpassed⟩
    obtain ⟨output, hrun, h⟩ := bind_eq_ok.mp h
    obtain ⟨stdout, hstdout, h⟩ := bind_eq_ok.mp h
    obtain ⟨rows, hrows, h⟩ := bind_eq_ok.mp h
    cases h
    refine ⟨output, hrun, stdout, hstdout, fun line hline hrow => ?_⟩
    obtain ⟨facts, hfacts, hread⟩ := (mapM_ok_mem hrows).1 line hline
    rcases repositoryLine_eq_ok.mp hread with ⟨hnone, -⟩ | ⟨-, hnamed, rfl⟩
    · rw [hrow] at hnone
      cases hnone
    · refine ⟨hnamed, hpassed _ ((sortByKey_perm _ _).mem_iff.mpr ?_)⟩
      exact List.mem_flatten.mpr ⟨_, hfacts, List.mem_singleton_self _⟩
  · rintro ⟨output, hrun, stdout, hstdout, hready⟩
    -- a line that is no row is passed over, and a row has a name
    have hlines : ∀ line ∈ lines stdout, ∃ facts, repositoryLine line = .ok facts := by
      intro line hline
      cases hrow : isRepositoryRow (repositoryFields line) with
      | false => exact ⟨[], repositoryLine_eq_ok.mpr (.inl ⟨hrow, rfl⟩)⟩
      | true =>
          have hnamed := (hready line hline hrow).named
          exact ⟨_, repositoryLine_eq_ok.mpr (.inr ⟨hrow, hnamed, rfl⟩)⟩
    obtain ⟨rows, hrows⟩ := exists_mapM_ok hlines
    refine ⟨_, bind_eq_ok.mpr ⟨output, hrun, bind_eq_ok.mpr ⟨stdout, hstdout,
      bind_eq_ok.mpr ⟨rows, hrows, rfl⟩⟩⟩, fun repository hmem => ?_⟩
    obtain ⟨facts, hfacts, hmem⟩ := List.mem_flatten.mp ((sortByKey_perm _ _).mem_iff.mp hmem)
    obtain ⟨line, hline, hread⟩ := (mapM_ok_mem hrows).2 facts hfacts
    rcases repositoryLine_eq_ok.mp hread with ⟨-, rfl⟩ | ⟨hrow, -, rfl⟩
    · cases hmem
    · obtain rfl := List.mem_singleton.mp hmem
      exact (hready line hline hrow).checked

/-- An inventory was understood. -/
def Listed (backend : Backend) (arguments : List String) (kind : PackageInventoryKind) : Prop :=
  Says backend "zypper" arguments fun stdout =>
    ∃ names, packageInventory true stdout kind = .ok names

theorem listed_iff {arguments : List String} {kind : PackageInventoryKind} :
    (∃ names, discoverInventory backend arguments kind = .ok names) ↔
      Listed backend arguments kind := by
  constructor
  · rintro ⟨names, h⟩
    obtain ⟨⟨success, stdout⟩, hrun, h⟩ := bind_eq_ok.mp h
    have hnames := mapError_eq_ok.mp h
    cases success with
    | false => cases hnames
    | true => exact ⟨stdout, hrun, names, hnames⟩
  · rintro ⟨stdout, hrun, names, hnames⟩
    exact ⟨names, bind_eq_ok.mpr ⟨_, hrun, mapError_eq_ok.mpr hnames⟩⟩

/-! ## Storage -/

/-- The home directory is not part of what a rollback takes back. -/
structure IsIsolated (root home : Mount) : Prop where
  target : home.target = "/home".toList
  known : root.device ≠ [] ∧ home.device ≠ []
  distinct : root.device ≠ home.device ∨
    ∃ m n, root.subvolume = some m ∧ home.subvolume = some n ∧ m ≠ n

theorem homeIsolated_iff {root home : Mount} :
    homeIsolated root home = true ↔ IsIsolated root home := by
  unfold homeIsolated
  constructor
  · intro h
    split_ifs at h with hexcluded hdevice
    · simp only [Bool.or_eq_true, decide_eq_true_eq, not_or, not_not, List.isEmpty_iff] at hexcluded
      exact ⟨hexcluded.1.1, ⟨hexcluded.1.2, hexcluded.2⟩, .inl hdevice⟩
    · simp only [Bool.or_eq_true, decide_eq_true_eq, not_or, not_not, List.isEmpty_iff] at hexcluded
      refine ⟨hexcluded.1.1, ⟨hexcluded.1.2, hexcluded.2⟩, .inr ?_⟩
      split at h
      · rename_i m n hm hn
        exact ⟨m, n, hm, hn, of_decide_eq_true h⟩
      · cases h
  · rintro ⟨htarget, ⟨hroot, hhome⟩, hdistinct⟩
    rw [if_neg (by simp [htarget, hroot, hhome])]
    split_ifs with hdevice
    · rfl
    · -- on one device only the subvolumes can tell them apart
      obtain ⟨m, n, hm, hn, hne⟩ := hdistinct.resolve_left hdevice
      rw [hm, hn]
      exact decide_eq_true hne

/-- The mounts of a host that may be upgraded. -/
structure StorageReady (readMounts : List Char → Option (List Mount)) (backend : Backend) :
    Prop where
  mounts : ∃ root home, probeMount readMounts backend "/" = .ok root ∧
    probeMount readMounts backend "/home" = .ok home ∧ root.target = "/".toList ∧
    root.hasOption "rw" = true ∧ root.hasOption "degraded" = false ∧ IsIsolated root home
  boot : ∃ bytes, backend.availableBytes "/boot" = .ok bytes ∧ 256 * 1024 * 1024 ≤ bytes
  esp : ∃ firmware, backend.readDir "/sys/firmware" = .ok firmware ∧ ("efi" ∈ firmware →
    ∃ esp bytes, probeMount readMounts backend "/boot/efi" = .ok esp ∧
      esp.target = "/boot/efi".toList ∧ esp.hasOption "rw" = true ∧
      backend.availableBytes "/boot/efi" = .ok bytes ∧ 32 * 1024 * 1024 ≤ bytes)

theorem discoverEsp_iff {firmware : List String} :
    (∃ found, discoverEsp readMounts backend firmware = .ok found ∧
      found.any (· < 32 * 1024 * 1024) = false) ↔ ("efi" ∈ firmware →
    ∃ esp bytes, probeMount readMounts backend "/boot/efi" = .ok esp ∧
      esp.target = "/boot/efi".toList ∧ esp.hasOption "rw" = true ∧
      backend.availableBytes "/boot/efi" = .ok bytes ∧ 32 * 1024 * 1024 ≤ bytes) := by
  unfold discoverEsp
  by_cases hefi : "efi" ∈ firmware
  · rw [if_pos (by simpa using hefi), forall_prop_of_true hefi]
    constructor
    · rintro ⟨found, h, hfound⟩
      obtain ⟨esp, hesp, h⟩ := bind_eq_ok.mp h
      split_ifs at h with hunusable
      obtain ⟨bytes, hbytes, rfl⟩ := map_eq_ok.mp h
      simp only [Bool.or_eq_true, decide_eq_true_eq, not_or, not_not, Bool.not_eq_true',
        Bool.not_eq_false] at hunusable
      rw [Option.any_some, decide_eq_false_iff_not, not_lt] at hfound
      exact ⟨esp, bytes, hesp, hunusable.1, hunusable.2, hbytes, hfound⟩
    · rintro ⟨esp, bytes, hesp, htarget, hwritable, hbytes, hle⟩
      refine ⟨some bytes, bind_eq_ok.mpr ⟨esp, hesp, ?_⟩, ?_⟩
      · rw [if_neg (by simp [htarget, hwritable])]
        exact map_eq_ok.mpr ⟨bytes, hbytes, rfl⟩
      · rwa [Option.any_some, decide_eq_false_iff_not, not_lt]
  · rw [if_neg (by simpa using hefi)]
    exact iff_of_true ⟨none, rfl, rfl⟩ fun h => absurd h hefi

theorem storageReady_iff :
    (∃ storage, discoverStorage readMounts backend = .ok storage ∧
      storageIssues (some storage) = []) ↔ StorageReady readMounts backend := by
  constructor
  · rintro ⟨storage, h, hpassed⟩
    obtain ⟨root, hroot, h⟩ := bind_eq_ok.mp h
    obtain ⟨home, hhome, h⟩ := bind_eq_ok.mp h
    obtain ⟨firmware, hfirmware, h⟩ := bind_eq_ok.mp h
    obtain ⟨esp, hesp, h⟩ := bind_eq_ok.mp h
    obtain ⟨boot, hboot, h⟩ := bind_eq_ok.mp h
    cases h
    simp only [storageIssues, List.append_eq_nil_iff, issueIf_eq_nil, Bool.not_eq_false',
      Bool.and_eq_true, Bool.not_eq_true', decide_eq_true_eq] at hpassed
    obtain ⟨⟨⟨hwritable, hisolated⟩, hbytes⟩, hespBytes⟩ := hpassed
    rw [decide_eq_false_iff_not, not_lt] at hbytes
    exact ⟨⟨root, home, hroot, hhome, hwritable.1.1, hwritable.1.2, hwritable.2,
      homeIsolated_iff.mp hisolated⟩, ⟨boot, hboot, hbytes⟩, firmware, hfirmware,
      discoverEsp_iff.mp ⟨esp, hesp, hespBytes⟩⟩
  · rintro ⟨⟨root, home, hroot, hhome, htarget, hwritable, hhealthy, hisolated⟩,
      ⟨boot, hboot, hbytes⟩, firmware, hfirmware, hefi⟩
    obtain ⟨esp, hesp, hespBytes⟩ := discoverEsp_iff.mpr hefi
    refine ⟨_, bind_eq_ok.mpr ⟨root, hroot, bind_eq_ok.mpr ⟨home, hhome,
      bind_eq_ok.mpr ⟨firmware, hfirmware, bind_eq_ok.mpr ⟨esp, hesp,
        bind_eq_ok.mpr ⟨boot, hboot, rfl⟩⟩⟩⟩⟩, ?_⟩
    simp only [storageIssues, List.append_eq_nil_iff, issueIf_eq_nil, Bool.not_eq_false',
      Bool.and_eq_true, Bool.not_eq_true', decide_eq_true_eq]
    refine ⟨⟨⟨⟨⟨htarget, hwritable⟩, hhealthy⟩, homeIsolated_iff.mpr hisolated⟩, ?_⟩, hespBytes⟩
    rwa [decide_eq_false_iff_not, not_lt]

/-! ## A host that may be upgraded -/

/-- The space a transaction needs. -/
def requiredSpace (solver : SolverResult) (policy : PreflightPolicy) : ℕ :=
  max (saturatingAdd (saturatingAdd (saturatingAdd solver.downloadBytes
    solver.transactionSizeIncrease) solver.estimatedSnapshotBytes) policy.freeSpaceMarginBytes)
    policy.minimumFreeSpaceBytes

/-- What the probes say of a host that may be upgraded. -/
structure Ready (readMounts : List Char → Option (List Mount)) (backend : Backend)
    (policy : PreflightPolicy) (solver : SolverResult) : Prop where
  release : ∃ content identity, backend.read "/usr/lib/lyra-os/product-release" = .ok content ∧
    StatesRelease content identity ∧ Expressible identity ∧ identity.architecture = "x86_64"
  filesystem : Says backend "findmnt" rootFilesystemProbe fun stdout =>
    String.ofList (lowercase (trim stdout)) = "btrfs"
  snapper : Says backend "snapper" snapperProbe fun _ => True
  rpmDatabase : Says backend "rpm" ["--verifydb"] fun _ => True
  lockFree : LockFree backend
  space : ∃ bytes, backend.availableBytes "/" = .ok bytes ∧ requiredSpace solver policy ≤ bytes
  power : PowerReady backend policy.minimumBatteryPercent
  secureBoot : policy.requireSecureBootFact = true → SecureBootKnown backend
  repositories : RepositoriesReady backend solver
  locks : Listed backend locksProbe .locks
  orphans : Listed backend orphansProbe .orphans
  storage : StorageReady readMounts backend

theorem batteryIssues_eq_nil {facts : HostFacts} {policy : PreflightPolicy} :
    batteryIssues facts policy = [] ↔ (facts.onBattery = true →
      ∃ percent, facts.batteryPercent = some percent ∧ policy.minimumBatteryPercent ≤ percent) := by
  unfold batteryIssues
  cases facts.onBattery <;> cases facts.batteryPercent <;> simp

theorem repositoryIssues_eq_nil {facts : HostFacts} {solver : SolverResult} :
    ((enrichFacts facts solver).repositories.filter (·.enabled)).flatMap repositoryIssues = [] ↔
      ∀ repository ∈ facts.repositories, IsChecked solver repository := by
  simp only [List.flatMap_eq_nil_iff, List.mem_filter, enrichFacts, List.mem_map, and_imp,
    forall_exists_index, forall_apply_eq_imp_iff₂]
  refine forall₂_congr fun repository _ => ?_
  unfold IsChecked
  cases henabled : repository.enabled with
  | false => simp [henabled]
  | true =>
      simp [repositoryIssues, List.append_eq_nil_iff, and_comm]

theorem release_iff :
    (∃ content, backend.read "/usr/lib/lyra-os/product-release" = .ok content ∧
      ∃ identity, (releaseIdentity content).mapError ProbeError.parsing = .ok identity ∧
        identity.edition = "desktop" ∧ identity.architecture = "x86_64") ↔
    ∃ content identity, backend.read "/usr/lib/lyra-os/product-release" = .ok content ∧
      StatesRelease content identity ∧ Expressible identity ∧
        identity.architecture = "x86_64" := by
  simp only [mapError_eq_ok, releaseIdentity_eq_ok]
  constructor
  · rintro ⟨content, hread, identity, ⟨hstates, hexpressible⟩, -, harchitecture⟩
    exact ⟨content, identity, hread, hstates, hexpressible, harchitecture⟩
  · rintro ⟨content, identity, hread, hstates, hexpressible, harchitecture⟩
    exact ⟨content, hread, identity, ⟨hstates, hexpressible⟩, hexpressible.edition, harchitecture⟩

theorem ready_iff {policy : PreflightPolicy} {solver : SolverResult} :
    (∃ facts, discoverHost readMounts backend = .ok facts ∧
      hostIssues (enrichFacts facts solver) policy = []) ↔
      Ready readMounts backend policy solver := by
  constructor
  · rintro ⟨facts, h, hissues⟩
    unfold discoverHost at h
    -- every probe has answered
    obtain ⟨content, hcontent, h⟩ := bind_eq_ok.mp h
    obtain ⟨identity, hidentity, h⟩ := bind_eq_ok.mp h
    obtain ⟨mounted, hmounted, h⟩ := bind_eq_ok.mp h
    obtain ⟨filesystem, hfilesystem, h⟩ := bind_eq_ok.mp h
    obtain ⟨snapper, hsnapper, h⟩ := bind_eq_ok.mp h
    obtain ⟨rpm, hrpm, h⟩ := bind_eq_ok.mp h
    obtain ⟨free, hfree, h⟩ := bind_eq_ok.mp h
    obtain ⟨bytes, hbytes, h⟩ := bind_eq_ok.mp h
    obtain ⟨power, hpower, h⟩ := bind_eq_ok.mp h
    obtain ⟨repositories, hrepositories, h⟩ := bind_eq_ok.mp h
    obtain ⟨held, hheld, h⟩ := bind_eq_ok.mp h
    obtain ⟨orphaned, horphaned, h⟩ := bind_eq_ok.mp h
    obtain ⟨storage, hstorage, h⟩ := bind_eq_ok.mp h
    cases h
    unfold hostIssues at hissues
    simp only [List.append_eq_nil_iff, issueIf_eq_nil, decide_eq_false_iff_not, not_not, ne_eq,
      Bool.not_eq_false', not_lt] at hissues
    obtain ⟨⟨⟨⟨⟨⟨⟨⟨⟨⟨hlayout, hedition⟩, harchitecture⟩, hbtrfs⟩, hroot⟩, hhealthy⟩, hunlocked⟩,
      hspace⟩, hbattery⟩, hsecure⟩, hchecked⟩ := hissues
    exact
      { release := release_iff.mp ⟨content, hcontent, identity, hidentity, hedition, harchitecture⟩
        filesystem := (says_iff "findmnt").mp ⟨mounted, hmounted, filesystem, hfilesystem, hbtrfs⟩
        snapper := succeeds_iff.mp ⟨snapper, hsnapper, hroot⟩
        rpmDatabase := succeeds_iff.mp ⟨rpm, hrpm, hhealthy⟩
        lockFree := lockFree_iff.mp (hfree.trans (congrArg Except.ok hunlocked))
        space := ⟨bytes, hbytes, hspace⟩
        power := powerReady_iff.mp ⟨power, hpower, batteryIssues_eq_nil.mp hbattery⟩
        secureBoot := fun hrequired => secureBootKnown_iff.mp (by
          rw [hrequired, Bool.true_and] at hsecure
          rwa [← Option.not_isNone, Bool.not_eq_true'])
        repositories := repositoriesReady_iff.mp
          ⟨repositories, hrepositories, repositoryIssues_eq_nil.mp hchecked⟩
        locks := listed_iff.mp ⟨held, hheld⟩
        orphans := listed_iff.mp ⟨orphaned, horphaned⟩
        storage := storageReady_iff.mp ⟨storage, hstorage, hlayout⟩ }
  · intro hready
    obtain ⟨content, hcontent, identity, hidentity, hedition, harchitecture⟩ :=
      release_iff.mpr hready.release
    obtain ⟨mounted, hmounted, filesystem, hfilesystem, hbtrfs⟩ :=
      (says_iff "findmnt").mpr hready.filesystem
    obtain ⟨snapper, hsnapper, hroot⟩ := succeeds_iff.mpr hready.snapper
    obtain ⟨rpm, hrpm, hhealthy⟩ := succeeds_iff.mpr hready.rpmDatabase
    obtain ⟨bytes, hbytes, hspace⟩ := hready.space
    obtain ⟨power, hpower, hbattery⟩ := powerReady_iff.mpr hready.power
    obtain ⟨repositories, hrepositories, hchecked⟩ := repositoriesReady_iff.mpr hready.repositories
    obtain ⟨held, hheld⟩ := listed_iff.mpr hready.locks
    obtain ⟨orphaned, horphaned⟩ := listed_iff.mpr hready.orphans
    obtain ⟨storage, hstorage, hlayout⟩ := storageReady_iff.mpr hready.storage
    have hsecure :
        (policy.requireSecureBootFact && (discoverSecureBoot backend).isNone) = false := by
      cases hrequired : policy.requireSecureBootFact with
      | false => rfl
      | true =>
          have hknown := secureBootKnown_iff.mpr (hready.secureBoot hrequired)
          rwa [Bool.true_and, ← Bool.not_eq_true', Option.not_isNone]
    -- the answers one after the other, then the issues in the order of `hostIssues`
    refine ⟨_, bind_eq_ok.mpr ⟨content, hcontent, bind_eq_ok.mpr ⟨identity, hidentity,
      bind_eq_ok.mpr ⟨mounted, hmounted, bind_eq_ok.mpr ⟨filesystem, hfilesystem,
      bind_eq_ok.mpr ⟨snapper, hsnapper, bind_eq_ok.mpr ⟨rpm, hrpm,
      bind_eq_ok.mpr ⟨true, lockFree_iff.mpr hready.lockFree, bind_eq_ok.mpr ⟨bytes, hbytes,
      bind_eq_ok.mpr ⟨power, hpower, bind_eq_ok.mpr ⟨repositories, hrepositories,
      bind_eq_ok.mpr ⟨held, hheld, bind_eq_ok.mpr ⟨orphaned, horphaned,
      bind_eq_ok.mpr ⟨storage, hstorage, rfl⟩⟩⟩⟩⟩⟩⟩⟩⟩⟩⟩⟩⟩, ?_⟩
    unfold hostIssues
    simp only [List.append_eq_nil_iff, issueIf_eq_nil, decide_eq_false_iff_not, not_not, ne_eq,
      Bool.not_eq_false', not_lt]
    exact ⟨⟨⟨⟨⟨⟨⟨⟨⟨⟨hlayout, hedition⟩, harchitecture⟩, hbtrfs⟩, hroot⟩, hhealthy⟩, rfl⟩, hspace⟩,
      batteryIssues_eq_nil.mpr hbattery⟩, hsecure⟩, repositoryIssues_eq_nil.mpr hchecked⟩

/-- **The preflight of a host:** the facts that the closed list of commands finds pass the preflight
exactly where the probes say that the host is ready, and the transaction raises nothing. -/
theorem preflight_exact (readMounts : List Char → Option (List Mount)) (backend : Backend)
    (installed : List InstalledPackage) (policy : PreflightPolicy) (solver : SolverResult)
    (solverPolicy : SolverPolicy) :
    (∃ facts, discoverHost readMounts backend.guarded = .ok facts ∧
      (evaluateSolverPreflight { facts with installedPackages := installed } policy solver
        solverPolicy).passed) ↔
      Ready readMounts backend policy solver ∧ solverIssues solver solverPolicy = [] := by
  rw [discoverHost_guarded, ← ready_iff, ← exists_and_right]
  refine exists_congr fun facts => ?_
  -- the installed packages are not part of what blocks a host
  have hissues :
      hostIssues (enrichFacts { facts with installedPackages := installed } solver) policy =
        hostIssues (enrichFacts facts solver) policy := rfl
  rw [evaluateSolverPreflight_passed, hissues, and_assoc]

end

/-! ## A laptop -/

namespace Sample

/-- A laptop that is not plugged in. -/
def files : List (String × String) :=
  [("/usr/lib/lyra-os/product-release",
      "LYRA_EDITION='desktop'\nLYRA_ARCHITECTURE='x86_64'\n" ++
        "LYRA_VERSION_ID='1.0'\nLYRA_BUILD_ID='lyra-release-1.0'\n"),
    ("/run/zypp.pid", "4242\n"),
    ("/sys/class/power_supply/AC/type", "Mains\n"),
    ("/sys/class/power_supply/AC/online", "0\n"),
    ("/sys/class/power_supply/BAT0/type", "Battery\n"),
    ("/sys/class/power_supply/BAT0/capacity", "70\n")]

/-- What `findmnt` prints of a mount. -/
def mountText (target subvolume : String) : String :=
  "\x7b\"filesystems\":[\x7b\"target\":\"" ++ target ++ "\",\"options\":\"rw,subvolid=" ++
    subvolume ++ "\",\"maj:min\":\"0:30\"\x7d]\x7d"

def readMounts (text : List Char) : Option (List Mount) :=
  if text = (mountText "/" "256").toList then
    some [⟨"/".toList, "rw,subvolid=256".toList, "0:30".toList⟩]
  else if text = (mountText "/home" "257").toList then
    some [⟨"/home".toList, "rw,subvolid=257".toList, "0:30".toList⟩]
  else none

def outputs : List ((String × List String) × String) :=
  [(("findmnt", rootFilesystemProbe), "btrfs\n"),
    (("findmnt", mountProbe "/"), mountText "/" "256"),
    (("findmnt", mountProbe "/home"), mountText "/home" "257"),
    (("snapper", snapperProbe), "ok\n"),
    (("rpm", ["--verifydb"]), ""),
    (("mokutil", ["--sb-state"]), "SecureBoot enabled\n"),
    (("zypper", repositoriesProbe),
      "1 | repo-lyra | Lyra | Yes | (r ) Yes | Yes | 1 | rpm-md | https://example.invalid\n"),
    (("zypper", locksProbe), "There are no package locks defined.\n"),
    (("zypper", orphansProbe), "No packages found.\n")]

def backend : Backend where
  read path := match files.lookup path with
    | some text => .ok text.toList
    | none => .error (.readFailed "system-file")
  readDir path :=
    if path = "/sys/class/power_supply" then .ok ["AC", "BAT0"]
    else if path = "/sys/firmware" then .ok ["acpi"]
    else .error (.readFailed "system-directory")
  availableBytes _ := .ok 10000000000
  run program arguments := match outputs.lookup (program, arguments) with
    | some text => .ok ⟨true, text.toList⟩
    | none => .error (.commandFailed program)

def facts : HostFacts where
  release := ⟨"1.0", "desktop", "x86_64", "lyra-release-1.0"⟩
  rootFilesystem := "btrfs"
  snapperRootConfigured := true
  rpmDatabaseHealthy := true
  packageLockFree := true
  availableBytes := 10000000000
  requiredDownloadBytes := 0
  requiredTransactionBytes := 0
  requiredSnapshotBytes := 0
  onBattery := true
  batteryPercent := some 70
  secureBootEnabled := some true
  repositories := [⟨"repo-lyra", true, true, false, true⟩]
  heldPackages := []
  installedPackages := []
  storage := some ⟨true, true, 10000000000, none⟩
  orphanedPackages := []

def solver : SolverResult where
  schemaVersion := 1
  successful := true
  problems := []
  metadataValidRepositories := ["repo-lyra"]
  changes := []
  downloadBytes := 1000
  transactionSizeIncrease := 1000
  estimatedSnapshotBytes := 1000
  rebootRequired := false

end Sample

example : discoverHost Sample.readMounts Sample.backend.guarded = .ok Sample.facts ∧
    (evaluateSolverPreflight Sample.facts {} Sample.solver {}).passed := by decide +kernel

end LyraUpgrade.Discovery
