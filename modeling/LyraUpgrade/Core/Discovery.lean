import LyraUpgrade.Core.PackageInventory
import LyraUpgrade.Core.Solver
import LyraUpgrade.Encoding.Result
import Mathlib.Data.List.Infix

/-!
# Discovering the host

`discover_host` of `core/src/discovery.rs`: the probes of a host, and the facts that are made of
their answers.  A probe that fails, or whose answer is not understood, either ends the discovery
or leaves a fact that blocks an upgrade.

The answers of the probes are a `Backend`, each probe being asked once.  Reading the JSON of
`findmnt` is a parameter.

## Main definitions

* `Backend`: the answers of the probes.
* `discoverHost`: the discovery.
* `PowerReady`: what the power supplies say of a host that may be upgraded.

## Main results

* `discoverHost_guarded`: the closed list of commands has every probe.
* `powerReady_iff`: the power state passes where the supplies say that it may.
-/

namespace LyraUpgrade.Discovery

/-! ## Probes -/

/-- `DiscoverError`, with the errors of the parsers that are modelled elsewhere. -/
inductive ProbeError
  | readFailed (what : String)
  | commandFailed (program : String)
  | commandNotAllowed
  | invalidRepository («alias» : String)
  | invalidPowerState
  | invalidPackageManagerState
  | parsing (error : DiscoverError)
  deriving DecidableEq, Repr

structure CommandOutput where
  success : Bool
  stdout : List Char
  deriving DecidableEq, Repr

/-- The answers of the probes. -/
structure Backend where
  read : String → Except ProbeError (List Char)
  readDir : String → Except ProbeError (List String)
  availableBytes : String → Except ProbeError ℕ
  run : String → List String → Except ProbeError CommandOutput

def rootFilesystemProbe : List String := ["--noheadings", "--output", "FSTYPE", "/"]

def mountProbe (target : String) : List String :=
  ["--json", "--target", target, "--output", "TARGET,OPTIONS,MAJ:MIN"]

def snapperProbe : List String := ["--no-dbus", "--config", "root", "get-config"]

def repositoriesProbe : List String := ["--non-interactive", "--no-refresh", "lr", "--details"]

def locksProbe : List String := ["--non-interactive", "--no-refresh", "locks"]

def orphansProbe : List String := ["--non-interactive", "--no-refresh", "packages", "--orphaned"]

/-- `allowed_probe`. -/
def allowedProbe (program : String) (arguments : List String) : Bool :=
  [("findmnt", rootFilesystemProbe), ("findmnt", mountProbe "/"), ("findmnt", mountProbe "/home"),
    ("findmnt", mountProbe "/boot/efi"), ("snapper", snapperProbe), ("rpm", ["--verifydb"]),
    ("mokutil", ["--sb-state"]), ("zypper", repositoriesProbe), ("zypper", locksProbe),
    ("zypper", orphansProbe)].contains (program, arguments)

/-- The backend that runs only commands of the list. -/
def Backend.guarded (backend : Backend) : Backend :=
  { backend with
    run := fun program arguments =>
      if allowedProbe program arguments then backend.run program arguments
      else .error .commandNotAllowed }

/-- `successful_stdout`. -/
def successfulStdout (output : CommandOutput) (command : String) : Except ProbeError (List Char) :=
  if output.success then .ok output.stdout else .error (.commandFailed command)

def lowercase (text : List Char) : List Char := text.map Char.toLower

/-! ## The package manager -/

/-- `discover_package_lock`. -/
def discoverPackageLock (backend : Backend) : Except ProbeError Bool :=
  match backend.read "/run/zypp.pid" with
  | .error _ => .ok true
  | .ok marker =>
      -- zypper leaves an empty marker behind
      if (trim marker).isEmpty then .ok true
      else match (parseU64 (trim marker)).filter fun pid => 0 < pid && pid < 0x100000000 with
        | none => .error .invalidPackageManagerState
        | some pid =>
            -- the marker is stale where the process is gone
            .ok (backend.read ("/proc/" ++ toString pid ++ "/comm")).toOption.isNone

/-! ## Storage -/

structure Mount where
  target : List Char
  options : List Char
  device : List Char
  deriving DecidableEq, Repr

namespace Mount

variable (mount : Mount)

def optionList : List (List Char) := mount.options.splitOn ','

def hasOption (option : String) : Bool := mount.optionList.contains option.toList

/-- The number of the subvolume. -/
def subvolume : Option ℕ :=
  mount.optionList.findSome? fun option => (stripPrefix "subvolid=".toList option).bind parseU64

end Mount

/-- `home_isolated`. -/
def homeIsolated (root home : Mount) : Bool :=
  if home.target ≠ "/home".toList || root.device.isEmpty || home.device.isEmpty then false
  else if root.device ≠ home.device then true
  else match root.subvolume, home.subvolume with
    | some root, some home => root ≠ home
    | _, _ => false

/-- A probe of `findmnt`; the reader is that of the JSON. -/
def probeMount (readMounts : List Char → Option (List Mount)) (backend : Backend)
    (target : String) : Except ProbeError Mount := do
  let output ← backend.run "findmnt" (mountProbe target)
  if !output.success then .error (.readFailed "mount-layout")
  else match readMounts output.stdout with
    | some [mount] => .ok mount
    | _ => .error (.readFailed "mount-layout")

/-- The space of the EFI partition, where there is one. -/
def discoverEsp (readMounts : List Char → Option (List Mount)) (backend : Backend)
    (firmware : List String) : Except ProbeError (Option ℕ) :=
  if firmware.contains "efi" then do
    let esp ← probeMount readMounts backend "/boot/efi"
    if esp.target ≠ "/boot/efi".toList || !esp.hasOption "rw" then
      .error (.readFailed "esp-not-writable")
    else some <$> backend.availableBytes "/boot/efi"
  else .ok none

/-- `discover_storage`. -/
def discoverStorage (readMounts : List Char → Option (List Mount)) (backend : Backend) :
    Except ProbeError StorageFacts := do
  let root ← probeMount readMounts backend "/"
  let home ← probeMount readMounts backend "/home"
  let firmware ← backend.readDir "/sys/firmware"
  let espAvailableBytes ← discoverEsp readMounts backend firmware
  let bootAvailableBytes ← backend.availableBytes "/boot"
  .ok
    { rootWritable := root.target = "/".toList && root.hasOption "rw" && !root.hasOption "degraded"
      homeIsolated := homeIsolated root home
      bootAvailableBytes
      espAvailableBytes }

/-! ## Power -/

structure PowerState where
  batteries : List ℕ := []
  externalPowerOnline : Bool := false
  unknownBattery : Bool := false
  deriving DecidableEq, Repr

def isSupplyName (entry : String) : Bool :=
  entry.toList.all fun c => c.isAlphanum || c = '-' || c = '_' || c = ':'

def supplyPath (entry name : String) : String := "/sys/class/power_supply/" ++ entry ++ "/" ++ name

/-- The kinds of supply from outside. -/
def externalKinds : List (List Char) := ["Mains".toList, "USB".toList, "USB_C".toList]

/-- One power supply. -/
def powerEntry (backend : Backend) (state : PowerState) (entry : String) :
    Except ProbeError PowerState :=
  if !isSupplyName entry then .error .invalidPowerState
  else match backend.read (supplyPath entry "type") with
    | .error _ => .error .invalidPowerState
    | .ok kind =>
        if trim kind = "Battery".toList then
          match backend.read (supplyPath entry "capacity") with
          -- a capacity that is missing must not look like external power
          | .error _ => .ok { state with unknownBattery := true }
          | .ok capacity =>
              match (parseU64 (trim capacity)).filter (· ≤ 100) with
              | none => .error .invalidPowerState
              | some percent => .ok { state with batteries := state.batteries ++ [percent] }
        else if externalKinds.contains (trim kind) then
          let online := (backend.read (supplyPath entry "online")).toOption.any fun value =>
            trim value = ['1']
          .ok { state with externalPowerOnline := state.externalPowerOnline || online }
        else .ok state

/-- `discover_power`. -/
def discoverPower (backend : Backend) : Except ProbeError (Bool × Option ℕ) :=
  match backend.readDir "/sys/class/power_supply" with
  | .error _ => .error .invalidPowerState
  | .ok entries => do
      let state ← entries.foldlM (powerEntry backend) {}
      if state.unknownBattery then .ok (!state.externalPowerOnline, none)
      else if state.batteries.isEmpty then .ok (false, none)
      else .ok (!state.externalPowerOnline, state.batteries.min?)

/-- `discover_secure_boot`. -/
def discoverSecureBoot (backend : Backend) : Option Bool :=
  match backend.run "mokutil" ["--sb-state"] with
  | .error _ => none
  | .ok output =>
      if !output.success then none
      else if "secureboot enabled".toList <:+: lowercase output.stdout then some true
      else if "secureboot disabled".toList <:+: lowercase output.stdout then some false
      else none

/-! ## Repositories -/

def isAlias (cs : List Char) : Bool :=
  !cs.isEmpty && cs.all fun c => c.isAlphanum || c = '.' || c = '-' || c = '_' || c = ':'

def officialRepositories : List String :=
  ["repo-oss", "repo-non-oss", "repo-lyra", "repo-vega", "repo-fina"]

/-- The columns of a line of the table. -/
def repositoryFields (line : List Char) : List (List Char) := (line.splitOn '|').map trim

/-- A line that is no row of the table is passed over. -/
def isRepositoryRow (fields : List (List Char)) : Bool :=
  8 ≤ fields.length && ((fields.head?).bind parseU64).isSome

def repositoryFact (fields : List (List Char)) : RepositoryFact :=
  let name := String.ofList (fields.getD 1 [])
  let enabled := lowercase (fields.getD 3 []) = "yes".toList
  { «alias» := name
    enabled
    official := name ∈ officialRepositories
    -- the table proves the configuration only; the solver finds which metadata is valid
    metadataValid := !enabled
    signingKeyTrusted := !enabled || "yes".toList <:+ lowercase (fields.getD 4 []) }

/-- One line of the table. -/
def repositoryLine (line : List Char) : Except ProbeError (List RepositoryFact) :=
  let fields := repositoryFields line
  if !isRepositoryRow fields then .ok []
  else if !isAlias (fields.getD 1 []) then
    .error (.invalidRepository (String.ofList (fields.getD 1 [])))
  else .ok [repositoryFact fields]

/-- `discover_repositories`. -/
def discoverRepositories (backend : Backend) : Except ProbeError (List RepositoryFact) := do
  let output ← backend.run "zypper" repositoriesProbe
  let stdout ← successfulStdout output "zypper-lr"
  let rows ← (lines stdout).mapM repositoryLine
  .ok (sortByKey (·.alias) rows.flatten)

/-! ## The host -/

/-- An inventory of packages. -/
def discoverInventory (backend : Backend) (arguments : List String) (kind : PackageInventoryKind) :
    Except ProbeError (List String) := do
  let output ← backend.run "zypper" arguments
  (packageInventory output.success output.stdout kind).mapError .parsing

/-- `discover_host`. -/
def discoverHost (readMounts : List Char → Option (List Mount)) (backend : Backend) :
    Except ProbeError HostFacts := do
  let content ← backend.read "/usr/lib/lyra-os/product-release"
  let release ← (releaseIdentity content).mapError .parsing
  let filesystem ← backend.run "findmnt" rootFilesystemProbe
  let filesystem ← successfulStdout filesystem "findmnt"
  let snapper ← backend.run "snapper" snapperProbe
  let rpm ← backend.run "rpm" ["--verifydb"]
  let packageLockFree ← discoverPackageLock backend
  let availableBytes ← backend.availableBytes "/"
  let power ← discoverPower backend
  let repositories ← discoverRepositories backend
  let heldPackages ← discoverInventory backend locksProbe .locks
  let orphanedPackages ← discoverInventory backend orphansProbe .orphans
  let storage ← discoverStorage readMounts backend
  .ok
    { release
      rootFilesystem := String.ofList (lowercase (trim filesystem))
      snapperRootConfigured := snapper.success
      rpmDatabaseHealthy := rpm.success
      packageLockFree
      availableBytes
      -- the estimates are the solver's
      requiredDownloadBytes := 0
      requiredTransactionBytes := 0
      requiredSnapshotBytes := 0
      onBattery := power.1
      batteryPercent := power.2
      secureBootEnabled := discoverSecureBoot backend
      repositories
      heldPackages
      installedPackages := []
      storage := some storage
      orphanedPackages }

section

open Encoding

variable {readMounts : List Char → Option (List Mount)} {backend : Backend}

/-! ## The list of commands -/

theorem run_guarded {program : String} {arguments : List String}
    (h : allowedProbe program arguments = true) :
    backend.guarded.run program arguments = backend.run program arguments :=
  if_pos h

theorem discoverEsp_guarded (firmware : List String) :
    discoverEsp readMounts backend.guarded firmware = discoverEsp readMounts backend firmware := by
  unfold discoverEsp probeMount
  rw [run_guarded (by decide)]
  rfl

theorem discoverStorage_guarded :
    discoverStorage readMounts backend.guarded = discoverStorage readMounts backend := by
  unfold discoverStorage
  simp only [discoverEsp_guarded]
  unfold probeMount
  rw [run_guarded (by decide), run_guarded (by decide)]
  rfl

/-- **The closed list has every probe:** the discovery never asks for another command. -/
theorem discoverHost_guarded :
    discoverHost readMounts backend.guarded = discoverHost readMounts backend := by
  unfold discoverHost
  rw [discoverStorage_guarded, run_guarded (by decide), run_guarded (by decide),
    run_guarded (by decide)]
  unfold discoverRepositories discoverInventory discoverSecureBoot
  rw [run_guarded (by decide), run_guarded (by decide), run_guarded (by decide),
    run_guarded (by decide)]
  rfl

/-! ## Power -/

/-- The text of a file says this. -/
def Reads (backend : Backend) (path : String) (p : List Char → Prop) : Prop :=
  ∃ text, backend.read path = .ok text ∧ p (trim text)

/-- An external supply that is online. -/
def IsOnline (backend : Backend) (entry : String) : Prop :=
  Reads backend (supplyPath entry "type") (· ∈ externalKinds) ∧
    Reads backend (supplyPath entry "online") (· = ['1'])

def IsBattery (backend : Backend) (entry : String) : Prop :=
  Reads backend (supplyPath entry "type") (· = "Battery".toList)

/-- How full a battery says it is. -/
def IsFilled (backend : Backend) (entry : String) (percent : ℕ) : Prop :=
  Reads backend (supplyPath entry "capacity") (parseU64 · = some percent)

/-- A supply that is understood; the capacity of a battery may be missing. -/
structure SupplyReadable (backend : Backend) (entry : String) : Prop where
  name : isSupplyName entry = true
  kind : ∃ text, backend.read (supplyPath entry "type") = .ok text
  capacity : IsBattery backend entry →
    ∀ text, backend.read (supplyPath entry "capacity") = .ok text →
      ∃ percent, parseU64 (trim text) = some percent ∧ percent ≤ 100

/-- What the loop knows after some supplies. -/
structure PowerState.Knows (backend : Backend) (entries : List String) (state : PowerState) :
    Prop where
  readable : ∀ entry ∈ entries, SupplyReadable backend entry
  online : state.externalPowerOnline = true ↔ ∃ entry ∈ entries, IsOnline backend entry
  unknown : state.unknownBattery = true ↔ ∃ entry ∈ entries, IsBattery backend entry ∧
    ∃ error, backend.read (supplyPath entry "capacity") = .error error
  batteries : ∀ percent, percent ∈ state.batteries ↔
    ∃ entry ∈ entries, IsBattery backend entry ∧ IsFilled backend entry percent

theorem reads_iff {path : String} {text : List Char} {p : List Char → Prop}
    (h : backend.read path = .ok text) : Reads backend path p ↔ p (trim text) := by
  refine ⟨fun ⟨other, hother, hp⟩ => ?_, fun hp => ⟨text, h, hp⟩⟩
  rw [h] at hother
  cases hother
  exact hp

theorem not_reads {path : String} {error : ProbeError} {p : List Char → Prop}
    (h : backend.read path = .error error) : ¬ Reads backend path p := by
  rintro ⟨text, htext, -⟩
  rw [h] at htext
  cases htext

theorem exists_mem_concat {entries : List String} {entry : String} {p : String → Prop} :
    (∃ other ∈ entries ++ [entry], p other) ↔ (∃ other ∈ entries, p other) ∨ p entry := by
  simp only [List.mem_append, List.mem_singleton, or_and_right, exists_or, exists_eq_left]

/-- One more supply, in terms of what it says itself. -/
theorem PowerState.Knows.next_of {entries : List String} {entry : String}
    {state state' : PowerState} (h : state.Knows backend entries)
    (hreadable : SupplyReadable backend entry)
    (honline : state'.externalPowerOnline = true ↔
      state.externalPowerOnline = true ∨ IsOnline backend entry)
    (hunknown : state'.unknownBattery = true ↔ state.unknownBattery = true ∨
      IsBattery backend entry ∧ ∃ error, backend.read (supplyPath entry "capacity") = .error error)
    (hbatteries : ∀ percent, percent ∈ state'.batteries ↔ percent ∈ state.batteries ∨
      IsBattery backend entry ∧ IsFilled backend entry percent) :
    state'.Knows backend (entries ++ [entry]) where
  readable := List.forall_mem_append.mpr ⟨h.readable, List.forall_mem_singleton.mpr hreadable⟩
  online := by rw [honline, h.online, exists_mem_concat]
  unknown := by rw [hunknown, h.unknown, exists_mem_concat]
  batteries percent := by rw [hbatteries, h.batteries, exists_mem_concat]

theorem not_isOnline_of_isBattery {entry : String} (h : IsBattery backend entry) :
    ¬ IsOnline backend entry := by
  rintro ⟨hkind, -⟩
  obtain ⟨kind, hread, htext⟩ := h
  rw [reads_iff hread, htext] at hkind
  exact absurd hkind (by decide)

theorem PowerState.Knows.next {entries : List String} {entry : String} {state state' : PowerState}
    (h : state.Knows backend entries) (hstep : powerEntry backend state entry = .ok state') :
    state'.Knows backend (entries ++ [entry]) := by
  unfold powerEntry at hstep
  split_ifs at hstep with hname
  rw [Bool.not_eq_true', Bool.not_eq_false] at hname
  cases hkind : backend.read (supplyPath entry "type") with
  | error error =>
      rw [hkind] at hstep
      cases hstep
  | ok kind =>
      rw [hkind] at hstep
      dsimp only at hstep
      split_ifs at hstep with hbattery hexternal
      · have hbattery : IsBattery backend entry := ⟨kind, hkind, hbattery⟩
        have hoffline := not_isOnline_of_isBattery hbattery
        cases hcapacity : backend.read (supplyPath entry "capacity") with
        | error error =>
            rw [hcapacity] at hstep
            cases hstep
            have hfilled : ∀ percent, ¬ IsFilled backend entry percent :=
              fun _ => not_reads hcapacity
            refine h.next_of ⟨hname, ⟨kind, hkind⟩, fun _ text htext => ?_⟩ ?_ ?_ fun percent => ?_
            · rw [hcapacity] at htext
              cases htext
            · simp only [hoffline, or_false]
            · exact iff_of_true rfl (.inr ⟨hbattery, error, hcapacity⟩)
            · simp only [hfilled, and_false, or_false]
        | ok capacity =>
            rw [hcapacity] at hstep
            dsimp only at hstep
            split at hstep
            · cases hstep
            · rename_i percent hpercent
              cases hstep
              obtain ⟨hparse, hle⟩ := Option.filter_eq_some_iff.mp hpercent
              rw [decide_eq_true_eq] at hle
              refine h.next_of ⟨hname, ⟨kind, hkind⟩, fun _ text htext => ?_⟩ ?_ ?_ fun other => ?_
              · rw [hcapacity] at htext
                cases htext
                exact ⟨percent, hparse, hle⟩
              · simp only [hoffline, or_false]
              · simp only [hcapacity, reduceCtorEq, exists_false, and_false, or_false]
              · rw [List.mem_append, List.mem_singleton, IsFilled, reads_iff hcapacity, hparse,
                  Option.some.injEq, and_iff_right hbattery, eq_comm]
      · cases hstep
        have hbattery : ¬ IsBattery backend entry := by rwa [IsBattery, reads_iff hkind]
        -- a supply from outside leaves the batteries as they are
        refine h.next_of ⟨hname, ⟨kind, hkind⟩, fun hother => absurd hother hbattery⟩ ?_ ?_
          fun percent => ?_
        · rw [List.contains_iff_mem] at hexternal
          rw [Bool.or_eq_true, IsOnline, reads_iff hkind, and_iff_right hexternal]
          refine or_congr_right ?_
          cases hvalue : backend.read (supplyPath entry "online") with
          | error error => exact iff_of_false Bool.false_ne_true (not_reads hvalue)
          | ok value =>
              rw [reads_iff hvalue]
              exact decide_eq_true_iff
        · simp only [hbattery, false_and, or_false]
        · simp only [hbattery, false_and, or_false]
      · cases hstep
        have hbattery : ¬ IsBattery backend entry := by rwa [IsBattery, reads_iff hkind]
        have hoffline : ¬ IsOnline backend entry := fun honline =>
          hexternal (List.contains_iff_mem.mpr ((reads_iff hkind).mp honline.1))
        refine h.next_of ⟨hname, ⟨kind, hkind⟩, fun hother => absurd hother hbattery⟩ ?_ ?_
          fun percent => ?_
        · simp only [hoffline, or_false]
        · simp only [hbattery, false_and, or_false]
        · simp only [hbattery, false_and, or_false]

theorem exists_powerEntry {entry : String} (h : SupplyReadable backend entry) (state : PowerState) :
    ∃ state', powerEntry backend state entry = .ok state' := by
  obtain ⟨kind, hkind⟩ := h.kind
  unfold powerEntry
  rw [if_neg (by rw [h.name]; decide), hkind]
  dsimp only
  split_ifs with hbattery
  · cases hcapacity : backend.read (supplyPath entry "capacity") with
    | error error => exact ⟨_, rfl⟩
    | ok capacity =>
        obtain ⟨percent, hparse, hle⟩ := h.capacity ⟨kind, hkind, hbattery⟩ capacity hcapacity
        dsimp only
        rw [hparse, Option.filter_some, if_pos (by rwa [decide_eq_true_eq])]
        exact ⟨_, rfl⟩
  · exact ⟨_, rfl⟩
  · exact ⟨_, rfl⟩

theorem PowerState.Knows.run {entries rest : List String} {state state' : PowerState}
    (h : state.Knows backend entries) (hrun : rest.foldlM (powerEntry backend) state = .ok state') :
    state'.Knows backend (entries ++ rest) := by
  induction rest generalizing entries state with
  | nil =>
      cases hrun
      rwa [List.append_nil]
  | cons entry rest ih =>
      rw [List.foldlM_cons] at hrun
      obtain ⟨next, hstep, hrun⟩ := bind_eq_ok.mp hrun
      have hrest := ih (h.next hstep) hrun
      rwa [List.append_assoc] at hrest

theorem exists_powerEntries {entries : List String}
    (h : ∀ entry ∈ entries, SupplyReadable backend entry) (state : PowerState) :
    ∃ state', entries.foldlM (powerEntry backend) state = .ok state' := by
  induction entries generalizing state with
  | nil => exact ⟨state, rfl⟩
  | cons entry entries ih =>
      rw [List.forall_mem_cons] at h
      obtain ⟨next, hnext⟩ := exists_powerEntry h.1 state
      obtain ⟨last, hlast⟩ := ih h.2 next
      exact ⟨last, by rw [List.foldlM_cons]; exact bind_eq_ok.mpr ⟨next, hnext, hlast⟩⟩

theorem PowerState.knows_start : ({} : PowerState).Knows backend [] where
  readable _ hmem := absurd hmem List.not_mem_nil
  online := iff_of_false Bool.false_ne_true fun ⟨_, hmem, _⟩ => absurd hmem List.not_mem_nil
  unknown := iff_of_false Bool.false_ne_true fun ⟨_, hmem, _⟩ => absurd hmem List.not_mem_nil
  batteries _ := iff_of_false List.not_mem_nil fun ⟨_, hmem, _⟩ => absurd hmem List.not_mem_nil

/-- The power supplies of a host that may be upgraded: one from outside is online, or every
battery is charged. -/
def PowerReady (backend : Backend) (minimum : ℕ) : Prop :=
  ∃ entries, backend.readDir "/sys/class/power_supply" = .ok entries ∧
    (∀ entry ∈ entries, SupplyReadable backend entry) ∧
    ((∃ entry ∈ entries, IsOnline backend entry) ∨
      ∀ entry ∈ entries, IsBattery backend entry →
        ∃ percent, IsFilled backend entry percent ∧ minimum ≤ percent)

/-- The state of the loop allows an upgrade. -/
def PowerState.Allows (state : PowerState) (minimum : ℕ) : Prop :=
  state.externalPowerOnline = true ∨
    state.unknownBattery = false ∧ ∀ percent ∈ state.batteries, minimum ≤ percent

/-- The answer of the discovery does, too. -/
theorem discoverPower_allows {entries : List String} {state : PowerState} {minimum : ℕ}
    (hentries : backend.readDir "/sys/class/power_supply" = .ok entries)
    (hrun : entries.foldlM (powerEntry backend) {} = .ok state) :
    (∃ power, discoverPower backend = .ok power ∧
      (power.1 = true → ∃ percent, power.2 = some percent ∧ minimum ≤ percent)) ↔
      state.Allows minimum := by
  have hpower : discoverPower backend =
      if state.unknownBattery then .ok (!state.externalPowerOnline, none)
      else if state.batteries.isEmpty then .ok (false, none)
      else .ok (!state.externalPowerOnline, state.batteries.min?) := by
    unfold discoverPower
    rw [hentries]
    dsimp only
    rw [hrun]
    rfl
  rw [hpower, PowerState.Allows]
  -- the least battery decides for all of them
  obtain ⟨batteries, online, unknown⟩ := state
  cases unknown <;> cases online <;> cases hmin : batteries.min? with
  | none =>
      rw [List.min?_eq_none_iff] at hmin
      subst hmin
      simp
  | some least =>
      have hne : batteries ≠ [] := by
        rintro rfl
        cases hmin
      obtain ⟨hmem, hleast⟩ := List.min?_eq_some_iff.mp hmin
      have hall : (∀ percent ∈ batteries, minimum ≤ percent) ↔ minimum ≤ least :=
        ⟨fun hall => hall least hmem,
          fun hle percent hpercent => hle.trans (hleast percent hpercent)⟩
      simp [hne, hall]

/-- **Power fails closed**, and blocks nothing else. -/
theorem powerReady_iff {minimum : ℕ} :
    (∃ power, discoverPower backend = .ok power ∧
      (power.1 = true → ∃ percent, power.2 = some percent ∧ minimum ≤ percent)) ↔
      PowerReady backend minimum := by
  cases hentries : backend.readDir "/sys/class/power_supply" with
  | error error =>
      refine iff_of_false ?_ ?_
      · rintro ⟨power, hpower, -⟩
        unfold discoverPower at hpower
        rw [hentries] at hpower
        cases hpower
      · rintro ⟨entries, hother, -⟩
        rw [hentries] at hother
        cases hother
  | ok entries =>
      have hready : PowerReady backend minimum ↔ (∀ entry ∈ entries, SupplyReadable backend entry) ∧
          ((∃ entry ∈ entries, IsOnline backend entry) ∨
            ∀ entry ∈ entries, IsBattery backend entry →
              ∃ percent, IsFilled backend entry percent ∧ minimum ≤ percent) := by
        rw [PowerReady, hentries]
        simp only [Except.ok.injEq, exists_eq_left']
      rw [hready]
      cases hrun : entries.foldlM (powerEntry backend) {} with
      | error error =>
          refine iff_of_false ?_ ?_
          · rintro ⟨power, hpower, -⟩
            unfold discoverPower at hpower
            rw [hentries] at hpower
            dsimp only at hpower
            rw [hrun] at hpower
            cases hpower
          · rintro ⟨hreadable, -⟩
            obtain ⟨state, hstate⟩ := exists_powerEntries hreadable {}
            rw [hrun] at hstate
            cases hstate
      | ok state =>
          have hknows := PowerState.knows_start.run hrun
          rw [List.nil_append] at hknows
          rw [discoverPower_allows hentries hrun, and_iff_right hknows.readable,
            PowerState.Allows, hknows.online]
          -- both sides speak of every battery: by its number in the state, or by its file
          refine or_congr_right ⟨?_, ?_⟩
          · rintro ⟨hknown, hall⟩ entry hmem hbattery
            cases hcapacity : backend.read (supplyPath entry "capacity") with
            | error error =>
                rw [hknows.unknown.mpr ⟨entry, hmem, hbattery, error, hcapacity⟩] at hknown
                cases hknown
            | ok capacity =>
                obtain ⟨percent, hparse, -⟩ :=
                  (hknows.readable entry hmem).capacity hbattery capacity hcapacity
                have hfilled : IsFilled backend entry percent := ⟨capacity, hcapacity, hparse⟩
                exact ⟨percent, hfilled,
                  hall percent ((hknows.batteries percent).mpr ⟨entry, hmem, hbattery, hfilled⟩)⟩
          · intro hall
            refine ⟨?_, fun percent hpercent => ?_⟩
            · rw [← Bool.not_eq_true, hknows.unknown]
              rintro ⟨entry, hmem, hbattery, error, herror⟩
              obtain ⟨percent, hfilled, -⟩ := hall entry hmem hbattery
              exact not_reads herror hfilled
            · obtain ⟨entry, hmem, hbattery, text, htext, hparse⟩ :=
                (hknows.batteries percent).mp hpercent
              obtain ⟨other, hother, hle⟩ := hall entry hmem hbattery
              rw [IsFilled, reads_iff htext, hparse, Option.some.injEq] at hother
              rwa [hother]

end

end LyraUpgrade.Discovery
