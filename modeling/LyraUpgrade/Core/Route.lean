import LyraUpgrade.Core.Migration

/-!
# Manifest routes

`validate_manifest_route` of `core/src/manifest.rs`: whether a manifest may be
carried out on an installed release, given the last sequence number consumed, the
updater's own version and the channel.

The URL parser is not part of the repository; `acceptsUrl` stands for the test
`Url::parse(value).is_ok_and(..)` of `valid_https_url`.
-/

namespace LyraUpgrade

inductive ManifestError
  | unsupportedSchema
  | notAvailable
  | prereleaseNotAllowed
  | sourceMismatch
  | targetNotNewer
  | unsupportedTarget
  | replay
  | migrationAlreadyApplied
  | invalidMinimumUpdaterVersion
  | updaterTooOld
  | invalidRepository
  | duplicateRepository
  | invalidFingerprint
  | invalidPolicy
  deriving DecidableEq, Repr

def manifestSchemaVersion : ℕ := 1

/-! ## Versions -/

/-- Major, minor and patch number. -/
abbrev Version := ℕ × ℕ × ℕ

/-- The order of version triples. -/
def Version.lt (a b : Version) : Bool :=
  a.1 < b.1 || (a.1 = b.1 && (a.2.1 < b.2.1 || (a.2.1 = b.2.1 && a.2.2 < b.2.2)))

/-- `semantic_version`: two or three numbers between dots. -/
def semanticVersion (value : List Char) : Option Version :=
  match value.splitOn '.' with
  | [major, minor] => do return (← parseU64 major, ← parseU64 minor, 0)
  | [major, minor, patch] => do return (← parseU64 major, ← parseU64 minor, ← parseU64 patch)
  | _ => none

/-- `release_version`: the version, and whether it is a prerelease. -/
def releaseVersion (value : String) : Option (Version × Bool) :=
  let version := value.toList.takeWhile (· ≠ '-')
  match value.toList.dropWhile (· ≠ '-') with
  | [] => (semanticVersion version).map (·, false)
  | _ :: suffix =>
      if !suffix.isEmpty && suffix.all (fun c => c.isAlphanum || c = '.' || c = '-') then
        (semanticVersion version).map (·, true)
      else none

def isPrerelease (value : String) : Bool := (releaseVersion value).any (·.2)

/-- `is_legacy_calendar_version`. -/
def isLegacyCalendarVersion (value : String) : Bool :=
  value = "27.02" || value = "27.06" || value = "28.02" ||
  "2026.08".toList.isPrefixOf value.toList || "27.02-".toList.isPrefixOf value.toList

/-- `valid_version_transition`. -/
def validVersionTransition (source target : String) : Bool :=
  if source = target || isLegacyCalendarVersion target then false
  else match releaseVersion target with
    | none => false
    | some (target, _) =>
        isLegacyCalendarVersion source || (releaseVersion source).any fun s => s.1.lt target

/-! ## Repositories -/

def validAlias (value : String) : Bool :=
  !value.isEmpty && value.toList.all fun c =>
    c.isAlphanum || c = '.' || c = '-' || c = '_' || c = ':'

def validHttpsUrl (acceptsUrl : String → Bool) (value : String) : Bool :=
  !value.toList.any isWhitespace && acceptsUrl value

def validFingerprint (value : String) : Bool :=
  value.utf8ByteSize = 40 && value.toList.all isHexUpper

/-- The repositories from left to right; `seen` are the aliases before. -/
def checkRepositories (acceptsUrl : String → Bool) (seen : List String) :
    List RepositoryTransition → Except ManifestError Unit
  | [] => .ok ()
  | repository :: repositories =>
      if !validAlias repository.alias || !validHttpsUrl acceptsUrl repository.baseUrl ||
          !validHttpsUrl acceptsUrl repository.signingKeyUrl ||
          !(1 ≤ repository.priority && repository.priority ≤ 200) then .error .invalidRepository
      else if seen.contains repository.alias then .error .duplicateRepository
      else if !validFingerprint repository.signingKeyFingerprint then .error .invalidFingerprint
      else checkRepositories acceptsUrl (repository.alias :: seen) repositories

/-! ## The route -/

/-- Schema, channel, source and target of the manifest fit the machine. -/
def checkTargetRelease (manifest : ReleaseManifest) (installed : ReleaseIdentity)
    (channel : ManifestChannelPolicy) : Except ManifestError Unit :=
  if manifest.schemaVersion ≠ manifestSchemaVersion then .error .unsupportedSchema
  else if manifest.status ≠ .available &&
      !(manifest.status = .testing && channel = .testing) then .error .notAvailable
  else if manifest.source ≠ installed then .error .sourceMismatch
  else if manifest.target.edition ≠ "desktop" || manifest.target.architecture ≠ "x86_64" ||
      manifest.target.buildId.isEmpty || !manifest.target.buildId.toList.all (fun c =>
        c.isAlphanum || c = '.' || c = '-' || c = '_') then .error .unsupportedTarget
  else if manifest.packageMigration.isSome then
    match validateMigration manifest with
    | .error _ => .error .invalidPolicy
    | .ok () => checkPrerelease
  else if !validVersionTransition installed.version manifest.target.version then
    .error .targetNotNewer
  else checkPrerelease
where
  checkPrerelease : Except ManifestError Unit :=
    if isPrerelease manifest.target.version && channel ≠ .testing then
      .error .prereleaseNotAllowed
    else .ok ()

/-- The manifest has not been consumed.  A migration that was is told apart, so
that a client can explain the offer. -/
def checkReplay (manifest : ReleaseManifest) (lastSequence : Option ℕ) :
    Except ManifestError Unit :=
  if 0 < manifest.sequence && manifest.packageMigration.isSome &&
      lastSequence = some manifest.sequence then .error .migrationAlreadyApplied
  else if manifest.sequence = 0 || lastSequence.any (manifest.sequence ≤ ·) then .error .replay
  else .ok ()

/-- The updater is new enough for the manifest and for what it makes use of. -/
def checkUpdater (manifest : ReleaseManifest) (updaterVersion : String) :
    Except ManifestError Unit :=
  match semanticVersion manifest.minimumUpdaterVersion.toList,
      semanticVersion updaterVersion.toList with
  | some minimum, some current =>
      if current.lt minimum then .error .updaterTooOld
      else if manifest.packageMigration.isSome && Version.lt minimum (0, 2, 7) then
        .error .invalidMinimumUpdaterVersion
      else if manifest.allowedVendorTransitions.any (·.packages.isSome) &&
          Version.lt minimum (0, 2, 6) then .error .invalidMinimumUpdaterVersion
      else .ok ()
  | _, _ => .error .invalidMinimumUpdaterVersion

/-- The rules for packages are well formed. -/
def checkPolicy (manifest : ReleaseManifest) : Except ManifestError Unit :=
  if !validVendorTransitions manifest.solverPolicy.allowedVendorTransitions ||
      manifest.minimumFreeSpaceBytes = 0 ||
      manifest.allowedRemovals.any (!validPackage ·) ||
      manifest.lockstepPackages.any (fun group =>
        group.length < 2 || group.any (!validPackage ·) || !decide group.Nodup) then
    .error .invalidPolicy
  else .ok ()

/-- `validate_manifest_route`, one check after the other. -/
def validateManifestRoute (acceptsUrl : String → Bool) (manifest : ReleaseManifest)
    (installed : ReleaseIdentity) (lastSequence : Option ℕ) (updaterVersion : String)
    (channel : ManifestChannelPolicy) : Except ManifestError Unit := do
  checkTargetRelease manifest installed channel
  checkReplay manifest lastSequence
  checkUpdater manifest updaterVersion
  if manifest.repositories.isEmpty then throw .invalidRepository
  checkRepositories acceptsUrl [] manifest.repositories
  checkPolicy manifest

variable {acceptsUrl : String → Bool} {manifest : ReleaseManifest} {installed : ReleaseIdentity}
variable {lastSequence : Option ℕ} {updaterVersion : String} {channel : ManifestChannelPolicy}

/-- A route is accepted when every check accepts it. -/
theorem validateManifestRoute_eq_ok :
    validateManifestRoute acceptsUrl manifest installed lastSequence updaterVersion channel =
      .ok () ↔
    checkTargetRelease manifest installed channel = .ok () ∧
    checkReplay manifest lastSequence = .ok () ∧
    checkUpdater manifest updaterVersion = .ok () ∧
    manifest.repositories ≠ [] ∧
    checkRepositories acceptsUrl [] manifest.repositories = .ok () ∧
    checkPolicy manifest = .ok () := by
  unfold validateManifestRoute
  cases htarget : checkTargetRelease manifest installed channel with
  | error e => exact ⟨fun h => (by cases h), fun h => (by cases h.1)⟩
  | ok u =>
      cases hreplay : checkReplay manifest lastSequence with
      | error e => exact ⟨fun h => (by cases h), fun h => (by cases h.2.1)⟩
      | ok u =>
          cases hupdater : checkUpdater manifest updaterVersion with
          | error e => exact ⟨fun h => (by cases h), fun h => (by cases h.2.2.1)⟩
          | ok u =>
              by_cases hempty : manifest.repositories = []
              · rw [hempty]
                exact ⟨fun h => (by cases h), fun h => absurd rfl h.2.2.2.1⟩
              · have hfalse : manifest.repositories.isEmpty = false := by simpa using hempty
                rw [hfalse]
                cases hrepositories : checkRepositories acceptsUrl [] manifest.repositories with
                | error e => exact ⟨fun h => (by cases h), fun h => (by cases h.2.2.2.2.1)⟩
                | ok u => exact ⟨fun h => ⟨rfl, rfl, rfl, hempty, rfl, h⟩, fun h => h.2.2.2.2.2⟩

/-- An accepted manifest has a sequence number above every consumed one. -/
theorem checkReplay_eq_ok :
    checkReplay manifest lastSequence = .ok () ↔
      0 < manifest.sequence ∧ ∀ last ∈ lastSequence, last < manifest.sequence := by
  unfold checkReplay
  rcases Nat.eq_zero_or_pos manifest.sequence with hzero | hpos
  · simp [hzero]
  · cases lastSequence with
    | none => simp [hpos, Nat.ne_of_gt hpos]
    | some last =>
        have hne : manifest.sequence ≠ 0 := Nat.ne_of_gt hpos
        rcases Nat.lt_or_ge last manifest.sequence with hlt | hge
        · simp [hpos, hne, hlt, Nat.ne_of_lt hlt, Nat.not_le.mpr hlt]
        · have hnot : ¬ last < manifest.sequence := Nat.not_lt.mpr hge
          rw [if_pos (c := (decide (manifest.sequence = 0) || _) = true) (by simp [hge])]
          simp only [Option.mem_def, Option.some.injEq, forall_eq', hnot, and_false, iff_false]
          split_ifs <;> simp

theorem checkReplay_of_route
    (h : validateManifestRoute acceptsUrl manifest installed lastSequence updaterVersion channel =
      .ok ()) : checkReplay manifest lastSequence = .ok () :=
  (validateManifestRoute_eq_ok.mp h).2.1

/-- A consumed sequence number closes the route, whoever asks. -/
theorem route_error_of_consumed {last : ℕ} (h : manifest.sequence ≤ last) :
    ∃ e, validateManifestRoute acceptsUrl manifest installed (some last) updaterVersion channel =
      .error e := by
  cases hroute : validateManifestRoute acceptsUrl manifest installed (some last) updaterVersion
      channel with
  | error e => exact ⟨e, rfl⟩
  | ok u =>
      have := (checkReplay_eq_ok.mp (checkReplay_of_route hroute)).2 last rfl
      omega

/-- No accepted manifest has the sequence number zero. -/
theorem sequence_pos_of_route
    (h : validateManifestRoute acceptsUrl manifest installed lastSequence updaterVersion channel =
      .ok ()) : 0 < manifest.sequence :=
  (checkReplay_eq_ok.mp (checkReplay_of_route h)).1

end LyraUpgrade
