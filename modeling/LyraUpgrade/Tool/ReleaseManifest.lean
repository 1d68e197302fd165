import LyraUpgrade.Core.Deserialize
import LyraUpgrade.Core.Route

/-!
# The release tool

`scripts/release-manifest.py`: what a document has to be before it is written and signed.
The checks run in the order of the script, and each has its message.

`validate` returns the dictionary it was given.  Here it returns what the script has
established of it: the dictionary as a typed record.  A value of another type never gets
that far.  Dictionaries have their keys once, as in the script.

The parsers for timestamps and URLs are parameters.

## Main definitions

* `requireExactFields`, `timestamp`, `httpsUrl`, `validateIdentity` — the helpers of the script.
* `versionBase` — a version as a triple of integers, of any size.
* `validate`, `validatePackageMigration` — the two checks.
-/

namespace LyraUpgrade.Tool

open Encoding

/-! ## Fields and types -/

/-- `value[key]`, after the fields were checked. -/
def member (entries : Entries) (key : String) : Document := (entries.lookup key).getD .null

def require (condition : Bool) (message : String) : Except String Unit :=
  if condition then .ok () else .error message

/-- A dictionary whose keys are the expected ones. -/
def exactFields (value : Document) (expected : List String) (message : String) :
    Except String Entries :=
  match value with
  | .dict entries => if (entries.map (·.1)).isPerm expected then .ok entries else .error message
  | _ => .error message

/-- `require_exact_fields`. -/
def requireExactFields (value : Document) (expected : List String) (label : String) :
    Except String Entries :=
  exactFields value expected (label ++ " fields differ from schema v1")

def requireString (value : Document) (condition : String → Bool) (message : String) :
    Except String String :=
  match value with
  | .str s => if condition s then .ok s else .error message
  | _ => .error message

def requireBoolean (value : Document) (message : String) : Except String Bool :=
  match value with
  | .bool b => .ok b
  | _ => .error message

/-- An integer, which a truth value is not. -/
def requireInteger (value : Document) (condition : ℤ → Bool) (message : String) :
    Except String ℤ :=
  match value with
  | .int n => if condition n then .ok n else .error message
  | _ => .error message

def requireList (value : Document) (message : String) : Except String (List Document) :=
  match value with
  | .list xs => .ok xs
  | _ => .error message

/-! ## Patterns -/

/-- `str.isspace`: the Unicode white space and the four separators of ASCII. -/
def isSpace (c : Char) : Bool := isWhitespace c || (0x1c ≤ c.toNat && c.toNat ≤ 0x1f)

/-- `str.strip`. -/
def strip (cs : List Char) : List Char :=
  ((cs.dropWhile isSpace).reverse.dropWhile isSpace).reverse

/-- `PACKAGE`. -/
def matchesPackage (value : String) : Bool :=
  !value.isEmpty && value.toList.all fun c =>
    c.isAlphanum || c = '+' || c = '.' || c = '_' || c = '-'

/-- `ALIAS`. -/
def matchesAlias (value : String) : Bool :=
  !value.isEmpty && value.toList.all fun c =>
    c.isAlphanum || c = '.' || c = '_' || c = ':' || c = '-'

/-- `FINGERPRINT`. -/
def matchesFingerprint (value : String) : Bool :=
  value.toList.length = 40 && value.toList.all isHexUpper

/-- `[0-9]+\.[0-9]+(?:\.[0-9]+)?`, the part that `VERSION` and `UPDATER_VERSION` share. -/
def matchesNumbers (value : List Char) : Bool :=
  let parts := value.splitOn '.'
  (parts.length = 2 || parts.length = 3) && parts.all fun part =>
    !part.isEmpty && part.all Char.isDigit

/-- `(?:-[A-Za-z0-9][A-Za-z0-9.-]*)?`, from the first hyphen on. -/
def matchesSuffix : List Char → Bool
  | [] => true
  | _ :: [] => false
  | _ :: c :: cs => c.isAlphanum && cs.all fun c => c.isAlphanum || c = '.' || c = '-'

/-- `VERSION`. -/
def matchesVersion (value : String) : Bool :=
  matchesNumbers (value.toList.takeWhile (· ≠ '-')) &&
  matchesSuffix (value.toList.dropWhile (· ≠ '-'))

/-- `UPDATER_VERSION`. -/
def matchesUpdaterVersion (value : String) : Bool := matchesNumbers value.toList

/-- The pattern of an RPM version and release. -/
def matchesEdition (value : String) : Bool :=
  value.toList.head?.any (·.isAlphanum) && value.toList.all fun c =>
    c.isAlphanum || c = '.' || c = '_' || c = ':' || c = '+' || c = '~' || c = '^' || c = '-'

/-- The pattern of a digest. -/
def matchesSha256 (value : String) : Bool :=
  value.toList.length = 64 && value.toList.all isHexLower

/-- What the script asks of a vendor. -/
def isVendor (value : String) : Bool :=
  !(strip value.toList).isEmpty && value.utf8ByteSize ≤ 512 && !value.toList.any isControl

/-! ## Helpers of the script -/

section

variable (acceptsUrl : String → Bool)
variable (isoFormat : String → Option (Option ℤ))

/-- `timestamp`: the text, and the time it stands for.  `isoFormat` is
`fromisoformat(value.replace("Z", "+00:00"))`: no time, one without a zone, or a time. -/
def timestamp (value : Document) (label : String) : Except String (String × ℤ) := do
  let text ← requireString value (fun _ => true) (label ++ " must be an RFC3339 timestamp")
  match isoFormat text with
  | none => throw (label ++ " must be an RFC3339 timestamp")
  | some none => throw (label ++ " must include a timezone")
  | some (some time) => return (text, time)

/-- `https_url`. -/
def httpsUrl (value : Document) (label : String) : Except String String := do
  let url ← requireString value (fun _ => true) (label ++ " must be HTTPS")
  require (acceptsUrl url) (label ++ " must be an HTTPS URL without credentials or query")
  return url

/-- `validate_identity`. -/
def validateIdentity (value : Document) (label : String) : Except String ReleaseIdentity := do
  let identity ← requireExactFields value ["version", "edition", "architecture", "build_id"] label
  let version ← requireString (member identity "version") matchesVersion
    (label ++ ".version is invalid")
  let edition ← requireString (member identity "edition") (· = "desktop")
    (label ++ " must identify Desktop x86_64")
  let architecture ← requireString (member identity "architecture") (· = "x86_64")
    (label ++ " must identify Desktop x86_64")
  let buildId ← requireString (member identity "build_id")
    (fun s => !(strip s.toList).isEmpty) (label ++ ".build_id is empty")
  return { version, edition, architecture, buildId }

/-- `version_base`, of a version that matches: the numbers before the first hyphen, and a
missing third one as zero. -/
def versionBase (value : String) : Version :=
  match (value.toList.takeWhile (· ≠ '-')).splitOn '.' with
  | [major, minor] => (digitsValue major, digitsValue minor, 0)
  | [major, minor, patch] => (digitsValue major, digitsValue minor, digitsValue patch)
  | _ => (0, 0, 0)

/-- `legacy_source`. -/
def legacySource (value : String) : Bool :=
  value = "27.02" || value = "27.06" || value = "28.02" ||
  "2026.08".toList.isPrefixOf value.toList || "27.02-".toList.isPrefixOf value.toList

/-! ## The parts of a manifest -/

/-- The value is the number one: Python does not tell `1`, `1.0` and `True` apart here. -/
def equalsOne : Document → Bool
  | .int n => n = 1
  | .float value => value = 1
  | .bool b => b
  | _ => false

def validateStatus (value : Document) : Except String ManifestStatus :=
  match value with
  | .str "testing" => .ok .testing
  | .str "available" => .ok .available
  | .str "paused" => .ok .paused
  | .str "withdrawn" => .ok .withdrawn
  | _ => .error "invalid status"

def validateRepository (aliases : List String) (index : ℕ) (value : Document) :
    Except String RepositoryTransition := do
  let label := "repositories[" ++ toString index ++ "]"
  let repository ← requireExactFields value
    ["alias", "base_url", "signing_key_url", "signing_key_fingerprint", "priority"] label
  let name ← requireString (member repository "alias")
    (fun name => matchesAlias name && !aliases.contains name)
    "repository aliases must be valid and unique"
  let baseUrl ← httpsUrl acceptsUrl (member repository "base_url") (label ++ ".base_url")
  let signingKeyUrl ← httpsUrl acceptsUrl (member repository "signing_key_url")
    (label ++ ".signing_key_url")
  let signingKeyFingerprint ← requireString (member repository "signing_key_fingerprint")
    matchesFingerprint "repository fingerprint must contain 40 uppercase hexadecimal digits"
  let priority ← requireInteger (member repository "priority") (fun n => 1 ≤ n && n ≤ 200)
    "repository priority must be between 1 and 200"
  return { «alias» := name, baseUrl, signingKeyUrl, signingKeyFingerprint
           priority := priority.toNat }

/-- The loop over the repositories; `aliases` are the ones before. -/
def validateRepositories (aliases : List String) (index : ℕ) :
    List Document → Except String (List RepositoryTransition)
  | [] => .ok []
  | value :: values => do
      let repository ← validateRepository acceptsUrl aliases index value
      let repositories ← validateRepositories (repository.alias :: aliases) (index + 1) values
      return repository :: repositories

def packageNames (values : List Document) (message : String) : Except String (List String) :=
  values.mapM fun value => requireString value matchesPackage message

/-- The names of a scoped rule. -/
def validateScope (minimum : String) (value : Document) : Except String (List String) := do
  let message := "vendor transition packages must be valid, nonempty and unique"
  let values ← requireList value message
  let names ← packageNames values message
  require (!names.isEmpty && decide names.Nodup) message
  require (!(versionBase minimum).lt (0, 2, 6))
    "package-scoped vendor transitions require updater 0.2.6"
  return names

/-- The scope of a rule, if it has one. -/
def validateOptionalScope (minimum : String) (transition : Entries) :
    Except String (Option (List String)) :=
  if (transition.lookup "packages").isSome then
    some <$> validateScope minimum (member transition "packages")
  else .ok none

/-- The fields of a rule: two of them, or three. -/
def transitionFields (value : Document) : Except String Entries :=
  match exactFields value ["from", "to"] "vendor transition fields differ from schema v1" with
  | .ok entries => .ok entries
  | .error _ => exactFields value ["from", "to", "packages"]
      "vendor transition fields differ from schema v1"

/-- `pairs` remembers whether the last rule for a pair was scoped. -/
def validateTransition (minimum : String) (pairs : List ((String × String) × Bool))
    (value : Document) : Except String VendorTransitionWire := do
  let transition ← transitionFields value
  let origin ← requireString (member transition "from") isVendor
    "vendor transition identity is invalid"
  let proposed ← requireString (member transition "to") isVendor
    "vendor transition identity is invalid"
  let packages ← validateOptionalScope minimum transition
  require ((pairs.lookup (origin, proposed)).all (· = packages.isSome))
    "cannot mix scoped and pair-wide vendor transitions for the same pair"
  return { «from» := origin, «to» := proposed, packages }

def validateTransitions (minimum : String) (pairs : List ((String × String) × Bool)) :
    List Document → Except String (List VendorTransitionWire)
  | [] => .ok []
  | value :: values => do
      let rule ← validateTransition minimum pairs value
      let rules ← validateTransitions minimum
        (((rule.from, rule.«to»), rule.packages.isSome) :: pairs) values
      return rule :: rules

/-- The script looks for repetitions before it looks at the types; only the message
depends on it. -/
def validateGroup (value : Document) : Except String (List String) := do
  let message := "lockstep groups require at least two unique packages"
  let values ← requireList value message
  require (2 ≤ values.length) message
  let names ← packageNames values "lockstep group contains an invalid package"
  require (decide names.Nodup) message
  return names

/-! ## Migrations -/

/-- One package; `names` are the ones before, `aliases` those of the repositories, `first`
the alias of the first package. -/
def validatePackage (aliases : List String) (first : Option String) (names : List String)
    (value : Document) : Except String PackageMigration := do
  let p ← requireExactFields value ["name", "architecture", "from_version", "from_vendor",
    "to_version", "to_vendor", "repository_alias", "sha256", "if_installed"]
    "package_migration entry"
  let message := "invalid or duplicate package migration identity"
  let name ← requireString (member p "name")
    (fun name => matchesPackage name && !names.contains name) message
  let architecture ← requireString (member p "architecture")
    (fun s => s = "x86_64" || s = "noarch") message
  let ifInstalled ← requireBoolean (member p "if_installed") message
  let repositoryAlias ← requireString (member p "repository_alias")
    (fun name => aliases.contains name && first = some name) message
  let sha256 ← requireString (member p "sha256") matchesSha256 message
  let fromVersion ← requireString (member p "from_version")
    (fun s => s.toList.length ≤ 256 && matchesEdition s) "invalid package migration version"
  let toVersion ← requireString (member p "to_version")
    (fun s => s.toList.length ≤ 256 && matchesEdition s) "invalid package migration version"
  let fromVendor ← requireString (member p "from_vendor") isVendor
    "invalid package migration vendor"
  let toVendor ← requireString (member p "to_vendor") isVendor "invalid package migration vendor"
  require (fromVersion ≠ toVersion)
    "package migration requires a different RPM version; forced reinstalls are unsupported"
  return { name, architecture, fromVersion, fromVendor, toVersion, toVendor, repositoryAlias
           sha256, ifInstalled }

def validatePackages (aliases : List String) (first : Option String) (names : List String) :
    List Document → Except String (List PackageMigration)
  | [] => .ok []
  | value :: values => do
      let package ← validatePackage aliases first names value
      let packages ← validatePackages aliases first (package.name :: names) values
      return package :: packages

/-- `packages[0]["repository_alias"]`. -/
def firstAlias : List Document → Option String
  | .dict entries :: _ => (member entries "repository_alias").string
  | _ => none

/-- A rule grants something that the migration does not do. -/
def exceedsMigration (packages : List PackageMigration) (rule : VendorTransitionWire) : Bool :=
  match rule.packages with
  | none => true
  | some scope => scope.any fun name => !packages.any fun p =>
      p.name = name && p.fromVendor = rule.from && p.toVendor = rule.«to»

/-- `validate_package_migration`, with the parts of the manifest it looks at. -/
def validatePackageMigration (value : Document) (source target : ReleaseIdentity)
    (minimum : String) (repositories : List RepositoryTransition) (removals : List String)
    (transitions : List VendorTransitionWire) (groups : List (List String)) :
    Except String (List PackageMigration) := do
  let message := "package migration requires unchanged identity, updater 0.2.7 " ++
    "and an exact nonempty policy"
  let values ← requireList value message
  require (1 ≤ values.length && values.length ≤ 64 && source = target &&
    !(versionBase minimum).lt (0, 2, 7) && removals.isEmpty && groups.isEmpty) message
  let packages ← validatePackages (repositories.map (·.alias)) (firstAlias values) [] values
  require (!packages.all (·.ifInstalled))
    "package migration requires at least one mandatory package"
  require (!transitions.any (exceedsMigration packages)) "vendor grant exceeds package migration"
  return packages

/-! ## The manifest -/

/-- `FIELDS`. -/
def manifestFields : List String :=
  ["schema_version", "sequence", "status", "valid_from", "valid_until", "source", "target",
    "minimum_updater_version", "minimum_free_space_bytes", "repositories", "allowed_removals",
    "allowed_vendor_transitions", "lockstep_packages"]

/-- The document has the optional field. -/
def hasMigration : Document → Bool
  | .dict entries => (entries.lookup "package_migration").isSome
  | _ => false

/-- The target is newer than the source.  Every release is newer than those of the calendar
scheme. -/
def newerTarget (source target : ReleaseIdentity) : Bool :=
  !(legacySource target.version || (!legacySource source.version &&
    !(versionBase source.version).lt (versionBase target.version)))

/-- The migration of a manifest, if it has one. -/
def validateOptionalMigration (migration : Bool) (manifest : Entries)
    (source target : ReleaseIdentity) (minimum : String)
    (repositories : List RepositoryTransition) (removals : List String)
    (transitions : List VendorTransitionWire) (groups : List (List String)) :
    Except String (Option (List PackageMigration)) :=
  if migration then
    some <$> validatePackageMigration (member manifest "package_migration") source target minimum
      repositories removals transitions groups
  else .ok none

/-- `validate`. -/
def validate (document : Document) : Except String ReleaseManifest := do
  let migration := hasMigration document
  let manifest ← requireExactFields document
    (if migration then manifestFields ++ ["package_migration"] else manifestFields) "manifest"
  require (equalsOne (member manifest "schema_version")) "unsupported schema_version"
  let sequence ← requireInteger (member manifest "sequence") (1 ≤ ·)
    "sequence must be a positive integer"
  let status ← validateStatus (member manifest "status")
  let validFrom ← timestamp isoFormat (member manifest "valid_from") "valid_from"
  let validUntil ← timestamp isoFormat (member manifest "valid_until") "valid_until"
  require (validFrom.2 < validUntil.2) "valid_until must be later than valid_from"
  let source ← validateIdentity (member manifest "source") "source"
  let target ← validateIdentity (member manifest "target") "target"
  require (migration || source ≠ target) "source and target must differ"
  require (migration || newerTarget source target)
    "target version must be newer than source version"
  let minimum ← requireString (member manifest "minimum_updater_version") matchesUpdaterVersion
    "minimum_updater_version is invalid"
  let space ← requireInteger (member manifest "minimum_free_space_bytes") (1 ≤ ·)
    "minimum_free_space_bytes must be positive"
  let values ← requireList (member manifest "repositories") "repositories must not be empty"
  require (!values.isEmpty) "repositories must not be empty"
  let repositories ← validateRepositories acceptsUrl [] 0 values
  let values ← requireList (member manifest "allowed_removals")
    "allowed_removals contains an invalid package"
  let removals ← packageNames values "allowed_removals contains an invalid package"
  let values ← requireList (member manifest "allowed_vendor_transitions")
    "allowed_vendor_transitions must be an array"
  let transitions ← validateTransitions minimum [] values
  let values ← requireList (member manifest "lockstep_packages")
    "lockstep_packages must be an array"
  let groups ← values.mapM validateGroup
  let packages ← validateOptionalMigration migration manifest source target minimum repositories
    removals transitions groups
  return { schemaVersion := 1, sequence := sequence.toNat, status, validFrom := validFrom.1
           validUntil := validUntil.1, source, target, minimumUpdaterVersion := minimum
           minimumFreeSpaceBytes := space.toNat, repositories, allowedRemovals := removals
           allowedVendorTransitions := transitions, lockstepPackages := groups
           packageMigration := packages }

end

end LyraUpgrade.Tool
