import LyraUpgrade.Core.Manifest

/-!
# Package migrations

`core/src/migration.rs`: exact, signed package maintenance that leaves the
product identity as it is.  A manifest with a migration fixes the packages it
touches, their versions and vendors before and after, and the repository they
come from; `validateMigrationPlan` accepts a transaction only if it is exactly
the part of the migration that is still to be done.
-/

namespace LyraUpgrade

inductive MigrationError
  | invalidPolicy
  | installedIdentity (name : String)
  | unexpectedTransaction
  | alreadyApplied
  deriving DecidableEq, Repr

/-- The closure `edition` of `validate_migration`: an RPM version and release. -/
def validEdition (value : String) : Bool :=
  !value.isEmpty && value.utf8ByteSize ≤ 256 && (value.toList.head?.any (·.isAlphanum)) &&
  value.toList.all fun c =>
    c.isAlphanum || c = '.' || c = '_' || c = ':' || c = '+' || c = '~' || c = '^' || c = '-'

/-- What one package of a migration is refused for.  `first` is the repository of
the first package: all of them come from one. -/
def invalidPackageMigration (manifest : ReleaseManifest) (first : String) (p : PackageMigration) :
    Bool :=
  !validPackage p.name || !(p.architecture = "x86_64" || p.architecture = "noarch") ||
  !validEdition p.fromVersion || !validEdition p.toVersion ||
  !validVendor p.fromVendor || !validVendor p.toVendor ||
  p.fromVersion = p.toVersion ||
  !(p.sha256.utf8ByteSize = 64 && p.sha256.toList.all isHexLower) ||
  !manifest.repositories.any (·.alias = p.repositoryAlias) ||
  p.repositoryAlias ≠ first

/-- A vendor rule beside a migration has a scope, and only names packages that the
migration moves along that rule. -/
def ruleOutsideMigration (packages : List PackageMigration) (rule : VendorTransitionWire) : Bool :=
  match rule.packages with
  | none => true
  | some scope => scope.any fun name => !packages.any fun p =>
      p.name = name && p.fromVendor = rule.from && p.toVendor = rule.«to»

/-- `validate_migration`.  The source collects the names in a set while it walks
over the packages; it stops at the first repetition, so this is distinctness. -/
def validateMigration (manifest : ReleaseManifest) : Except MigrationError Unit :=
  match manifest.packageMigration with
  | none => .ok ()
  | some packages =>
      if manifest.source ≠ manifest.target || packages.isEmpty || 64 < packages.length ||
          packages.all (·.ifInstalled) || !manifest.allowedRemovals.isEmpty ||
          !manifest.lockstepPackages.isEmpty ||
          packages.any (invalidPackageMigration manifest
            (packages.head?.elim "" (·.repositoryAlias))) ||
          !decide (packages.map (·.name)).Nodup ||
          manifest.allowedVendorTransitions.any (ruleOutsideMigration packages) then
        .error .invalidPolicy
      else .ok ()

/-- The packages that are still to be migrated, in the order of the manifest. -/
def pendingFrom (installed : List InstalledPackage) :
    List PackageMigration → Except MigrationError (List PackageMigration)
  | [] => .ok []
  | package :: packages =>
      match installed.filter (·.name = package.name) with
      | [] =>
          if package.ifInstalled then pendingFrom installed packages
          else .error (.installedIdentity package.name)
      | [current] =>
          if current.architecture ≠ package.architecture then
            .error (.installedIdentity package.name)
          else if current.version = package.toVersion && current.vendor = package.toVendor then
            pendingFrom installed packages
          else if current.version ≠ package.fromVersion || current.vendor ≠ package.fromVendor then
            .error (.installedIdentity package.name)
          else (package :: ·) <$> pendingFrom installed packages
      | _ => .error (.installedIdentity package.name)

/-- `pending_migration`. -/
def pendingMigration (manifest : ReleaseManifest) (installed : List InstalledPackage) :
    Except MigrationError (List PackageMigration) :=
  match validateMigration manifest with
  | .error e => .error e
  | .ok () => pendingFrom installed (manifest.packageMigration.getD [])

/-- A change is the one that a pending package asks for. -/
def matchesPending (change : PackageChange) (p : PackageMigration) : Bool :=
  change.name = p.name && change.architecture = p.architecture &&
  (change.action = .upgrade || change.action = .reinstall) &&
  change.currentVersion = some p.fromVersion && change.currentVendor = some p.fromVendor &&
  change.proposedVersion = some p.toVersion && change.proposedVendor = some p.toVendor &&
  change.repositoryAlias = some p.repositoryAlias

/-- `validate_migration_plan`. -/
def validateMigrationPlan (manifest : ReleaseManifest) (installed : List InstalledPackage)
    (changes : List PackageChange) : Except MigrationError Unit :=
  if manifest.packageMigration.isNone then .ok ()
  else match pendingMigration manifest installed with
    | .error e => .error e
    | .ok pending =>
        if changes.length ≠ pending.length || !decide (changes.map (·.name)).Nodup ||
            changes.any (fun change => !pending.any (matchesPending change)) then
          .error .unexpectedTransaction
        else .ok ()

inductive TransactionMode
  | plan
  | download
  | apply
  deriving DecidableEq, Repr

/-- The option of a mode. -/
def TransactionMode.option : TransactionMode → List String
  | .plan => ["--dry-run"]
  | .download => ["--download-only"]
  | .apply => []

/-- `transaction_arguments` of `service/src/migration.rs`: one command policy for
planning, download and application. -/
def transactionArguments (manifest : ReleaseManifest) (installed : List InstalledPackage)
    (mode : TransactionMode) : Except MigrationError (List String) :=
  let policy := ["--details", "--no-allow-downgrade", "--no-allow-name-change",
    "--no-allow-arch-change", "--allow-vendor-change"]
  if manifest.packageMigration.isNone then .ok ("dist-upgrade" :: mode.option ++ policy)
  else match pendingMigration manifest installed with
    | .error e => .error e
    | .ok [] => .error .alreadyApplied
    | .ok (first :: pending) =>
        .ok (["install", "--name", "--no-recommends", "--from", first.repositoryAlias] ++
          mode.option ++ policy ++ "--" ::
          (first :: pending).map fun p => p.name ++ "." ++ p.architecture ++ "=" ++ p.toVersion)

/-- `verify_payloads` of `service/src/migration.rs`, on the digests of the `.rpm`
files below the cache directory: each pending artifact once, and nothing else. -/
def verifyPayloads (manifest : ReleaseManifest) (installed : List InstalledPackage)
    (digests : List String) : Bool :=
  manifest.packageMigration.isNone ||
  match pendingMigration manifest installed with
  | .error _ => false
  | .ok pending =>
      decide (pending.map (·.sha256)).Nodup && !pending.isEmpty &&
      decide (digests.Perm (pending.map (·.sha256)))

end LyraUpgrade
