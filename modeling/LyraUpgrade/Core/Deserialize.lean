import LyraUpgrade.Core.Manifest
import LyraUpgrade.Encoding.Document

/-!
# Reading a manifest

The `Deserialize` implementations that the manifest types derive: every field is there,
with its own type and within the range of it, and there are no others.  The two fields the
source has a reader of its own for may be missing, but are never `null`.
-/

namespace LyraUpgrade

open Encoding

def u32Max : ℕ := 0xffffffff

def u16Max : ℕ := 0xffff

def ReleaseIdentity.ofDocument (value : Document) : Option ReleaseIdentity := do
  let entries ← value.record ["version", "edition", "architecture", "build_id"]
  let version ← required entries "version" Document.string
  let edition ← required entries "edition" Document.string
  let architecture ← required entries "architecture" Document.string
  let buildId ← required entries "build_id" Document.string
  return { version, edition, architecture, buildId }

def ManifestStatus.ofDocument : Document → Option ManifestStatus
  | .str "testing" => some .testing
  | .str "available" => some .available
  | .str "paused" => some .paused
  | .str "withdrawn" => some .withdrawn
  | _ => none

def RepositoryTransition.ofDocument (value : Document) : Option RepositoryTransition := do
  let entries ← value.record
    ["alias", "base_url", "signing_key_url", "signing_key_fingerprint", "priority"]
  let name ← required entries "alias" Document.string
  let baseUrl ← required entries "base_url" Document.string
  let signingKeyUrl ← required entries "signing_key_url" Document.string
  let signingKeyFingerprint ← required entries "signing_key_fingerprint" Document.string
  let priority ← required entries "priority" (Document.unsigned u16Max)
  return { «alias» := name, baseUrl, signingKeyUrl, signingKeyFingerprint, priority }

def VendorTransitionWire.ofDocument (value : Document) : Option VendorTransitionWire := do
  let entries ← value.record ["from", "to", "packages"]
  let origin ← required entries "from" Document.string
  let proposed ← required entries "to" Document.string
  let packages ← optionalField entries "packages" (Document.elements Document.string)
  return { «from» := origin, «to» := proposed, packages }

def PackageMigration.ofDocument (value : Document) : Option PackageMigration := do
  let entries ← value.record ["name", "architecture", "from_version", "from_vendor", "to_version",
    "to_vendor", "repository_alias", "sha256", "if_installed"]
  let name ← required entries "name" Document.string
  let architecture ← required entries "architecture" Document.string
  let fromVersion ← required entries "from_version" Document.string
  let fromVendor ← required entries "from_vendor" Document.string
  let toVersion ← required entries "to_version" Document.string
  let toVendor ← required entries "to_vendor" Document.string
  let repositoryAlias ← required entries "repository_alias" Document.string
  let sha256 ← required entries "sha256" Document.string
  let ifInstalled ← required entries "if_installed" Document.boolean
  return { name, architecture, fromVersion, fromVendor, toVersion, toVendor, repositoryAlias
           sha256, ifInstalled }

/-- The fields of a manifest. -/
def ReleaseManifest.fields : List String :=
  ["schema_version", "sequence", "status", "valid_from", "valid_until", "source", "target",
    "minimum_updater_version", "minimum_free_space_bytes", "repositories", "allowed_removals",
    "allowed_vendor_transitions", "lockstep_packages", "package_migration"]

def ReleaseManifest.ofDocument (value : Document) : Option ReleaseManifest := do
  let entries ← value.record ReleaseManifest.fields
  let schemaVersion ← required entries "schema_version" (Document.unsigned u32Max)
  let sequence ← required entries "sequence" (Document.unsigned u64Max)
  let status ← required entries "status" ManifestStatus.ofDocument
  let validFrom ← required entries "valid_from" Document.string
  let validUntil ← required entries "valid_until" Document.string
  let source ← required entries "source" ReleaseIdentity.ofDocument
  let target ← required entries "target" ReleaseIdentity.ofDocument
  let minimumUpdaterVersion ← required entries "minimum_updater_version" Document.string
  let minimumFreeSpaceBytes ←
    required entries "minimum_free_space_bytes" (Document.unsigned u64Max)
  let repositories ←
    required entries "repositories" (Document.elements RepositoryTransition.ofDocument)
  let allowedRemovals ← required entries "allowed_removals" (Document.elements Document.string)
  let allowedVendorTransitions ←
    required entries "allowed_vendor_transitions" (Document.elements VendorTransitionWire.ofDocument)
  let lockstepPackages ←
    required entries "lockstep_packages" (Document.elements (Document.elements Document.string))
  let packageMigration ←
    optionalField entries "package_migration" (Document.elements PackageMigration.ofDocument)
  return { schemaVersion, sequence, status, validFrom, validUntil, source, target
           minimumUpdaterVersion, minimumFreeSpaceBytes, repositories, allowedRemovals
           allowedVendorTransitions, lockstepPackages, packageMigration }

end LyraUpgrade
