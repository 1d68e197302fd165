import LyraUpgrade.Core.Solver
import LyraUpgrade.Encoding.Json

/-!
# Release manifests

The signed document of `core/src/manifest.rs`: its type, the operation and the
solver policy it stands for, and the value it is serialized as.  Which manifests
are accepted for an installed release is decided in `LyraUpgrade.Core.Route`.

A member that the source skips when it is `None` is left out of the object here
as well; every other `None` is written as `null`.
-/

namespace LyraUpgrade

open Encoding

/-! ## Encoding -/

/-- A field that is `null` when it is absent. -/
def optionToJson {α : Type} (f : α → Json) : Option α → Json
  | none => .null
  | some a => f a

def listToJson {α : Type} (f : α → Json) (xs : List α) : Json := .arr (xs.map f)

theorem listToJson_injective {α : Type} {f : α → Json} (hf : Function.Injective f) :
    Function.Injective (listToJson f) := by
  intro xs ys h
  simp only [listToJson, Json.arr.injEq] at h
  exact List.map_injective_iff.mpr hf h

theorem optionToJson_injective {α : Type} {f : α → Json} (hf : Function.Injective f)
    (hnull : ∀ a, f a ≠ .null) : Function.Injective (optionToJson f) := by
  intro a b h
  cases a with
  | none =>
      cases b with
      | none => rfl
      | some b => exact absurd h.symm (hnull b)
  | some a =>
      cases b with
      | none => exact absurd h (hnull a)
      | some b => exact congrArg some (hf h)

theorem str_injective : Function.Injective Json.str := fun _ _ h => by cases h; rfl

theorem optionStr_injective : Function.Injective (optionToJson Json.str) :=
  optionToJson_injective str_injective fun _ => by simp

theorem listStr_injective : Function.Injective (listToJson Json.str) :=
  listToJson_injective str_injective

def ReleaseIdentity.toJson (self : ReleaseIdentity) : Json := .obj
  [("version", .str self.version), ("edition", .str self.edition),
   ("architecture", .str self.architecture), ("build_id", .str self.buildId)]

theorem ReleaseIdentity.toJson_injective : Function.Injective ReleaseIdentity.toJson := by
  rintro ⟨⟩ ⟨⟩ h
  simpa [ReleaseIdentity.toJson, and_assoc] using h

def OperationKind.toJson : OperationKind → Json
  | .updateWithinRelease => .str "UpdateWithinRelease"
  | .releaseUpgrade => .str "ReleaseUpgrade"
  | .packageMigration => .str "PackageMigration"

theorem OperationKind.toJson_injective : Function.Injective OperationKind.toJson := by
  intro a b h
  cases a <;> cases b <;> simp_all [OperationKind.toJson]

/-! ## The manifest -/

inductive ManifestStatus
  | testing
  | available
  | paused
  | withdrawn
  deriving DecidableEq, Repr

def ManifestStatus.toJson : ManifestStatus → Json
  | .testing => .str "testing"
  | .available => .str "available"
  | .paused => .str "paused"
  | .withdrawn => .str "withdrawn"

inductive ManifestChannelPolicy
  | stable
  | testing
  deriving DecidableEq, Repr

structure RepositoryTransition where
  «alias» : String
  baseUrl : String
  signingKeyUrl : String
  signingKeyFingerprint : String
  priority : ℕ
  deriving DecidableEq, Repr

def RepositoryTransition.toJson (self : RepositoryTransition) : Json := .obj
  [("alias", .str self.alias), ("base_url", .str self.baseUrl),
   ("signing_key_url", .str self.signingKeyUrl),
   ("signing_key_fingerprint", .str self.signingKeyFingerprint),
   ("priority", .num self.priority)]

/-- A vendor rule as it is written in a manifest.  Missing `packages` are the
legacy rule for a vendor pair. -/
structure VendorTransitionWire where
  «from» : String
  «to» : String
  packages : Option (List String)
  deriving DecidableEq, Repr

/-- A member that is skipped when it is absent. -/
def skipIfNone {α : Type} (key : String) (f : α → Json) : Option α → List (String × Json)
  | none => []
  | some a => [(key, f a)]

def VendorTransitionWire.toJson (self : VendorTransitionWire) : Json := .obj
  ([("from", .str self.from), ("to", .str self.«to»)] ++
   skipIfNone "packages" (listToJson .str) self.packages)

/-- One package of a migration.  `ifInstalled` never authorizes a new install. -/
structure PackageMigration where
  name : String
  architecture : String
  fromVersion : String
  fromVendor : String
  toVersion : String
  toVendor : String
  repositoryAlias : String
  sha256 : String
  ifInstalled : Bool
  deriving DecidableEq, Repr

def PackageMigration.toJson (self : PackageMigration) : Json := .obj
  [("name", .str self.name), ("architecture", .str self.architecture),
   ("from_version", .str self.fromVersion), ("from_vendor", .str self.fromVendor),
   ("to_version", .str self.toVersion), ("to_vendor", .str self.toVendor),
   ("repository_alias", .str self.repositoryAlias), ("sha256", .str self.sha256),
   ("if_installed", .bool self.ifInstalled)]

structure ReleaseManifest where
  schemaVersion : ℕ
  sequence : ℕ
  status : ManifestStatus
  validFrom : String
  validUntil : String
  source : ReleaseIdentity
  target : ReleaseIdentity
  minimumUpdaterVersion : String
  minimumFreeSpaceBytes : ℕ
  repositories : List RepositoryTransition
  allowedRemovals : List String
  allowedVendorTransitions : List VendorTransitionWire
  lockstepPackages : List (List String)
  packageMigration : Option (List PackageMigration)
  deriving DecidableEq, Repr

namespace ReleaseManifest

def toJson (self : ReleaseManifest) : Json := .obj
  ([("schema_version", .num self.schemaVersion), ("sequence", .num self.sequence),
    ("status", self.status.toJson), ("valid_from", .str self.validFrom),
    ("valid_until", .str self.validUntil), ("source", self.source.toJson),
    ("target", self.target.toJson),
    ("minimum_updater_version", .str self.minimumUpdaterVersion),
    ("minimum_free_space_bytes", .num self.minimumFreeSpaceBytes),
    ("repositories", listToJson RepositoryTransition.toJson self.repositories),
    ("allowed_removals", listToJson .str self.allowedRemovals),
    ("allowed_vendor_transitions",
      listToJson VendorTransitionWire.toJson self.allowedVendorTransitions),
    ("lockstep_packages", listToJson (listToJson .str) self.lockstepPackages)] ++
   skipIfNone "package_migration" (listToJson PackageMigration.toJson) self.packageMigration)

/-- `serde_json::to_vec` of a manifest. -/
def canonicalJson (self : ReleaseManifest) : List Char := self.toJson.render

/-- `ReleaseManifest::operation`. -/
def operation (self : ReleaseManifest) : OperationKind :=
  if self.packageMigration.isSome then .packageMigration else .releaseUpgrade

/-- A manifest is never carried out by the running system. -/
theorem operation_isSignedOffline (self : ReleaseManifest) :
    self.operation.isSignedOffline = true := by
  unfold operation
  split_ifs <;> rfl

/-- `ReleaseManifest::solver_policy`. -/
def solverPolicy (self : ReleaseManifest) : SolverPolicy where
  allowedRemovals := self.allowedRemovals
  allowedVendorTransitions := self.allowedVendorTransitions.map fun transition =>
    { «from» := transition.from, «to» := transition.«to», packages := transition.packages }
  lockstepPackages := self.lockstepPackages

end ReleaseManifest

end LyraUpgrade
