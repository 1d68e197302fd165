import LyraUpgrade.Core.Route

/-!
# Upgrade routes never go back

An accepted manifest makes its target the installed release and its sequence number the
last one.  Along any run of accepted manifests the sequence numbers increase, and the
releases move forward along `Newer`: away from the legacy calendar versions, and up in
the order of version triples.  `Newer` is a strict order on everything the parser
accepts, so what an upgrade has left is never installed again.
-/

namespace LyraUpgrade

/-! ## The order of releases -/

/-- Version triples are compared from left to right. -/
theorem Version.lt_iff {a b : Version} : Version.lt a b ↔
    a.1 < b.1 ∨ (a.1 = b.1 ∧ (a.2.1 < b.2.1 ∨ (a.2.1 = b.2.1 ∧ a.2.2 < b.2.2))) := by
  simp [Version.lt]

theorem Version.lt_irrefl (a : Version) : ¬ Version.lt a a := by
  rw [lt_iff]
  omega

theorem Version.lt_trans {a b c : Version} (hab : Version.lt a b) (hbc : Version.lt b c) :
    Version.lt a c := by
  rw [lt_iff] at hab hbc ⊢
  omega

/-- The version triple of a release, whatever its suffix. -/
def versionTriple (version : String) : Option Version := (releaseVersion version).map (·.1)

/-- The second release is newer: it has no legacy version, and its triple is greater
unless the first one has. -/
structure Newer (source target : String) : Prop where
  current : isLegacyCalendarVersion target = false
  greater : ∃ t, versionTriple target = some t ∧
    (isLegacyCalendarVersion source ∨ ∃ s, versionTriple source = some s ∧ Version.lt s t)

theorem Newer.irrefl (version : String) : ¬ Newer version version := by
  rintro ⟨hcurrent, t, ht, hlegacy | ⟨s, hs, hlt⟩⟩
  · rw [hcurrent] at hlegacy
    cases hlegacy
  · rw [ht] at hs
    cases hs
    exact Version.lt_irrefl t hlt

theorem Newer.trans {a b c : String} (hab : Newer a b) (hbc : Newer b c) : Newer a c := by
  obtain ⟨hb, t, ht, hsource⟩ := hab
  obtain ⟨hc, u, hu, hlegacy | ⟨t', ht', htu⟩⟩ := hbc
  · rw [hb] at hlegacy
    cases hlegacy
  · rw [ht] at ht'
    cases ht'
    refine ⟨hc, u, hu, hsource.imp id ?_⟩
    rintro ⟨s, hs, hst⟩
    exact ⟨s, hs, Version.lt_trans hst htu⟩

theorem newer_of_transition {source target : String}
    (h : validVersionTransition source target) : Newer source target := by
  unfold validVersionTransition at h
  split_ifs at h with hguard
  obtain ⟨-, hlegacy⟩ : source ≠ target ∧ isLegacyCalendarVersion target = false := by
    simpa using hguard
  cases hversion : releaseVersion target with
  | none => rw [hversion] at h; cases h
  | some parsed =>
      obtain ⟨t, prerelease⟩ := parsed
      rw [hversion] at h
      refine ⟨hlegacy, t, by rw [versionTriple, hversion]; rfl, ?_⟩
      rcases (Bool.or_eq_true _ _).mp h with hsource | hgreater
      · exact .inl hsource
      · obtain ⟨s, hs, hlt⟩ := (Option.any_eq_true _ _).mp hgreater
        exact .inr ⟨s.1, by rw [versionTriple, hs]; rfl, hlt⟩

/-! ## Runs of accepted manifests -/

/-- What the machine remembers between manifests. -/
structure Installation where
  release : ReleaseIdentity
  lastSequence : Option ℕ

/-- A manifest, and the updater and channel it is offered to. -/
structure Offer where
  manifest : ReleaseManifest
  updaterVersion : String
  channel : ManifestChannelPolicy

/-- What is installed when the offer has been carried out. -/
def Offer.applied (self : Offer) : Installation where
  release := self.manifest.target
  lastSequence := some self.manifest.sequence

/-- What is installed after a run. -/
def Installation.after (self : Installation) : List Offer → Installation
  | [] => self
  | offer :: offers => offer.applied.after offers

section

variable (acceptsUrl : String → Bool)

/-- The offer is accepted as the machine is. -/
def Offer.Accepted (self : Offer) (state : Installation) : Prop :=
  validateManifestRoute acceptsUrl self.manifest state.release state.lastSequence
    self.updaterVersion self.channel = .ok ()

instance (self : Offer) (state : Installation) : Decidable (self.Accepted acceptsUrl state) :=
  inferInstanceAs (Decidable (_ = Except.ok ()))

/-- Every offer is accepted when the ones before have been carried out. -/
def AcceptedRun (state : Installation) : List Offer → Prop
  | [] => True
  | offer :: offers =>
      offer.Accepted acceptsUrl state ∧ AcceptedRun offer.applied offers

end

section

variable {acceptsUrl : String → Bool} {state : Installation} {offer : Offer}
variable {offers : List Offer}

/-- What one accepted offer does to the release: a migration keeps it, an upgrade moves it
forward. -/
structure Forward (release : ReleaseIdentity) (manifest : ReleaseManifest) : Prop where
  source : manifest.source = release
  migration : manifest.operation = .packageMigration → manifest.target = release
  upgrade : manifest.operation = .releaseUpgrade → Newer release.version manifest.target.version

theorem source_eq_target_of_migration {manifest : ReleaseManifest}
    (hsome : manifest.packageMigration.isSome) (h : validateMigration manifest = .ok ()) :
    manifest.source = manifest.target := by
  obtain ⟨packages, hpackages⟩ := Option.isSome_iff_exists.mp hsome
  rw [validateMigration, hpackages] at h
  by_contra hne
  simp [hne] at h

theorem Offer.Accepted.forward (h : offer.Accepted acceptsUrl state) :
    Forward state.release offer.manifest := by
  have htarget := (validateManifestRoute_eq_ok.mp h).1
  unfold checkTargetRelease at htarget
  split_ifs at htarget with _ _ hsource _ hmigration htransition
  · -- a migration
    have hsource : offer.manifest.source = state.release := by simpa using hsource
    cases hvalid : validateMigration offer.manifest with
    | error e => rw [hvalid] at htarget; cases htarget
    | ok u =>
        have hsame := source_eq_target_of_migration hmigration hvalid
        refine ⟨hsource, fun _ => hsame.symm.trans hsource, fun hoperation => ?_⟩
        rw [ReleaseManifest.operation, if_pos hmigration] at hoperation
        cases hoperation
  · -- an upgrade
    have hsource : offer.manifest.source = state.release := by simpa using hsource
    refine ⟨hsource, fun hoperation => ?_, fun _ => newer_of_transition (by simpa using htransition)⟩
    rw [ReleaseManifest.operation, if_neg hmigration] at hoperation
    cases hoperation

theorem Offer.Accepted.last_lt (h : offer.Accepted acceptsUrl state) :
    ∀ last ∈ state.lastSequence, last < offer.manifest.sequence :=
  (checkReplay_eq_ok.mp (checkReplay_of_route h)).2

/-- The release is the one given, or a newer one. -/
def AtLeast (release later : ReleaseIdentity) : Prop :=
  later = release ∨ Newer release.version later.version

theorem AtLeast.trans {a b c : ReleaseIdentity} (hab : AtLeast a b) (hbc : AtLeast b c) :
    AtLeast a c := by
  rcases hab with rfl | hab
  · exact hbc
  · rcases hbc with rfl | hbc
    · exact .inr hab
    · exact .inr (hab.trans hbc)

theorem Newer.atLeast {version : String} {b c : ReleaseIdentity} (h : Newer version b.version)
    (hbc : AtLeast b c) : Newer version c.version := by
  rcases hbc with rfl | hbc
  · exact h
  · exact h.trans hbc

theorem operation_cases (manifest : ReleaseManifest) :
    manifest.operation = .packageMigration ∨ manifest.operation = .releaseUpgrade := by
  unfold ReleaseManifest.operation
  split_ifs
  · exact .inl rfl
  · exact .inr rfl

/-- One offer leads to the same release or to a newer one. -/
theorem Forward.atLeast {release : ReleaseIdentity} {manifest : ReleaseManifest}
    (h : Forward release manifest) : AtLeast release manifest.target := by
  rcases operation_cases manifest with hmigration | hupgrade
  · exact .inl (h.migration hmigration)
  · exact .inr (h.upgrade hupgrade)

/-- **A run moves forward**: every release it installs is the first one or a newer one,
and every sequence number is above the last one. -/
theorem AcceptedRun.atLeast (h : AcceptedRun acceptsUrl state offers) :
    ∀ offer ∈ offers, AtLeast state.release offer.manifest.target ∧
      ∀ last ∈ state.lastSequence, last < offer.manifest.sequence := by
  induction offers generalizing state with
  | nil => exact fun offer hoffer => nomatch hoffer
  | cons first offers ih =>
      obtain ⟨haccepted, hrest⟩ := h
      intro offer hoffer
      rcases List.mem_cons.mp hoffer with rfl | hoffer
      · exact ⟨haccepted.forward.atLeast, haccepted.last_lt⟩
      · obtain ⟨hrelease, hsequence⟩ := ih hrest offer hoffer
        have hfirst : first.manifest.sequence < offer.manifest.sequence := hsequence _ rfl
        exact ⟨haccepted.forward.atLeast.trans hrelease, fun last hlast =>
          Nat.lt_trans (haccepted.last_lt last hlast) hfirst⟩

/-- What an accepted run of manifests never does is to go back. -/
structure NeverBack (state : Installation) (offers : List Offer) : Prop where
  /-- Every manifest starts from what the ones before have installed. -/
  source : ∀ before offer after, offers = before ++ offer :: after →
    offer.manifest.source = (state.after before).release
  sequences : offers.Pairwise fun a b => a.manifest.sequence < b.manifest.sequence
  migrations : ∀ offer ∈ offers, offer.manifest.operation = .packageMigration →
    offer.manifest.target = offer.manifest.source
  upgrades : ∀ offer ∈ offers, offer.manifest.operation = .releaseUpgrade →
    isLegacyCalendarVersion offer.manifest.source.version = false →
    ∃ s t, versionTriple offer.manifest.source.version = some s ∧
      versionTriple offer.manifest.target.version = some t ∧ Version.lt s t
  /-- From the first upgrade on no legacy version is installed. -/
  legacy : ∀ before offer after, offers = before ++ offer :: after →
    offer.manifest.operation = .releaseUpgrade → ∀ later ∈ offer :: after,
      isLegacyCalendarVersion later.manifest.target.version = false
  /-- No manifest is accepted twice. -/
  distinct : (offers.map (·.manifest)).Nodup
  /-- What an upgrade has left is not installed again. -/
  left : ∀ before offer after, offers = before ++ offer :: after →
    offer.manifest.operation = .releaseUpgrade → ∀ later ∈ offer :: after,
      later.manifest.target ≠ offer.manifest.source

theorem AcceptedRun.source (h : AcceptedRun acceptsUrl state offers) {before after : List Offer}
    (hsplit : offers = before ++ offer :: after) :
    Forward (state.after before).release offer.manifest ∧
      AcceptedRun acceptsUrl offer.applied after := by
  induction before generalizing state offers with
  | nil =>
      subst hsplit
      exact ⟨h.1.forward, h.2⟩
  | cons first before ih =>
      subst hsplit
      exact ih h.2 rfl

theorem AcceptedRun.sequences (h : AcceptedRun acceptsUrl state offers) :
    offers.Pairwise fun a b => a.manifest.sequence < b.manifest.sequence := by
  induction offers generalizing state with
  | nil => exact List.Pairwise.nil
  | cons first offers ih =>
      exact List.pairwise_cons.mpr
        ⟨fun offer hoffer => (h.2.atLeast offer hoffer).2 _ rfl, ih h.2⟩

/-- **From an upgrade on** every installed release is newer than the one it left. -/
theorem AcceptedRun.newer (h : AcceptedRun acceptsUrl state offers) {before after : List Offer}
    (hsplit : offers = before ++ offer :: after)
    (hupgrade : offer.manifest.operation = .releaseUpgrade) :
    ∀ later ∈ offer :: after,
      Newer offer.manifest.source.version later.manifest.target.version := by
  obtain ⟨hforward, hrest⟩ := h.source hsplit
  have hnewer : Newer offer.manifest.source.version offer.manifest.target.version := by
    rw [hforward.source]
    exact hforward.upgrade hupgrade
  intro later hlater
  rcases List.mem_cons.mp hlater with rfl | hlater
  · exact hnewer
  · exact hnewer.atLeast (hrest.atLeast later hlater).1

/-- **Upgrade routes never go back.** -/
theorem routes_never_back (acceptsUrl : String → Bool) (state : Installation)
    (offers : List Offer) (h : AcceptedRun acceptsUrl state offers) :
    NeverBack state offers where
  source := fun before offer after hsplit => (h.source hsplit).1.source
  sequences := h.sequences
  migrations := by
    intro offer hoffer hmigration
    obtain ⟨before, after, hsplit⟩ := List.append_of_mem hoffer
    have hforward := (h.source hsplit).1
    rw [hforward.source]
    exact hforward.migration hmigration
  upgrades := by
    intro offer hoffer hupgrade hcurrent
    obtain ⟨before, after, hsplit⟩ := List.append_of_mem hoffer
    obtain ⟨-, t, ht, hlegacy | ⟨s, hs, hlt⟩⟩ :=
      h.newer hsplit hupgrade offer (List.mem_cons_self ..)
    · rw [hcurrent] at hlegacy
      cases hlegacy
    · exact ⟨s, t, hs, ht, hlt⟩
  legacy := fun before offer after hsplit hupgrade later hlater =>
    (h.newer hsplit hupgrade later hlater).current
  distinct := by
    refine List.Pairwise.map _ (fun a b hlt heq => ?_) h.sequences
    rw [heq] at hlt
    exact Nat.lt_irrefl _ hlt
  left := by
    intro before offer after hsplit hupgrade later hlater heq
    have hnewer := h.newer hsplit hupgrade later hlater
    rw [heq] at hnewer
    exact hnewer.irrefl _

end

namespace Sample

/-- A release of the calendar scheme. -/
def calendarRelease : ReleaseIdentity := ⟨"27.02", "desktop", "x86_64", "b0"⟩

def firstRelease : ReleaseIdentity := ⟨"1.0", "desktop", "x86_64", "b1"⟩

def repository : RepositoryTransition where
  «alias» := "lyra"
  baseUrl := "https://lyra.example/1.0"
  signingKeyUrl := "https://lyra.example/key"
  signingKeyFingerprint := "0123456789ABCDEF0123456789ABCDEF01234567"
  priority := 90

/-- The upgrade to the first release. -/
def firstUpgrade : ReleaseManifest where
  schemaVersion := 1
  sequence := 1
  status := .available
  validFrom := "2026-01-01T00:00:00Z"
  validUntil := "2027-01-01T00:00:00Z"
  source := calendarRelease
  target := firstRelease
  minimumUpdaterVersion := "0.2.7"
  minimumFreeSpaceBytes := 1
  repositories := [repository]
  allowedRemovals := []
  allowedVendorTransitions := []
  lockstepPackages := []
  packageMigration := none

/-- One package moves to another vendor, and a translation with it where it is installed. -/
def migratedPackages : List PackageMigration :=
  [⟨"nano", "x86_64", "1-1", "openSUSE", "2-1", "Lyra", "lyra",
      "0000000000000000000000000000000000000000000000000000000000000001", false⟩,
   ⟨"nano-lang", "noarch", "1-1", "openSUSE", "2-1", "Lyra", "lyra",
      "0000000000000000000000000000000000000000000000000000000000000002", true⟩]

/-- Maintenance of the first release. -/
def maintenance : ReleaseManifest :=
  { firstUpgrade with
    sequence := 2
    source := firstRelease
    allowedVendorTransitions := [⟨"openSUSE", "Lyra", some ["nano", "nano-lang"]⟩]
    packageMigration := some migratedPackages }

/-- The upgrade, and then the maintenance. -/
def offers : List Offer := [⟨firstUpgrade, "0.2.7", .stable⟩, ⟨maintenance, "0.2.7", .stable⟩]

end Sample

theorem routes_never_back_sample :
    NeverBack ⟨Sample.calendarRelease, none⟩ Sample.offers :=
  routes_never_back (fun _ => true) _ _ ⟨by decide +kernel, by decide +kernel, trivial⟩

end LyraUpgrade
