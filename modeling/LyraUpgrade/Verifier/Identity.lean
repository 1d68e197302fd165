import LyraUpgrade.Core.ProductRelease
import LyraUpgrade.Core.Route
import LyraUpgrade.Verifier.Boot
import LyraUpgrade.Service.Planner

/-!
# Targets that can be verified

After the restart the verifier compares the identity that the host states with the target of
the upgrade (`verify_release`).  A target that the host cannot state makes a correct upgrade
fail, so every target that `validate_manifest_route` accepts should be one that
`parse_release` can read.

The two sides look at a version differently.  The route splits it at the dots and parses the
parts as numbers; the host only admits letters, digits, dots, hyphens and underscores.  A
number in front of which stands a plus sign is parsed, and is the only thing that the host
does not admit.

## Main results

* `chars_of_releaseVersion` — the characters of a version that the route can parse.
* `target_expressible_iff` — which accepted targets a host can state.
-/

namespace LyraUpgrade

/-! ## The characters of a version -/

theorem chars_of_parseU64 {cs : List Char} {n : ℕ} (h : parseU64 cs = some n) :
    ∀ c ∈ cs, isSafeReleaseByte c ∨ c = '+' := by
  have hdigits : ∀ ds : List Char, ∀ n, parseDigits ds = some n → ∀ c ∈ ds, isSafeReleaseByte c := by
    intro ds n h c hc
    unfold parseDigits at h
    split_ifs at h with hvalid
    simp only [Bool.and_eq_true, List.all_eq_true] at hvalid
    have halphanum : c.isAlphanum = true := by
      rw [Char.isAlphanum, hvalid.1.2 c hc, Bool.or_true]
    rw [isSafeReleaseByte, halphanum]
    rfl
  intro c hc
  unfold parseU64 at h
  split at h
  · next ds =>
      rcases List.mem_cons.mp hc with rfl | hc
      · exact .inr rfl
      · exact .inl (hdigits ds n h c hc)
  · exact .inl (hdigits cs n h c hc)

/-- What a semantic version is made of. -/
theorem chars_of_semanticVersion {cs : List Char} {v : Version} (h : semanticVersion cs = some v) :
    cs ≠ [] ∧ ∀ c ∈ cs, isSafeReleaseByte c ∨ c = '+' := by
  have hjoin : List.intercalate ['.'] (cs.splitOn '.') = cs := List.intercalate_splitOn _
  have hdot : isSafeReleaseByte '.' := by decide
  unfold semanticVersion at h
  split at h
  · next major minor hparts =>
      obtain ⟨m, hmajor, h⟩ := Option.bind_eq_some_iff.mp h
      obtain ⟨n, hminor, -⟩ := Option.bind_eq_some_iff.mp h
      rw [hparts] at hjoin
      rw [← hjoin]
      refine ⟨by simp [List.intercalate], fun c hc => ?_⟩
      have hc : c ∈ major ∨ c = '.' ∨ c ∈ minor := by simpa [List.intercalate] using hc
      rcases hc with hc | rfl | hc
      · exact chars_of_parseU64 hmajor c hc
      · exact .inl hdot
      · exact chars_of_parseU64 hminor c hc
  · next major minor patch hparts =>
      obtain ⟨m, hmajor, h⟩ := Option.bind_eq_some_iff.mp h
      obtain ⟨n, hminor, h⟩ := Option.bind_eq_some_iff.mp h
      obtain ⟨p, hpatch, -⟩ := Option.bind_eq_some_iff.mp h
      rw [hparts] at hjoin
      rw [← hjoin]
      refine ⟨by simp [List.intercalate], fun c hc => ?_⟩
      have hc : c ∈ major ∨ c = '.' ∨ c ∈ minor ∨ c = '.' ∨ c ∈ patch := by
        simpa [List.intercalate] using hc
      rcases hc with hc | rfl | hc | rfl | hc
      · exact chars_of_parseU64 hmajor c hc
      · exact .inl hdot
      · exact chars_of_parseU64 hminor c hc
      · exact .inl hdot
      · exact chars_of_parseU64 hpatch c hc
  · cases h

/-- **What the route can parse** has, besides the characters of a release, at most plus
signs. -/
theorem chars_of_releaseVersion {value : String} {v : Version × Bool}
    (h : releaseVersion value = some v) :
    value.toList ≠ [] ∧ ∀ c ∈ value.toList, isSafeReleaseByte c ∨ c = '+' := by
  have hparts := List.takeWhile_append_dropWhile (p := (· ≠ '-')) (l := value.toList)
  unfold releaseVersion at h
  simp only at h
  split at h
  · next hnone =>
      rw [hnone, List.append_nil] at hparts
      obtain ⟨version, hversion, -⟩ := Option.map_eq_some_iff.mp h
      rw [← hparts]
      exact chars_of_semanticVersion hversion
  · next c suffix hsuffix =>
      split_ifs at h with hvalid
      obtain ⟨version, hversion, -⟩ := Option.map_eq_some_iff.mp h
      obtain ⟨hne, hchars⟩ := chars_of_semanticVersion hversion
      rw [← hparts]
      refine ⟨fun hnil => hne (List.append_eq_nil_iff.mp hnil).1, fun d hd => ?_⟩
      rcases List.mem_append.mp hd with hd | hd
      · exact hchars d hd
      · rw [hsuffix] at hd
        rcases List.mem_cons.mp hd with rfl | hd
        · -- The character that ends the numbers is the hyphen.
          have hhyphen := List.head_dropWhile_not (p := fun x : Char => decide (x ≠ '-'))
            (l := value.toList) (by rw [hsuffix]; simp)
          simp only [hsuffix, List.head_cons, decide_eq_false_iff_not, not_not] at hhyphen
          rw [hhyphen]
          exact .inl (by decide)
        · have hsafe := List.all_eq_true.mp (Bool.and_eq_true_iff.mp hvalid).2 d hd
          simp only [Bool.or_eq_true] at hsafe
          left
          rcases hsafe with (hsafe | hsafe) | hsafe <;> simp [isSafeReleaseByte, hsafe]

theorem safeReleaseValue_iff {value : String} {v : Version × Bool}
    (h : releaseVersion value = some v) :
    safeReleaseValue value.toList ↔ '+' ∉ value.toList := by
  obtain ⟨hne, hchars⟩ := chars_of_releaseVersion h
  rw [safeReleaseValue, Bool.and_eq_true, List.all_eq_true]
  constructor
  · rintro ⟨-, hall⟩ hplus
    exact absurd (hall '+' hplus) (by decide)
  · intro hplus
    refine ⟨by simpa using hne, fun c hc => ?_⟩
    rcases hchars c hc with hsafe | rfl
    · exact hsafe
    · exact absurd hc hplus

/-! ## The target of an accepted manifest -/

section

variable {acceptsUrl : String → Bool} {manifest : ReleaseManifest} {installed : ReleaseIdentity}
variable {lastSequence : Option ℕ} {updaterVersion : String} {channel : ManifestChannelPolicy}

/-- What the route looks at in the target. -/
theorem target_of_route
    (h : validateManifestRoute acceptsUrl manifest installed lastSequence updaterVersion channel =
      .ok ()) :
    manifest.target.edition = "desktop" ∧ manifest.target.architecture = "x86_64" ∧
      safeReleaseValue manifest.target.buildId.toList ∧
      (manifest.target = installed ∨ ∃ v, releaseVersion manifest.target.version = some v) := by
  have htarget := (validateManifestRoute_eq_ok.mp h).1
  unfold checkTargetRelease at htarget
  split_ifs at htarget with hschema hstatus hsource hidentity hmigration htransition
  · simp only [ne_eq, Bool.or_eq_true, decide_eq_true_eq, not_or, Bool.not_eq_true',
      Bool.not_eq_false] at hidentity
    obtain ⟨⟨⟨hedition, harchitecture⟩, hne⟩, hbuildId⟩ := hidentity
    refine ⟨not_not.mp hedition, not_not.mp harchitecture, ?_, ?_⟩
    · rw [safeReleaseValue, Bool.and_eq_true]
      exact ⟨by simpa using hne, hbuildId⟩
    · -- A migration leaves the identity as it is.
      left
      cases hvalid : validateMigration manifest with
      | error e => rw [hvalid] at htarget; cases htarget
      | ok u =>
          obtain ⟨packages, hpackages⟩ := Option.isSome_iff_exists.mp hmigration
          rw [validateMigration, hpackages] at hvalid
          simp only at hvalid
          split_ifs at hvalid with hpolicy
          simp only [Bool.or_eq_true, decide_eq_true_eq, not_or] at hpolicy
          rw [← not_not.mp hsource]
          exact (not_not.mp hpolicy.1.1.1.1.1.1.1.1).symm
  · simp only [ne_eq, Bool.or_eq_true, decide_eq_true_eq, not_or, Bool.not_eq_true',
      Bool.not_eq_false] at hidentity
    obtain ⟨⟨⟨hedition, harchitecture⟩, hne⟩, hbuildId⟩ := hidentity
    refine ⟨not_not.mp hedition, not_not.mp harchitecture, ?_, .inr ?_⟩
    · rw [safeReleaseValue, Bool.and_eq_true]
      exact ⟨by simpa using hne, hbuildId⟩
    · rw [Bool.not_eq_true', Bool.not_eq_false] at htransition
      unfold validVersionTransition at htransition
      split_ifs at htransition
      cases hversion : releaseVersion manifest.target.version with
      | none => rw [hversion] at htransition; cases htransition
      | some v => exact ⟨v, rfl⟩

/-- **Which accepted targets a host can state**: those without a plus sign. -/
theorem target_expressible_iff
    (h : validateManifestRoute acceptsUrl manifest installed lastSequence updaterVersion channel =
      .ok ()) (hinstalled : Expressible installed) :
    Expressible manifest.target ↔ '+' ∉ manifest.target.version.toList := by
  obtain ⟨hedition, harchitecture, hbuildId, hversion⟩ := target_of_route h
  have hsafe : safeReleaseValue manifest.target.version.toList ↔
      '+' ∉ manifest.target.version.toList := by
    rcases hversion with htarget | ⟨v, hv⟩
    · rw [htarget]
      refine ⟨fun hsafe hplus => ?_, fun _ => hinstalled.version⟩
      rw [safeReleaseValue, Bool.and_eq_true, List.all_eq_true] at hsafe
      exact absurd (hsafe.2 '+' hplus) (by decide)
    · exact safeReleaseValue_iff hv
  constructor
  · intro hexpressible
    exact hsafe.mp hexpressible.version
  · intro hplus
    refine ⟨hedition, hsafe.mpr hplus, ?_, hbuildId⟩
    rw [harchitecture]
    decide

end

/-! ## The check after the restart -/

/-- The beginning of `verify`: the identity that the host states is the one that the record
calls for. -/
def checkIdentity (state : OperationStateRecord) (content : List Char) :
    Except CheckFailure Unit :=
  match releaseIdentity content with
  | .error _ => .error .discovery
  | .ok actual => verifyRelease state actual

/-- The record of an upgrade to a target. -/
structure UpgradeTo (state : OperationStateRecord) (target : ReleaseIdentity) : Prop where
  recovery : state.recovery = none
  step : ∀ step ∈ state.lastCompletedStep, ¬ "rollback-".toList <+: step.toList
  target : state.target = some target

theorem checkIdentity_eq_ok {state : OperationStateRecord} {target : ReleaseIdentity}
    {content : List Char} (h : UpgradeTo state target) :
    checkIdentity state content = .ok () ↔ releaseIdentity content = .ok target := by
  have hstep : state.lastCompletedStep.any
      (fun step => "rollback-".toList.isPrefixOf step.toList) = false := by
    cases hlast : state.lastCompletedStep with
    | none => rfl
    | some step =>
        rw [Option.any_some, ← Bool.not_eq_true, List.isPrefixOf_iff_prefix]
        exact h.step step hlast
  unfold checkIdentity
  cases releaseIdentity content with
  | error e => exact ⟨fun h => (by cases h), fun h => (by cases h)⟩
  | ok actual =>
      simp only [verifyRelease, h.recovery, h.target, hstep, Option.isSome_none, Option.any_some,
        Bool.false_eq_true, if_false]
      split_ifs with hne
      · exact ⟨fun h => (by cases h), fun h => absurd (Except.ok.inj h) (by simpa using hne)⟩
      · exact ⟨fun _ => congrArg _ (by simpa using hne), fun _ => rfl⟩

/-- **Verifiable targets**: on a host that states the target of an accepted manifest,
`parse_release` returns exactly the target, and the check of the identity succeeds, if and
only if the version has no plus sign. -/
theorem target_verifiable {acceptsUrl : String → Bool} {manifest : ReleaseManifest}
    {installed : ReleaseIdentity} {lastSequence : Option ℕ} {updaterVersion : String}
    {channel : ManifestChannelPolicy} {content : List Char}
    (hroute : validateManifestRoute acceptsUrl manifest installed lastSequence updaterVersion
      channel = .ok ())
    (hinstalled : ∃ before, releaseIdentity before = .ok installed)
    (hstates : StatesRelease content manifest.target) :
    (releaseIdentity content = .ok manifest.target ↔ '+' ∉ manifest.target.version.toList) ∧
      ∀ state, UpgradeTo state manifest.target →
        (checkIdentity state content = .ok () ↔ '+' ∉ manifest.target.version.toList) := by
  obtain ⟨before, hbefore⟩ := hinstalled
  have hexpressible := target_expressible_iff hroute (releaseIdentity_eq_ok.mp hbefore).2
  have hidentity : releaseIdentity content = .ok manifest.target ↔
      '+' ∉ manifest.target.version.toList := by
    rw [releaseIdentity_eq_ok, and_iff_right hstates]
    exact hexpressible
  refine ⟨hidentity, fun state hstate => ?_⟩
  rw [checkIdentity_eq_ok hstate]
  exact hidentity

theorem target_verifiable_sample :
    (releaseIdentity (releaseText Sample.target) = .ok Sample.target ↔
      '+' ∉ Sample.target.version.toList) ∧
      ∀ state, UpgradeTo state Sample.target →
        (checkIdentity state (releaseText Sample.target) = .ok () ↔
          '+' ∉ Sample.target.version.toList) :=
  @target_verifiable (fun _ => true) Sample.manifest Sample.source none "0.2.7" .stable
    (releaseText Sample.target) (by decide +kernel)
    ⟨releaseText Sample.source, by decide +kernel⟩
    (statesRelease_releaseText (by decide +kernel))

/-- A signed manifest whose target has a version with a plus sign. -/
def Sample.plusManifest : ReleaseManifest :=
  { Sample.manifest with target := ⟨"+1.1", "desktop", "x86_64", "b2"⟩ }

/-- **An accepted target that no host can state.** -/
theorem target_unverifiable :
    validateManifestRoute (fun _ => true) Sample.plusManifest Sample.source none "0.2.7" .stable =
      .ok () ∧
    releaseIdentity (releaseText Sample.source) = .ok Sample.source ∧
    StatesRelease (releaseText Sample.plusManifest.target) Sample.plusManifest.target ∧
    releaseIdentity (releaseText Sample.plusManifest.target) = .error .invalidRelease :=
  ⟨by decide +kernel, by decide +kernel,
    statesRelease_releaseText (by decide +kernel), by decide +kernel⟩

end LyraUpgrade
