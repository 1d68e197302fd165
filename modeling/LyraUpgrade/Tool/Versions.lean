import LyraUpgrade.Encoding.Result
import LyraUpgrade.Tool.ReleaseManifest
import Mathlib.Data.List.TakeWhile

/-!
# Versions of the tool and of the updater

The tool matches a version against a pattern and compares integers of any size, the updater
reads three `u64`.  On a version that matches, the two agree as long as the numbers fit
(`semanticVersion_of_updater`, `releaseVersion_of_matches`), and so they agree about which
target is newer (`validVersionTransition_iff`).
-/

namespace LyraUpgrade.Tool

open Encoding

/-- Every number of a version is a `u64`. -/
def Fits (version : Version) : Prop :=
  version.1 ≤ u64Max ∧ version.2.1 ≤ u64Max ∧ version.2.2 ≤ u64Max

instance (version : Version) : Decidable (Fits version) :=
  inferInstanceAs (Decidable (_ ∧ _ ∧ _))

section

variable {cs part : List Char} {value : String}

/-- A nonempty string of digits is read up to the bound. -/
theorem parseU64_digits (hne : part.isEmpty = false) (hdigits : part.all Char.isDigit) :
    parseU64 part = if digitsValue part ≤ u64Max then some (digitsValue part) else none := by
  have hparse : parseU64 part = parseDigits part := by
    cases part with
    | nil => cases hne
    | cons c cs =>
        have hdigit := List.all_eq_true.mp hdigits c (List.mem_cons_self ..)
        have hplus : c ≠ '+' := by
          rintro rfl
          revert hdigit
          decide
        unfold parseU64
        split
        · next heq => exact absurd (List.cons.inj heq).1 hplus
        · rfl
  rw [hparse, parseDigits, hne, hdigits]
  simp

/-- The parts of the numbers of a version. -/
theorem parts_of_matchesNumbers (h : matchesNumbers cs) :
    (∃ a b, cs.splitOn '.' = [a, b]) ∨ ∃ a b c, cs.splitOn '.' = [a, b, c] := by
  simp only [matchesNumbers, Bool.and_eq_true, Bool.or_eq_true, decide_eq_true_eq] at h
  rcases h.1 with hlength | hlength
  · exact .inl (List.length_eq_two.mp hlength)
  · exact .inr (List.length_eq_three.mp hlength)

theorem digits_of_matchesNumbers (h : matchesNumbers cs) (hpart : part ∈ cs.splitOn '.') :
    part.isEmpty = false ∧ part.all Char.isDigit := by
  simp only [matchesNumbers, Bool.and_eq_true, List.all_eq_true (p := fun part : List Char =>
    !part.isEmpty && part.all Char.isDigit)] at h
  have := h.2 part hpart
  rwa [Bool.not_eq_true'] at this

/-- A version in numbers contains no hyphen. -/
theorem takeWhile_of_matchesNumbers (h : matchesNumbers cs) : cs.takeWhile (· ≠ '-') = cs := by
  have hpart : ∀ part ∈ cs.splitOn '.', '-' ∉ part := by
    intro part hpart hmem
    have := List.all_eq_true.mp (digits_of_matchesNumbers h hpart).2 '-' hmem
    revert this
    decide
  refine List.takeWhile_eq_self_iff.mpr fun c hc => ?_
  rw [decide_eq_true_eq]
  rintro rfl
  have hjoin : List.intercalate ['.'] (cs.splitOn '.') = cs := List.intercalate_splitOn _
  rw [← hjoin] at hc
  rcases parts_of_matchesNumbers h with ⟨a, b, hparts⟩ | ⟨a, b, c, hparts⟩ <;>
    · rw [hparts] at hc hpart
      simp only [List.forall_mem_cons] at hpart
      simp [List.intercalate, hpart] at hc

/-- The numbers are a semantic version when they fit. -/
theorem semanticVersion_of_matchesNumbers (h : matchesNumbers (value.toList.takeWhile (· ≠ '-'))) :
    semanticVersion (value.toList.takeWhile (· ≠ '-')) =
      if Fits (versionBase value) then some (versionBase value) else none := by
  have hparse : ∀ part ∈ (value.toList.takeWhile (· ≠ '-')).splitOn '.', parseU64 part =
      if digitsValue part ≤ u64Max then some (digitsValue part) else none := by
    intro part hpart
    obtain ⟨hne, hdigits⟩ := digits_of_matchesNumbers h hpart
    exact parseU64_digits hne hdigits
  rcases parts_of_matchesNumbers h with ⟨a, b, hparts⟩ | ⟨a, b, c, hparts⟩
  · rw [hparts] at hparse
    simp only [List.forall_mem_cons] at hparse
    simp only [semanticVersion, versionBase, hparts, hparse, Fits]
    split_ifs <;> simp_all
  · rw [hparts] at hparse
    simp only [List.forall_mem_cons] at hparse
    simp only [semanticVersion, versionBase, hparts, hparse, Fits]
    split_ifs <;> simp_all

theorem semanticVersion_of_updater (h : matchesUpdaterVersion value) :
    semanticVersion value.toList =
      if Fits (versionBase value) then some (versionBase value) else none := by
  have hsame := takeWhile_of_matchesNumbers h
  have hnumbers : matchesNumbers (value.toList.takeWhile (· ≠ '-')) := by rwa [hsame]
  have hversion := semanticVersion_of_matchesNumbers hnumbers
  rwa [hsame] at hversion

/-- A version of the tool is one of the updater when its numbers fit. -/
theorem releaseVersion_of_matches (h : matchesVersion value) :
    (releaseVersion value).map (·.1) =
      if Fits (versionBase value) then some (versionBase value) else none := by
  simp only [matchesVersion, Bool.and_eq_true] at h
  rw [← semanticVersion_of_matchesNumbers h.1]
  unfold releaseVersion
  cases hsuffix : value.toList.dropWhile (· ≠ '-') with
  | nil =>
      simp only [Option.map_map]
      exact Option.map_id'
  | cons hyphen suffix =>
      have hvalid : (!suffix.isEmpty &&
          suffix.all fun c => c.isAlphanum || c = '.' || c = '-') = true := by
        rw [hsuffix] at h
        cases suffix with
        | nil => exact absurd h.2 (by simp [matchesSuffix])
        | cons c cs =>
            have hc : c.isAlphanum ∧ (cs.all fun c => c.isAlphanum || c = '.' || c = '-') = true := by
              simpa only [matchesSuffix, Bool.and_eq_true] using h.2
            simp only [List.isEmpty_cons, Bool.not_false, List.all_cons, hc.1, hc.2,
              Bool.true_or, Bool.and_self]
      simp only [hvalid, if_true, Option.map_map]
      exact Option.map_id'

/-- **Transitions**: the tool's newer target is the updater's when the numbers fit. -/
theorem validVersionTransition_iff {source target : ReleaseIdentity}
    (hsource : matchesVersion source.version) (htarget : matchesVersion target.version)
    (hnewer : newerTarget source target) :
    validVersionTransition source.version target.version ↔ Fits (versionBase target.version) ∧
      (legacySource source.version ∨ Fits (versionBase source.version)) := by
  have hlegacy : ∀ s, isLegacyCalendarVersion s = legacySource s := fun _ => rfl
  simp only [newerTarget, Bool.not_eq_true', Bool.or_eq_false_iff, Bool.and_eq_false_iff,
    Bool.not_eq_false'] at hnewer
  obtain ⟨htargetLegacy, hlt⟩ := hnewer
  have hne : source.version ≠ target.version := by
    intro hsame
    rw [hsame, htargetLegacy] at hlt
    simp [Version.lt] at hlt
  have hreleaseTarget := releaseVersion_of_matches htarget
  have hreleaseSource := releaseVersion_of_matches hsource
  unfold validVersionTransition
  rw [if_neg (by simp [hne, hlegacy, htargetLegacy])]
  cases hrelease : releaseVersion target.version with
  | none =>
      rw [hrelease, Option.map_none] at hreleaseTarget
      have hfits : ¬ Fits (versionBase target.version) := fun hfits => by simp [hfits] at hreleaseTarget
      simp [hfits]
  | some found =>
      rw [hrelease, Option.map_some] at hreleaseTarget
      have hfits : Fits (versionBase target.version) := by
        by_contra hfits
        simp [hfits] at hreleaseTarget
      rw [if_pos hfits, Option.some.injEq] at hreleaseTarget
      by_cases holder : legacySource source.version
      · simp [hlegacy, holder, hfits]
      · have hbelow : (versionBase source.version).lt (versionBase target.version) := by
          simpa [holder] using hlt
        have hany : (releaseVersion source.version).any (fun s => s.1.lt found.1) ↔
            Fits (versionBase source.version) := by
          have hmap : (releaseVersion source.version).any (fun s => s.1.lt found.1) =
              ((releaseVersion source.version).map (·.1)).any fun s => s.lt found.1 := by
            cases releaseVersion source.version <;> rfl
          rw [hmap, hreleaseSource, hreleaseTarget]
          split_ifs with hfits' <;> simp [hfits', hbelow]
        simp [hlegacy, holder, hfits, hany]

end

end LyraUpgrade.Tool
