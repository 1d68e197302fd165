import LyraUpgrade.Core.ArrivalOrder
import LyraUpgrade.Service.SolverXml

/-!
# Merging the sections of a summary

A package can stand in several sections of the solver's summary, and `insertChange` makes
one change of what they list.  The order in which they list it does not matter: the changes
that come out have one change for each key, which is one of those listed, and all others
with its key list the same action or a reinstallation (`Merged`).  This determines them up to
their order, and it fails in every order or in none.
-/

namespace LyraUpgrade

open Encoding

/-- The listed changes one after the other. -/
def insertAll (listed changes : List PackageChange) : Except SolverXmlError (List PackageChange) :=
  listed.foldlM (fun changes change => insertChange change changes) changes

/-- What is read of a package: nothing but its key and an action. -/
def PackageChange.Bare (self : PackageChange) : Prop :=
  self.currentVendor = none ∧ self.proposedVendor = none ∧ self.downloadBytes = 0 ∧
    self.installedSizeBefore = 0 ∧ self.installedSizeAfter = 0

/-- One change for each key that is listed: it is listed itself, and whatever else is listed
with its key has the same action or is a reinstallation. -/
structure Merged (listed changes : List PackageChange) : Prop where
  keys : (changes.map (·.key)).Nodup
  mem : ∀ change ∈ changes, change ∈ listed
  covers : ∀ c ∈ listed, ∃ change ∈ changes, change.key = c.key ∧
    (c.action = change.action ∨ c.action = .reinstall)

/-- No key is listed with two actions, reinstallations apart. -/
def Compatible (listed : List PackageChange) : Prop :=
  ∀ a ∈ listed, ∀ b ∈ listed, a.key = b.key →
    a.action = b.action ∨ a.action = .reinstall ∨ b.action = .reinstall

section

variable {listed listed' changes changes' : List PackageChange} {change : PackageChange}

/-- Key and action are all there is. -/
theorem PackageChange.Bare.eq {a b : PackageChange} (ha : a.Bare) (hb : b.Bare)
    (hkey : a.key = b.key) (haction : a.action = b.action) : a = b := by
  obtain ⟨ha₁, ha₂, ha₃, ha₄, ha₅⟩ := ha
  obtain ⟨hb₁, hb₂, hb₃, hb₄, hb₅⟩ := hb
  simp only [PackageChange.key, Prod.mk.injEq] at hkey
  cases a
  cases b
  simp_all

theorem insertAll_append_singleton : insertAll (listed ++ [change]) changes =
    insertAll listed changes >>= insertChange change := by
  rw [insertAll, List.foldlM_append]
  simp [insertAll]

/-! ## One change -/

/-- A change with a new key is added behind the others, one with a known key is merged with the
change it belongs to. -/
theorem insertChange_ok (h : insertChange change changes = .ok changes') :
    ((∀ c ∈ changes, c.key ≠ change.key) ∧ changes' = changes ++ [change]) ∨
    ∃ before existing merged after, changes = before ++ existing :: after ∧
      changes' = before ++ merged :: after ∧ existing.key = change.key ∧
      ((merged = existing ∧
          (change.action = existing.action ∨ change.action = .reinstall)) ∨
        (merged = { existing with action := change.action } ∧ existing.action = .reinstall)) := by
  induction changes generalizing changes' with
  | nil =>
      cases h
      exact .inl ⟨by simp, rfl⟩
  | cons existing changes ih =>
      rw [insertChange] at h
      split_ifs at h with hkey hsame hold hnew
      · cases h
        exact .inr ⟨[], existing, existing, changes, rfl, rfl, hkey, .inl ⟨rfl, .inl hsame.symm⟩⟩
      · cases h
        exact .inr ⟨[], existing, _, changes, rfl, rfl, hkey, .inr ⟨rfl, hold⟩⟩
      · cases h
        exact .inr ⟨[], existing, existing, changes, rfl, rfl, hkey, .inl ⟨rfl, .inr hnew⟩⟩
      · obtain ⟨rest, hrest, rfl⟩ := map_eq_ok.mp h
        rcases ih hrest with ⟨hall, rfl⟩ | ⟨before, e, merged, after, rfl, rfl, hmerged⟩
        · exact .inl ⟨List.forall_mem_cons.mpr ⟨hkey, hall⟩, rfl⟩
        · exact .inr ⟨existing :: before, e, merged, after, rfl, rfl, hmerged⟩

/-- A change is refused only beside another action for its key. -/
theorem insertChange_error {e : SolverXmlError} (h : insertChange change changes = .error e) :
    ∃ existing ∈ changes, existing.key = change.key ∧ existing.action ≠ change.action ∧
      existing.action ≠ .reinstall ∧ change.action ≠ .reinstall := by
  induction changes with
  | nil => cases h
  | cons existing changes ih =>
      rw [insertChange] at h
      split_ifs at h with hkey hsame hold hnew
      · exact ⟨existing, List.mem_cons_self, hkey, hsame, hold, hnew⟩
      · cases hrest : insertChange change changes with
        | ok rest =>
            rw [hrest] at h
            cases h
        | error e' =>
            rw [hrest] at h
            cases h
            obtain ⟨c, hc, hrefused⟩ := ih hrest
            exact ⟨c, List.mem_cons_of_mem _ hc, hrefused⟩

/-- **One more change** keeps the merged changes merged. -/
theorem Merged.insert (h : Merged listed changes) (hbare : ∀ c ∈ listed, c.Bare)
    (hchange : change.Bare) (hinsert : insertChange change changes = .ok changes') :
    Merged (listed ++ [change]) changes' := by
  rcases insertChange_ok hinsert with ⟨hnew, rfl⟩ |
    ⟨before, existing, merged, after, rfl, rfl, hkey, hmerged⟩
  · constructor
    · rw [List.map_append, List.nodup_append]
      refine ⟨h.keys, by simp, ?_⟩
      rintro _ ha _ hb rfl
      obtain ⟨c, hc, hsame⟩ := List.mem_map.mp ha
      rw [List.map_singleton, List.mem_singleton] at hb
      exact hnew c hc (hsame.trans hb)
    · intro c hc
      rcases List.mem_append.mp hc with hc | hc
      · exact List.mem_append_left _ (h.mem c hc)
      · exact List.mem_append_right _ hc
    · intro c hc
      rcases List.mem_append.mp hc with hc | hc
      · obtain ⟨c', hc', hcovers⟩ := h.covers c hc
        exact ⟨c', List.mem_append_left _ hc', hcovers⟩
      · rw [List.mem_singleton.mp hc]
        exact ⟨change, List.mem_append_right _ List.mem_cons_self, rfl, .inl rfl⟩
  · have hexisting : existing ∈ listed := h.mem existing (by simp)
    have hmergedKey : merged.key = existing.key := by
      rcases hmerged with ⟨rfl, -⟩ | ⟨rfl, -⟩ <;> rfl
    -- what was merged is one of the two
    have hone : merged = existing ∨ merged = change := by
      rcases hmerged with ⟨rfl, -⟩ | ⟨rfl, -⟩
      · exact .inl rfl
      · have hbare' : ({ existing with action := change.action } : PackageChange).Bare :=
          hbare existing hexisting
        exact .inr (hbare'.eq hchange hkey rfl)
    constructor
    · have hkeys := h.keys
      rw [List.map_append, List.map_cons] at hkeys ⊢
      rw [hmergedKey]
      exact hkeys
    · intro c hc
      rcases List.mem_append.mp hc with hc | hc
      · exact List.mem_append_left _ (h.mem c (List.mem_append_left _ hc))
      · rcases List.mem_cons.mp hc with rfl | hc
        · rcases hone with rfl | rfl
          · exact List.mem_append_left _ hexisting
          · simp
        · exact List.mem_append_left _ (h.mem c (by simp [hc]))
    · intro c hc
      rcases List.mem_append.mp hc with hc | hc
      · obtain ⟨c', hc', hsame, haction⟩ := h.covers c hc
        rcases List.mem_append.mp hc' with hc' | hc'
        · exact ⟨c', List.mem_append_left _ hc', hsame, haction⟩
        · rcases List.mem_cons.mp hc' with rfl | hc'
          · refine ⟨merged, by simp, hmergedKey.trans hsame, ?_⟩
            rcases hmerged with ⟨rfl, -⟩ | ⟨rfl, hold⟩
            · exact haction
            · exact .inr (haction.elim (·.trans hold) id)
          · exact ⟨c', by simp [hc'], hsame, haction⟩
      · rw [List.mem_singleton.mp hc]
        refine ⟨merged, by simp, hmergedKey.trans hkey, ?_⟩
        rcases hmerged with ⟨rfl, haction⟩ | ⟨rfl, -⟩
        · exact haction
        · exact .inl rfl

/-! ## All changes -/

theorem merged_of_insertAll (hbare : ∀ c ∈ listed, c.Bare)
    (h : insertAll listed [] = .ok changes) : Merged listed changes := by
  induction listed using List.reverseRecOn generalizing changes with
  | nil =>
      cases h
      exact ⟨List.nodup_nil, by simp, by simp⟩
  | append_singleton listed change ih =>
      rw [insertAll_append_singleton] at h
      obtain ⟨before, hbefore, hinsert⟩ := bind_eq_ok.mp h
      rw [List.forall_mem_append, List.forall_mem_singleton] at hbare
      exact (ih hbare.1 hbefore).insert hbare.1 hbare.2 hinsert

theorem Merged.compatible (h : Merged listed changes) : Compatible listed := by
  intro a ha b hb hkey
  obtain ⟨x, hx, hxkey, hxaction⟩ := h.covers a ha
  obtain ⟨y, hy, hykey, hyaction⟩ := h.covers b hb
  have hsame : x = y := List.inj_on_of_nodup_map h.keys hx hy (by rw [hxkey, hkey, hykey])
  subst hsame
  rcases hxaction with hx | hx
  · rcases hyaction with hy | hy
    · exact .inl (hx.trans hy.symm)
    · exact .inr (.inr hy)
  · exact .inr (.inl hx)

/-- What is compatible is merged without a conflict. -/
theorem insertAll_of_compatible (hbare : ∀ c ∈ listed, c.Bare) (h : Compatible listed) :
    ∃ changes, insertAll listed [] = .ok changes := by
  induction listed using List.reverseRecOn with
  | nil => exact ⟨[], rfl⟩
  | append_singleton listed change ih =>
      have hbare' := hbare
      rw [List.forall_mem_append] at hbare
      obtain ⟨before, hbefore⟩ := ih hbare.1 fun a ha b hb =>
        h a (List.mem_append_left _ ha) b (List.mem_append_left _ hb)
      rw [insertAll_append_singleton, hbefore]
      show ∃ changes, insertChange change before = .ok changes
      cases hinsert : insertChange change before with
      | ok changes => exact ⟨changes, rfl⟩
      | error e =>
          obtain ⟨existing, hexisting, hkey, hne, hold, hnew⟩ := insertChange_error hinsert
          have hlisted := (merged_of_insertAll hbare.1 hbefore).mem existing hexisting
          rcases h existing (List.mem_append_left _ hlisted) change (by simp) hkey with h | h | h
          · exact absurd h hne
          · exact absurd h hold
          · exact absurd h hnew

/-- The merged changes are determined up to their order. -/
theorem Merged.perm (hbare : ∀ c ∈ listed, c.Bare) (h : Merged listed changes)
    (h' : Merged listed changes') : changes.Perm changes' := by
  have hsubset : ∀ {xs ys}, Merged listed xs → Merged listed ys → ∀ x ∈ xs, x ∈ ys := by
    intro xs ys hxs hys x hx
    obtain ⟨y, hy, hkey, haction⟩ := hys.covers x (hxs.mem x hx)
    obtain ⟨x', hx', hkey', haction'⟩ := hxs.covers y (hys.mem y hy)
    have hsame : x' = x := List.inj_on_of_nodup_map hxs.keys hx' hx (hkey'.trans hkey)
    rw [hsame] at haction'
    -- the actions are equal: each is the other one, or a reinstallation
    have heq : x.action = y.action := by
      rcases haction with h | h
      · exact h
      · rcases haction' with h' | h'
        · exact h'.symm
        · exact h.trans h'.symm
    rw [(hbare x (hxs.mem x hx)).eq (hbare y (hys.mem y hy)) hkey.symm heq]
    exact hy
  exact (List.perm_ext_iff_of_nodup h.keys.of_map h'.keys.of_map).mpr fun x =>
    ⟨hsubset h h' x, hsubset h' h x⟩

/-- **The order in which changes are listed does not matter.** -/
theorem insertAll_perm (hperm : listed.Perm listed') (hbare : ∀ c ∈ listed, c.Bare)
    (h : insertAll listed [] = .ok changes) :
    ∃ changes', insertAll listed' [] = .ok changes' ∧ changes'.Perm changes := by
  have hbare' : ∀ c ∈ listed', c.Bare := fun c hc => hbare c (hperm.mem_iff.mpr hc)
  have hmerged := merged_of_insertAll hbare h
  have hcompatible : Compatible listed' := fun a ha b hb =>
    hmerged.compatible a (hperm.mem_iff.mpr ha) b (hperm.mem_iff.mpr hb)
  obtain ⟨changes', h'⟩ := insertAll_of_compatible hbare' hcompatible
  have hmerged' := merged_of_insertAll hbare' h'
  have hsame : Merged listed changes' :=
    ⟨hmerged'.keys, fun c hc => hperm.mem_iff.mpr (hmerged'.mem c hc),
      fun c hc => hmerged'.covers c (hperm.mem_iff.mp hc)⟩
  exact ⟨changes', h', hsame.perm hbare hmerged⟩

end

end LyraUpgrade
