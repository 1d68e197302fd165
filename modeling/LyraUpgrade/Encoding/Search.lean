import Mathlib.Data.List.Basic
import Mathlib.Data.List.Infix
import Mathlib.Data.List.TakeWhile
import Mathlib.Tactic.Common

/-!
# Searching and replacing

The first place at which a pattern occurs, and texts that come out of other texts by
replacing pieces of them.

A replacement is described by its *sites*: what stands before the piece, the piece, what
stands behind it, and what is put in its place (`Rewrites`).  A pattern that shares no
element with what is put in was there before (`Rewrites.occurrence`), and what follows it is
what followed it before, as far as no site can be in it (`Rewrites.follow`).

## Main definitions

* `find` — the first place of a pattern.
* `Rewrites` — replacing pieces at sites, from left to right.
-/

namespace Encoding

variable {α : Type}

section

variable [DecidableEq α]

/-- The first place at which a pattern occurs. -/
def find (pattern : List α) : List α → Option ℕ
  | [] => if pattern = [] then some 0 else none
  | x :: xs =>
      if pattern <+: x :: xs then some 0 else (find pattern xs).map (· + 1)

variable {pattern xs : List α} {n : ℕ}

theorem find_eq_none : find pattern xs = none ↔ ¬ pattern <:+: xs := by
  induction xs with
  | nil =>
      rw [find]
      split_ifs with h <;> simp [h]
  | cons x xs ih =>
      rw [find, List.infix_cons_iff, not_or, ← ih]
      split_ifs with h
      · simp [h]
      · simp [h]

/-- What stands before the first place, the pattern, and the rest. -/
theorem find_eq_some (h : find pattern xs = some n) :
    ∃ before after, xs = before ++ (pattern ++ after) ∧ before.length = n ∧
      ∀ b c, xs = b ++ (pattern ++ c) → n ≤ b.length := by
  induction xs generalizing n with
  | nil =>
      rw [find] at h
      split_ifs at h with hnil
      cases h
      exact ⟨[], [], by simp [hnil], rfl, fun _ _ _ => Nat.zero_le _⟩
  | cons x xs ih =>
      rw [find] at h
      split_ifs at h with hahead
      · cases h
        obtain ⟨after, hafter⟩ := hahead
        exact ⟨[], after, hafter.symm, rfl, fun _ _ _ => Nat.zero_le _⟩
      · obtain ⟨m, hm, rfl⟩ := Option.map_eq_some_iff.mp h
        obtain ⟨before, after, rfl, hlength, hfirst⟩ := ih hm
        refine ⟨x :: before, after, rfl, by rw [List.length_cons, hlength], fun b c hsplit => ?_⟩
        cases b with
        | nil => exact absurd ⟨c, hsplit.symm⟩ hahead
        | cons y b =>
            rw [List.cons_append, List.cons.injEq] at hsplit
            exact Nat.succ_le_succ (hfirst b c hsplit.2)

theorem find_add_le (h : find pattern xs = some n) : n + pattern.length ≤ xs.length := by
  obtain ⟨before, after, rfl, rfl, -⟩ := find_eq_some h
  rw [List.length_append, List.length_append]
  omega

theorem take_find (h : find pattern xs = some n) :
    xs = xs.take n ++ (pattern ++ xs.drop (n + pattern.length)) := by
  obtain ⟨before, after, rfl, rfl, -⟩ := find_eq_some h
  rw [List.take_left, ← List.drop_drop, List.drop_left, List.drop_left]

end

/-! ## Where a pattern begins -/

section

variable {a b m p out x y : List α}

/-- A pattern that overlaps nothing of a piece does not begin in it. -/
theorem length_le_of_begins (hm : ∀ c ∈ m.tails, c ≠ [] → ¬ c <+: p ∧ ¬ p <+: c)
    (h : m ++ out = a ++ (p ++ b)) : m.length ≤ a.length := by
  rcases List.append_eq_append_iff.mp h with ⟨a', rfl, hout⟩ | ⟨c, rfl, hc⟩
  · simp
  · cases c with
    | nil => simp
    | cons z c =>
        obtain ⟨hpiece, hpattern⟩ :=
          hm (z :: c) ((List.mem_tails _ _).mpr (List.suffix_append a _)) (by simp)
        rcases List.append_eq_append_iff.mp hc with ⟨d, hd, -⟩ | ⟨d, hd, -⟩
        · exact absurd ⟨d, hd.symm⟩ hpattern
        · exact absurd ⟨d, hd.symm⟩ hpiece

/-- What begins behind a piece. -/
theorem split_behind (h : x ++ y = a ++ b) (hlength : x.length ≤ a.length) :
    ∃ a', a = x ++ a' ∧ y = a' ++ b := by
  rcases List.append_eq_append_iff.mp h with ⟨a', rfl, hy⟩ | ⟨c, rfl, hc⟩
  · exact ⟨a', rfl, hy⟩
  · have hnil : c = [] := by
      rw [List.length_append] at hlength
      exact List.eq_nil_of_length_eq_zero (by omega)
    subst hnil
    exact ⟨[], by simp, by simpa using hc.symm⟩

theorem begins_after (hm : ∀ c ∈ m.tails, c ≠ [] → ¬ c <+: p ∧ ¬ p <+: c)
    (h : m ++ out = a ++ (p ++ b)) : ∃ a', a = m ++ a' ∧ out = a' ++ (p ++ b) :=
  split_behind h (length_le_of_begins hm h)

/-- What begins in front and is short enough is in the common beginning of two texts. -/
theorem split_of_length_le (h : x ++ y = a ++ (p ++ b)) (hlength : a.length + p.length ≤ x.length)
    (y' : List α) : ∃ c, x ++ y' = a ++ (p ++ c) := by
  have hahead : a ++ p <+: x := by
    refine @List.prefix_of_prefix_length_le _ (a ++ p) x (x ++ y) ⟨b, ?_⟩ (List.prefix_append x y) ?_
    · rw [List.append_assoc, h]
    · rwa [List.length_append]
  obtain ⟨c, rfl⟩ := hahead
  exact ⟨c ++ y', by simp⟩

end

/-! ## Replacing -/

/-- Pieces are replaced from left to right.  `site before old rest mask`: behind `before`,
and before `rest`, the piece `old` is replaced by `mask`. -/
inductive Rewrites (site : List α → List α → List α → List α → Prop) :
    List α → List α → List α → Prop
  | done (before xs : List α) : Rewrites site before xs xs
  | replace {before kept old rest mask out : List α}
      (hsite : site (before ++ kept) old rest mask)
      (hrest : Rewrites site (before ++ (kept ++ old)) rest out) :
      Rewrites site before (kept ++ (old ++ rest)) (kept ++ (mask ++ out))

namespace Rewrites

variable {site : List α → List α → List α → List α → Prop} {before input out : List α}

/-- What is kept in front. -/
theorem append_left {xs : List α} (h : Rewrites site (before ++ xs) input out) :
    Rewrites site before (xs ++ input) (xs ++ out) := by
  generalize hwhole : before ++ xs = whole at h
  cases h with
  | done => exact .done ..
  | @replace _ kept old rest mask out hsite hrest =>
      subst hwhole
      rw [← List.append_assoc xs kept, ← List.append_assoc xs kept]
      refine .replace ?_ ?_
      · rwa [← List.append_assoc]
      · rwa [← List.append_assoc before, ← List.append_assoc before, List.append_assoc]

/-- A piece that is replaced at once. -/
theorem here {old rest mask : List α} (hsite : site before old rest mask)
    (h : Rewrites site (before ++ old) rest out) :
    Rewrites site before (old ++ rest) (mask ++ out) := by
  have hsite' : site (before ++ []) old rest mask := by rwa [List.append_nil]
  exact .replace hsite' h

/-- Every element was there, or was put in. -/
theorem forall_mem {p : α → Prop} (h : Rewrites site before input out)
    (hmask : ∀ b old rest mask, site b old rest mask → ∀ x ∈ mask, p x)
    (hinput : ∀ x ∈ input, p x) : ∀ x ∈ out, p x := by
  induction h with
  | done => exact hinput
  | replace hsite _ ih =>
      simp only [List.forall_mem_append] at hinput ⊢
      exact ⟨hinput.1, hmask _ _ _ _ hsite, ih hinput.2.2⟩

/-- **What shares nothing with the masks was there before**, and what follows it comes from what
followed it. -/
theorem occurrence {pattern a b : List α} (h : Rewrites site before input out)
    (hpattern : pattern ≠ [])
    (hmask : ∀ b old rest mask, site b old rest mask → mask ≠ [] ∧ ∀ x ∈ mask, x ∉ pattern)
    (hout : out = a ++ (pattern ++ b)) :
    ∃ a' b', input = a' ++ (pattern ++ b') ∧ Rewrites site (before ++ (a' ++ pattern)) b' b := by
  induction h generalizing a with
  | done before xs =>
      subst hout
      exact ⟨a, b, rfl, .done ..⟩
  | @replace before kept old rest mask out hsite hrest ih =>
      obtain ⟨hmask₀, hdisjoint⟩ := hmask _ _ _ _ hsite
      -- the pattern in what is kept
      have hkept : ∀ c, kept = a ++ (pattern ++ c) → b = c ++ (mask ++ out) →
          ∃ a' b', kept ++ (old ++ rest) = a' ++ (pattern ++ b') ∧
            Rewrites site (before ++ (a' ++ pattern)) b' b := by
        rintro c rfl rfl
        refine ⟨a, c ++ (old ++ rest), by simp, .replace ?_ ?_⟩
        · simpa using hsite
        · simpa using hrest
      -- the pattern in what comes after the mask
      have hlater : ∀ c, out = c ++ (pattern ++ b) →
          ∃ a' b', kept ++ (old ++ rest) = a' ++ (pattern ++ b') ∧
            Rewrites site (before ++ (a' ++ pattern)) b' b := by
        intro c hc
        obtain ⟨a', b', rfl, hb⟩ := ih hc
        exact ⟨kept ++ (old ++ a'), b', by simp, by simpa using hb⟩
      rcases List.append_eq_append_iff.mp hout with ⟨c, rfl, hc⟩ | ⟨c, rfl, hc⟩
      · rcases List.append_eq_append_iff.mp hc with ⟨d, rfl, hd⟩ | ⟨d, rfl, hd⟩
        · exact hlater d hd
        · cases d with
          | nil => exact hlater [] hd.symm
          | cons z d =>
              obtain ⟨y, pattern, rfl⟩ := List.exists_cons_of_ne_nil hpattern
              cases (List.cons.inj hd).1
              exact absurd List.mem_cons_self (hdisjoint z (by simp))
      · rcases List.append_eq_append_iff.mp hc with ⟨d, rfl, hd⟩ | ⟨d, rfl, hd⟩
        · exact hkept d rfl hd
        · cases d with
          | nil => exact hkept [] (by simp) (by simpa using hd.symm)
          | cons z d =>
              obtain ⟨y, mask, rfl⟩ := List.exists_cons_of_ne_nil hmask₀
              cases (List.cons.inj hd).1
              exact absurd (by simp) (hdisjoint z List.mem_cons_self)

/-- **What follows stays**, as far as there is no site in it. -/
theorem follow {f x : List α} (h : Rewrites site before (f ++ x) out)
    (hfree : ∀ f₁ f₂, f = f₁ ++ f₂ → f₂ ≠ [] → ∀ old rest mask, f₂ ++ x = old ++ rest →
      ¬ site (before ++ f₁) old rest mask) :
    ∃ y, out = f ++ y ∧ Rewrites site (before ++ f) x y := by
  generalize hinput : f ++ x = input at h
  cases h with
  | done =>
      subst hinput
      exact ⟨x, rfl, .done ..⟩
  | @replace _ kept old rest mask out hsite hrest =>
      have hkept : ∀ c, kept = f ++ c → x = c ++ (old ++ rest) →
          ∃ y, kept ++ (mask ++ out) = f ++ y ∧ Rewrites site (before ++ f) x y := by
        rintro c rfl rfl
        refine ⟨c ++ (mask ++ out), by simp, .replace ?_ ?_⟩
        · simpa using hsite
        · simpa using hrest
      rcases List.append_eq_append_iff.mp hinput with ⟨c, rfl, hc⟩ | ⟨c, rfl, hc⟩
      · exact hkept c rfl hc
      · by_cases hnil : c = []
        · subst hnil
          exact hkept [] (by simp) (by simpa using hc.symm)
        · exact absurd hsite (hfree kept c rfl hnil _ _ _ hc.symm)

/-- **The first element stays**, where there is no site at once. -/
theorem head?_eq (h : Rewrites site before input out)
    (hfree : ∀ old rest mask, ¬ site before old rest mask) : out.head? = input.head? := by
  cases h with
  | done => rfl
  | @replace _ kept old rest mask out hsite _ =>
      cases kept with
      | nil =>
          rw [List.append_nil] at hsite
          exact absurd hsite (hfree _ _ _)
      | cons c kept => rfl

end Rewrites

end Encoding
