import LyraUpgrade.Interaction.Pool

/-!
# A program alone

One process that has the world to itself.  `Machine.alone` is the contract of such a
process: every operation is allowed, and the world answers.  Where each answer is
determined, so is the outcome of the program (`Machine.Yields`), and a weakest
precondition is the postcondition at that outcome.
-/

namespace Interaction

universe u

variable {S : Signature.{u}} {W : Type*} {α β : Type u}

/-- The contract of a process that has the world to itself; the abstract state carries
the operations it has issued. -/
def Machine.alone (M : Machine S W) (i : ℕ) :
    Contract S (W × List (Event S)) where
  pre := fun _ _ => True
  next := fun e s r s' => M.exec i e s.1 r s'.1 ∧ s'.2 = s.2 ++ [⟨e, r⟩]

/-- An operation with only one possible answer. -/
theorem Machine.wp_alone_iff {M : Machine S W} {i : ℕ} {e : S.Op}
    {r₀ : S.Res e} {w w₀ : W} {t : List (Event S)} {Q : S.Res e → W × List (Event S) → Prop}
    (h : ∀ r w', M.exec i e w r w' ↔ r = r₀ ∧ w' = w₀) :
    (Prog.request e).wp (M.alone i) Q (w, t) ↔ Q r₀ (w₀, t ++ [⟨e, r₀⟩]) := by
  constructor
  · rintro ⟨-, hQ⟩
    exact hQ r₀ (w₀, _) ⟨(h r₀ w₀).mpr ⟨rfl, rfl⟩, rfl⟩
  · intro hQ
    refine ⟨trivial, ?_⟩
    rintro r ⟨w', t'⟩ ⟨hexec, htrace⟩
    obtain ⟨rfl, rfl⟩ := (h r w').mp hexec
    obtain rfl : t' = t ++ [⟨e, r⟩] := htrace
    exact hQ

/-- Nothing is forbidden to a process that has the world to itself. -/
theorem Machine.wp_alone_true {M : Machine S W} {i : ℕ} (p : Prog S α) (s : W × List (Event S)) :
    p.wp (M.alone i) (fun _ _ => True) s := by
  induction p generalizing s with
  | pure a => trivial
  | op e k ih => exact ⟨trivial, fun r s' _ => ih r s'⟩

/-- What was issued stays in the trace. -/
theorem Machine.wp_alone_grows {M : Machine S W} {i : ℕ} {p : Prog S α} {w : W}
    {t : List (Event S)} {Q : α → W × List (Event S) → Prop} (h : p.wp (M.alone i) Q (w, t)) :
    p.wp (M.alone i) (fun a s => Q a s ∧ t <+: s.2) (w, t) := by
  refine Prog.wp_invariant (I := fun s => t <+: s.2) ?_ (List.prefix_refl t) h
  rintro e s r s' hgrown - ⟨-, htrace⟩
  rw [htrace]
  exact hgrown.trans (List.prefix_append ..)

/-- The program has only one outcome from `w`, whatever was issued before. -/
def Machine.Yields (M : Machine S W) (i : ℕ) (p : Prog S α) (w : W) (a : α) (w' : W) : Prop :=
  ∀ t, ∃ t', ∀ Q : α → W × List (Event S) → Prop, p.wp (M.alone i) Q (w, t) ↔ Q a (w', t')

namespace Machine.Yields

variable {M : Machine S W} {i : ℕ} {w w' w'' : W}

theorem pure (a : α) : M.Yields i (Pure.pure a) w a w := fun t => ⟨t, fun _ => Iff.rfl⟩

theorem request {e : S.Op} {r : S.Res e} (h : ∀ r' w'', M.exec i e w r' w'' ↔ r' = r ∧ w'' = w') :
    M.Yields i (Prog.request e) w r w' :=
  fun t => ⟨t ++ [⟨e, r⟩], fun _ => Machine.wp_alone_iff h⟩

/-- The rest of a program is all that is left to consider. -/
theorem wp_bind {p : Prog S α} {a : α} (h : M.Yields i p w a w') (f : α → Prog S β)
    (t : List (Event S)) : ∃ t', ∀ Q : β → W × List (Event S) → Prop,
      (p >>= f).wp (M.alone i) Q (w, t) ↔ (f a).wp (M.alone i) Q (w', t') := by
  obtain ⟨t', ht'⟩ := h t
  exact ⟨t', fun Q => (Prog.wp_bind ..).trans (ht' _)⟩

theorem bind {p : Prog S α} {f : α → Prog S β} {a : α} {b : β} (h : M.Yields i p w a w')
    (hf : M.Yields i (f a) w' b w'') : M.Yields i (p >>= f) w b w'' := by
  intro t
  obtain ⟨t', ht'⟩ := h.wp_bind f t
  obtain ⟨t'', ht''⟩ := hf t'
  exact ⟨t'', fun Q => (ht' Q).trans (ht'' Q)⟩

/-- The same, for a rest that looks at the trace. -/
theorem wp_bind_of {p : Prog S α} {f : α → Prog S β} {a : α} (h : M.Yields i p w a w')
    {Q : β → W × List (Event S) → Prop} {t : List (Event S)}
    (hf : ∀ t', t <+: t' → (f a).wp (M.alone i) Q (w', t')) :
    (p >>= f).wp (M.alone i) Q (w, t) := by
  obtain ⟨t', ht'⟩ := h t
  have hfinishes : p.wp (M.alone i) (fun _ _ => True) (w, t) := (ht' _).mpr trivial
  have hgrown : t <+: t' := ((ht' _).mp (Machine.wp_alone_grows hfinishes)).2
  rw [Prog.wp_bind, ht']
  exact hf t' hgrown

/-- The same, for an operation: the trace has it. -/
theorem request_bind_of {e : S.Op} {f : S.Res e → Prog S β} {r : S.Res e}
    (h : M.Yields i (Prog.request e) w r w') {Q : β → W × List (Event S) → Prop}
    {t : List (Event S)}
    (hf : ∀ t', t <+: t' → ⟨e, r⟩ ∈ t' → (f r).wp (M.alone i) Q (w', t')) :
    (Prog.request e >>= f).wp (M.alone i) Q (w, t) := by
  obtain ⟨t', ht'⟩ := h t
  have hissued : (Prog.request e).wp (M.alone i)
      (fun r s => ⟨e, r⟩ ∈ s.2) (w, t) := by
    refine ⟨trivial, ?_⟩
    rintro r' s' ⟨-, htrace⟩
    show (⟨e, r'⟩ : Event S) ∈ s'.2
    rw [htrace]
    exact List.mem_append_right _ (List.mem_singleton_self _)
  obtain ⟨hmem, hgrown⟩ := (ht' _).mp (Machine.wp_alone_grows hissued)
  rw [Prog.wp_bind, ht']
  exact hf t' hgrown hmem

end Machine.Yields

/-! ## Operations under a guard -/

/-- The contract of a process that has the world to itself and issues only what `pre`
allows there. -/
def Machine.guarded (M : Machine S W) (i : ℕ) (pre : (e : S.Op) → W → Prop) : Contract S W where
  pre := pre
  next := M.exec i

/-- **A guarded program that may be cut.**  What the allowed operations and a crash keep
holds at every point of its run and after a crash; and where it finishes, so does its
postcondition. -/
theorem Reach.guarded {P : Type*} {M : Machine S W} {program : P → Prog S α}
    {ok : Config S P W α → Label S P → Prop} {pre : (e : S.Op) → W → Prop} {p : Prog S α} {w : W}
    {Q : α → W → Prop} {I : W → Prop} (hp : p.wp (M.guarded 0 pre) Q w) (hI : I w)
    (hact : ∀ e w r w', I w → pre e w → M.exec 0 e w r w' → I w')
    (hcrash : ∀ w w', I w → M.crash w w' → I w') (halone : ∀ c i q, ¬ ok c (.spawn i q))
    {c : Config S P W α} (h : Reach M program ok (Config.solo w p) c) :
    I c.world ∧ ∀ i q, c.procs i = some q → i = 0 ∧ q.wp (M.guarded 0 pre) Q c.world := by
  refine h.invariant (I := fun c => I c.world ∧
    ∀ i q, c.procs i = some q → i = 0 ∧ q.wp (M.guarded 0 pre) Q c.world) ⟨hI, ?_⟩ ?_
  · intro i q hq
    by_cases hi : i = 0
    · subst hi
      cases hq
      exact ⟨rfl, hp⟩
    · simp only [Config.solo, if_neg hi] at hq
      cases hq
  rintro c l c' ⟨hI, hprocs⟩ hok hs
  cases hs with
  | spawn q => exact absurd hok (halone c _ q)
  | crash hleft => exact ⟨hcrash _ _ hI hleft, fun i q hq => by cases hq⟩
  | @act i e k r w' running answer =>
      obtain ⟨rfl, hpre, hnext⟩ := hprocs i _ running
      refine ⟨hact e _ r w' hI hpre answer, fun j q hq => ?_⟩
      dsimp only at hq
      by_cases hj : j = 0
      · subst hj
        rw [Function.update_self] at hq
        cases hq
        exact ⟨rfl, hnext r w' answer⟩
      · rw [Function.update_of_ne hj] at hq
        exact absurd (hprocs j q hq).1 hj

/-- **What a program keeps before each of its operations, and where it finishes,** holds at
every point of its run, and after a crash that keeps it. -/
theorem Reach.throughout {P : Type*} {M : Machine S W} {program : P → Prog S α}
    {ok : Config S P W α → Label S P → Prop} {p : Prog S α} {w : W} {I : W → Prop}
    (hp : p.wp (M.guarded 0 fun _ => I) (fun _ => I) w) (hcrash : ∀ w w', I w → M.crash w w' → I w')
    (halone : ∀ c i q, ¬ ok c (.spawn i q)) {c : Config S P W α}
    (h : Reach M program ok (Config.solo w p) c) : I c.world := by
  have hnow : ∀ {q : Prog S α} {w : W}, q.wp (M.guarded 0 fun _ => I) (fun _ => I) w → I w := by
    intro q w hq
    cases q with
    | pure a => exact hq
    | op e k => exact hq.1
  suffices hall : I c.world ∧ ∀ i q, c.procs i = some q →
      i = 0 ∧ q.wp (M.guarded 0 fun _ => I) (fun _ => I) c.world from hall.1
  refine h.invariant (I := fun c => I c.world ∧ ∀ i q, c.procs i = some q →
      i = 0 ∧ q.wp (M.guarded 0 fun _ => I) (fun _ => I) c.world) ⟨hnow hp, ?_⟩ ?_
  · intro i q hq
    by_cases hi : i = 0
    · subst hi
      cases hq
      exact ⟨rfl, hp⟩
    · simp only [Config.solo, if_neg hi] at hq
      cases hq
  · rintro c l c' ⟨hI, hprocs⟩ hok hs
    cases hs with
    | spawn q => exact absurd hok (halone c _ q)
    | crash hleft => exact ⟨hcrash _ _ hI hleft, fun i q hq => by cases hq⟩
    | @act i e k r w' running answer =>
        obtain ⟨rfl, -, hnext⟩ := hprocs i _ running
        refine ⟨hnow (hnext r w' answer), fun j q hq => ?_⟩
        dsimp only at hq
        by_cases hj : j = 0
        · subst hj
          rw [Function.update_self] at hq
          cases hq
          exact ⟨rfl, hnext r w' answer⟩
        · rw [Function.update_of_ne hj] at hq
          exact absurd (hprocs j q hq).1 hj

end Interaction
