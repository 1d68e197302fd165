import LyraUpgrade.Interaction.Pool

/-!
# Scheduled runs

A strategy fixes how a machine answers, and a schedule who is next; together they
make a run of a pool a computation.  Such a run is one of the runs that `Reach`
speaks of (`Strategy.reach`), so a property of all runs can be refuted by computing
one.
-/

namespace Interaction

universe u

variable {S : Signature.{u}} {P W : Type*} {α : Type u}

/-- Answers that the machine allows. -/
structure Strategy (M : Machine S W) where
  answer : ℕ → (e : S.Op) → W → S.Res e × W
  sound : ∀ i e w, M.exec i e w (answer i e w).1 (answer i e w).2
  crash : W → W
  crash_sound : ∀ w, M.crash w (crash w)

/-- What happens next. -/
inductive Choice (P : Type*)
  | spawn (p : P)
  | act (i : ℕ)
  | crash

namespace Strategy

variable {M : Machine S W} (strategy : Strategy M) (program : P → Prog S α)

/-- One step.  A process that has ended does nothing. -/
def play (c : Config S P W α) : Choice P → Config S P W α
  | .spawn p =>
      { world := c.world
        procs := Function.update c.procs c.fresh (some (program p))
        fresh := c.fresh + 1
        history := c.history ++ [.spawn c.fresh p] }
  | .act i =>
      match c.procs i with
      | some (.op e k) =>
          { world := (strategy.answer i e c.world).2
            procs := Function.update c.procs i (some (k (strategy.answer i e c.world).1))
            fresh := c.fresh
            history := c.history ++ [.act i e (strategy.answer i e c.world).1] }
      | _ => c
  | .crash =>
      { world := strategy.crash c.world
        procs := fun _ => none
        fresh := c.fresh
        history := c.history ++ [.crash] }

/-- The configuration after a schedule. -/
def plays (c : Config S P W α) (schedule : List (Choice P)) : Config S P W α :=
  schedule.foldl (strategy.play program) c

theorem plays_append (c : Config S P W α) (first second : List (Choice P)) :
    strategy.plays program c (first ++ second) =
      strategy.plays program (strategy.plays program c first) second :=
  List.foldl_append

/-- What that step is, if there is one. -/
def label (c : Config S P W α) : Choice P → Option (Label S P)
  | .spawn p => some (.spawn c.fresh p)
  | .act i =>
      match c.procs i with
      | some (.op e _) => some (.act i e (strategy.answer i e c.world).1)
      | _ => none
  | .crash => some .crash

/-- The step of a process whose turn it is. -/
theorem label_act {c : Config S P W α} {i : ℕ} {l : Label S P}
    (h : strategy.label c (.act i) = some l) : ∃ e r, l = .act i e r := by
  simp only [label] at h
  rcases hproc : c.procs i with _ | _ | ⟨e, k⟩ <;> simp only [hproc] at h
  · cases h
  · cases h
  · cases h
    exact ⟨e, _, rfl⟩

variable {ok : Config S P W α → Label S P → Prop}

/-- **A step of the strategy is a step.** -/
theorem step_play {c : Config S P W α} {choice : Choice P} {l : Label S P}
    (h : strategy.label c choice = some l) :
    Step M program c l (strategy.play program c choice) := by
  cases choice with
  | spawn p =>
      cases h
      exact .spawn c p
  | act i =>
      simp only [label] at h
      rcases hproc : c.procs i with _ | _ | ⟨e, k⟩ <;> simp only [hproc] at h
      · cases h
      · cases h
      · cases h
        simp only [play, hproc]
        exact .act c hproc (strategy.sound i e c.world)
  | crash =>
      cases h
      exact .crash c (strategy.crash_sound c.world)

theorem reach_play (c : Config S P W α) (choice : Choice P)
    (hok : ∀ l, strategy.label c choice = some l → ok c l) :
    Reach M program ok c (strategy.play program c choice) := by
  cases hlabel : strategy.label c choice with
  | some l => exact Reach.refl.tail (hok l hlabel) (strategy.step_play program hlabel)
  | none =>
      -- a process that has ended has no turn
      cases choice with
      | spawn p => cases hlabel
      | act i =>
          simp only [label] at hlabel
          rcases hproc : c.procs i with _ | _ | ⟨e, k⟩ <;> simp only [hproc] at hlabel
          · simp only [play, hproc]
            exact Reach.refl
          · simp only [play, hproc]
            exact Reach.refl
          · cases hlabel
      | crash => cases hlabel

/-- **A scheduled run is a run**, of those whose steps are all allowed.  `I` is what may be
assumed of the configurations on the way. -/
theorem reach_if {I : Config S P W α → Prop} {c : Config S P W α} {schedule : List (Choice P)}
    (hI : I c) (hok : ∀ choice ∈ schedule, ∀ c, I c → I (strategy.play program c choice) ∧
      ∀ l, strategy.label c choice = some l → ok c l) :
    Reach M program ok c (strategy.plays program c schedule) := by
  induction schedule generalizing c with
  | nil => exact Reach.refl
  | cons choice schedule ih =>
      obtain ⟨hnext, hlabel⟩ := hok choice (List.mem_cons_self ..) c hI
      exact (strategy.reach_play program c choice hlabel).trans
        (ih hnext fun choice' h => hok choice' (List.mem_cons_of_mem _ h))

/-- Later configurations extend the history. -/
theorem history_grows (c : Config S P W α) (schedule : List (Choice P)) :
    c.history <+: (strategy.plays program c schedule).history := by
  have hrun : Reach M program (fun _ _ => True) c (strategy.plays program c schedule) :=
    strategy.reach_if program (I := fun _ => True) trivial fun _ _ _ _ =>
      ⟨trivial, fun _ _ => trivial⟩
  exact hrun.history_grows

/-- One step on another machine that can answer in the same way. -/
theorem reach_play_on {M' : Machine S W} {good : Label S P → Prop}
    (hexec : ∀ i e w, good (.act i e (strategy.answer i e w).1) →
      M'.exec i e w (strategy.answer i e w).1 (strategy.answer i e w).2)
    (hcrash : ¬ good .crash) (c : Config S P W α) (choice : Choice P)
    (hgood : ∀ l ∈ (strategy.play program c choice).history, good l)
    (hok : ∀ l, strategy.label c choice = some l → ok c l) :
    Reach M' program (fun c l => ok c l ∧ good l) c (strategy.play program c choice) := by
  cases choice with
  | spawn p =>
      refine Reach.refl.tail ⟨hok _ rfl, hgood _ ?_⟩ (.spawn c p)
      exact List.mem_append_right _ (List.mem_singleton_self _)
  | act i =>
      simp only [label] at hok
      rcases hproc : c.procs i with _ | _ | ⟨e, k⟩
      · simp only [play, hproc]
        exact Reach.refl
      · simp only [play, hproc]
        exact Reach.refl
      · simp only [play, hproc] at hok hgood ⊢
        have hlast := hgood _ (List.mem_append_right _ (List.mem_singleton_self _))
        exact Reach.refl.tail ⟨hok _ rfl, hlast⟩ (.act c hproc (hexec i e c.world hlast))
  | crash => exact absurd (hgood .crash (List.mem_append_right _ (List.mem_singleton_self _))) hcrash

/-- **A scheduled run is a run of every machine** that can answer the operations on it in the
same way. -/
theorem reach_on {M' : Machine S W} {good : Label S P → Prop}
    (hexec : ∀ i e w, good (.act i e (strategy.answer i e w).1) →
      M'.exec i e w (strategy.answer i e w).1 (strategy.answer i e w).2)
    (hcrash : ¬ good .crash) {I : Config S P W α → Prop} {c : Config S P W α}
    {schedule : List (Choice P)} (hI : I c)
    (hok : ∀ choice ∈ schedule, ∀ c, I c → I (strategy.play program c choice) ∧
      ∀ l, strategy.label c choice = some l → ok c l)
    (hgood : ∀ l ∈ (strategy.plays program c schedule).history, good l) :
    Reach M' program (fun c l => ok c l ∧ good l) c (strategy.plays program c schedule) := by
  induction schedule generalizing c with
  | nil => exact Reach.refl
  | cons choice schedule ih =>
      obtain ⟨hnext, hlabel⟩ := hok choice (List.mem_cons_self ..) c hI
      have hgrows := strategy.history_grows program (strategy.play program c choice) schedule
      exact (strategy.reach_play_on program hexec hcrash c choice
          (fun l hl => hgood l (hgrows.subset hl)) hlabel).trans
        (ih hnext (fun choice' h => hok choice' (List.mem_cons_of_mem _ h)) hgood)

/-- A run whose steps are all of the good kind. -/
theorem reach_good {good : Label S P → Prop} (hcrash : ¬ good .crash) {c : Config S P W α}
    {schedule : List (Choice P)}
    (hgood : ∀ l ∈ (strategy.plays program c schedule).history, good l) :
    Reach M program (fun _ l => good l) c (strategy.plays program c schedule) := by
  have hrun : Reach M program (fun _ l => True ∧ good l) c (strategy.plays program c schedule) :=
    strategy.reach_on program (fun i e w _ => strategy.sound i e w) hcrash (I := fun _ => True)
      trivial (fun _ _ _ _ => ⟨trivial, fun _ _ => trivial⟩) hgood
  exact hrun.mono fun _ _ h => h.2

theorem reach (c : Config S P W α) (schedule : List (Choice P)) :
    Reach M program (fun _ _ => True) c (strategy.plays program c schedule) :=
  strategy.reach_if program (I := fun _ => True) trivial fun _ _ _ _ =>
    ⟨trivial, fun _ _ => trivial⟩

/-- A process that has no turn stays as it is. -/
theorem procs_act_of_ne (c : Config S P W α) {i j : ℕ} (h : j ≠ i) :
    (strategy.play program c (.act i)).procs j = c.procs j := by
  rcases hproc : c.procs i with _ | _ | ⟨e, k⟩
  · simp only [play, hproc]
  · simp only [play, hproc]
  · simp only [play, hproc]
    exact Function.update_of_ne h ..

/-- It has issued nothing. -/
theorem events_act_of_ne (c : Config S P W α) {i j : ℕ} (h : j ≠ i) :
    (strategy.play program c (.act i)).events j = c.events j := by
  rcases hproc : c.procs i with _ | _ | ⟨e, k⟩
  · simp only [play, hproc]
  · simp only [play, hproc]
  · simp only [play, hproc, Config.events, List.filterMap_append]
    rw [show [Label.act i e (strategy.answer i e c.world).1].filterMap
      (fun l : Label S P => l.eventOf j) = [] from List.filterMap_cons_none (if_neg (Ne.symm h))]
    exact List.append_nil _

theorem events_spawn (c : Config S P W α) (p : P) (j : ℕ) :
    (strategy.play program c (.spawn p)).events j = c.events j := by
  simp only [play, Config.events, List.filterMap_append]
  exact List.append_nil _

end Strategy

end Interaction
