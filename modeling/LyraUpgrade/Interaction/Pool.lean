import LyraUpgrade.Interaction.Program
import Mathlib.Logic.Relation

/-!
# Pools of interaction programs

Any number of programs run against one shared world.  A step spawns a process,
lets one process issue its next operation, or crashes the machine, which ends
every process and keeps only what the world keeps.  Process numbers are never
used twice, and the configuration carries the history of its steps, so that
"before" and "after" are statements about one configuration.

* `Machine` — how the world answers an operation, and what a crash leaves of it.
* `Step` — one step, with its `Label`; `Reach ok` — any number of steps, each of
  them allowed by `ok`.
* `Reach.invariant` — the induction, packaged once.
* `Reach.tracked` — the same for processes that keep a contract: the invariant
  may speak of the abstract state each process has reached, and a step has to be
  considered only where the contract allows it.
-/

namespace Interaction

universe u

/-- A shared world.  `exec i e w r w'`: operation `e`, issued by process `i` in
world `w`, may be answered by `r`, leaving `w'`. -/
structure Machine (S : Signature.{u}) (W : Type*) where
  exec : ℕ → (e : S.Op) → W → S.Res e → W → Prop
  crash : W → W → Prop

/-- What a step did.  `P` names the programs that can be spawned. -/
inductive Label (S : Signature.{u}) (P : Type*)
  | spawn (i : ℕ) (p : P)
  | act (i : ℕ) (e : S.Op) (r : S.Res e)
  | crash

/-- World, live processes, the next unused process number, and the steps so far. -/
structure Config (S : Signature.{u}) (P W : Type*) (α : Type u) where
  world : W
  procs : ℕ → Option (Prog S α)
  fresh : ℕ
  history : List (Label S P)

variable {S : Signature.{u}} {P W : Type*} {α : Type u}

/-- A machine that has just been switched on with world `w`. -/
def Config.boot (w : W) : Config S P W α where
  world := w
  procs := fun _ => none
  fresh := 0
  history := []

/-- A machine on which only process `0` runs. -/
def Config.solo (w : W) (p : Prog S α) : Config S P W α where
  world := w
  procs := fun i => if i = 0 then some p else none
  fresh := 1
  history := []

/-- One step of the pool, over the catalogue `program`. -/
inductive Step (M : Machine S W) (program : P → Prog S α) :
    Config S P W α → Label S P → Config S P W α → Prop
  | spawn (c : Config S P W α) (p : P) :
      Step M program c (.spawn c.fresh p)
        { world := c.world
          procs := Function.update c.procs c.fresh (some (program p))
          fresh := c.fresh + 1
          history := c.history ++ [.spawn c.fresh p] }
  | act (c : Config S P W α) {i : ℕ} {e : S.Op} {k : S.Res e → Prog S α} {r : S.Res e} {w : W}
      (running : c.procs i = some (.op e k)) (answer : M.exec i e c.world r w) :
      Step M program c (.act i e r)
        { world := w
          procs := Function.update c.procs i (some (k r))
          fresh := c.fresh
          history := c.history ++ [.act i e r] }
  | crash (c : Config S P W α) {w : W} (left : M.crash c.world w) :
      Step M program c .crash
        { world := w
          procs := fun _ => none
          fresh := c.fresh
          history := c.history ++ [.crash] }

/-- A step that `ok` allows where it is taken. -/
def StepIf (M : Machine S W) (program : P → Prog S α)
    (ok : Config S P W α → Label S P → Prop) (c c' : Config S P W α) : Prop :=
  ∃ l, ok c l ∧ Step M program c l c'

/-- Any number of allowed steps. -/
def Reach (M : Machine S W) (program : P → Prog S α)
    (ok : Config S P W α → Label S P → Prop) : Config S P W α → Config S P W α → Prop :=
  Relation.ReflTransGen (StepIf M program ok)

/-- What a step was to process `i`. -/
def Label.eventOf (i : ℕ) : Label S P → Option (Event S)
  | .act j e r => if j = i then some ⟨e, r⟩ else none
  | _ => none

/-- The operations process `i` has issued, with their answers. -/
def Config.events (c : Config S P W α) (i : ℕ) : List (Event S) :=
  c.history.filterMap (·.eventOf i)

variable {M : Machine S W} {program : P → Prog S α}
variable {ok ok' : Config S P W α → Label S P → Prop} {c c' c'' : Config S P W α}

/-- The history records exactly the step taken. -/
theorem Step.history_eq {l : Label S P} (h : Step M program c l c') :
    c'.history = c.history ++ [l] := by
  cases h <;> rfl

theorem Step.events_eq {l : Label S P} (h : Step M program c l c') (i : ℕ) :
    c'.events i = c.events i ++ (l.eventOf i).toList := by
  rw [Config.events, h.history_eq, List.filterMap_append]
  cases hl : l.eventOf i with
  | none => rw [List.filterMap_cons_none hl]; rfl
  | some e => rw [List.filterMap_cons_some hl]; rfl

theorem Step.procs_spawn {i : ℕ} {p : P} (h : Step M program c (.spawn i p) c') :
    c'.procs = Function.update c.procs c.fresh (some (program p)) := by
  cases h
  rfl

theorem Step.procs_act {i : ℕ} {e : S.Op} {r : S.Res e} (h : Step M program c (.act i e r) c') :
    ∃ k, c.procs i = some (.op e k) ∧ c'.procs = Function.update c.procs i (some (k r)) := by
  cases h with
  | act running => exact ⟨_, running, rfl⟩

theorem Step.exec_act {i : ℕ} {e : S.Op} {r : S.Res e} (h : Step M program c (.act i e r) c') :
    M.exec i e c.world r c'.world := by
  cases h with
  | act _ answer => exact answer

/-- Process numbers are not given out twice. -/
theorem Step.fresh_le {l : Label S P} (h : Step M program c l c') : c.fresh ≤ c'.fresh := by
  cases h with
  | spawn => exact Nat.le_succ _
  | act | crash => exact Nat.le_refl _

namespace Reach

theorem refl : Reach M program ok c c := Relation.ReflTransGen.refl

theorem trans (h : Reach M program ok c c') (h' : Reach M program ok c' c'') :
    Reach M program ok c c'' :=
  Relation.ReflTransGen.trans h h'

theorem tail {l : Label S P} (h : Reach M program ok c c') (hok : ok c' l)
    (hs : Step M program c' l c'') : Reach M program ok c c'' :=
  Relation.ReflTransGen.tail h ⟨l, hok, hs⟩

theorem head {l : Label S P} (hok : ok c l) (hs : Step M program c l c')
    (h : Reach M program ok c' c'') : Reach M program ok c c'' :=
  Relation.ReflTransGen.head ⟨l, hok, hs⟩ h

theorem mono (hok : ∀ c l, ok c l → ok' c l) (h : Reach M program ok c c') :
    Reach M program ok' c c' := by
  induction h with
  | refl => exact refl
  | tail _ hs ih =>
      obtain ⟨l, hl, hs⟩ := hs
      exact ih.tail (hok _ l hl) hs

/-- **What holds at the start and survives every allowed step holds throughout.** -/
theorem invariant {I : Config S P W α → Prop} (hI : I c)
    (hstep : ∀ c l c', I c → ok c l → Step M program c l c' → I c')
    (h : Reach M program ok c c') : I c' := by
  induction h with
  | refl => exact hI
  | tail _ hs ih =>
      obtain ⟨l, hl, hs⟩ := hs
      exact hstep _ l _ ih hl hs

/-- Later histories extend earlier ones. -/
theorem history_grows (h : Reach M program ok c c') : c.history <+: c'.history := by
  refine h.invariant (I := fun d => c.history <+: d.history) (List.prefix_refl _) ?_
  intro d l d' hd _ hs
  rw [hs.history_eq]
  exact hd.trans (List.prefix_append _ _)

end Reach

/-! ## Processes that keep a contract -/

variable {σ : Type*} {K : Contract S σ} {Q : α → σ → Prop}

/-- Every live process still keeps the contract from the abstract state it has
been tracked to, and dead numbers have no abstract state. -/
structure Tracked (K : Contract S σ) (Q : α → σ → Prop) (c : Config S P W α)
    (φ : ℕ → Option σ) : Prop where
  none_of_none : ∀ i, c.procs i = none → φ i = none
  wp_of_some : ∀ i p, c.procs i = some p → ∃ s, φ i = some s ∧ p.wp K Q s
  unused : ∀ i, c.fresh ≤ i → c.procs i = none
  silent : ∀ i, c.fresh ≤ i → c.events i = []

/-- What a proof about tracked processes owes: the invariant `J` over the
configuration and the abstract states survives a spawn, an operation that the
contract allows, and a crash. -/
structure Preserved (M : Machine S W) (program : P → Prog S α) (K : Contract S σ)
    (ok : Config S P W α → Label S P → Prop) (start : P → σ)
    (J : Config S P W α → (ℕ → Option σ) → Prop) : Prop where
  spawn : ∀ c c' φ p, J c φ → φ c.fresh = none → c.events c.fresh = [] →
    ok c (.spawn c.fresh p) → Step M program c (.spawn c.fresh p) c' →
    c'.world = c.world → J c' (Function.update φ c.fresh (some (start p)))
  act : ∀ c c' φ i e r s, J c φ → φ i = some s → K.pre e s → ok c (.act i e r) →
    Step M program c (.act i e r) c' → M.exec i e c.world r c'.world →
    ∃ s', K.next e s r s' ∧ J c' (Function.update φ i (some s'))
  crash : ∀ c c' φ, J c φ → ok c .crash → Step M program c .crash c' →
    M.crash c.world c'.world → J c' fun _ => none

/-- An invariant `J` of the configuration together with one, `L`, of every tracked
process: a step has to be considered for the process that takes it, and the others
have to be framed. -/
theorem Preserved.of_local {start : P → σ} {J : Config S P W α → Prop}
    {L : Config S P W α → ℕ → σ → Prop}
    (spawn : ∀ c c' p, J c → c.events c.fresh = [] → ok c (.spawn c.fresh p) →
      Step M program c (.spawn c.fresh p) c' → c'.world = c.world →
      J c' ∧ L c' c.fresh (start p) ∧ ∀ j t, j ≠ c.fresh → L c j t → L c' j t)
    (act : ∀ c c' (φ : ℕ → Option σ) i e r s, J c → (∀ j t, φ j = some t → L c j t) →
      φ i = some s → K.pre e s → ok c (.act i e r) → Step M program c (.act i e r) c' →
      M.exec i e c.world r c'.world → ∃ s', K.next e s r s' ∧ J c' ∧ L c' i s' ∧
        ∀ j t, j ≠ i → φ j = some t → L c' j t)
    (crash : ∀ c c', J c → ok c .crash → Step M program c .crash c' →
      M.crash c.world c'.world → J c') :
    Preserved M program K ok start fun c φ => J c ∧ ∀ i s, φ i = some s → L c i s where
  spawn := by
    rintro c c' φ p ⟨hJ, hL⟩ hfree hsilent hok hs hw
    obtain ⟨hJ', hnew, hframe⟩ := spawn c c' p hJ hsilent hok hs hw
    refine ⟨hJ', fun i s hi => ?_⟩
    by_cases hic : i = c.fresh
    · subst hic
      rw [Function.update_self] at hi
      cases hi
      exact hnew
    · rw [Function.update_of_ne hic] at hi
      exact hframe i s hic (hL i s hi)
  act := by
    rintro c c' φ i e r s ⟨hJ, hL⟩ hφ hpre hok hs hans
    obtain ⟨s', hnext, hJ', hself, hothers⟩ := act c c' φ i e r s hJ hL hφ hpre hok hs hans
    refine ⟨s', hnext, hJ', fun j t hj => ?_⟩
    by_cases hji : j = i
    · subst hji
      rw [Function.update_self] at hj
      cases hj
      exact hself
    · rw [Function.update_of_ne hji] at hj
      exact hothers j t hji hj
  crash := by
    rintro c c' φ ⟨hJ, -⟩ hok hs hleft
    exact ⟨crash c c' hJ hok hs hleft, fun i s hi => nomatch hi⟩

/-- One more invariant of the configuration. -/
theorem Preserved.and {start : P → σ} {J : Config S P W α → (ℕ → Option σ) → Prop}
    (h : Preserved M program K ok start J) {I : Config S P W α → Prop}
    (spawn : ∀ c c' p, I c → Step M program c (.spawn c.fresh p) c' → c'.world = c.world → I c')
    (act : ∀ c c' φ i e r s, J c φ → I c → φ i = some s → K.pre e s → ok c (.act i e r) →
      Step M program c (.act i e r) c' → M.exec i e c.world r c'.world → I c')
    (crash : ∀ c c', I c → Step M program c .crash c' → M.crash c.world c'.world → I c') :
    Preserved M program K ok start fun c φ => J c φ ∧ I c where
  spawn := fun c c' φ p hJ hfree hsilent hok hs hw =>
    ⟨h.spawn c c' φ p hJ.1 hfree hsilent hok hs hw, spawn c c' p hJ.2 hs hw⟩
  act := by
    rintro c c' φ i e r s ⟨hJ, hI⟩ hφ hpre hok hs hans
    obtain ⟨s', hnext, hJ'⟩ := h.act c c' φ i e r s hJ hφ hpre hok hs hans
    exact ⟨s', hnext, hJ', act c c' φ i e r s hJ hI hφ hpre hok hs hans⟩
  crash := fun c c' φ hJ hok hs hleft =>
    ⟨h.crash c c' φ hJ.1 hok hs hleft, crash c c' hJ.2 hs hleft⟩

/-- One more invariant, of the configuration and the abstract states. -/
theorem Preserved.extend {start : P → σ} {J : Config S P W α → (ℕ → Option σ) → Prop}
    (h : Preserved M program K ok start J) {I : Config S P W α → (ℕ → Option σ) → Prop}
    (spawn : ∀ c c' φ p, J c φ → I c φ → φ c.fresh = none →
      Step M program c (.spawn c.fresh p) c' → c'.world = c.world →
      I c' (Function.update φ c.fresh (some (start p))))
    (act : ∀ c c' φ i e r s s', J c φ → I c φ → φ i = some s → K.pre e s → ok c (.act i e r) →
      Step M program c (.act i e r) c' → M.exec i e c.world r c'.world → K.next e s r s' →
      I c' (Function.update φ i (some s')))
    (crash : ∀ c c' φ, J c φ → I c φ → Step M program c .crash c' → M.crash c.world c'.world →
      I c' fun _ => none) :
    Preserved M program K ok start fun c φ => J c φ ∧ I c φ where
  spawn := fun c c' φ p hJ hfree hsilent hok hs hw =>
    ⟨h.spawn c c' φ p hJ.1 hfree hsilent hok hs hw, spawn c c' φ p hJ.1 hJ.2 hfree hs hw⟩
  act := by
    rintro c c' φ i e r s ⟨hJ, hI⟩ hφ hpre hok hs hans
    obtain ⟨s', hnext, hJ'⟩ := h.act c c' φ i e r s hJ hφ hpre hok hs hans
    exact ⟨s', hnext, hJ', act c c' φ i e r s s' hJ hI hφ hpre hok hs hans hnext⟩
  crash := fun c c' φ hJ hok hs hleft =>
    ⟨h.crash c c' φ hJ.1 hok hs hleft, crash c c' φ hJ.1 hJ.2 hs hleft⟩

/-- One more invariant of the configuration and one of every tracked process: the process
that takes a step has to be considered, and the others have to be framed. -/
theorem Preserved.extend_local {start : P → σ} {J : Config S P W α → (ℕ → Option σ) → Prop}
    (h : Preserved M program K ok start J) {I : Config S P W α → Prop}
    {L : Config S P W α → ℕ → σ → Prop}
    (spawn : ∀ c c' p, I c → Step M program c (.spawn c.fresh p) c' → c'.world = c.world →
      I c' ∧ L c' c.fresh (start p) ∧ ∀ j t, j ≠ c.fresh → L c j t → L c' j t)
    (act : ∀ c c' φ i e r s s', J c φ → I c → L c i s → φ i = some s → K.pre e s →
      Step M program c (.act i e r) c' → M.exec i e c.world r c'.world → K.next e s r s' →
      I c' ∧ L c' i s' ∧ ∀ j t, j ≠ i → L c j t → L c' j t)
    (crash : ∀ c c', I c → Step M program c .crash c' → M.crash c.world c'.world → I c') :
    Preserved M program K ok start fun c φ => J c φ ∧ I c ∧ ∀ i s, φ i = some s → L c i s := by
  refine h.extend ?_ ?_ ?_
  · rintro c c' φ p - ⟨hI, hL⟩ - hs hw
    obtain ⟨hI', hnew, hframe⟩ := spawn c c' p hI hs hw
    refine ⟨hI', fun i s hi => ?_⟩
    by_cases hic : i = c.fresh
    · subst hic
      rw [Function.update_self] at hi
      cases hi
      exact hnew
    · rw [Function.update_of_ne hic] at hi
      exact hframe i s hic (hL i s hi)
  · rintro c c' φ i e r s s' hJ ⟨hI, hL⟩ hφ hpre - hs hans hnext
    obtain ⟨hI', hself, hframe⟩ := act c c' φ i e r s s' hJ hI (hL i s hφ) hφ hpre hs hans hnext
    refine ⟨hI', fun j t hj => ?_⟩
    by_cases hji : j = i
    · subst hji
      rw [Function.update_self] at hj
      cases hj
      exact hself
    · rw [Function.update_of_ne hji] at hj
      exact hframe j t hji (hL j t hj)
  · rintro c c' φ - ⟨hI, -⟩ hs hleft
    exact ⟨crash c c' hI hs hleft, fun i s hi => nomatch hi⟩

/-- Every tracked process is there, and keeps the contract from the abstract state it has
been tracked to. -/
def Keeps (K : Contract S σ) (Q : α → σ → Prop) (c : Config S P W α) (φ : ℕ → Option σ) : Prop :=
  ∀ i s, φ i = some s → ∃ p, c.procs i = some p ∧ p.wp K Q s

/-- A new process keeps the contract, and the others are not concerned. -/
theorem Keeps.spawn {start : P → σ} {φ : ℕ → Option σ} {p : P} (h : Keeps K Q c φ)
    (hprogram : (program p).wp K Q (start p)) (hs : Step M program c (.spawn c.fresh p) c') :
    Keeps K Q c' (Function.update φ c.fresh (some (start p))) := by
  intro i s hi
  rw [hs.procs_spawn]
  by_cases hic : i = c.fresh
  · subst hic
    rw [Function.update_self] at hi ⊢
    cases hi
    exact ⟨_, rfl, hprogram⟩
  · rw [Function.update_of_ne hic] at hi ⊢
    exact h i s hi

/-- A process that acts goes on keeping it. -/
theorem Keeps.act {φ : ℕ → Option σ} {i : ℕ} {e : S.Op} {r : S.Res e} {s s' : σ}
    (h : Keeps K Q c φ) (hφ : φ i = some s) (hs : Step M program c (.act i e r) c')
    (hnext : K.next e s r s') : Keeps K Q c' (Function.update φ i (some s')) := by
  obtain ⟨k, hk, hprocs⟩ := hs.procs_act
  intro j t hj
  rw [hprocs]
  by_cases hji : j = i
  · subst hji
    rw [Function.update_self] at hj ⊢
    cases hj
    obtain ⟨p, hp, hwp⟩ := h j s hφ
    rw [hk] at hp
    cases hp
    exact ⟨_, rfl, hwp.2 r s' hnext⟩
  · rw [Function.update_of_ne hji] at hj ⊢
    exact h j t hj

/-- What is preserved may rest on the tracked processes keeping the contract: a process that
has come to its end has reached its postcondition. -/
theorem Preserved.keeping {start : P → σ} {J : Config S P W α → (ℕ → Option σ) → Prop}
    (hprogram : ∀ p, (program p).wp K Q (start p))
    (spawn : ∀ c c' φ p, J c φ → φ c.fresh = none → ok c (.spawn c.fresh p) →
      Step M program c (.spawn c.fresh p) c' → c'.world = c.world →
      J c' (Function.update φ c.fresh (some (start p))))
    (act : ∀ c c' φ i e r s, J c φ → Keeps K Q c φ → φ i = some s → K.pre e s →
      ok c (.act i e r) → Step M program c (.act i e r) c' → M.exec i e c.world r c'.world →
      ∃ s', K.next e s r s' ∧ J c' (Function.update φ i (some s')))
    (crash : ∀ c c' φ, J c φ → ok c .crash → Step M program c .crash c' →
      M.crash c.world c'.world → J c' fun _ => none) :
    Preserved M program K ok start fun c φ => J c φ ∧ Keeps K Q c φ where
  spawn := fun c c' φ p hJ hfree _ hok hs hw =>
    ⟨spawn c c' φ p hJ.1 hfree hok hs hw, hJ.2.spawn (hprogram p) hs⟩
  act := by
    rintro c c' φ i e r s ⟨hJ, hkeeps⟩ hφ hpre hok hs hans
    obtain ⟨s', hnext, hJ'⟩ := act c c' φ i e r s hJ hkeeps hφ hpre hok hs hans
    exact ⟨s', hnext, hJ', hkeeps.act hφ hs hnext⟩
  crash := fun c c' φ hJ hok hs hleft =>
    ⟨crash c c' φ hJ.1 hok hs hleft, fun i s hi => by cases hi⟩

/-- Process numbers that were not given out yet have left no trace. -/
def Untouched (c : Config S P W α) : Prop :=
  ∀ i, c.fresh ≤ i → c.procs i = none ∧ c.events i = [] ∧ ∀ p, .spawn i p ∉ c.history

theorem Untouched.boot (w : W) : Untouched (Config.boot w : Config S P W α) :=
  fun _ _ => ⟨rfl, rfl, fun _ hmem => by cases hmem⟩

theorem Untouched.step {l : Label S P} (h : Untouched c) (hs : Step M program c l c') :
    Untouched c' := by
  intro i hi
  obtain ⟨hnone, hsilent, hspawn⟩ := h i (Nat.le_trans hs.fresh_le hi)
  rw [hs.events_eq, hsilent, hs.history_eq]
  cases hs with
  | spawn p =>
      have hne : i ≠ c.fresh := by
        have hi : c.fresh + 1 ≤ i := hi
        omega
      refine ⟨(Function.update_of_ne hne _ _).trans hnone, rfl, fun q hmem => ?_⟩
      rcases List.mem_append.mp hmem with hmem | hmem
      · exact hspawn q hmem
      · cases List.mem_singleton.mp hmem
        exact hne rfl
  | @act j e k r w hrun hans =>
      have hne : i ≠ j := by
        rintro rfl
        rw [hnone] at hrun
        cases hrun
      refine ⟨(Function.update_of_ne hne _ _).trans hnone, ?_, fun q hmem => ?_⟩
      · rw [Label.eventOf, if_neg (Ne.symm hne)]
        rfl
      · rcases List.mem_append.mp hmem with hmem | hmem
        · exact hspawn q hmem
        · cases List.mem_singleton.mp hmem
  | crash =>
      refine ⟨rfl, rfl, fun q hmem => ?_⟩
      rcases List.mem_append.mp hmem with hmem | hmem
      · exact hspawn q hmem
      · cases List.mem_singleton.mp hmem

theorem Tracked.boot (w : W) : Tracked K Q (Config.boot w : Config S P W α) fun _ => none :=
  ⟨fun _ _ => rfl, fun _ _ hi => (nomatch hi), fun _ _ => rfl, fun _ _ => rfl⟩

theorem Tracked.solo {w : W} {p : Prog S α} {s : σ} (h : p.wp K Q s) :
    Tracked K Q (Config.solo w p : Config S P W α) fun i => if i = 0 then some s else none where
  none_of_none := by
    intro i hi
    by_cases h0 : i = 0
    · subst h0; cases hi
    · exact if_neg h0
  wp_of_some := by
    intro i q hi
    by_cases h0 : i = 0
    · subst h0; cases hi; exact ⟨s, rfl, h⟩
    · simp only [Config.solo, if_neg h0] at hi
      cases hi
  unused := by
    intro i hi
    have h1 : 1 ≤ i := hi
    exact if_neg (by omega)
  silent := fun _ _ => rfl

/-- What a step does to the abstract states: that of the process which acts moves along the
contract. -/
def Label.Moves (K : Contract S σ) (φ φ' : ℕ → Option σ) : Label S P → Prop
  | .act i e r => ∃ s s', φ i = some s ∧ K.pre e s ∧ K.next e s r s' ∧
      φ' = Function.update φ i (some s')
  | _ => True

/-- **One step** of tracked processes. -/
theorem Tracked.step {start : P → σ} {J : Config S P W α → (ℕ → Option σ) → Prop}
    (hprogram : ∀ p, (program p).wp K Q (start p))
    (hJ : Preserved M program K ok start J) {φ : ℕ → Option σ} (ht : Tracked K Q c φ)
    (hj : J c φ) {l : Label S P} (hok : ok c l) (hs : Step M program c l c') :
    ∃ φ', Tracked K Q c' φ' ∧ J c' φ' ∧ l.Moves K φ φ' := by
  have hs' := hs
  have hsilent : ∀ i, c'.fresh ≤ i → c'.events i = [] := by
    intro i hi
    rw [hs.events_eq i, ht.silent i (Nat.le_trans hs.fresh_le hi), List.nil_append]
    cases hs with
    | spawn | crash => rfl
    | @act j e k r w hrun hans =>
        have hji : j ≠ i := by
          rintro rfl
          rw [ht.unused j hi] at hrun
          cases hrun
        simp [Label.eventOf, hji]
  cases hs with
  | spawn p =>
      have hfree : φ c.fresh = none := ht.none_of_none _ (ht.unused _ (Nat.le_refl _))
      refine ⟨_, ?_, hJ.spawn c _ φ p hj hfree (ht.silent _ (Nat.le_refl _)) hok hs' rfl, trivial⟩
      refine ⟨?_, ?_, ?_, hsilent⟩
      · intro i hi
        by_cases hid : i = c.fresh
        · subst hid; simp at hi
        · simp only [Function.update_of_ne hid] at hi ⊢
          exact ht.none_of_none i hi
      · intro i q hi
        by_cases hid : i = c.fresh
        · subst hid
          simp only [Function.update_self, Option.some.injEq] at hi
          subst hi
          exact ⟨_, Function.update_self .., hprogram p⟩
        · simp only [Function.update_of_ne hid] at hi ⊢
          exact ht.wp_of_some i q hi
      · intro i hi
        have hid : i ≠ c.fresh := by have : c.fresh + 1 ≤ i := hi; omega
        simp only [Function.update_of_ne hid]
        exact ht.unused i (by have : c.fresh + 1 ≤ i := hi; omega)
  | @act i e k r w hrun hans =>
      obtain ⟨s, hφ, hwp⟩ := ht.wp_of_some i _ hrun
      obtain ⟨s', hnext, hj'⟩ := hJ.act c _ φ i e r s hj hφ hwp.1 hok hs' hans
      refine ⟨_, ?_, hj', s, s', hφ, hwp.1, hnext, rfl⟩
      refine ⟨?_, ?_, ?_, hsilent⟩
      · intro n hn
        by_cases hni : n = i
        · subst hni; simp at hn
        · simp only [Function.update_of_ne hni] at hn ⊢
          exact ht.none_of_none n hn
      · intro n q hn
        by_cases hni : n = i
        · subst hni
          simp only [Function.update_self, Option.some.injEq] at hn
          subst hn
          exact ⟨s', Function.update_self .., hwp.2 r s' hnext⟩
        · simp only [Function.update_of_ne hni] at hn ⊢
          exact ht.wp_of_some n q hn
      · intro n hn
        have hfree := ht.unused n hn
        have hni : n ≠ i := by rintro rfl; rw [hrun] at hfree; cases hfree
        simpa only [Function.update_of_ne hni] using hfree
  | crash hleft =>
      exact ⟨fun _ => none, ⟨fun _ _ => rfl, fun _ _ hi => (nomatch hi), fun _ _ => rfl, hsilent⟩,
        hJ.crash c _ φ hj hok hs' hleft, trivial⟩

/-- **Tracking.**  From a tracked configuration with `J`, every configuration
reached is tracked with `J`. -/
theorem Reach.tracked {start : P → σ} {J : Config S P W α → (ℕ → Option σ) → Prop}
    (hprogram : ∀ p, (program p).wp K Q (start p))
    (hJ : Preserved M program K ok start J) {φ : ℕ → Option σ} (htrack : Tracked K Q c φ)
    (hinit : J c φ) (h : Reach M program ok c c') : ∃ φ', Tracked K Q c' φ' ∧ J c' φ' := by
  refine h.invariant (I := fun d => ∃ φ', Tracked K Q d φ' ∧ J d φ') ⟨φ, htrack, hinit⟩ ?_
  rintro d l d' ⟨φ', ht, hj⟩ hok hs
  obtain ⟨φ'', ht', hj', -⟩ := ht.step hprogram hJ hj hok hs
  exact ⟨φ'', ht', hj'⟩

end Interaction
