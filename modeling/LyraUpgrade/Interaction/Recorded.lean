import LyraUpgrade.Interaction.Pool

/-!
# Programs whose protocol is what they have heard

Some programs keep no state between their operations but what the answers so far tell them.
Their contract is a condition on the list of operations and answers before the one that is
issued, and over a run it becomes a statement about the history: every operation was allowed
by what its process had heard when it was issued (`Reach.allowed`).

A program over one signature is also one over a larger signature (`Prog.left`), and keeps
there the part of a contract that speaks of it.

* `Signature.sum`, `Prog.left` — programs over a part of the operations.
* `recording` — the contract of a condition on what was heard.
* `Throughout` — a property of every entry of a list and what stands before it.
-/

namespace Interaction

universe u

/-! ## Programs over a part of the operations -/

/-- The operations of two signatures. -/
@[reducible] def Signature.sum (S T : Signature.{u}) : Signature.{u} where
  Op := S.Op ⊕ T.Op
  Res := Sum.elim S.Res T.Res

variable {S T : Signature.{u}} {α : Type u} {σ : Type*}

/-- A program over the first of them. -/
def Prog.left : Prog S α → Prog (S.sum T) α
  | .pure a => .pure a
  | .op e k => .op (.inl e) fun r => (k r).left

/-- What a contract says of the first signature. -/
def Contract.left (K : Contract (S.sum T) σ) : Contract S σ where
  pre := fun e s => K.pre (.inl e) s
  next := fun e s r s' => K.next (.inl e) s r s'

theorem Prog.wp_left {K : Contract (S.sum T) σ} {Q : α → σ → Prop} {p : Prog S α} {s : σ} :
    (p.left : Prog (S.sum T) α).wp K Q s ↔ p.wp K.left Q s := by
  induction p generalizing s with
  | pure a => rfl
  | op e k ih =>
      exact and_congr_right fun _ => forall_congr' fun r => forall_congr' fun s' =>
        imp_congr_right fun _ => ih r

/-! ## Lists that grow -/

/-- The property holds of every entry and what stands before it. -/
def Throughout {β : Type*} (T : List β → β → Prop) (h : List β) : Prop :=
  ∀ before b after, h = before ++ b :: after → T before b

section

variable {β : Type*} {T : List β → β → Prop} {h : List β} {b : β}

theorem Throughout.nil : Throughout T [] := by
  intro before b after heq
  cases before <;> cases heq

theorem Throughout.snoc (hall : Throughout T h) (hlast : T h b) : Throughout T (h ++ [b]) := by
  intro before b' after heq
  rcases List.eq_nil_or_concat after with rfl | ⟨after, b'', rfl⟩
  · obtain ⟨rfl, hb⟩ := List.append_inj' heq rfl
    cases hb
    exact hlast
  · rw [List.concat_eq_append, ← List.cons_append, ← List.append_assoc] at heq
    exact hall before b' after (List.append_inj' heq rfl).1

end

/-! ## What was heard -/

section

variable {P W : Type*} {M : Machine S W} {program : P → Prog S α}

/-- The operations of process `i` in a history, with their answers. -/
def heard (h : List (Label S P)) (i : ℕ) : List (Event S) := h.filterMap (·.eventOf i)

theorem heard_append (h h' : List (Label S P)) (i : ℕ) :
    heard (h ++ h') i = heard h i ++ heard h' i :=
  List.filterMap_append

theorem heard_act (h : List (Label S P)) (i : ℕ) (e : S.Op) (r : S.Res e) :
    heard (h ++ [.act i e r]) i = heard h i ++ [⟨e, r⟩] := by
  rw [heard_append]
  simp [heard, Label.eventOf]

theorem heard_of_eventOf {l : Label S P} {i : ℕ} (h : List (Label S P))
    (hl : l.eventOf i = none) : heard (h ++ [l]) i = heard h i := by
  rw [heard_append]
  simp [heard, hl]

/-- What was heard was answered at some point of the history. -/
theorem exists_of_mem_heard {h : List (Label S P)} {i : ℕ} {e : S.Op} {r : S.Res e}
    (hmem : ⟨e, r⟩ ∈ heard h i) : ∃ before after, h = before ++ .act i e r :: after := by
  obtain ⟨l, hl, hevent⟩ := List.mem_filterMap.mp hmem
  cases l with
  | spawn | crash => cases hevent
  | act j e' r' =>
      simp only [Label.eventOf] at hevent
      split_ifs at hevent with hji
      subst hji
      cases hevent
      exact List.append_of_mem hl

/-- The contract of a condition on what the process has heard so far. -/
def recording (allows : List (Event S) → S.Op → Prop) (valid : Event S → Prop) :
    Contract S (List (Event S)) :=
  Automaton.contract ⟨allows, fun t e => t ++ [e]⟩ valid

variable {allows : List (Event S) → S.Op → Prop} {valid : Event S → Prop}

/-- The process was allowed to issue the operation. -/
def Permitted (allows : List (Event S) → S.Op → Prop) (before : List (Label S P)) :
    Label S P → Prop
  | .act i e _ => allows (heard before i) e
  | _ => True

/-- The step is answered in a valid way. -/
theorem preserved_permitted {ok : Config S P W α → Label S P → Prop}
    (hvalid : ∀ i e w r w', M.exec i e w r w' → valid ⟨e, r⟩) :
    Preserved M program (recording allows valid) ok (fun _ => []) fun c φ =>
      Throughout (Permitted allows) c.history ∧ ∀ i t, φ i = some t → t = heard c.history i := by
  refine Preserved.of_local (L := fun c i t => t = heard c.history i) ?_ ?_ ?_
  · intro c c' p hall hsilent _ hs _
    rw [hs.history_eq]
    refine ⟨hall.snoc trivial, ?_, fun j t _ ht => ?_⟩
    · rw [heard_of_eventOf _ rfl]
      exact hsilent.symm
    · rw [heard_of_eventOf _ rfl]
      exact ht
  · intro c c' φ i e r t hall hheard hφ hpre _ hs hexec
    have ht := hheard i t hφ
    rw [hs.history_eq]
    refine ⟨t ++ [⟨e, r⟩], ⟨hvalid i e _ r _ hexec, rfl⟩, hall.snoc ?_, ?_, fun j u hji hj => ?_⟩
    · have hallow : allows t e := hpre
      rw [ht] at hallow
      exact hallow
    · rw [heard_act, ht]
    · have hother : (Label.act i e r : Label S P).eventOf j = none := if_neg (Ne.symm hji)
      rw [heard_of_eventOf _ hother]
      exact hheard j u hj
  · intro c c' hall _ hs _
    rw [hs.history_eq]
    exact hall.snoc trivial

/-- **Every operation of a run was allowed by what its process had heard.** -/
theorem Reach.allowed {ok : Config S P W α → Label S P → Prop} {Q : α → List (Event S) → Prop}
    (hprogram : ∀ p, (program p).wp (recording allows valid) Q [])
    (hvalid : ∀ i e w r w', M.exec i e w r w' → valid ⟨e, r⟩) {w : W} {c : Config S P W α}
    (h : Reach M program ok (Config.boot w) c) : Throughout (Permitted allows) c.history := by
  obtain ⟨φ, -, hall, -⟩ := h.tracked hprogram (preserved_permitted hvalid) (Tracked.boot w)
    ⟨Throughout.nil, fun i t hi => by cases hi⟩
  exact hall

/-- A property of every entry of the history, with an invariant of the world that may speak of
the history, too. -/
theorem Reach.throughout_history {ok : Config S P W α → Label S P → Prop}
    {I : List (Label S P) → W → Prop} {T : List (Label S P) → Label S P → Prop} {w : W}
    (hI : I [] w) (hstep : ∀ c l c', I c.history c.world → Step M program c l c' →
      I (c.history ++ [l]) c'.world ∧ T c.history l) {c : Config S P W α}
    (h : Reach M program ok (Config.boot w) c) : Throughout T c.history := by
  have hboth : I c.history c.world ∧ Throughout T c.history := by
    refine h.invariant (I := fun d => I d.history d.world ∧ Throughout T d.history)
      ⟨hI, Throughout.nil⟩ ?_
    rintro d l d' ⟨hd, hall⟩ - hs
    obtain ⟨hd', hl⟩ := hstep d l d' hd hs
    rw [hs.history_eq]
    exact ⟨hd', hall.snoc hl⟩
  exact hboth.2

end

end Interaction
