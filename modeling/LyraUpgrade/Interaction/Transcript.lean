import LyraUpgrade.Interaction.Program
import Mathlib.Data.List.Forall2

/-!
# Transcripts of programs

The operations a program issues with the answers it is given, whatever gives them: another
program may run in between, and nothing is assumed of the world.

* `Prog.Transcript` — a program, its operations and answers so far, and what is left of it.
* `Prog.Alike` — two programs that do the same up to a relation of events, where the answers
  are the same.
* `recorder` — the contract under which what a program may issue depends on its transcript.
-/

namespace Interaction

universe u

variable {S : Signature.{u}} {α β : Type u}

/-- Given these answers the program issues these operations, and then stands at `q`. -/
inductive Prog.Transcript : Prog S α → List (Event S) → Prog S α → Prop
  | nil (p : Prog S α) : Transcript p [] p
  | cons {e : S.Op} {k : S.Res e → Prog S α} {r : S.Res e} {t : List (Event S)} {q : Prog S α}
      (rest : Transcript (k r) t q) : Transcript (.op e k) (⟨e, r⟩ :: t) q

/-! ## Programs that do the same -/

/-- Where the answers are `valid`, both programs issue related operations; the answer of one
is carried over to the other by `f`. -/
inductive Prog.Alike (R : Event S → Event S → Prop) (valid : Event S → Prop) :
    Prog S α → Prog S α → Prop
  | pure (a : α) : Alike R valid (.pure a) (.pure a)
  | op {e e' : S.Op} {k : S.Res e → Prog S α} {k' : S.Res e' → Prog S α}
      (f : S.Res e → S.Res e') (same : ∀ r, valid ⟨e, r⟩ → R ⟨e, r⟩ ⟨e', f r⟩)
      (rest : ∀ r, valid ⟨e, r⟩ → Alike R valid (k r) (k' (f r))) :
      Alike R valid (.op e k) (.op e' k')

namespace Prog.Alike

variable {R : Event S → Event S → Prop} {valid : Event S → Prop}

theorem refl (hR : ∀ e, R e e) (p : Prog S α) : p.Alike R valid p := by
  induction p with
  | pure a => exact .pure a
  | op e k ih => exact .op id (fun r _ => hR _) fun r _ => ih r

/-- The same program first, and then alike. -/
theorem bind (hR : ∀ e, R e e) (p : Prog S α) {f g : α → Prog S β}
    (h : ∀ a, (f a).Alike R valid (g a)) : (p >>= f).Alike R valid (p >>= g) := by
  induction p with
  | pure a => exact h a
  | op e k ih => exact .op id (fun r _ => hR _) fun r _ => ih r

/-- The same operation first, and then alike for the answers there can be. -/
theorem request_bind (hR : ∀ e, R e e) {e : S.Op} {f g : S.Res e → Prog S β}
    (h : ∀ r, valid ⟨e, r⟩ → (f r).Alike R valid (g r)) :
    (Prog.request e >>= f).Alike R valid (Prog.request e >>= g) :=
  .op id (fun _ _ => hR _) h

/-- **Two runs.**  Given the same answers, what is alike issues related operations. -/
theorem transcript {p p' q : Prog S α} {t : List (Event S)} (h : p.Alike R valid p')
    (ht : p.Transcript t q) (hvalid : ∀ e ∈ t, valid e) :
    ∃ t' q', p'.Transcript t' q' ∧ List.Forall₂ R t t' ∧ q.Alike R valid q' := by
  induction ht generalizing p' with
  | nil p => exact ⟨[], p', .nil p', .nil, h⟩
  | @cons e k r t q rest ih =>
      obtain ⟨hr, ht⟩ := List.forall_mem_cons.mp hvalid
      cases h with
      | op f same hrest =>
          obtain ⟨t', q', ht', hR, hq⟩ := ih (hrest r hr) ht
          exact ⟨_, q', .cons ht', .cons (same r hr) hR, hq⟩

/-- A program that has ended is alike only to itself. -/
theorem eq_pure {a : α} {q : Prog S α} (h : (Prog.pure a).Alike R valid q) : q = .pure a := by
  cases h
  rfl

end Prog.Alike

/-! ## What a program issues after what -/

/-- What may be issued depends on the transcript so far. -/
def recorder (pre : S.Op → List (Event S) → Prop) (valid : Event S → Prop) :
    Contract S (List (Event S)) :=
  Automaton.contract ⟨fun t e => pre e t, fun t e => t ++ [e]⟩ valid

section

variable {pre : S.Op → List (Event S) → Prop} {valid : Event S → Prop}

/-- **In every transcript an operation comes after what it may come after.** -/
theorem Prog.Transcript.recorded {p q : Prog S α} {t s : List (Event S)}
    {Q : α → List (Event S) → Prop} (ht : p.Transcript t q) (h : p.wp (recorder pre valid) Q s)
    (hvalid : ∀ e ∈ t, valid e) {before after : List (Event S)} {e : Event S}
    (hsplit : t = before ++ e :: after) : pre e.op (s ++ before) := by
  induction ht generalizing s before with
  | nil p => exact absurd hsplit (by simp)
  | @cons e' k r t q rest ih =>
      obtain ⟨hpre, hrest⟩ := h
      obtain ⟨hr, ht⟩ := List.forall_mem_cons.mp hvalid
      cases before with
      | nil =>
          cases hsplit
          rw [List.append_nil]
          exact hpre
      | cons first before =>
          rw [List.cons_append, List.cons.injEq] at hsplit
          obtain ⟨rfl, hsplit⟩ := hsplit
          have hnext := ih (hrest r _ ⟨hr, rfl⟩) ht hsplit
          rwa [List.append_assoc] at hnext

/-- Where everything is allowed from now on, any program is. -/
theorem Prog.wp_recorder {I : List (Event S) → Prop} (hpre : ∀ e t, I t → pre e t)
    (hnext : ∀ t e, I t → I (t ++ [e])) (p : Prog S α) {t : List (Event S)} (ht : I t) :
    p.wp (recorder pre valid) (fun _ _ => True) t := by
  induction p generalizing t with
  | pure a => trivial
  | op e k ih =>
      refine ⟨hpre e t ht, ?_⟩
      rintro r _ ⟨-, rfl⟩
      exact ih r (hnext t _ ht)

end

end Interaction
