import Mathlib.Logic.Function.Basic
import Mathlib.Tactic.Common

/-!
# Interaction programs

A program that talks to its surroundings is a tree: it is finished with a value,
or it issues an operation and continues according to the answer.  Nothing about
the surroundings is fixed here; `Contract` says what a caller may rely on, and
the same tree is later run against a world (`Interaction.Pool`).

* `Prog` — the tree, over a `Signature` of operations and their answers.
* `Contract` and `Prog.wp` — the operations a program may issue in a given
  abstract state, how an answer moves that state, and the weakest precondition
  of a program for a contract.
* `Prog.Only` — the operations a program issues at all, whatever the answers.
* `Automaton` — a contract whose abstract state follows the operations and their
  answers; `Contract.family` — one contract for several kinds of program.
* `wpE` — the same for programs that carry a mutable record and may fail, the
  shape of a function with a `&mut` argument and a `Result`.

The rules come in the order in which a proof meets them: value, operation,
sequencing, consequence.
-/

namespace Interaction

universe u

/-- Operations and the type of the answer to each. -/
structure Signature where
  Op : Type u
  Res : Op → Type u

/-- A program over `S` with results in `α`. -/
inductive Prog (S : Signature.{u}) (α : Type u) : Type u
  | pure (a : α)
  | op (e : S.Op) (k : S.Res e → Prog S α)

namespace Prog

variable {S : Signature.{u}} {α β γ : Type u}

protected def bind : Prog S α → (α → Prog S β) → Prog S β
  | .pure a, f => f a
  | .op e k, f => .op e fun r => (k r).bind f

instance : Monad (Prog S) where
  pure := Prog.pure
  bind := Prog.bind

/-- Issue one operation and return its answer. -/
def request (e : S.Op) : Prog S (S.Res e) := .op e .pure

@[simp] theorem pure_bind (a : α) (f : α → Prog S β) :
    (Prog.pure a).bind f = f a := rfl

@[simp] theorem op_bind (e : S.Op) (k : S.Res e → Prog S α) (f : α → Prog S β) :
    (Prog.op e k).bind f = .op e fun r => (k r).bind f := rfl

theorem bind_pure (p : Prog S α) : p.bind .pure = p := by
  induction p with
  | pure a => rfl
  | op e k ih => rw [op_bind]; congr 1; exact funext ih

theorem bind_assoc (p : Prog S α) (f : α → Prog S β) (g : β → Prog S γ) :
    (p.bind f).bind g = p.bind fun a => (f a).bind g := by
  induction p with
  | pure a => rfl
  | op e k ih => simp only [op_bind]; congr 1; exact funext ih

instance : LawfulMonad (Prog S) :=
  LawfulMonad.mk' _ bind_pure (fun _ _ => rfl) bind_assoc

end Prog

/-! ## Contracts and weakest preconditions -/

/-- What a program may do, over abstract states `σ`: `pre e s` allows the
operation `e` in state `s`, and `next e s r s'` says that the answer `r` may
leave the state at `s'`. -/
structure Contract (S : Signature.{u}) (σ : Type*) where
  pre : (e : S.Op) → σ → Prop
  next : (e : S.Op) → σ → S.Res e → σ → Prop

variable {S : Signature.{u}} {σ : Type*} {α β : Type u}

/-- **Weakest precondition.**  From `s`, every operation the program issues is
allowed when it is issued, whatever the earlier answers were, and the program
can only finish with `Q`. -/
def Prog.wp (K : Contract S σ) (Q : α → σ → Prop) : Prog S α → σ → Prop
  | .pure a, s => Q a s
  | .op e k, s => K.pre e s ∧ ∀ r s', K.next e s r s' → (k r).wp K Q s'

namespace Prog

variable {K : Contract S σ}

@[simp] theorem wp_pure (Q : α → σ → Prop) (a : α) (s : σ) :
    (Pure.pure a : Prog S α).wp K Q s ↔ Q a s := Iff.rfl

@[simp] theorem wp_request (e : S.Op) (Q : S.Res e → σ → Prop) (s : σ) :
    (request e).wp K Q s ↔ K.pre e s ∧ ∀ r s', K.next e s r s' → Q r s' := Iff.rfl

/-- Sequencing: the second program starts where the first one may finish. -/
theorem wp_bind (p : Prog S α) (f : α → Prog S β) (Q : β → σ → Prop) (s : σ) :
    (p >>= f).wp K Q s ↔ p.wp K (fun a s' => (f a).wp K Q s') s := by
  change (p.bind f).wp K Q s ↔ _
  induction p generalizing s with
  | pure a => rfl
  | op e k ih =>
      rw [op_bind]
      exact and_congr_right fun _ => forall_congr' fun r => forall_congr' fun s' =>
        imp_congr_right fun _ => ih r s'

/-- Consequence. -/
theorem wp_mono {Q Q' : α → σ → Prop} (hQ : ∀ a s, Q a s → Q' a s) {p : Prog S α} {s : σ}
    (h : p.wp K Q s) : p.wp K Q' s := by
  induction p generalizing s with
  | pure a => exact hQ a s h
  | op e k ih => exact ⟨h.1, fun r s' hr => ih r (h.2 r s' hr)⟩

/-- Two postconditions hold together. -/
theorem wp_and {Q Q' : α → σ → Prop} {p : Prog S α} {s : σ} (h : p.wp K Q s)
    (h' : p.wp K Q' s) : p.wp K (fun a s => Q a s ∧ Q' a s) s := by
  induction p generalizing s with
  | pure a => exact ⟨h, h'⟩
  | op e k ih => exact ⟨h.1, fun r s' hr => ih r (h.2 r s' hr) (h'.2 r s' hr)⟩

/-- **A program that can always be answered finishes**: what its weakest precondition
promises holds at the end of some run. -/
theorem exists_of_wp {I : σ → Prop}
    (hnext : ∀ e s, I s → ∃ r s', K.next e s r s' ∧ I s') {Q : α → σ → Prop} {p : Prog S α}
    {s : σ} (hs : I s) (h : p.wp K Q s) : ∃ a s', Q a s' ∧ I s' := by
  induction p generalizing s with
  | pure a => exact ⟨a, s, h, hs⟩
  | op e k ih =>
      obtain ⟨r, s', hr, hs'⟩ := hnext e s hs
      exact ih r hs' (h.2 r s' hr)

/-- An invariant of the contract holds where the program finishes. -/
theorem wp_invariant {I : σ → Prop}
    (hI : ∀ e s r s', I s → K.pre e s → K.next e s r s' → I s') {Q : α → σ → Prop}
    {p : Prog S α} {s : σ} (hs : I s) (h : p.wp K Q s) :
    p.wp K (fun a s' => Q a s' ∧ I s') s := by
  induction p generalizing s with
  | pure a => exact ⟨h, hs⟩
  | op e k ih => exact ⟨h.1, fun r s' hr => ih r (hI e s r s' hs h.1 hr) (h.2 r s' hr)⟩

/-- **Two accounts of one program.**  What two contracts allow together, a third one may ask
for, as long as its states are related to those of the second. -/
theorem wp_both {τ : Type*} {K₁ : Contract S σ} {K₂ : Contract S τ} {R : σ → τ → Prop}
    (hpre : ∀ e s t, R s t → K₁.pre e s → K₂.pre e t → K.pre e s)
    (hnext : ∀ e s t r s', R s t → K.next e s r s' →
      K₁.next e s r s' ∧ ∃ t', K₂.next e t r t' ∧ R s' t')
    {Q : α → σ → Prop} {Q' : α → τ → Prop} {p : Prog S α} {s : σ} {t : τ} (hst : R s t)
    (h₁ : p.wp K₁ Q s) (h₂ : p.wp K₂ Q' t) : p.wp K Q s := by
  induction p generalizing s t with
  | pure a => exact h₁
  | op e k ih =>
      refine ⟨hpre e s t hst h₁.1 h₂.1, fun r s' hr => ?_⟩
      obtain ⟨hr₁, t', hr₂, hst'⟩ := hnext e s t r s' hst hr
      exact ih r hst' (h₁.2 r s' hr₁) (h₂.2 r t' hr₂)

end Prog

/-! ## Programs that issue only some operations -/

/-- Every operation of the program satisfies `P`, whatever the answers are. -/
def Prog.Only (P : S.Op → Prop) : Prog S α → Prop
  | .pure _ => True
  | .op e k => P e ∧ ∀ r, (k r).Only P

namespace Prog

variable {P : S.Op → Prop}

@[simp] theorem only_pure (a : α) : (Pure.pure a : Prog S α).Only P := trivial

@[simp] theorem only_request {e : S.Op} : (request e).Only P ↔ P e :=
  ⟨fun h => h.1, fun h => ⟨h, fun _ => trivial⟩⟩

theorem only_bind {p : Prog S α} {f : α → Prog S β} (hp : p.Only P) (hf : ∀ a, (f a).Only P) :
    (p >>= f).Only P := by
  change (p.bind f).Only P
  induction p with
  | pure a => exact hf a
  | op e k ih => exact ⟨hp.1, fun r => ih r (hp.2 r)⟩

theorem only_mono {P' : S.Op → Prop} (hP : ∀ e, P e → P' e) {p : Prog S α} (h : p.Only P) :
    p.Only P' := by
  induction p with
  | pure a => trivial
  | op e k ih => exact ⟨hP e h.1, fun r => ih r (h.2 r)⟩

/-- A program whose operations are all allowed, and move the abstract state only
along a preorder, finishes further along it. -/
theorem wp_of_only {K : Contract S σ} {I : σ → σ → Prop} (hrefl : ∀ s, I s s)
    (htrans : ∀ s t u, I s t → I t u → I s u) (hpre : ∀ e s, P e → K.pre e s)
    (hnext : ∀ e s r s', P e → K.next e s r s' → I s s') {p : Prog S α} (h : p.Only P) (s : σ) :
    p.wp K (fun _ s' => I s s') s := by
  induction p generalizing s with
  | pure a => exact hrefl s
  | op e k ih =>
      refine ⟨hpre e s h.1, fun r s' hr => ?_⟩
      exact wp_mono (fun _ t ht => htrans s s' t (hnext e s r s' h.1 hr) ht) (ih r (h.2 r) s')

end Prog

/-- On every path of the program, an operation of `A` comes before any of `B`. -/
def Prog.Precedes (A B : S.Op → Prop) : Prog S α → Prop
  | .pure _ => True
  | .op e k => A e ∨ (¬ B e ∧ ∀ r, (k r).Precedes A B)

/-! ## Contracts that follow the operations -/

/-- One operation with its answer. -/
structure Event (S : Signature.{u}) where
  op : S.Op
  answer : S.Res op

/-- Abstract states that an operation and its answer move, and the operations
allowed in each. -/
structure Automaton (S : Signature.{u}) (σ : Type*) where
  allows : σ → S.Op → Prop
  next : σ → Event S → σ

/-- The contract of an automaton, for answers that are `valid`. -/
def Automaton.contract (A : Automaton S σ) (valid : Event S → Prop) : Contract S σ where
  pre := fun e s => A.allows s e
  next := fun e s r s' => valid ⟨e, r⟩ ∧ s' = A.next s ⟨e, r⟩

theorem Automaton.wp_request {A : Automaton S σ} {valid : Event S → Prop} {e : S.Op}
    {Q : S.Res e → σ → Prop} {s : σ} (h : A.allows s e)
    (hQ : ∀ r, valid ⟨e, r⟩ → Q r (A.next s ⟨e, r⟩)) :
    (Prog.request e).wp (A.contract valid) Q s := by
  refine ⟨h, ?_⟩
  rintro r _ ⟨hvalid, rfl⟩
  exact hQ r hvalid

/-- One contract for programs of several kinds, each with its own states. -/
def Contract.family {ι : Type*} {τ : ι → Type*} (K : ∀ i, Contract S (τ i)) :
    Contract S (Σ i, τ i) where
  pre := fun e s => (K s.1).pre e s.2
  next := fun e s r s' => ∃ t, (K s.1).next e s.2 r t ∧ s' = ⟨s.1, t⟩

theorem Prog.wp_family {ι : Type*} {τ : ι → Type*} {K : ∀ i, Contract S (τ i)} {i : ι}
    {Q : α → τ i → Prop} {p : Prog S α} {s : τ i} (h : p.wp (K i) Q s) :
    p.wp (Contract.family K) (fun a s' => ∃ t, s' = ⟨i, t⟩ ∧ Q a t) ⟨i, s⟩ := by
  induction p generalizing s with
  | pure a => exact ⟨s, rfl, h⟩
  | op e k ih =>
      refine ⟨h.1, ?_⟩
      rintro r _ ⟨t, ht, rfl⟩
      exact ih r (h.2 r t ht)

/-! ## Programs with a record and an error

`ExceptT ε (StateT ρ (Prog S))`: the record survives an error, as a `&mut`
argument does. -/

/-- Weakest precondition of a failing, record-carrying program.  The
postcondition sees the result, the record and the abstract state. -/
def wpE {ε ρ : Type u} (K : Contract S σ) (Q : Except ε α → ρ → σ → Prop)
    (x : ExceptT ε (StateT ρ (Prog S)) α) (r : ρ) (s : σ) : Prop :=
  (x.run.run r).wp K (fun p s' => Q p.1 p.2 s') s

/-- Run a fallible program inside one with a record, translating the error. -/
def attempt {ε ε' ρ : Type u} (p : Prog S (Except ε' α)) (f : ε' → ε) :
    ExceptT ε (StateT ρ (Prog S)) α :=
  ExceptT.mk fun r => p >>= fun
    | .ok a => Pure.pure (.ok a, r)
    | .error e => Pure.pure (.error (f e), r)

/-- Issue an operation that cannot fail from inside a program with a record. -/
def perform {ε ρ : Type u} (p : Prog S α) : ExceptT ε (StateT ρ (Prog S)) α :=
  ExceptT.mk fun r => p >>= fun a => Pure.pure (.ok a, r)

/-- Fail if the condition holds. -/
def failIf {ε ρ : Type u} (c : Prop) [Decidable c] (error : ε) :
    ExceptT ε (StateT ρ (Prog S)) PUnit :=
  if c then throw error else Pure.pure ⟨⟩

/-- A result that was computed, translating its error. -/
def orFail {ε ε' ρ : Type u} (result : Except ε' α) (f : ε' → ε) :
    ExceptT ε (StateT ρ (Prog S)) α :=
  attempt (Pure.pure result) f

section wpE

variable {ε ε' ρ : Type u} {K : Contract S σ}
variable {Q Q' : Except ε α → ρ → σ → Prop} {r : ρ} {s : σ}

theorem wpE_pure (a : α) : wpE K Q (Pure.pure a) r s ↔ Q (.ok a) r s := Iff.rfl

theorem wpE_throw (e : ε) :
    wpE K Q (throw e : ExceptT ε (StateT ρ (Prog S)) α) r s ↔ Q (.error e) r s := Iff.rfl

/-- Sequencing, with the early return of a failure. -/
theorem wpE_bind (x : ExceptT ε (StateT ρ (Prog S)) β)
    (f : β → ExceptT ε (StateT ρ (Prog S)) α) :
    wpE K Q (x >>= f) r s ↔
      wpE K (fun res r' s' => match res with
        | .ok b => wpE K Q (f b) r' s'
        | .error e => Q (.error e) r' s') x r s := by
  unfold wpE
  have hrun : (x >>= f).run.run r = (x.run.run r) >>= fun p =>
      match p.1 with
      | .ok b => (f b).run.run p.2
      | .error e => Pure.pure (.error e, p.2) := by
    change (x.run.run r) >>= _ = _
    congr 1
    funext p
    obtain ⟨res, r'⟩ := p
    cases res <;> rfl
  rw [hrun, Prog.wp_bind]
  refine iff_of_eq (congrArg (fun Q' => Prog.wp K Q' _ s) ?_)
  funext p s'
  obtain ⟨res, r'⟩ := p
  cases res <;> rfl

theorem wpE_mono (hQ : ∀ res r s, Q res r s → Q' res r s)
    {x : ExceptT ε (StateT ρ (Prog S)) α} (h : wpE K Q x r s) : wpE K Q' x r s :=
  Prog.wp_mono (fun _ _ => hQ _ _ _) h

theorem wpE_attempt (p : Prog S (Except ε' α)) (f : ε' → ε) :
    wpE K Q (attempt p f) r s ↔ p.wp K (fun res s' => match res with
      | .ok a => Q (.ok a) r s'
      | .error e => Q (.error (f e)) r s') s := by
  change Prog.wp K _ (p >>= _) s ↔ _
  rw [Prog.wp_bind]
  refine iff_of_eq (congrArg (fun Q' => Prog.wp K Q' _ s) ?_)
  funext res s'
  cases res <;> rfl

theorem wpE_perform (p : Prog S α) :
    wpE K Q (perform p) r s ↔ p.wp K (fun a s' => Q (.ok a) r s') s := by
  change Prog.wp K _ (p >>= _) s ↔ _
  rw [Prog.wp_bind]
  rfl

theorem wpE_orFail (result : Except ε' α) (f : ε' → ε) :
    wpE K Q (orFail result f) r s ↔ match result with
      | .ok a => Q (.ok a) r s
      | .error e => Q (.error (f e)) r s := by
  rw [orFail, wpE_attempt]
  exact Prog.wp_pure _ _ _

theorem wpE_failIf {Q : Except ε PUnit → ρ → σ → Prop} {c : Prop} [Decidable c] (error : ε) :
    wpE K Q (failIf c error) r s ↔ (c → Q (.error error) r s) ∧ (¬ c → Q (.ok ⟨⟩) r s) := by
  unfold failIf
  by_cases hc : c
  · rw [if_pos hc]
    exact ⟨fun h => ⟨fun _ => h, fun hn => absurd hc hn⟩, fun h => h.1 hc⟩
  · rw [if_neg hc]
    exact ⟨fun h => ⟨fun hp => absurd hp hc, fun _ => h⟩, fun h => h.2 hc⟩

theorem wpE_get {Q : Except ε ρ → ρ → σ → Prop} :
    wpE K Q (get : ExceptT ε (StateT ρ (Prog S)) ρ) r s ↔ Q (.ok r) r s := Iff.rfl

theorem wpE_set {Q : Except ε PUnit → ρ → σ → Prop} (r' : ρ) :
    wpE K Q (set r' : ExceptT ε (StateT ρ (Prog S)) PUnit) r s ↔ Q (.ok ⟨⟩) r' s := Iff.rfl

end wpE

end Interaction
