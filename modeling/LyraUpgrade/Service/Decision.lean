import LyraUpgrade.Service.Conformance

/-!
# The protocol of Cancel and KeepCurrent

A request that decides about an operation reads the record once and writes one record
back, without a lock.  Between the two the record may change on disk; what is written
is a copy of what was read.
-/

namespace LyraUpgrade

open Interaction

/-- Where a decision stands. -/
inductive DecisionState
  | idle
  /-- The record was read, and the decision applies to it. -/
  | holding (record : OperationStateRecord)
  | closed
  deriving DecidableEq

namespace DecisionState

variable (decision : Decision) (operationId : String)

def permits (s : DecisionState) : Op → Prop
  | .load id => id = operationId
  | .save r => ∃ m timestamp, s = holding m ∧ r = decision.record m timestamp
  | _ => False

def next (s : DecisionState) (e : Event Sig) : DecisionState :=
  match e, s with
  | ⟨.load _, .ok r⟩, idle => if decision.applies r.state then holding r else closed
  | ⟨.load _, .error _⟩, idle => closed
  | ⟨.save _, _⟩, _ => closed
  | _, s => s

end DecisionState

def decisionAutomaton (decision : Decision) (operationId : String) :
    Automaton Sig DecisionState where
  allows := fun s e => e.isQuiet ∨ s.permits decision operationId e
  next := DecisionState.next decision

def decisionContract (decision : Decision) (operationId : String) : Contract Sig DecisionState :=
  (decisionAutomaton decision operationId).contract validAnswer

namespace DecisionState

variable {decision : Decision} {operationId : String} {s : DecisionState}

/-- The steps of a decision, with the state after each. -/
inductive Moves (decision : Decision) (operationId : String) (s : DecisionState) :
    Event Sig → DecisionState → Prop
  | quiet {e : Event Sig} (quiet : Op.isQuiet e.op) : Moves decision operationId s e s
  | read (m : OperationStateRecord) (idle : s = idle) (applies : decision.applies m.state)
      (id : m.operationId = operationId) (loadable : Loadable m) :
      Moves decision operationId s ⟨.load operationId, .ok m⟩ (holding m)
  | refuse (answer : Except PersistenceError OperationStateRecord) (idle : s = idle) :
      Moves decision operationId s ⟨.load operationId, answer⟩ closed
  | look (answer : Except PersistenceError OperationStateRecord) :
      Moves decision operationId s ⟨.load operationId, answer⟩ s
  | write (m : OperationStateRecord) (timestamp : String)
      (answer : Except PersistenceError Unit) (holds : s = holding m) :
      Moves decision operationId s ⟨.save (decision.record m timestamp), answer⟩ closed

theorem next_quiet {e : Event Sig} (h : Op.isQuiet e.op) : s.next decision e = s := by
  obtain ⟨e, a⟩ := e
  cases e with
  | load _ | save _ => exact absurd h (by simp [Op.isQuiet])
  | _ => rfl

theorem moves {e : Op} {answer : e.Answer} (hallow : e.isQuiet ∨ s.permits decision operationId e)
    (hvalid : validAnswer ⟨e, answer⟩) :
    Moves decision operationId s ⟨e, answer⟩ (s.next decision ⟨e, answer⟩) := by
  rcases hallow with hquiet | hpermit
  · rw [next_quiet hquiet]
    exact .quiet hquiet
  cases e with
  | load id =>
      cases hpermit
      cases s with
      | idle =>
          cases answer with
          | error e => exact .refuse _ rfl
          | ok r =>
              obtain ⟨hid, hloadable⟩ := hvalid r rfl
              change Moves decision operationId _ _ (if decision.applies r.state then holding r
                else closed)
              split_ifs with happlies
              · exact .read r rfl happlies hid hloadable
              · exact .refuse _ rfl
      | holding m => cases answer <;> exact .look _
      | closed => cases answer <;> exact .look _
  | save r =>
      obtain ⟨m, timestamp, rfl, rfl⟩ := hpermit
      exact .write m timestamp answer rfl
  | _ => exact hpermit.elim

end DecisionState

/-! ## The program follows it -/

section

variable {decision : Decision} {operationId : String} {α : Type}

/-- Quiet programs leave the state of a decision. -/
theorem DecisionState.wp_quiet {p : Prog Sig α} (h : Quiet p) (s : DecisionState) :
    p.wp (decisionContract decision operationId) (fun _ s' => s' = s) s := by
  refine Prog.wp_of_only (I := fun s s' => s' = s) (fun _ => rfl) (fun _ _ _ h h' => h'.trans h)
    (fun e s he => Or.inl he) ?_ h s
  rintro e s a _ he ⟨-, rfl⟩
  exact DecisionState.next_quiet he

theorem quiet_rejected (code : String) : Quiet (rejected code) :=
  Prog.only_bind (quiet_ask rfl) fun _ => Prog.only_pure _

/-- Every way to end is allowed. -/
theorem DecisionState.wp_rejected (code : String) (s : DecisionState) :
    (rejected code).wp (decisionContract decision operationId) (fun _ _ => True) s :=
  Prog.wp_mono (fun _ _ _ => trivial) (wp_quiet (quiet_rejected code) s)

theorem DecisionState.wp_status (s : DecisionState) :
    (status operationId).wp (decisionContract decision operationId) (fun _ _ => True) s := by
  unfold status
  rw [Prog.wp_bind]
  refine Automaton.wp_request (Or.inr rfl) fun answer _ => ?_
  cases answer with
  | error e => exact wp_rejected _ _
  | ok state =>
      exact Prog.wp_mono (fun _ _ _ => trivial)
        (wp_quiet (Prog.only_bind (quiet_ask rfl) fun _ => Prog.only_pure _) _)

/-- **Cancel and KeepCurrent keep to the protocol of a decision.** -/
theorem wp_carryOut (uid : ℕ) :
    (decision.carryOut uid operationId).wp (decisionContract decision operationId)
      (fun _ _ => True) .idle := by
  unfold Decision.carryOut
  rw [Prog.wp_bind]
  refine Prog.wp_mono ?_ (DecisionState.wp_quiet (quiet_operationOwnedBy _ _) _)
  rintro owned _ rfl
  split_ifs
  · exact DecisionState.wp_rejected _ _
  rw [Prog.wp_bind]
  refine Automaton.wp_request (Or.inr rfl) fun answer _ => ?_
  cases answer with
  | error e => exact DecisionState.wp_rejected _ _
  | ok m =>
      dsimp only
      split_ifs with happlies
      · exact DecisionState.wp_rejected _ _
      · have hholding : (decisionAutomaton decision operationId).next .idle
            ⟨Op.load operationId, Except.ok m⟩ = .holding m := if_pos (by simpa using happlies)
        rw [hholding, Prog.wp_bind]
        refine Prog.wp_mono ?_ (DecisionState.wp_quiet (quiet_ask rfl) _)
        rintro timestamp _ rfl
        rw [Prog.wp_bind]
        refine Automaton.wp_request (Or.inr ⟨m, timestamp, rfl, rfl⟩) fun answer _ => ?_
        cases answer with
        | error e => exact DecisionState.wp_rejected _ _
        | ok u => exact DecisionState.wp_status _

end

end LyraUpgrade
