import LyraUpgrade.Offline.Protocol
import LyraUpgrade.Service.Exclusion
import LyraUpgrade.Service.Reports
import LyraUpgrade.Verifier.Recovery

/-!
# Everything that writes records

The requests of the service with their workers, the offline executor and the boot verifier,
any number of each, on one machine that may fail and crash at any point.

* `Activity` — the programs that can be started.
* `Writer` — the protocols they keep to, with the state each has reached.
-/

namespace LyraUpgrade

open Interaction

inductive Activity
  | request (r : ServiceRequest)
  /-- The offline executor, with its `--reboot` option. -/
  | offline (reboot : Bool)
  /-- The verifier of a boot. -/
  | boot

def Activity.program (ext : Externals) : Activity → Prog Sig Exit
  | .request r => r.program ext
  | .offline reboot => offlineMain ext reboot
  | .boot => verifierMain ext

abbrev Activities := Config Sig Activity World Exit

inductive Writer
  | worker (operationId : String)
  | decision (decision : Decision) (operationId : String)
  | rollback (operationId : String)
  | offline
  | verifier

namespace Writer

@[reducible] def State : Writer → Type
  | worker _ => WorkerState
  | decision _ _ => DecisionState
  | rollback _ => RollbackState
  | offline => OfflineState
  | verifier => VerifierState

def contract (ext : Externals) : (w : Writer) → Contract Sig w.State
  | worker operationId => startContract operationId
  | decision d operationId => decisionContract d operationId
  | rollback operationId => rollbackContract operationId
  | offline => offlineContract ext
  | verifier => verifierContract

/-- Where a program begins. -/
def start : Activity → Σ w, State w
  | .request (.start request) =>
      ⟨worker request.operationId, .start, initialRecord request request.submitted "", []⟩
  | .request (.cancel _ operationId) => ⟨decision cancellation operationId, DecisionState.idle⟩
  | .request (.keepCurrent _ operationId) =>
      ⟨decision recoveryDeclined operationId, DecisionState.idle⟩
  | .request (.rollback _ operationId) => ⟨rollback operationId, RollbackPhase.start, []⟩
  | .offline _ => ⟨offline, OfflinePhase.start, []⟩
  | .boot => ⟨verifier, VerifierPhase.start, []⟩

def next (e : Event Sig) : (Σ w, State w) → Σ w, State w
  | ⟨worker operationId, s⟩ => ⟨worker operationId, WorkerState.next s e⟩
  | ⟨decision d operationId, s⟩ => ⟨decision d operationId, DecisionState.next d s e⟩
  | ⟨rollback operationId, s⟩ => ⟨rollback operationId, RollbackState.next s e⟩
  | ⟨offline, s⟩ => ⟨offline, OfflineState.next s e⟩
  | ⟨verifier, s⟩ => ⟨verifier, VerifierState.next s e⟩

/-- Every answer of the machine is one that the protocols expect. -/
theorem contract_next {ext : Externals} {t : Σ w, State w} {e : Op} {answer : e.Answer} {i : ℕ}
    {w w' : World} (hexec : exec true i e w answer w') :
    (Contract.family (contract ext)).next e t answer (next ⟨e, answer⟩ t) := by
  obtain ⟨_ | _ | _ | _ | _, s⟩ := t
  · exact ⟨_, ⟨validAnswer_of_exec hexec, rfl⟩, rfl⟩
  · exact ⟨_, ⟨validAnswer_of_exec hexec, rfl⟩, rfl⟩
  · exact ⟨_, ⟨validAnswer_of_exec hexec, rfl⟩, rfl⟩
  · exact ⟨_, ⟨validAnswer_of_exec hexec, rfl⟩, rfl⟩
  · exact ⟨_, ⟨validReport_of_exec hexec, rfl⟩, rfl⟩

/-- A protocol determines what it has come to. -/
theorem eq_next {ext : Externals} {t t' : Σ w, State w} {e : Op} {answer : e.Answer}
    (h : (Contract.family (contract ext)).next e t answer t') : t' = next ⟨e, answer⟩ t := by
  obtain ⟨_ | _ | _ | _ | _, s⟩ := t <;> obtain ⟨u, ⟨-, rfl⟩, rfl⟩ := h <;> rfl

end Writer

/-- **Every program keeps to its protocol.** -/
theorem wp_activity (ext : Externals) (activity : Activity) :
    (activity.program ext).wp (Contract.family (Writer.contract ext)) (fun _ _ => True)
      (Writer.start activity) := by
  have hfamily : ∀ {w : Writer} {s : w.State} {p : Prog Sig Exit} {Q : Exit → w.State → Prop},
      p.wp (Writer.contract ext w) Q s →
      p.wp (Contract.family (Writer.contract ext)) (fun _ _ => True) ⟨w, s⟩ :=
    fun h => Prog.wp_mono (fun _ _ _ => trivial) (Prog.wp_family h)
  cases activity with
  | request request =>
      cases request with
      | start request => exact hfamily (w := .worker _) (wp_startReports ext request rfl rfl)
      | cancel uid operationId => exact hfamily (w := .decision cancellation _) (wp_carryOut uid)
      | keepCurrent uid operationId =>
          exact hfamily (w := .decision recoveryDeclined _) (wp_carryOut uid)
      | rollback uid operationId => exact hfamily (w := .rollback _) (wp_rollback uid rfl)
  | offline reboot => exact hfamily (w := .offline) (wp_offlineMain ext reboot rfl)
  | boot => exact hfamily (w := .verifier) (wp_verifierMain ext rfl)

end LyraUpgrade
