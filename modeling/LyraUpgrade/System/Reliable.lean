import LyraUpgrade.Interaction.Alone
import LyraUpgrade.System.World

/-!
# A program alone, and nothing fails

The answers of the file system when nothing fails are determined by the world.  What a
query answers stays open.
-/

namespace LyraUpgrade

open Interaction

abbrev Trace := List (Event Sig)

/-- One process on a machine without failures. -/
abbrev reliable : Contract Sig (World × Trace) := (system false).alone 0

/-- The program has one outcome there. -/
abbrev Yields {α : Type} (p : Prog Sig α) (w : World) (a : α) (w' : World) : Prop :=
  (system false).Yields 0 p w a w'

section

variable {w : World} {id : String}

theorem yields_load : Yields (ask (.load id)) w (loadState (w.state id) id) w :=
  .request fun r w' => by simp [system, exec, ExecLoad, and_comm]

theorem yields_save {s : OperationStateRecord} (h : Loadable s) :
    Yields (ask (.save s)) w (.ok ()) (w.putState s) :=
  .request fun r w' => by simp [system, exec, ExecSave, checkSave_eq_ok.mpr h]

theorem yields_save_error {s : OperationStateRecord} {e : PersistenceError}
    (h : checkSave s = .error e) : Yields (ask (.save s)) w (.error e) w :=
  .request fun r w' => by simp [system, exec, ExecSave, h]

theorem yields_directoryExists :
    Yields (ask (.directoryExists id)) w (w.operations id).present w :=
  .request fun r w' => by simp [system, exec, and_comm]

theorem yields_readMarker : Yields (ask .readMarker) w (.ok w.marker) w :=
  .request fun r w' => by simp [system, exec, Reads, and_comm]

theorem yields_unlinkMarker (h : w.marker ≠ .absent) :
    Yields (ask .unlinkMarker) w (.ok ()) { w with marker := .absent } :=
  .request fun r w' => by simp [system, exec, Writes, h]

end

end LyraUpgrade
