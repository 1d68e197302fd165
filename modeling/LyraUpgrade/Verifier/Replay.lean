import LyraUpgrade.Verifier.Boot
import LyraUpgrade.Offline.Cleanup

/-!
# The record of the last manifest sequence

`write_sequence` replaces the record through a temporary file of a fixed name, which it
creates and which must not be there.  A replacement that is cut leaves the temporary
file behind, and nothing removes it: later replacements fail until somebody does.
-/

namespace LyraUpgrade

open Interaction

/-! ## Writing and reading a number -/

/-- Digits and the line feed are ASCII. -/
theorem ascii_of_mem_sequenceText {n : ℕ} {c : Char} (h : c ∈ sequenceText n) : c.toNat < 128 := by
  rcases List.mem_append.mp h with h | h
  · have hdigit := isDigit_of_mem_decimal h
    simp only [Char.isDigit, Bool.and_eq_true, decide_eq_true_eq] at hdigit
    exact toNat_lt_of_le hdigit.2 (by decide)
  · rw [List.mem_singleton.mp h]
    decide

/-- What `write_sequence` writes is read back. -/
theorem parseLastSequence_sequenceText {n : ℕ} (hpos : 0 < n) (h : n ≤ u64Max) :
    parseLastSequence (some (sequenceText n)) = .ok (some n) := by
  have hlength : (sequenceText n).length ≤ 21 := by
    have hn : n < 10 ^ 20 := Nat.lt_of_le_of_lt h (by decide)
    have hdigits : (decimal n).length ≤ 20 :=
      (Nat.length_toDigits_le_iff (by decide) (by decide)).mpr hn
    simp only [sequenceText, List.length_append, List.length_singleton]
    omega
  have hsize : ¬ 32 < (String.ofList (sequenceText n)).utf8ByteSize := by
    rw [utf8ByteSize_of_ascii fun c hc =>
      ascii_of_mem_sequenceText (by rwa [String.toList_ofList] at hc), String.toList_ofList]
    omega
  have hlast : (sequenceText n).getLast? = some '\n' := by simp [sequenceText]
  have hdigits : (sequenceText n).dropLast = decimal n := by simp [sequenceText]
  simp only [parseLastSequence, if_neg hsize, if_pos hlast, hdigits, parseDigits_decimal h,
    if_pos hpos]

/-! ## Replacing the record when nothing fails -/

section

variable {w : World} {n : ℕ}

theorem yields_readSequence : Yields (ask .readSequence) w (.ok w.sequence) w :=
  .request fun r w' => by simp [system, exec, Reads, and_comm]

theorem yields_createTemporary (h : w.temporary = none) :
    Yields (ask .createTemporary) w (.ok ()) { w with temporary := some [] } :=
  .request fun r w' => by simp [system, exec, Writes, h]

theorem yields_createTemporary_error (h : w.temporary ≠ none) :
    Yields (ask .createTemporary) w (.error ⟨⟩) w :=
  .request fun r w' => by simp [system, exec, Fails, Option.isSome_iff_ne_none.mpr h]

theorem yields_writeTemporary (text : List Char) :
    Yields (ask (.writeTemporary text)) w (.ok ())
      { w with temporary := w.temporary.map fun _ => text } :=
  .request fun r w' => by simp [system, exec]

theorem yields_syncTemporary : Yields (ask .syncTemporary) w (.ok ()) w :=
  .request fun r w' => by simp [system, exec, Writes]

theorem yields_syncDirectory : Yields (ask .syncDirectory) w (.ok ()) w :=
  .request fun r w' => by simp [system, exec, Writes]

theorem yields_renameTemporary {text : List Char} (h : w.temporary = some text) :
    Yields (ask .renameTemporary) w (.ok ()) { w with sequence := some text, temporary := none } :=
  .request fun r w' => by simp [system, exec, Writes, h]

theorem yields_readManifestSequence {id : String} :
    Yields (ask (.readManifestSequence id)) w (w.operations id).manifest.sequence? w :=
  .request fun r w' => by simp [system, exec, and_comm]

theorem yields_readLastManifestSequence :
    Yields readLastManifestSequence w (parseLastSequence w.sequence) w :=
  yields_readSequence.bind (.pure _)

/-- Without a leftover the record is replaced. -/
theorem yields_replaceSequence (h : w.temporary = none) :
    Yields (replaceSequence n) w (.ok ())
      { w with sequence := some (sequenceText n), temporary := none } := by
  refine (yields_createTemporary h).bind ((yields_writeTemporary _).bind ?_)
  exact yields_syncTemporary.bind ((yields_renameTemporary rfl).bind yields_syncDirectory)

/-- With one, nothing happens. -/
theorem yields_replaceSequence_error (h : w.temporary ≠ none) :
    Yields (replaceSequence n) w (.error ⟨⟩) w :=
  (yields_createTemporary_error h).bind (.pure _)

/-- The record that is there can be read, and is at most `n`. -/
structure World.Precedes (w : World) (n : ℕ) : Prop where
  le : ∃ previous, parseLastSequence w.sequence = .ok previous ∧ ∀ m ∈ previous, m ≤ n

theorem yields_writeSequence {result : Io Unit} {w' : World} (h : w.Precedes n)
    (hreplace : Yields (replaceSequence n) w result w') :
    Yields (writeSequence n) w result w' := by
  obtain ⟨previous, hprevious, hle⟩ := h.le
  refine yields_readLastManifestSequence.bind ?_
  rw [hprevious]
  dsimp only
  rw [if_neg]
  · exact hreplace
  · cases previous with
    | none => nofun
    | some m => simpa using hle m rfl

/-! ## Finishing a check that passed -/

variable {state : OperationStateRecord}

/-- The operation whose check passes consumes the sequence number of its manifest. -/
structure World.Consumes (w : World) (state : OperationStateRecord) (n : ℕ) : Prop where
  signedOffline : state.operation.isSignedOffline
  recovery : state.recovery = none
  manifest : (w.operations state.operationId).manifest.sequence? = some n
  precedes : w.Precedes n

theorem yields_finalizeVerification (h : w.Consumes state n) (htemporary : w.temporary = none) :
    Yields (finalizeVerification state true) w (completedRecord state)
      { w with sequence := some (sequenceText n), temporary := none } := by
  have hconsume : Yields (consumeSequence state.operationId) w true
      { w with sequence := some (sequenceText n), temporary := none } := by
    refine yields_readManifestSequence.bind ?_
    rw [h.manifest]
    exact (yields_writeSequence h.precedes (yields_replaceSequence htemporary)).bind (.pure _)
  rw [finalizeVerification, h.recovery, h.signedOffline]
  exact hconsume.bind (.pure _)

theorem yields_finalizeVerification_error (h : w.Consumes state n)
    (htemporary : w.temporary ≠ none) :
    Yields (finalizeVerification state true) w
      (recoveryRecord state "MANIFEST_SEQUENCE_PERSIST_FAILED") w := by
  have hconsume : Yields (consumeSequence state.operationId) w false w := by
    refine yields_readManifestSequence.bind ?_
    rw [h.manifest]
    exact (yields_writeSequence h.precedes (yields_replaceSequence_error htemporary)).bind (.pure _)
  rw [finalizeVerification, h.recovery, h.signedOffline]
  exact hconsume.bind (.pure _)

/-- The check ends in `Completed`, and the record holds the sequence number. -/
structure Recorded (n : ℕ) (result : OperationStateRecord) (w : World) : Prop where
  completed : result.state = .completed
  sequence : w.sequence = some (sequenceText n)

theorem wp_finalizeVerification (h : w.Consumes state n) (htemporary : w.temporary = none)
    (t : Trace) : (finalizeVerification state true).wp reliable
      (fun result s => Recorded n result s.1) (w, t) := by
  obtain ⟨t', ht'⟩ := yields_finalizeVerification h htemporary t
  rw [ht']
  exact ⟨rfl, rfl⟩

theorem not_wp_finalizeVerification (h : w.Consumes state n) (htemporary : w.temporary ≠ none)
    (t : Trace) : ¬ (finalizeVerification state true).wp reliable
      (fun result s => Recorded n result s.1) (w, t) := by
  obtain ⟨t', ht'⟩ := yields_finalizeVerification_error h htemporary t
  rw [ht']
  intro hrecorded
  cases hrecorded.completed

/-- **A passing check is recorded** exactly when no earlier replacement has left its
temporary file. -/
theorem sequence_recorded (h : w.Consumes state n) (t : Trace) :
    (finalizeVerification state true).wp reliable
      (fun result s => Recorded n result s.1) (w, t) ↔ w.temporary = none := by
  constructor
  · intro hrecorded
    by_contra htemporary
    exact not_wp_finalizeVerification h htemporary t hrecorded
  · intro htemporary
    exact wp_finalizeVerification h htemporary t

end

/-! ## Where a leftover comes from -/

/-- The temporary file was renamed. -/
def renamed {P : Type} : Label Sig P → Bool
  | .act _ .renameTemporary (.ok ()) => true
  | _ => false

/-- A temporary file was created and not renamed since. -/
def CutShort {P : Type} (history : List (Label Sig P)) : Prop :=
  ∃ before i answer after, history = before ++ .act i .createTemporary answer :: after ∧
    ∀ l ∈ after, !renamed l

theorem CutShort.append {P : Type} {history : List (Label Sig P)} (h : CutShort history)
    {l : Label Sig P} (hl : !renamed l) : CutShort (history ++ [l]) := by
  obtain ⟨before, i, answer, after, rfl, hafter⟩ := h
  refine ⟨before, i, answer, after ++ [l], by simp, fun l' hl' => ?_⟩
  rcases List.mem_append.mp hl' with hl' | hl'
  · exact hafter l' hl'
  · rwa [List.mem_singleton.mp hl']

theorem temporary_of_renamed {P : Type} {faults : Bool} {i : ℕ} {e : Op} {answer : e.Answer}
    {w w' : World} (h : exec faults i e w answer w')
    (hrenamed : renamed (.act i e answer : Label Sig P)) : w'.temporary = none := by
  unfold renamed at hrenamed
  split at hrenamed
  · rename_i heq
    cases heq
    simp only [exec] at h
    split at h
    · cases h.1
    · obtain ⟨-, rfl⟩ | ⟨-, h, -⟩ := h
      · rfl
      · cases h
  · cases hrenamed

/-- **A leftover comes from a replacement that was cut**, by a crash or an error, in every
run that starts without one. -/
theorem cutShort_of_temporary {P α : Type} {program : P → Prog Sig α}
    {ok : Config Sig P World α → Label Sig P → Prop} {w : World} (hw : w.temporary = none)
    {c : Config Sig P World α} (h : Reach (system true) program ok (Config.boot w) c) :
    c.world.temporary = none ∨ CutShort c.history := by
  refine h.invariant (I := fun c => c.world.temporary = none ∨ CutShort c.history) (.inl hw) ?_
  intro c l c' hI _ hs
  cases hs with
  | spawn p => exact hI.imp id fun hcut => hcut.append rfl
  | crash hleft =>
      obtain ⟨temporary, hsome, hworld⟩ := hleft
      refine hI.imp (fun hnone => ?_) fun hcut => hcut.append rfl
      rw [hnone] at hsome
      rw [hworld]
      simpa using hsome
  | @act i e k answer w' hrun hans =>
      by_cases hrenamed : renamed (.act i e answer : Label Sig P)
      · exact .inl (temporary_of_renamed hans hrenamed)
      have hkeep : ∀ hcut : CutShort c.history, CutShort (c.history ++ [.act i e answer]) :=
        fun hcut => hcut.append (by simpa using hrenamed)
      cases exec_change hans with
      | create free => exact .inr ⟨c.history, i, answer, [], rfl, fun _ h => nomatch h⟩
      | write text part => exact hI.imp (fun hnone => by rw [hnone]; rfl) hkeep
      | rename text written => exact .inl rfl
      | none | save | file | acquire | release | link | unlink => exact hI.imp id hkeep

/-- **No later upgrade is disabled** by a run in which every replacement was finished. -/
theorem wp_finalizeVerification_of_reach {P α : Type} {program : P → Prog Sig α}
    {ok : Config Sig P World α → Label Sig P → Prop} {w : World} (hw : w.temporary = none)
    {c : Config Sig P World α} (h : Reach (system true) program ok (Config.boot w) c)
    (huncut : ¬ CutShort c.history) {state : OperationStateRecord} {n : ℕ}
    (hstate : c.world.Consumes state n) (t : Trace) :
    (finalizeVerification state true).wp reliable
      (fun result s => Recorded n result s.1) (c.world, t) :=
  wp_finalizeVerification hstate ((cutShort_of_temporary hw h).resolve_right huncut) t

namespace Sample

/-- A release upgrade that waits for its check. -/
def verifyingRecord : OperationStateRecord :=
  { cancelledRecord (some 7) with
    state := .verifyingBoot
    errorCode := none }

/-- The world of that upgrade, whose manifest has sequence number 7. -/
def verifyingWorld : World :=
  { world with
    operations := fun id =>
      if id = operationId then
        { directory with state := .record verifyingRecord, manifest := .manifest manifest }
      else {} }

theorem consumes_verifyingWorld : verifyingWorld.Consumes verifyingRecord 7 :=
  ⟨rfl, rfl, by decide +kernel, ⟨none, rfl, fun _ h => nomatch h⟩⟩

end Sample

theorem sequence_recorded_sample : (finalizeVerification Sample.verifyingRecord true).wp reliable
    (fun result s => Recorded 7 result s.1) (Sample.verifyingWorld, []) :=
  (sequence_recorded Sample.consumes_verifyingWorld []).mpr rfl

/-- A crash after the temporary file was created disables the same upgrade from then on. -/
theorem sequence_not_recorded : ¬ ∀ c : Config Sig ℕ World (Io Unit),
    Reach (system true) writeSequence (fun _ _ => True) (Config.boot Sample.verifyingWorld) c →
    c.world.Consumes Sample.verifyingRecord 7 →
    (finalizeVerification Sample.verifyingRecord true).wp reliable
      (fun result s => Recorded 7 result s.1) (c.world, []) := by
  intro h
  let c := (simulation Sample.oracle).plays writeSequence (Config.boot Sample.verifyingWorld)
    [.spawn 7, .act 0, .act 0, .crash]
  have hconsumes : c.world.Consumes Sample.verifyingRecord 7 :=
    ⟨rfl, rfl, by decide +kernel, ⟨none, by decide +kernel, fun _ h => nomatch h⟩⟩
  refine not_wp_finalizeVerification hconsumes (by decide +kernel) []
    (h c ((simulation Sample.oracle).reach _ _ _) hconsumes)

end LyraUpgrade
