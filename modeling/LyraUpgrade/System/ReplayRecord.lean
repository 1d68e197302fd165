import LyraUpgrade.Core.Route
import LyraUpgrade.System.Causes
import LyraUpgrade.Verifier.Replay

/-!
# What was consumed stays consumed

The record of the last manifest sequence is replaced by the boot verifier alone, under the
transaction lock and through a temporary file; the record of the operation is saved after it,
in a step of its own.  Between any two of these steps the machine may crash, the file
operations may fail, and the other programs go on.

* `Continues` — what a replay record may be followed by.
* `Reached` — the replay record rules a sequence number out.
* `Replacing` — what a verifier knows of the two files.
* `replay_record_kept` — the result.
-/

namespace LyraUpgrade

open Interaction

/-! ## Replay records -/

section

variable {text text' text'' : Option (List Char)} {n : ℕ}

/-- A record that can be read is followed by one that says as much, and one that cannot be read by
itself. -/
structure Continues (text text' : Option (List Char)) : Prop where
  value : ∀ m, parseLastSequence text = .ok (some m) →
    ∃ m', parseLastSequence text' = .ok (some m') ∧ m ≤ m'
  error : ∀ e, parseLastSequence text = .error e → text' = text

theorem Continues.refl (text : Option (List Char)) : Continues text text :=
  ⟨fun m h => ⟨m, h, Nat.le_refl m⟩, fun _ _ => rfl⟩

theorem Continues.trans (h : Continues text text') (h' : Continues text' text'') :
    Continues text text'' where
  value := by
    intro m hm
    obtain ⟨m', hm', hle⟩ := h.value m hm
    obtain ⟨m'', hm'', hle'⟩ := h'.value m' hm'
    exact ⟨m'', hm'', hle.trans hle'⟩
  error := by
    intro e he
    obtain rfl := h.error e he
    exact h'.error e he

/-- A sequence number that is read is positive. -/
theorem pos_of_parseLastSequence (h : parseLastSequence text = .ok (some n)) : 0 < n := by
  cases text with
  | none => cases h
  | some text =>
      simp only [parseLastSequence] at h
      split at h
      · cases h
      · split at h
        · split_ifs at h with hpos
          cases h
          exact hpos
        · cases h

/-- The number zero is written like any other, and is not read back. -/
theorem parseLastSequence_zero :
    parseLastSequence (some (sequenceText 0)) = .error .invalidSequence := by decide +kernel

theorem parseLastSequence_written {last : Option ℕ} (hbound : n ≤ u64Max)
    (h : parseLastSequence (some (sequenceText n)) = .ok last) : last = some n := by
  rcases Nat.eq_zero_or_pos n with rfl | hpos
  · rw [parseLastSequence_zero] at h
    cases h
  · rw [parseLastSequence_sequenceText hpos hbound] at h
    cases h
    rfl

/-- A number that is not below the last one continues the record. -/
theorem continues_sequenceText {last : Option ℕ} (hlast : parseLastSequence text = .ok last)
    (hle : ∀ m, last = some m → m ≤ n) (hbound : n ≤ u64Max) :
    Continues text (some (sequenceText n)) where
  value := by
    intro m hm
    rw [hlast] at hm
    cases hm
    have hpos : 0 < n := Nat.lt_of_lt_of_le (pos_of_parseLastSequence hlast) (hle m rfl)
    exact ⟨n, parseLastSequence_sequenceText hpos hbound, hle m rfl⟩
  error := by
    intro e he
    rw [hlast] at he
    cases he

end

namespace World

variable {w w' : World} {n : ℕ}

/-- The replay record says at least `n`, or cannot be read. -/
def Reached (w : World) (n : ℕ) : Prop :=
  ∀ last, parseLastSequence w.sequence = .ok last → ∃ m, last = some m ∧ n ≤ m

theorem Reached.mono (h : w.Reached n) (hc : Continues w.sequence w'.sequence) : w'.Reached n := by
  intro last hlast
  cases hw : parseLastSequence w.sequence with
  | error e =>
      rw [hc.error e hw, hw] at hlast
      cases hlast
  | ok last₀ =>
      obtain ⟨m, rfl, hm⟩ := h last₀ hw
      obtain ⟨m', hm', hle⟩ := hc.value m hw
      rw [hm'] at hlast
      cases hlast
      exact ⟨m', rfl, hm.trans hle⟩

theorem reached_of_sequence (h : w.sequence = some (sequenceText n)) (hbound : n ≤ u64Max) :
    w.Reached n := by
  intro last hlast
  rw [h] at hlast
  exact ⟨n, parseLastSequence_written hbound hlast, Nat.le_refl n⟩

/-- No manifest up to the sequence number `n` has a route, for whoever reads the replay record. -/
def Refuses (w : World) (n : ℕ) : Prop :=
  ∀ last, parseLastSequence w.sequence = .ok last →
    ∀ acceptsUrl manifest installed version channel, ReleaseManifest.sequence manifest ≤ n →
      ∃ e, validateManifestRoute acceptsUrl manifest installed last version channel = .error e

theorem Reached.refuses (h : w.Reached n) : w.Refuses n := by
  intro last hlast acceptsUrl manifest installed version channel hle
  obtain ⟨m, rfl, hm⟩ := h last hlast
  exact route_error_of_consumed (hle.trans hm)

end World

/-! ## The files of the replay record -/

section

variable {i : ℕ} {w w' : World} {e : Op}

/-- Only the rename replaces the record, by the content of the temporary file. -/
theorem Change.sequence (h : Change i w e w') : w'.sequence = w.sequence ∨
    e = .renameTemporary ∧ w'.sequence = w.temporary := by
  cases h with
  | rename text written => exact .inr ⟨rfl, written.symm⟩
  | none | save | file | acquire | release | link | unlink | create | write => exact .inl rfl

/-- The operations on the files of the replay record. -/
def Op.isReplacement : Op → Bool
  | .createTemporary | .writeTemporary _ | .renameTemporary => true
  | _ => false

theorem Change.temporary (h : Change i w e w') (he : e.isReplacement = false) :
    w'.temporary = w.temporary := by
  cases h with
  | create | write | rename => cases he
  | none | save | file | acquire | release | link | unlink => rfl

theorem Change.sequence_eq (h : Change i w e w') (he : e.isReplacement = false) :
    w'.sequence = w.sequence := by
  refine h.sequence.resolve_right fun hrename => ?_
  rw [hrename.1] at he
  cases he

theorem exec_create_ok (h : exec true i .createTemporary w (.ok ()) w') :
    w'.temporary = some [] := by
  simp only [exec] at h
  split_ifs at h
  · cases h.1
  · rcases h with ⟨-, rfl⟩ | ⟨-, h, -⟩
    · rfl
    · cases h

theorem exec_write_ok {text : List Char} (h : exec true i (.writeTemporary text) w (.ok ()) w') :
    w'.temporary = w.temporary.map fun _ => text := by
  rcases h with ⟨-, rfl⟩ | ⟨-, h, -⟩
  · rfl
  · cases h

theorem exec_rename_ok {text : List Char} (h : exec true i .renameTemporary w (.ok ()) w')
    (hwritten : w.temporary = some text) : w'.sequence = some text := by
  simp only [exec, hwritten] at h
  rcases h with ⟨-, rfl⟩ | ⟨-, h, -⟩
  · rfl
  · cases h

theorem exec_readSequence_ok {text : Option (List Char)}
    (h : exec true i .readSequence w (.ok text) w') : text = w.sequence := by
  obtain ⟨-, h | ⟨-, h⟩⟩ := h <;> cases h
  rfl

theorem exec_readManifestSequence_some {id : String} {n : ℕ}
    (h : exec true i (.readManifestSequence id) w (some n) w') : n ≤ u64Max := by
  have hle : ∀ f : ManifestFile, f.sequence? = some n → n ≤ u64Max := by
    intro f hf
    cases f with
    | absent => cases hf
    | other sequence =>
        obtain ⟨-, hn⟩ := Option.filter_eq_some_iff.mp hf
        exact of_decide_eq_true hn
    | manifest m =>
        have hf : (some m.sequence).filter (· ≤ u64Max) = some n := hf
        obtain ⟨-, hn⟩ := Option.filter_eq_some_iff.mp hf
        exact of_decide_eq_true hn
  obtain ⟨-, h | ⟨-, h⟩⟩ := h
  · exact hle _ h.symm
  · cases h

end

/-! ## What a verifier knows of them -/

/-- Whoever has read the replay record has read what it says. -/
def ReadFrom (w : World) (events : List (Event Sig)) : Prop :=
  ∀ text, ⟨Op.readSequence, Except.ok text⟩ ∈ events → text = w.sequence

/-- The number of a record that was verified, and what is written of it. -/
def Writing (events : List (Event Sig)) (r : OperationStateRecord) (text : List Char) : Prop :=
  ∃ n, Consumable events r n ∧ text = sequenceText n

/-- How far the replacement has come, and the two files. -/
def Replacement.Holds (w : World) (events : List (Event Sig)) (r : OperationStateRecord) :
    Replacement → Prop
  | .created => ReadFrom w events ∧ w.temporary.isSome
  | .written text | .synced text => ReadFrom w events ∧ w.temporary = some text ∧
      Writing events r text
  | .renamed text | .consumed text => w.sequence = some text

/-- The phase of a verifier and the replay record.  While the lock is held nobody else
replaces it. -/
def VerifierPhase.Knows (w : World) (events : List (Event Sig)) : VerifierPhase → Prop
  | .start => ∀ text, (⟨Op.readSequence, Except.ok text⟩ : Event Sig) ∉ events
  | .scanning | .closing | .entered _ | .checking _ _ => ReadFrom w events
  | .replacing r step => step.Holds w events r
  | _ => True

section

variable {w w' : World} {events events' : List (Event Sig)} {r : OperationStateRecord}
  {p : VerifierPhase}

theorem Writing.mono {text : List Char} (h : Writing events r text) (hsub : events ⊆ events') :
    Writing events' r text := by
  obtain ⟨n, hconsumable, htext⟩ := h
  exact ⟨n, hconsumable.mono hsub, htext⟩

/-- A phase that says something about the files is left alone by whoever does not touch them. -/
theorem VerifierPhase.Knows.mono (h : p.Knows w events)
    (hsame : p.holdsLock → w'.sequence = w.sequence ∧ w'.temporary = w.temporary)
    (hread : ∀ text, ⟨Op.readSequence, Except.ok text⟩ ∈ events' →
      (⟨Op.readSequence, Except.ok text⟩ : Event Sig) ∈ events) (hsub : events ⊆ events') :
    p.Knows w' events' := by
  have hfrom : w'.sequence = w.sequence → ReadFrom w events → ReadFrom w' events' :=
    fun hs hr text ht => (hr text (hread text ht)).trans hs.symm
  cases p with
  | start => exact fun text ht => h text (hread text ht)
  | scanning | closing | entered | checking => exact hfrom (hsame rfl).1 h
  | replacing r step =>
      obtain ⟨hsequence, htemporary⟩ := hsame rfl
      cases step with
      | created => exact ⟨hfrom hsequence h.1, by rw [htemporary]; exact h.2⟩
      | written text | synced text =>
          exact ⟨hfrom hsequence h.1, htemporary.trans h.2.1, h.2.2.mono hsub⟩
      | renamed text | consumed text => exact hsequence.trans h
  | unconsumed | finished | released => trivial

end

namespace VerifierState

variable {s : VerifierState} {e : Op} {answer : e.Answer} {i : ℕ} {w w' : World}

/-- What was read stays right as long as nobody replaces the record. -/
theorem readFrom_next (h : ReadFrom w s.events) (hexec : exec true i e w answer w')
    (hsame : w'.sequence = w.sequence) : ReadFrom w' (s.next ⟨e, answer⟩).events := by
  intro text ht
  rw [hsame]
  rcases List.mem_append.mp ht with ht | ht
  · exact h text ht
  · cases List.mem_singleton.mp ht
    exact exec_readSequence_ok hexec

/-- **A verifier goes on knowing** what the replay record says. -/
theorem knows_next (h : s.phase.Knows w s.events) (hallow : e.isDetached ∨ s.permits e)
    (hexec : exec true i e w answer w') :
    (s.next ⟨e, answer⟩).phase.Knows w' (s.next ⟨e, answer⟩).events := by
  have hmove := moves hallow (validReport_of_exec hexec)
  have hsub := subset_next s ⟨e, answer⟩
  have hfrom := fun hread => readFrom_next (s := s) hread hexec
  have hchange := exec_change hexec
  have hsame : e.isReplacement = false → w'.sequence = w.sequence := hchange.sequence_eq
  have hother : e ≠ .readSequence → ∀ text,
      ⟨Op.readSequence, Except.ok text⟩ ∈ (s.next ⟨e, answer⟩).events →
      (⟨Op.readSequence, Except.ok text⟩ : Event Sig) ∈ s.events := by
    intro hne text ht
    refine (List.mem_append.mp ht).resolve_right fun hlast => ?_
    cases List.mem_singleton.mp hlast
    exact hne rfl
  generalize (s.next ⟨e, answer⟩).events = events' at hsub hfrom hother ⊢
  generalize (s.next ⟨e, answer⟩).phase = p at hmove ⊢
  cases hmove with
  | detached hdetached =>
      have hkeep : e.isReplacement = false := by
        cases e <;> first | rfl | cases hdetached
      refine h.mono (fun _ => ⟨hsame hkeep, hchange.temporary hkeep⟩) (hother ?_) hsub
      rintro rfl
      cases hdetached
  | lock hphase =>
      rw [hphase] at h
      exact fun text ht => absurd (hother (by simp) text ht) (h text)
  | busy | unlock => trivial
  | read r hphase | check _ r hphase =>
      rw [hphase] at h
      exact hfrom h (hsame rfl)
  | unread =>
      exact h.mono (fun _ => ⟨hsame rfl, hchange.temporary rfl⟩) (hother (by simp)) hsub
  | @save r saved may =>
      -- a save goes on only from a scan, which has read what the record says
      unfold phaseAfterSave
      split
      · rename_i hphase
        rw [hphase] at h
        rcases saved with error | ⟨⟩
        · trivial
        · dsimp only
          split_ifs <;> exact hfrom h (hsame rfl)
      · rename_i hphase
        rw [hphase] at h
        rcases saved with error | ⟨⟩
        · trivial
        · dsimp only
          split_ifs <;> exact hfrom h (hsame rfl)
      · trivial
  | readSequence record checked _ hphase =>
      rw [hphase] at h ⊢
      exact hfrom h (hsame rfl)
  | create record checked n created hphase =>
      rw [hphase] at h
      rcases created with error | ⟨⟩
      · trivial
      · refine ⟨hfrom h ?_, by rw [exec_create_ok hexec]; rfl⟩
        exact hchange.sequence.resolve_right fun hrename => by cases hrename.1
  | write record n written hphase hconsumable =>
      rw [hphase] at h
      rcases written with error | ⟨⟩
      · trivial
      · refine ⟨hfrom h.1 ?_, ?_, n, hconsumable.mono hsub, rfl⟩
        · exact hchange.sequence.resolve_right fun hrename => by cases hrename.1
        · obtain ⟨part, hpart⟩ := Option.isSome_iff_exists.mp h.2
          rw [exec_write_ok hexec, hpart]
          rfl
  | sync record text synced hphase =>
      rw [hphase] at h
      rcases synced with error | ⟨⟩
      · trivial
      · exact ⟨hfrom h.1 (hsame rfl), (hchange.temporary rfl).trans h.2.1, h.2.2.mono hsub⟩
  | rename record text renamed hphase =>
      rw [hphase] at h
      rcases renamed with error | ⟨⟩
      · trivial
      · exact exec_rename_ok hexec h.2.1
  | finish record text finished hphase =>
      rw [hphase] at h
      rcases finished with error | ⟨⟩
      · trivial
      · exact (hsame rfl).trans h

end VerifierState

/-! ## Who completes an operation -/

/-- The record of a check that passed, after the number of its manifest was consumed. -/
def Consumed (events : List (Event Sig)) (r : OperationStateRecord) (n : ℕ) : Prop :=
  ∃ record, Consumable events record n ∧ r = completedRecord record

section

variable {ext : Externals} {r : OperationStateRecord} {operationId : String}

/-- A worker completes updates of the installed release only. -/
theorem WorkerState.MaySave.unsigned {s : WorkerState} (may : s.MaySave operationId r)
    (h : s.phase.hasWorker → s.Sound operationId ∧ Coherent s.record)
    (hstate : r.state = .completed) : r.operation.isSignedOffline = false := by
  cases may with
  | initial _ hinitial => rw [hinitial.2.1] at hstate; cases hstate
  | downloading _ next | snapshotting _ next | applying _ next | ready _ next =>
      obtain ⟨-, -, -, rfl⟩ := OperationStateRecord.transitionTo_eq_ok.mp next
      cases hstate
  | snapshot number hphase _ next =>
      obtain ⟨hsound, -⟩ := h (by rw [hphase]; rfl)
      have hrecord := hsound.state .snapshotting (by rw [hphase]; rfl)
      rw [next] at hstate
      cases hrecord.symm.trans hstate
  | result hphase _ state _ next =>
      obtain ⟨-, -, -, rfl⟩ := OperationStateRecord.transitionTo_eq_ok.mp next
      obtain ⟨hsound, hcoherent⟩ := h (by rw [hphase]; rfl)
      show s.record.operation.isSignedOffline = false
      rw [hcoherent.applying (hsound.state .applying (by rw [hphase]; rfl))]
      rfl
  | failure _ error timestamp next =>
      have hend : r.state = failureState error s.record.snapshotNumber.isSome := by rw [next]; rfl
      rw [hend] at hstate
      unfold failureState at hstate
      split_ifs at hstate

/-- A verifier completes a signed upgrade only with its number in the replay record. -/
theorem VerifierState.MaySave.consumed_of_completed {s : VerifierState} (may : s.MaySave r)
    (hstate : r.state = .completed) (hsigned : r.operation.isSignedOffline)
    (hrecovery : r.recovery = none) :
    ∃ record n, s.phase = .replacing record (.consumed (sequenceText n)) ∧
      Consumable s.events record n ∧ r = completedRecord record := by
  cases may with
  | interrupted m _ _ hunfinished =>
      rcases interruptedRecord_state hunfinished with h | h <;> rw [h] at hstate <;> cases hstate
  | enter m r _ _ hpending henter =>
      rw [(enterVerification_eq hpending henter).2.2.2] at hstate
      cases hstate
  | verified record checked _ _ _ hkind =>
      rcases hkind with h | h
      · rw [show record.recovery = none from hrecovery] at h
        cases h
      · cases hsigned.symm.trans h
  | consumed record n hphase hconsumable => exact ⟨record, n, hphase, hconsumable, rfl⟩
  | failed record code => cases hstate

namespace Writer

variable {t : Σ w, State w} {e : Op}

/-- Nobody but the verifier touches the files of the replay record. -/
theorem verifier_of_replacement (hpre : (Contract.family (contract ext)).pre e t)
    (he : e.isReplacement) : ∃ s, t = ⟨verifier, s⟩ ∧ VerifierState.permits s e := by
  have hloud : e.isQuiet = false ∧ e.isDetached = false := by
    cases e <;> first | exact ⟨rfl, rfl⟩ | cases he
  obtain ⟨_ | _ | _ | _ | _, s⟩ := t
  · have hallow : WorkerState.allows _ s e := hpre.1
    have hpermit := hallow.resolve_left (by simp [hloud.1])
    cases e <;> first | exact hpermit.elim | cases he
  · have hpermit := hpre.resolve_left (by simp [hloud.1])
    cases e <;> first | exact hpermit.elim | cases he
  · have hpermit := hpre.resolve_left (by simp [hloud.1])
    cases e <;> first | exact hpermit.elim | cases he
  · have hpermit := hpre.resolve_left (by simp [hloud.1])
    cases e <;> first | exact hpermit.elim | cases he
  · exact ⟨s, rfl, hpre.resolve_left (by simp [hloud.2])⟩

/-- **A signed upgrade is completed** by a verifier that has consumed its number. -/
theorem verifier_of_completed (hpre : (Contract.family (contract ext)).pre (.save r) t)
    (h : Remembers t) (hstate : r.state = .completed) (hsigned : r.operation.isSignedOffline)
    (hrecovery : r.recovery = none) : ∃ s record n, t = ⟨verifier, s⟩ ∧
      VerifierState.phase s = .replacing record (.consumed (sequenceText n)) ∧
      Consumable (VerifierState.events s) record n ∧ r = completedRecord record := by
  obtain ⟨_ | _ | _ | _ | _, s⟩ := t
  · have hallow : WorkerState.allows _ s (.save r) := hpre.1
    have may := hallow.resolve_left (by simp [Op.isQuiet])
    have hunsigned := WorkerState.MaySave.unsigned may h hstate
    rw [hsigned] at hunsigned
    cases hunsigned
  · obtain ⟨m, timestamp, -, rfl⟩ := hpre.resolve_left (by simp [Op.isQuiet])
    cases hstate
  · have may : RollbackState.MaySave s r := hpre.resolve_left (by simp [Op.isQuiet])
    cases may with
    | intent => cases hrecovery
    | scheduled => cases hstate
    | failed => cases hstate
  · have may : OfflineState.MaySave ext s r := hpre.resolve_left (by simp [Op.isQuiet])
    cases may with
    | enter m _ _ _ _ next =>
        obtain ⟨-, -, -, rfl⟩ := OperationStateRecord.transitionTo_eq_ok.mp next
        cases hstate
    | result m r _ _ next =>
        obtain ⟨-, -, -, rfl⟩ := OperationStateRecord.transitionTo_eq_ok.mp next
        cases hstate
    | failed => cases hstate
  · have may : VerifierState.MaySave s r := hpre.resolve_left (by simp [Op.isDetached, Op.isQuiet])
    obtain ⟨record, n, hphase, hconsumable, hr⟩ :=
      may.consumed_of_completed hstate hsigned hrecovery
    exact ⟨s, record, n, rfl, hphase, hconsumable, hr⟩

end Writer

end

/-! ## Every process -/

/-- The invariant of a verifier. -/
structure Replacing (c : Activities) (i : ℕ) (s : VerifierState) : Prop where
  lock : s.phase.holdsLock → c.world.lock = some i
  events : s.events = c.events i
  bounded : ∀ id n, ⟨Op.readManifestSequence id, some n⟩ ∈ s.events → n ≤ u64Max
  knows : s.phase.Knows c.world s.events

def Writer.Replaces (c : Activities) (i : ℕ) : (Σ w, Writer.State w) → Prop
  | ⟨.verifier, s⟩ => Replacing c i s
  | _ => True

/-- Every completed upgrade with a signed manifest has consumed its number. -/
def AllConsumed (c : Activities) : Prop :=
  ∀ id r, c.world.state id = .record r → r.state = .completed → r.operation.isSignedOffline →
    r.recovery = none → ∃ i n, Consumed (c.events i) r n ∧ c.world.Reached n

/-- Process `i` has verified an upgrade with the number `n`, which the replay record does not
exceed, and replaces it. -/
structure Advances (c : Activities) (i : ℕ) (record : OperationStateRecord) (n : ℕ)
    (c' : Activities) : Prop where
  lock : c.world.lock = some i
  consumable : Consumable (c.events i) record n
  bound : n ≤ u64Max
  previous : ∃ last, parseLastSequence c.world.sequence = .ok last ∧ ∀ m, last = some m → m ≤ n
  sequence : c'.world.sequence = some (sequenceText n)

section

variable {ext : Externals} {c c' : Activities} {i : ℕ}

theorem Advances.continues {record : OperationStateRecord} {n : ℕ} (h : Advances c i record n c') :
    Continues c.world.sequence c'.world.sequence := by
  obtain ⟨last, hlast, hle⟩ := h.previous
  rw [h.sequence]
  exact continues_sequenceText hlast hle h.bound

/-- What was consumed stays consumed. -/
theorem AllConsumed.mono (h : AllConsumed c) (hstate : ∀ id, c'.world.state id = c.world.state id)
    (hsub : ∀ i, c.events i ⊆ c'.events i)
    (hsequence : Continues c.world.sequence c'.world.sequence) : AllConsumed c' := by
  intro id r hr hcompleted hsigned hrecovery
  obtain ⟨i, n, ⟨record, hconsumable, hrecord⟩, hreached⟩ :=
    h id r ((hstate id).symm.trans hr) hcompleted hsigned hrecovery
  exact ⟨i, n, ⟨record, hconsumable.mono (hsub i), hrecord⟩, hreached.mono hsequence⟩

variable {t : Σ w, Writer.State w} {e : Op} {answer : e.Answer}

/-- A verifier whose replacement is under way knows the number and the record it replaces. -/
theorem Replacing.advances {s : VerifierState} (h : Replacing c i s)
    (hpermit : s.permits .renameTemporary) (hsequence : c'.world.sequence = c.world.temporary) :
    ∃ record n, Advances c i record n c' := by
  obtain ⟨record, text, hphase⟩ := hpermit
  have hknows := h.knows
  rw [hphase] at hknows
  obtain ⟨hread, htemporary, n, hconsumable, rfl⟩ := hknows
  obtain ⟨text, last, hmem, hlast, hle⟩ := hconsumable.previous
  rw [hread text hmem] at hlast
  refine ⟨record, n, h.lock (by rw [hphase]; rfl), ?_, h.bounded _ n hconsumable.manifest,
    ⟨last, hlast, hle⟩, hsequence.trans htemporary⟩
  rw [← h.events]
  exact hconsumable

/-- **One operation** leaves the replay record, or is the rename of a verified upgrade. -/
theorem Writer.advances (hpre : (Contract.family (contract ext)).pre e t)
    (h : Replaces c i t) (hexec : exec true i e c.world answer c'.world) :
    c'.world.sequence = c.world.sequence ∨
      e = .renameTemporary ∧ ∃ record n, Advances c i record n c' := by
  refine (exec_change hexec).sequence.imp_right ?_
  rintro ⟨rfl, hsequence⟩
  obtain ⟨s, rfl, hpermit⟩ := verifier_of_replacement hpre rfl
  exact ⟨rfl, Replacing.advances h hpermit hsequence⟩

theorem Writer.continues (hpre : (Contract.family (contract ext)).pre e t)
    (h : Replaces c i t) (hexec : exec true i e c.world answer c'.world) :
    Continues c.world.sequence c'.world.sequence := by
  rcases advances hpre h hexec with hsame | ⟨-, record, n, hadvances⟩
  · rw [hsame]
    exact .refl _
  · exact hadvances.continues

/-- The process that acts. -/
theorem Writer.replaces_next (hpre : (Contract.family (contract ext)).pre e t)
    (h : Replaces c i t) (hexec : exec true i e c.world answer c'.world)
    (hevents : c'.events i = c.events i ++ [⟨e, answer⟩]) :
    Replaces c' i (next ⟨e, answer⟩ t) := by
  obtain ⟨_ | _ | _ | _ | _, s⟩ := t
  · trivial
  · trivial
  · trivial
  · trivial
  · have h : Replacing c i s := h
    refine ⟨fun hlock => ?_, ?_, fun id n hmem => ?_, VerifierState.knows_next h.knows hpre hexec⟩
    · rcases (VerifierState.moves hpre (validReport_of_exec hexec)).holdsLock hlock with
        heq | ⟨hheld, hkeep⟩
      · cases heq
        exact (exec_acquire_ok hexec).2
      · exact exec_lock_held hexec (h.lock hheld) (.inr hkeep)
    · rw [hevents, ← h.events]
      rfl
    · rcases List.mem_append.mp hmem with hmem | hmem
      · exact h.bounded id n hmem
      · cases List.mem_singleton.mp hmem
        exact exec_readManifestSequence_some hexec

/-- The others: nobody replaces the record while a verifier holds the lock. -/
theorem Writer.replaces_frame (hpre : (Contract.family (contract ext)).pre e t)
    (h : Replaces c i t) (hexec : exec true i e c.world answer c'.world) {j : ℕ} (hji : j ≠ i)
    (hevents : c'.events j = c.events j) {u : Σ w, Writer.State w} (hu : Replaces c j u) :
    Replaces c' j u := by
  obtain ⟨_ | _ | _ | _ | _, s⟩ := u
  · trivial
  · trivial
  · trivial
  · trivial
  · have hu : Replacing c j s := hu
    refine ⟨fun hlock => exec_lock_held hexec (hu.lock hlock) (.inl hji),
      hu.events.trans hevents.symm, hu.bounded, hu.knows.mono (fun hlock => ?_) (fun _ hm => hm)
      fun _ hm => hm⟩
    have hkeep : e.isReplacement = false := by
      by_contra hreplaces
      obtain ⟨s', rfl, hpermit⟩ := verifier_of_replacement hpre (by simpa using hreplaces)
      have hheld : VerifierPhase.holdsLock s'.phase := by
        cases e with
        | createTemporary =>
            obtain ⟨_, _, _, hphase, -⟩ := hpermit
            rw [hphase]
            rfl
        | writeTemporary =>
            obtain ⟨_, _, hphase, -⟩ := hpermit
            rw [hphase]
            rfl
        | renameTemporary =>
            obtain ⟨_, _, hphase⟩ := hpermit
            rw [hphase]
            rfl
        | _ => exact absurd rfl hreplaces
      have hown := Replacing.lock h hheld
      rw [hu.lock hlock] at hown
      cases hown
      exact hji rfl
    exact ⟨(exec_change hexec).sequence_eq hkeep, (exec_change hexec).temporary hkeep⟩

/-- What an operation leaves on disk is accounted for. -/
theorem AllConsumed.act (hpre : (Contract.family (Writer.contract ext)).pre e t)
    (hremembers : Writer.Remembers t) (h : Writer.Replaces c i t) (hc : AllConsumed c)
    (hexec : exec true i e c.world answer c'.world) (hsub : ∀ j, c.events j ⊆ c'.events j) :
    AllConsumed c' := by
  intro id r hr hcompleted hsigned hrecovery
  have hcontinues := Writer.continues hpre h hexec
  rcases (exec_change hexec).state id with hsame | ⟨r', rfl, -, -, hrecord⟩
  · obtain ⟨j, n, ⟨record, hconsumable, hrecord⟩, hreached⟩ :=
      hc id r (hsame.symm.trans hr) hcompleted hsigned hrecovery
    exact ⟨j, n, ⟨record, hconsumable.mono (hsub j), hrecord⟩, hreached.mono hcontinues⟩
  · rw [hrecord] at hr
    cases hr
    obtain ⟨s, record, n, rfl, hphase, hconsumable, hr⟩ :=
      Writer.verifier_of_completed hpre hremembers hcompleted hsigned hrecovery
    have h : Replacing c i s := h
    have hknows := h.knows
    rw [hphase] at hknows
    have hreached : c.world.Reached n :=
      World.reached_of_sequence hknows (h.bounded _ n hconsumable.manifest)
    refine ⟨i, n, ⟨record, hconsumable.mono ?_, hr⟩, hreached.mono hcontinues⟩
    rw [h.events]
    exact hsub i

end

/-! ## Runs -/

/-- The invariant of every process, and what is on disk. -/
def ReplayInvariant (text : Option (List Char)) (c : Activities)
    (φ : ℕ → Option (Σ w, Writer.State w)) : Prop :=
  ((∀ id r, c.world.state id = .record r → Coherent r) ∧ ∀ i t, φ i = some t → Writer.Remembers t) ∧
    (Untouched c ∧ AllConsumed c ∧ Continues text c.world.sequence) ∧
    ∀ i t, φ i = some t → Writer.Replaces c i t

theorem preserved_replay (ext : Externals) (text : Option (List Char)) :
    Preserved (system true) (Activity.program ext) (Contract.family (Writer.contract ext))
      (fun _ _ => True) Writer.start (ReplayInvariant text) := by
  have hgrow : ∀ {c c' : Activities} {l}, Step (system true) (Activity.program ext) c l c' →
      ∀ j, c.events j ⊆ c'.events j := by
    intro c c' l hs j e he
    rw [hs.events_eq]
    exact List.mem_append_left _ he
  refine (preserved_coherent ext).extend_local ?_ ?_ ?_
  · rintro c c' activity ⟨huntouched, hconsumed, hcontinues⟩ hs hw
    have hevents : ∀ j, c'.events j = c.events j := fun j => by
      rw [hs.events_eq]
      exact List.append_nil _
    refine ⟨⟨huntouched.step hs, hconsumed.mono (fun id => by rw [hw]) (hgrow hs) ?_, ?_⟩, ?_, ?_⟩
    · rw [hw]
      exact .refl _
    · rw [hw]
      exact hcontinues
    · rcases activity with (_ | _ | _ | _) | _ | _
      · trivial
      · trivial
      · trivial
      · trivial
      · trivial
      · have hnone : c'.events c.fresh = [] :=
          (hevents _).trans (huntouched c.fresh (Nat.le_refl _)).2.1
        exact ⟨fun h => (by cases h), hnone.symm, fun _ _ hm => (by cases hm),
          fun _ hm => (by cases hm)⟩
    · rintro j ⟨_ | _ | _ | _ | _, s⟩ - h
      · trivial
      · trivial
      · trivial
      · trivial
      · have h : Replacing c j s := h
        refine ⟨fun hlock => by rw [hw]; exact h.lock hlock, h.events.trans (hevents j).symm,
          h.bounded, ?_⟩
        rw [hw]
        exact h.knows
  · rintro c c' φ i e answer t t' ⟨-, hmemory⟩ ⟨huntouched, hconsumed, hcontinues⟩ hreplaces hφ hpre
      hs hexec hnext
    cases Writer.eq_next hnext
    have hlast : c'.events i = c.events i ++ [⟨e, answer⟩] := by
      rw [hs.events_eq, Label.eventOf, if_pos rfl]
      rfl
    refine ⟨⟨huntouched.step hs, hconsumed.act hpre (hmemory i t hφ) hreplaces hexec (hgrow hs),
      hcontinues.trans (Writer.continues hpre hreplaces hexec)⟩,
      Writer.replaces_next hpre hreplaces hexec hlast, fun j u hj hu => ?_⟩
    refine Writer.replaces_frame hpre hreplaces hexec hj ?_ hu
    rw [hs.events_eq, Label.eventOf, if_neg (Ne.symm hj)]
    exact List.append_nil _
  · rintro c c' ⟨huntouched, hconsumed, hcontinues⟩ hs ⟨temporary, -, hw⟩
    refine ⟨huntouched.step hs, hconsumed.mono (fun id => by rw [hw]; rfl) (hgrow hs) ?_, ?_⟩
    · rw [hw]
      exact .refl _
    · rw [hw]
      exact hcontinues

/-- **The replay record is consumed exactly by verified upgrades**, in every run of any programs,
with failures and crashes, that starts without completed operations.  The record changes only where
a verifier that holds the lock has seen the check of a signed upgrade pass; what it says never
decreases; and the number of every completed upgrade is refused from then on. -/
theorem replay_record_kept (ext : Externals) {w : World}
    (hw : ∀ id r, w.state id = .record r → Coherent r ∧ r.state ≠ .completed) {c : Activities}
    (h : Reach (system true) (Activity.program ext) (fun _ _ => True) (Config.boot w) c) :
    (∀ l c', Step (system true) (Activity.program ext) c l c' →
      c'.world.sequence = c.world.sequence ∨
        ∃ i answer record n, l = .act i .renameTemporary answer ∧ Advances c i record n c') ∧
    (∀ c', Reach (system true) (Activity.program ext) (fun _ _ => True) c c' →
      Continues c.world.sequence c'.world.sequence) ∧
    ∀ id r, c.world.state id = .record r → r.state = .completed → r.operation.isSignedOffline →
      r.recovery = none → ∃ i n, Consumed (c.events i) r n ∧ ∀ c',
        Reach (system true) (Activity.program ext) (fun _ _ => True) c c' → c'.world.Refuses n := by
  obtain ⟨φ, htracked, hcoherent, ⟨huntouched, hconsumed, -⟩, hreplaces⟩ := h.tracked
    (wp_activity ext) (preserved_replay ext w.sequence) (Tracked.boot w)
    ⟨⟨fun id r hr => (hw id r hr).1, fun i t hi => by cases hi⟩,
      ⟨.boot w, fun id r hr hcompleted => absurd hcompleted (hw id r hr).2, .refl _⟩,
      fun i t hi => by cases hi⟩
  have hlater : ∀ c', Reach (system true) (Activity.program ext) (fun _ _ => True) c c' →
      Continues c.world.sequence c'.world.sequence := by
    intro c' hreach
    obtain ⟨φ', -, -, ⟨-, -, hcontinues⟩, -⟩ := hreach.tracked (wp_activity ext)
      (preserved_replay ext c.world.sequence) htracked
      ⟨hcoherent, ⟨huntouched, hconsumed, .refl _⟩, hreplaces⟩
    exact hcontinues
  refine ⟨fun l c' hs => ?_, hlater, fun id r hr hcompleted hsigned hrecovery => ?_⟩
  · cases l with
    | spawn =>
        cases hs
        exact .inl rfl
    | act i e answer =>
        obtain ⟨k, hrun, -⟩ := hs.procs_act
        obtain ⟨t, hφ, hwp⟩ := htracked.wp_of_some i _ hrun
        refine (Writer.advances hwp.1 (hreplaces i t hφ) hs.exec_act).imp_right ?_
        rintro ⟨rfl, record, n, hadvances⟩
        exact ⟨i, answer, record, n, rfl, hadvances⟩
    | crash =>
        cases hs with
        | crash hleft =>
            obtain ⟨temporary, -, rfl⟩ := hleft
            exact .inl rfl
  · obtain ⟨i, n, hn, hreached⟩ := hconsumed id r hr hcompleted hsigned hrecovery
    exact ⟨i, n, hn, fun c' hreach => (hreached.mono (hlater c' hreach)).refuses⟩

namespace Sample

/-- The target of the upgrade is installed. -/
def upgradedOracle : Oracle :=
  { oracle with
    query := fun q =>
      match q with
      | .discoverHost => .ok { updateFacts with release := target }
      | q => oracle.query q }

/-- The upgrade waits for its check, with its plan. -/
def upgradedWorld : World :=
  { verifyingWorld with
    operations := fun id => { verifyingWorld.operations id with plan := some updatePlan } }

/-- The verifier runs to its end. -/
def upgraded : Activities :=
  (simulation upgradedOracle).plays (Activity.program externals) (Config.boot upgradedWorld)
    (.spawn .boot :: List.replicate 24 (.act 0))

theorem coherent_upgradedWorld (id : String) (r : OperationStateRecord)
    (hr : upgradedWorld.state id = .record r) : Coherent r ∧ r.state ≠ .completed := by
  unfold World.state upgradedWorld verifyingWorld at hr
  dsimp only at hr
  split_ifs at hr
  cases hr
  exact ⟨coherent_of_pending (.inr (.inr (.inr rfl))), by decide⟩

end Sample

theorem replay_record_kept_sample : Sample.upgraded.world.sequence = some (sequenceText 7) ∧
    ∃ i n, Consumed (Sample.upgraded.events i) (completedRecord Sample.verifyingRecord) n ∧
      Sample.upgraded.world.Refuses n := by
  refine ⟨by decide +kernel, ?_⟩
  have hreach : Reach (system true) (Activity.program Sample.externals) (fun _ _ => True)
      (Config.boot Sample.upgradedWorld) Sample.upgraded :=
    (simulation Sample.upgradedOracle).reach _ _ _
  obtain ⟨i, n, hn, hrefuses⟩ := (replay_record_kept Sample.externals Sample.coherent_upgradedWorld
    hreach).2.2 Sample.operationId
    (completedRecord Sample.verifyingRecord) (by decide +kernel) rfl rfl rfl
  exact ⟨i, n, hn, hrefuses _ .refl⟩

end LyraUpgrade
