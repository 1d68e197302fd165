import LyraUpgrade.Service.Watch

/-!
# What status collects, and the window keeps

The two ends of a poll.  An answer without a diagnostic is the history as it stands on disk; with
one, and where the process has a log, every sequence of the log is in it.  The window holds each
sequence once, in order, and a cursor at the last of them.

* `collect_quiet`, `collect_covers` — the answer.
* `Ui.Orderly` — the window.
* `Ui.addEvents_new` — events above the cursor are added behind the others.
-/

namespace LyraUpgrade

/-- The events with a sequence: neither retention marker nor diagnostic. -/
def numbered (events : List OperationEvent) : List OperationEvent :=
  events.filter fun event => event.sequence ≠ 0

/-- The state changes among them. -/
def changesOf (events : List OperationEvent) : List OperationEvent :=
  (numbered events).filter OperationEvent.isNormative

section

variable {events more : List OperationEvent} {event : OperationEvent}

theorem mem_numbered : event ∈ numbered events ↔ event ∈ events ∧ event.sequence ≠ 0 := by
  rw [numbered, List.mem_filter, decide_eq_true_eq]

theorem mem_changesOf : event ∈ changesOf events ↔
    event ∈ events ∧ event.sequence ≠ 0 ∧ event.isNormative = true := by
  rw [changesOf, List.mem_filter, mem_numbered, and_assoc]

theorem numbered_append (events more : List OperationEvent) :
    numbered (events ++ more) = numbered events ++ numbered more := List.filter_append ..

theorem numbered_eq_self (h : ∀ event ∈ events, event.sequence ≠ 0) : numbered events = events :=
  List.filter_eq_self.mpr fun event hevent => decide_eq_true (h event hevent)

theorem numbered_cons_zero (h : event.sequence = 0) :
    numbered (event :: events) = numbered events :=
  List.filter_cons_of_neg (by simpa using h)

theorem numbered_cons (h : event.sequence ≠ 0) :
    numbered (event :: events) = event :: numbered events :=
  List.filter_cons_of_pos (by simpa using h)

theorem changesOf_append (events more : List OperationEvent) :
    changesOf (events ++ more) = changesOf events ++ changesOf more := by
  rw [changesOf, numbered_append, List.filter_append]
  rfl

/-- Increasing sequences tell events apart. -/
theorem eq_of_increasing (h : events.Pairwise (·.sequence < ·.sequence)) {a b : OperationEvent}
    (ha : a ∈ events) (hb : b ∈ events) (heq : a.sequence = b.sequence) : a = b := by
  have hlt : events.Pairwise fun a b => a.sequence = b.sequence → a = b :=
    h.imp fun hlt heq => absurd heq (UInt64.ne_of_lt hlt)
  have hgt : events.Pairwise (flip fun a b => a.sequence = b.sequence → a = b) :=
    h.imp fun hlt heq => absurd heq.symm (UInt64.ne_of_lt hlt)
  exact hlt.forall_of_forall_of_flip (fun _ _ _ => rfl) hgt ha hb heq

end

/-! ## The answer -/

namespace StatusReads

/-- The order that both programs sort by. -/
abbrev NotAfter (a b : OperationEvent) : Prop := a.sequence ≤ b.sequence

/-- What neighbours are in when they both stay. -/
abbrev Differ (a b : OperationEvent) : Prop := a.sequence ≠ b.sequence

private theorem total_notAfter : Std.Total NotAfter :=
  ⟨fun a b => UInt64.le_total a.sequence b.sequence⟩

private theorem trans_notAfter : IsTrans OperationEvent NotAfter :=
  ⟨fun _ _ _ => UInt64.le_trans⟩

/-- Sorted by their sequences. -/
theorem sorted_insertionSort (events : List OperationEvent) :
    (events.insertionSort fun a b => a.sequence ≤ b.sequence).Pairwise NotAfter := by
  have htotal := total_notAfter
  have htrans := trans_notAfter
  exact List.pairwise_insertionSort NotAfter events

theorem mem_merge {events : List OperationEvent} {event : OperationEvent}
    (h : event ∈ merge events) : event ∈ events :=
  (List.perm_insertionSort NotAfter events).mem_iff.mp ((List.destutter_sublist ..).subset h)

private theorem destutter'_covers (events : List OperationEvent) (first : OperationEvent) :
    ∀ event ∈ first :: events, ∃ same ∈ events.destutter' Differ first,
      same.sequence = event.sequence := by
  induction events generalizing first with
  | nil =>
      intro event hevent
      rw [List.mem_singleton] at hevent
      exact ⟨first, List.mem_singleton_self _, hevent ▸ rfl⟩
  | cons second events ih =>
      intro event hevent
      by_cases hne : Differ first second
      · rw [List.destutter'_cons_pos _ hne]
        rcases List.mem_cons.mp hevent with rfl | hevent
        · exact ⟨event, List.mem_cons_self .., rfl⟩
        · obtain ⟨same, hsame, heq⟩ := ih second event hevent
          exact ⟨same, List.mem_cons_of_mem _ hsame, heq⟩
      · rw [List.destutter'_cons_neg _ hne]
        rcases List.mem_cons.mp hevent with rfl | hevent
        · exact ih event event (List.mem_cons_self ..)
        · rcases List.mem_cons.mp hevent with rfl | hevent
          · obtain ⟨same, hsame, heq⟩ := ih first first (List.mem_cons_self ..)
            exact ⟨same, hsame, heq.trans (not_not.mp hne)⟩
          · exact ih first event (List.mem_cons_of_mem _ hevent)

/-- Merging leaves one event of each sequence. -/
theorem merge_covers {events : List OperationEvent} {event : OperationEvent} (h : event ∈ events) :
    ∃ same ∈ merge events, same.sequence = event.sequence := by
  have hmem : event ∈ events.insertionSort fun a b => a.sequence ≤ b.sequence :=
    (List.perm_insertionSort NotAfter events).mem_iff.mpr h
  rw [merge]
  cases hsorted : events.insertionSort fun a b => a.sequence ≤ b.sequence with
  | nil => rw [hsorted] at hmem; cases hmem
  | cons first rest =>
      rw [hsorted] at hmem
      exact destutter'_covers rest first event hmem

theorem merge_eq_self {events : List OperationEvent}
    (h : events.Pairwise (·.sequence < ·.sequence)) : merge events = events := by
  have hsort : (events.insertionSort fun a b => a.sequence ≤ b.sequence) = events :=
    List.Pairwise.insertionSort_eq (h.imp fun hlt => UInt64.le_of_lt hlt)
  rw [merge, hsort]
  exact List.destutter_of_isChain _ events
    (List.Pairwise.isChain (h.imp fun hlt => UInt64.ne_of_lt hlt))

section

variable {reads : StatusReads} {after : UInt64}

theorem onDisk_none (h : reads.onDisk.2 = none) :
    reads.failure = false ∧ reads.history = .ok ⟨reads.onDisk.1, false⟩ := by
  obtain ⟨history, failure, observer⟩ := reads
  cases failure with
  | true => cases h
  | false =>
      rcases history with e | ⟨events, _ | _⟩
      · cases h
      · exact ⟨rfl, rfl⟩
      · cases h

/-- **Without a diagnostic** the answer is the whole history, and no write has failed. -/
theorem collect_quiet (h : (reads.collect after).2 = none) :
    reads.failure = false ∧ reads.history = .ok ⟨(reads.collect after).1, false⟩ ∧
      ∀ observer ∈ reads.observer, observer.persistenceFailed = false := by
  rw [collect] at h ⊢
  cases hobserver : reads.observer with
  | none =>
      rw [hobserver] at h
      obtain ⟨hfailure, hhistory⟩ := onDisk_none h
      exact ⟨hfailure, hhistory, fun _ h => by cases h⟩
  | some observer =>
      rw [hobserver] at h
      dsimp only at h ⊢
      cases hpoisoned : observer.poisoned with
      | true => rw [hpoisoned] at h; cases h
      | false =>
          cases hfailed : observer.persistenceFailed with
          | true => rw [hpoisoned, hfailed] at h; cases h
          | false =>
              rw [hpoisoned, hfailed, if_neg Bool.false_ne_true, if_neg Bool.false_ne_true] at h
              rw [if_neg Bool.false_ne_true, if_neg Bool.false_ne_true]
              cases hdisk : reads.onDisk.2 with
              | some error => rw [hdisk] at h; cases h
              | none =>
                  obtain ⟨hfailure, hhistory⟩ := onDisk_none hdisk
                  refine ⟨hfailure, hhistory, fun other hother => ?_⟩
                  rw [← Option.mem_some.mp hother]
                  exact hfailed

/-- With a log at hand, it is merged into a history in which something is wrong. -/
theorem collect_cases (after : UInt64) {observer : Observer}
    (hobserver : reads.observer = some observer) (hpoisoned : observer.poisoned = false) :
    reads.collect after = (reads.onDisk.1, none) ∨ ∃ code, reads.collect after =
      (merge (reads.onDisk.1 ++ StatusReads.after observer.log after), some code) := by
  rw [collect, hobserver]
  dsimp only
  rw [hpoisoned, if_neg Bool.false_ne_true]
  cases observer.persistenceFailed with
  | true => exact Or.inr ⟨_, rfl⟩
  | false =>
      rw [if_neg Bool.false_ne_true]
      cases reads.onDisk.2 with
      | none => exact Or.inl rfl
      | some code => exact Or.inr ⟨code, rfl⟩

/-- Everything in the answer stands on disk or in the log. -/
theorem mem_collect {event : OperationEvent} (h : event ∈ (reads.collect after).1) :
    (∃ history, reads.history = .ok history ∧ event ∈ history.events) ∨
      ∃ observer ∈ reads.observer, event ∈ observer.log.events := by
  have hdisk : event ∈ reads.onDisk.1 →
      ∃ history, reads.history = .ok history ∧ event ∈ history.events := by
    intro hmem
    rw [onDisk] at hmem
    cases hhistory : reads.history with
    | error e => rw [hhistory] at hmem; cases hmem
    | ok history => rw [hhistory] at hmem; exact ⟨history, rfl, hmem⟩
  cases hobserver : reads.observer with
  | none => rw [collect, hobserver] at h; exact Or.inl (hdisk h)
  | some observer =>
      cases hpoisoned : observer.poisoned with
      | true =>
          rw [collect, hobserver] at h
          dsimp only at h
          rw [if_pos hpoisoned] at h
          exact Or.inl (hdisk h)
      | false =>
          rcases collect_cases after hobserver hpoisoned with heq | ⟨code, heq⟩ <;>
            rw [heq] at h
          · exact Or.inl (hdisk h)
          · rcases List.mem_append.mp (mem_merge h) with h | h
            · exact Or.inl (hdisk h)
            · exact Or.inr ⟨observer, rfl, List.mem_of_mem_filter h⟩

/-- **With one**, every sequence in the log is answered. -/
theorem collect_covers {observer : Observer} (hobserver : reads.observer = some observer)
    (hpoisoned : observer.poisoned = false) (herror : (reads.collect after).2 ≠ none)
    {event : OperationEvent} (hevent : event ∈ observer.log.events)
    (hafter : after < event.sequence) :
    ∃ same ∈ (reads.collect after).1, same.sequence = event.sequence := by
  rcases collect_cases after hobserver hpoisoned with heq | ⟨code, heq⟩
  · rw [heq] at herror
    exact absurd rfl herror
  · rw [heq]
    exact merge_covers (List.mem_append_right _
      (List.mem_filter.mpr ⟨hevent, decide_eq_true hafter⟩))

/-- What a log adds to a history that could not be read. -/
theorem collect_unread {observer : Observer} (hobserver : reads.observer = some observer)
    (hpoisoned : observer.poisoned = false) {e : EventLogError}
    (hhistory : reads.history = .error e) :
    (reads.collect after).1 = merge (StatusReads.after observer.log after) := by
  rw [collect, hobserver]
  dsimp only
  rw [hpoisoned, if_neg Bool.false_ne_true, onDisk, hhistory]
  cases reads.failure <;> cases observer.persistenceFailed <;> rfl

end

end StatusReads

/-! ## The window -/

namespace Ui

variable {ui : Ui} {event : OperationEvent} {items : List OperationEvent}

/-- Each sequence stands once, and the cursor is the last of them. -/
structure Orderly (ui : Ui) : Prop where
  distinct : (numbered ui.events).Pairwise (·.sequence ≠ ·.sequence)
  cursor : ∀ event ∈ ui.events, event.sequence ≤ ui.lastSequence
  reached : ui.lastSequence = 0 ∨ ∃ event ∈ numbered ui.events, event.sequence = ui.lastSequence

theorem orderly_empty : empty.Orderly where
  distinct := List.Pairwise.nil
  cursor := fun _ h => by cases h
  reached := Or.inl rfl

private theorem le_push (ui : Ui) (event : OperationEvent) :
    ui.lastSequence ≤ (ui.push event).lastSequence ∧
      event.sequence ≤ (ui.push event).lastSequence := by
  show ui.lastSequence ≤ ite _ _ _ ∧ event.sequence ≤ ite _ _ _
  split_ifs with hlt
  · exact ⟨UInt64.le_of_lt hlt, UInt64.le_refl _⟩
  · exact ⟨UInt64.le_refl _, UInt64.not_lt.mp hlt⟩

/-- What one event does. -/
theorem addEvent_cases (ui : Ui) (event : OperationEvent) :
    (event.sequence = 0 ∧ numbered (ui.addEvent event).events = numbered ui.events ∧
      (ui.addEvent event).lastSequence = ui.lastSequence ∧
      ∀ old ∈ (ui.addEvent event).events, old ∈ ui.events ∨ old = event) ∨
    (event.sequence ≠ 0 ∧ (∃ old ∈ ui.events, old.sequence = event.sequence) ∧
      ui.addEvent event = ui) ∨
    (event.sequence ≠ 0 ∧ (∀ old ∈ ui.events, old.sequence ≠ event.sequence) ∧
      ui.addEvent event = ui.push event) := by
  rw [addEvent]
  split_ifs with hzero hany
  · refine Or.inl ⟨hzero, ?_, ?_, ?_⟩
    · rw [push, numbered_append, numbered_cons_zero hzero, numbered, List.filter_filter]
      show List.filter _ _ ++ [] = _
      rw [List.append_nil]
      refine List.filter_congr fun old _ => ?_
      by_cases hold : old.sequence = 0 <;> simp [hold]
    · show ite _ _ _ = _
      rw [hzero, if_neg (UInt64.not_lt.mpr UInt64.zero_le)]
    · intro old hold
      rcases List.mem_append.mp hold with hold | hold
      · exact Or.inl (List.mem_of_mem_filter hold)
      · exact Or.inr (List.mem_singleton.mp hold)
  · rw [List.any_eq_true] at hany
    obtain ⟨old, hold, heq⟩ := hany
    exact Or.inr (Or.inl ⟨hzero, ⟨old, hold, of_decide_eq_true heq⟩, rfl⟩)
  · refine Or.inr (Or.inr ⟨hzero, fun old hold heq => hany ?_, rfl⟩)
    exact List.any_eq_true.mpr ⟨old, hold, decide_eq_true heq⟩

theorem Orderly.addEvent (h : ui.Orderly) (event : OperationEvent) :
    (ui.addEvent event).Orderly := by
  rcases ui.addEvent_cases event with ⟨hzero, hnumbered, hlast, hmem⟩ | ⟨-, -, hsame⟩ |
    ⟨hpositive, hnew, hpush⟩
  · refine ⟨hnumbered ▸ h.distinct, fun old hold => ?_, by rw [hnumbered, hlast]; exact h.reached⟩
    rw [hlast]
    rcases hmem old hold with hold | rfl
    · exact h.cursor old hold
    · rw [hzero]
      exact UInt64.zero_le
  · rw [hsame]
    exact h
  · obtain ⟨hle, hevent⟩ := ui.le_push event
    have hnumbered : numbered (ui.push event).events = numbered ui.events ++ [event] := by
      rw [push, numbered_append, numbered_cons hpositive]
      rfl
    rw [hpush]
    refine ⟨?_, ?_, ?_⟩
    · rw [hnumbered, List.pairwise_append]
      refine ⟨h.distinct, List.pairwise_singleton _ _, fun old hold other hother => ?_⟩
      rw [List.mem_singleton.mp hother]
      exact hnew old (mem_numbered.mp hold).1
    · intro old hold
      rcases List.mem_append.mp hold with hold | hold
      · exact UInt64.le_trans (h.cursor old hold) hle
      · rw [List.mem_singleton.mp hold]
        exact hevent
    · right
      rw [hnumbered, push]
      dsimp only
      split_ifs with hlt
      · exact ⟨event, List.mem_append_right _ (List.mem_singleton_self _), rfl⟩
      · rcases h.reached with hzero | ⟨old, hold, heq⟩
        · rw [hzero] at hlt
          exact absurd (UInt64.pos_iff_ne_zero.mpr hpositive) hlt
        · exact ⟨old, List.mem_append_left _ hold, heq⟩

theorem Orderly.foldl (h : ui.Orderly) (items : List OperationEvent) :
    (items.foldl Ui.addEvent ui).Orderly := by
  induction items generalizing ui with
  | nil => exact h
  | cons item items ih => exact ih (h.addEvent item)

/-- Sorting moves the events only. -/
private theorem perm_numbered_sort (events : List OperationEvent) :
    (numbered (events.insertionSort fun a b => a.sequence ≤ b.sequence)).Perm (numbered events) :=
  (List.perm_insertionSort StatusReads.NotAfter events).filter _

theorem Orderly.addEvents (h : ui.Orderly) (items : List OperationEvent) :
    (ui.addEvents items).Orderly := by
  have hfold := h.foldl items
  refine ⟨?_, fun event hevent => ?_, ?_⟩
  · exact ((perm_numbered_sort _).pairwise_iff fun hne => Ne.symm hne).mpr hfold.distinct
  · exact hfold.cursor event ((List.perm_insertionSort StatusReads.NotAfter _).mem_iff.mp hevent)
  · refine hfold.reached.imp_right ?_
    rintro ⟨event, hevent, heq⟩
    exact ⟨event, (perm_numbered_sort _).mem_iff.mpr hevent, heq⟩

/-- What the window shows is in order. -/
theorem sorted_addEvents (ui : Ui) (items : List OperationEvent) :
    (ui.addEvents items).events.Pairwise StatusReads.NotAfter :=
  StatusReads.sorted_insertionSort _

/-- Everything it shows was there, or was answered. -/
theorem mem_addEvents (h : event ∈ numbered (ui.addEvents items).events) :
    event ∈ numbered ui.events ∨ event ∈ items := by
  have hfold : event ∈ numbered (items.foldl Ui.addEvent ui).events :=
    (perm_numbered_sort _).mem_iff.mp h
  clear h
  induction items generalizing ui with
  | nil => exact Or.inl hfold
  | cons item items ih =>
      rcases ih hfold with hold | hmem
      · rcases ui.addEvent_cases item with ⟨-, hnumbered, -⟩ | ⟨-, -, hsame⟩ | ⟨-, -, hpush⟩
        · rw [hnumbered] at hold
          exact Or.inl hold
        · rw [hsame] at hold
          exact Or.inl hold
        · rw [hpush, push, numbered_append] at hold
          refine (List.mem_append.mp hold).imp_right fun hitem => ?_
          rw [List.mem_singleton.mp (mem_numbered.mp hitem).1]
          exact List.mem_cons_self ..
      · exact Or.inr (List.mem_cons_of_mem _ hmem)

/-- Increasing events above the cursor are pushed one after the other. -/
private theorem foldl_new (hui : ui.Orderly)
    (hitems : (numbered items).Pairwise (·.sequence < ·.sequence))
    (hnew : ∀ item ∈ numbered items, ui.lastSequence < item.sequence) :
    numbered (items.foldl Ui.addEvent ui).events = numbered ui.events ++ numbered items := by
  induction items generalizing ui with
  | nil => exact (List.append_nil _).symm
  | cons item items ih =>
      rw [List.foldl_cons]
      by_cases hzero : item.sequence = 0
      · rw [numbered_cons_zero hzero] at hitems hnew ⊢
        rcases ui.addEvent_cases item with ⟨-, hnumbered, hlast, -⟩ | ⟨hne, -⟩ | ⟨hne, -⟩
        · rw [ih (hui.addEvent item) hitems (by rw [hlast]; exact hnew), hnumbered]
        · exact absurd hzero hne
        · exact absurd hzero hne
      · rw [numbered_cons hzero] at hitems hnew ⊢
        rw [List.pairwise_cons] at hitems
        rw [List.forall_mem_cons] at hnew
        rcases ui.addEvent_cases item with ⟨hzero', -⟩ | ⟨-, ⟨old, hold, heq⟩, -⟩ | ⟨-, -, hpush⟩
        · exact absurd hzero' hzero
        · -- nothing the window holds is above the cursor
          have := heq ▸ hui.cursor old hold
          exact absurd hnew.1 (UInt64.not_lt.mpr this)
        · have hlast : (ui.addEvent item).lastSequence = item.sequence := by
            rw [hpush]
            exact if_pos hnew.1
          rw [ih (hui.addEvent item) hitems.2 (by rw [hlast]; exact hitems.1), hpush, push,
            numbered_append, numbered_cons hzero, List.append_assoc]
          rfl

/-- **Events above the cursor** are added behind the others. -/
theorem addEvents_new (hui : ui.Orderly) (hsorted : ui.events.Pairwise StatusReads.NotAfter)
    (hitems : (numbered items).Pairwise (·.sequence < ·.sequence))
    (hnew : ∀ item ∈ numbered items, ui.lastSequence < item.sequence) :
    numbered (ui.addEvents items).events = numbered ui.events ++ numbered items := by
  have hfold := foldl_new hui hitems hnew
  have hordered : (numbered (items.foldl Ui.addEvent ui).events).Pairwise StatusReads.NotAfter := by
    rw [hfold, List.pairwise_append]
    refine ⟨hsorted.filter _, hitems.imp fun hlt => UInt64.le_of_lt hlt, ?_⟩
    intro old hold new hmem
    exact UInt64.le_trans (hui.cursor old (mem_numbered.mp hold).1)
      (UInt64.le_of_lt (hnew new hmem))
  -- a sorted part stays in its order
  have hkept : (numbered (items.foldl Ui.addEvent ui).events).Sublist (ui.addEvents items).events :=
    List.sublist_insertionSort hordered List.filter_sublist
  have hsub := hkept.filter fun event => decide (event.sequence ≠ 0)
  have hself : numbered (numbered (items.foldl Ui.addEvent ui).events) =
      numbered (items.foldl Ui.addEvent ui).events :=
    numbered_eq_self fun event hevent => (mem_numbered.mp hevent).2
  have hlength : (numbered (numbered (items.foldl Ui.addEvent ui).events)).length =
      (numbered (ui.addEvents items).events).length := by
    rw [hself]
    exact (perm_numbered_sort _).symm.length_eq
  rw [← hfold, ← hself]
  exact (hsub.eq_of_length hlength).symm

end Ui

end LyraUpgrade
