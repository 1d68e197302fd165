import LyraUpgrade.Core.TerminalControls
import LyraUpgrade.Service.EventHistory

/-!
# The log in memory

`EventLog` of `service/src/event_log.rs` under any calls: it is restored from a file, or
default, and then events are pushed.  Two counters stand beside the events, and when one of
them is above its limit the oldest technical events go.

The counters are redundant, and `trim_technical` goes by them alone; its last resort is to set
both to zero when no technical event is left.  `Trims` is a run of its loop that ends and never
comes to that.

## Main definitions

* `EventLog.pushNormative`, `EventLog.pushTechnical`: the two ways to push an event.
* `Fed`: a log, and what was given to it since it was made.
* `Fed.Keeps`: the invariant.

## Main results

* `eventLog_accounts`: every sequence of calls keeps the accounting.
-/

namespace LyraUpgrade

/-! ## Pushing -/

namespace EventLog

/-- The technical lines of some events. -/
def technicalOf (events : List OperationEvent) : List TechnicalLine :=
  events.filterMap OperationEvent.technical

/-- The sum of their text lengths. -/
def textBytes (lines : List TechnicalLine) : ℕ := (lines.map fun line => line.text.utf8ByteSize).sum

/-- `push_normative`.  The assertion that the event is normative is checked in debug builds
only. -/
def pushNormative (log : EventLog) (event : OperationEvent) : EventLog :=
  { log with
    events := log.events ++ [event]
    lastSequence := max log.lastSequence event.sequence.toNat }

/-- The event that `push_technical` returns. -/
def withSanitized (event : OperationEvent) (source : EventSource) (sanitized : SanitizedLine) :
    OperationEvent :=
  { event with technical := some ⟨source, sanitized.text, sanitized.truncated⟩ }

/-- `push_technical` up to `trim_technical`. -/
def enter (log : EventLog) (event : OperationEvent) (source : EventSource)
    (sanitized : SanitizedLine) : EventLog where
  events := log.events ++ [withSanitized event source sanitized]
  technicalLines := saturatingAdd log.technicalLines 1
  technicalBytes := saturatingAdd log.technicalBytes sanitized.text.utf8ByteSize
  lastSequence := max log.lastSequence event.sequence.toNat

/-- `push_technical`; `none` is a panic of the sanitizer, before anything is written. -/
def pushTechnical (log : EventLog) (event : OperationEvent) (source : EventSource)
    (raw : String) : Option (EventLog × OperationEvent) := do
  let sanitized ← sanitizeTechnicalLine raw
  let entered := log.enter event source sanitized
  return (trimTechnical (entered.events.length + 1) entered, withSanitized event source sanitized)

end EventLog

/-! ## The trimming loop -/

namespace EventLog

/-- A run of the loop that ends, and in which every turn finds a technical event. -/
inductive Trims : EventLog → EventLog → Prop
  | stop {log : EventLog} (within : log.Within) : Trims log log
  | turn {log trimmed : EventLog} (above : ¬ log.Within)
      (found : ∃ event ∈ log.events, event.isTechnical = true)
      (rest : Trims log.dropTechnical trimmed) : Trims log trimmed

/-- The counters are right. -/
structure Counted (log : EventLog) : Prop where
  lines : log.technicalLines = (technicalOf log.events).length
  bytes : log.technicalBytes = textBytes (technicalOf log.events)

variable {log : EventLog}

/-- Right counters above a limit count something. -/
theorem Counted.found (h : log.Counted) (hover : ¬ log.Within) :
    ∃ event ∈ log.events, event.isTechnical = true := by
  by_contra hnone
  have hempty : technicalOf log.events = [] := by
    refine List.filterMap_eq_nil_iff.mpr fun event hevent => ?_
    rw [← Option.not_isSome_iff_eq_none]
    exact fun htechnical => hnone ⟨event, hevent, htechnical⟩
  refine hover ⟨?_, ?_⟩
  · rw [h.lines, hempty]
    exact Nat.zero_le _
  · rw [h.bytes, hempty]
    exact Nat.zero_le _

/-- What one turn takes away. -/
theorem dropTechnical_split (hfound : ∃ event ∈ log.events, event.isTechnical = true) :
    ∃ before event after, ∃ line : TechnicalLine, event.technical = some line ∧
      (∀ earlier ∈ before, earlier.technical = none) ∧
      log.events = before ++ event :: after ∧
      log.dropTechnical = { log with
        events := before ++ after
        technicalLines := log.technicalLines - 1
        technicalBytes := log.technicalBytes - line.text.utf8ByteSize } := by
  obtain ⟨event, hfind⟩ := Option.isSome_iff_exists.mp (List.find?_isSome.mpr hfound)
  obtain ⟨htechnical, before, after, hevents, hbefore⟩ := List.find?_eq_some_iff_append.mp hfind
  obtain ⟨line, hline⟩ := Option.isSome_iff_exists.mp htechnical
  have hnone : ∀ earlier ∈ before, ¬ earlier.technical.isSome = true := by
    intro earlier hearlier
    simpa [OperationEvent.isTechnical] using hbefore earlier hearlier
  have herase : (log.events.eraseP fun event => event.technical.isSome) = before ++ after := by
    have hevent : (event :: after).eraseP (fun event => event.technical.isSome) = after :=
      List.eraseP_cons_of_pos htechnical
    rw [hevents, List.eraseP_append_right _ hnone, hevent]
  have hfind' : (log.events.find? fun event => event.technical.isSome) = some event := hfind
  refine ⟨before, event, after, line, hline, fun earlier hearlier => ?_, hevents, ?_⟩
  · rw [← Option.not_isSome_iff_eq_none]
    exact hnone earlier hearlier
  · unfold dropTechnical
    rw [hfind', herase]
    dsimp only
    rw [hline]
    rfl

/-- A turn keeps the counters right. -/
theorem Counted.dropTechnical (h : log.Counted)
    (hfound : ∃ event ∈ log.events, event.isTechnical = true) : log.dropTechnical.Counted := by
  obtain ⟨before, event, after, line, hline, hbefore, hevents, hdrop⟩ := dropTechnical_split hfound
  have hnone : technicalOf before = [] := List.filterMap_eq_nil_iff.mpr hbefore
  have hold : technicalOf log.events = line :: technicalOf after := by
    rw [hevents, technicalOf, List.filterMap_append, List.filterMap_cons_some hline]
    exact congrArg (· ++ line :: technicalOf after) hnone
  have hnew : technicalOf (before ++ after) = technicalOf after := by
    rw [technicalOf, List.filterMap_append]
    exact congrArg (· ++ technicalOf after) hnone
  rw [hdrop]
  constructor
  · rw [hnew, h.lines, hold, List.length_cons, Nat.add_sub_cancel]
  · rw [hnew, h.bytes, hold, textBytes, textBytes, List.map_cons, List.sum_cons,
      Nat.add_sub_cancel_left]

/-- A turn drops the oldest technical event. -/
theorem retained_dropTechnical (hfound : ∃ event ∈ log.events, event.isTechnical = true) :
    ∃ event, Retained log.events log.dropTechnical.events [event] := by
  obtain ⟨before, event, after, line, hline, hbefore, hevents, hdrop⟩ := dropTechnical_split hfound
  have htechnical : event.isTechnical = true := Option.isSome_iff_exists.mpr ⟨line, hline⟩
  refine ⟨event, ?_⟩
  rw [hevents, hdrop]
  clear hevents hdrop
  induction before with
  | nil => exact (Retained.refl after).drop htechnical
  | cons earlier before ih =>
      rw [List.forall_mem_cons] at hbefore
      have hearlier : earlier.isTechnical = false := Option.isSome_eq_false_iff.mpr <|
        Option.isNone_iff_eq_none.mpr hbefore.1
      exact (ih hbefore.2).keep hearlier

/-- The loop ends before the fuel does, and every turn finds an event. -/
theorem trims_trimTechnical (turns : ℕ) (log : EventLog) (h : log.Counted)
    (hturns : log.events.length < turns) : Trims log (trimTechnical turns log) := by
  induction turns generalizing log with
  | zero => exact absurd hturns (Nat.not_lt_zero _)
  | succ turns ih =>
      by_cases hwithin : log.Within
      · have hstop : ¬ (decide (log.technicalLines > maxTechnicalLines) ||
            decide (log.technicalBytes > maxTechnicalBytes)) = true := by
          simpa [Within] using hwithin
        rw [trimTechnical, if_neg hstop]
        exact .stop hwithin
      · have hover : (decide (log.technicalLines > maxTechnicalLines) ||
            decide (log.technicalBytes > maxTechnicalBytes)) = true := by
          rw [Within, not_and_or, Nat.not_le, Nat.not_le] at hwithin
          simpa using hwithin
        have hfound := h.found hwithin
        rw [trimTechnical, if_pos hover]
        obtain ⟨event, hdropped⟩ := retained_dropTechnical hfound
        have hlength := hdropped.length
        rw [List.length_singleton] at hlength
        exact .turn hwithin hfound (ih log.dropTechnical (h.dropTechnical hfound) (by omega))

end EventLog

/-! ## What is kept -/

section

variable {events kept later discarded gone : List OperationEvent}

/-- Dropping twice. -/
theorem Retained.trans (h : Retained events kept discarded) (h' : Retained kept later gone) :
    Retained events later (discarded ++ gone) := by
  refine ⟨h'.sublist.trans h.sublist, ?_, h'.normative.trans h.normative, ?_⟩
  · rw [h.technical, h'.technical, List.append_assoc]
  · have := h.length
    have := h'.length
    rw [List.length_append]
    omega

/-- An event behind all of them. -/
theorem Retained.concat (h : Retained events kept discarded) (event : OperationEvent) :
    Retained (events ++ [event]) (kept ++ [event]) discarded := by
  refine ⟨h.sublist.append_right _, ?_, ?_, ?_⟩
  · rw [List.filter_append, List.filter_append, h.technical, List.append_assoc]
  · rw [List.filter_append, List.filter_append, h.normative]
  · have := h.length
    rw [List.length_append, List.length_append]
    omega

end

namespace EventLog

variable {log trimmed : EventLog}

/-- What the loop leaves. -/
theorem Trims.spec (h : Trims log trimmed) (hcounted : log.Counted) :
    trimmed.Counted ∧ trimmed.Within ∧ trimmed.lastSequence = log.lastSequence ∧
      ∃ discarded, Retained log.events trimmed.events discarded := by
  induction h with
  | stop within => exact ⟨hcounted, within, rfl, [], Retained.refl _⟩
  | @turn log trimmed above found rest ih =>
      obtain ⟨htrimmed, hwithin, hlast, discarded, hretained⟩ := ih (hcounted.dropTechnical found)
      obtain ⟨event, hdropped⟩ := retained_dropTechnical found
      exact ⟨htrimmed, hwithin, hlast.trans (dropTechnical_lastSequence log),
        [event] ++ discarded, hdropped.trans hretained⟩

/-! ## Entering events -/

theorem technicalOf_concat (events : List OperationEvent) (event : OperationEvent) :
    technicalOf (events ++ [event]) = technicalOf events ++ event.technical.toList := by
  rw [technicalOf, List.filterMap_append]
  cases htechnical : event.technical with
  | none =>
      rw [List.filterMap_cons_none htechnical]
      rfl
  | some line =>
      rw [List.filterMap_cons_some htechnical]
      rfl

theorem textBytes_append (lines more : List TechnicalLine) :
    textBytes (lines ++ more) = textBytes lines + textBytes more := by
  rw [textBytes, List.map_append, List.sum_append]
  rfl

theorem textBytes_singleton (line : TechnicalLine) : textBytes [line] = line.text.utf8ByteSize :=
  Nat.add_zero _

theorem counted_empty : empty.Counted := ⟨rfl, rfl⟩

/-- One event of `restore`. -/
theorem Counted.restoreEvent (h : log.Counted) (event : OperationEvent) :
    (log.restoreEvent event).Counted := by
  unfold EventLog.restoreEvent
  cases htechnical : event.technical with
  | none =>
      constructor
      · rw [technicalOf_concat, htechnical, Option.toList_none, List.append_nil]
        exact h.lines
      · rw [technicalOf_concat, htechnical, Option.toList_none, List.append_nil]
        exact h.bytes
  | some line =>
      constructor
      · rw [technicalOf_concat, htechnical, Option.toList_some, List.length_append, h.lines]
        rfl
      · rw [technicalOf_concat, htechnical, Option.toList_some, textBytes_append,
          textBytes_singleton, h.bytes]

theorem counted_foldl (events : List OperationEvent) (h : log.Counted) :
    (events.foldl EventLog.restoreEvent log).Counted := by
  induction events generalizing log with
  | nil => exact h
  | cons event events ih => exact ih (h.restoreEvent event)

/-- A normative event changes neither counter. -/
theorem Counted.pushNormative (h : log.Counted) {event : OperationEvent}
    (hnormative : event.technical = none) : (log.pushNormative event).Counted := by
  have hsame : technicalOf (log.pushNormative event).events = technicalOf log.events := by
    rw [EventLog.pushNormative, technicalOf_concat, hnormative, Option.toList_none,
      List.append_nil]
  constructor
  · rw [hsame]
    exact h.lines
  · rw [hsame]
    exact h.bytes

/-- Within the limits neither counter saturates, because a sanitized line is short. -/
theorem Counted.enter (h : log.Counted) (hwithin : log.Within) {event : OperationEvent}
    {source : EventSource} {raw : String} {sanitized : SanitizedLine}
    (hsanitized : sanitizeTechnicalLine raw = some sanitized) :
    (log.enter event source sanitized).Counted := by
  obtain ⟨hlines, hbytes⟩ := hwithin
  have hshort := (control_of_sanitize hsanitized).1
  have hlinesFit : log.technicalLines + 1 ≤ u64Max := by
    have : maxTechnicalLines + 1 ≤ u64Max := by decide
    omega
  have hbytesFit : log.technicalBytes + sanitized.text.utf8ByteSize ≤ u64Max := by
    have : maxTechnicalBytes + maxTechnicalLineBytes ≤ u64Max := by decide
    omega
  constructor
  · show saturatingAdd log.technicalLines 1 = _
    rw [saturatingAdd_eq hlinesFit, h.lines, EventLog.enter, technicalOf_concat,
      List.length_append]
    rfl
  · have hline : textBytes (withSanitized event source sanitized).technical.toList =
        sanitized.text.utf8ByteSize :=
      textBytes_singleton ⟨source, sanitized.text, sanitized.truncated⟩
    show saturatingAdd log.technicalBytes sanitized.text.utf8ByteSize = _
    rw [saturatingAdd_eq hbytesFit, h.bytes, EventLog.enter, technicalOf_concat,
      textBytes_append, hline]

end EventLog

/-! ## Calls -/

/-- A call: `restore` makes a new log, the other two push an event. -/
inductive LogCall
  | restore (events : List OperationEvent)
  | pushNormative (event : OperationEvent)
  | pushTechnical (event : OperationEvent) (source : EventSource) (raw : String)

/-- What the caller of `push_normative` answers for. -/
def LogCall.Asserted : LogCall → Prop
  | .pushNormative event => event.technical = none
  | _ => True

/-- A log, and the events that were restored into it or pushed since. -/
structure Fed where
  log : EventLog
  given : List OperationEvent

namespace Fed

/-- `EventLog::default`. -/
def start : Fed := ⟨EventLog.empty, []⟩

/-- One call.  A panic leaves the log as it is. -/
def call (fed : Fed) : LogCall → Fed
  | .restore events => ⟨EventLog.restore events, events⟩
  | .pushNormative event => ⟨fed.log.pushNormative event, fed.given ++ [event]⟩
  | .pushTechnical event source raw =>
      ((fed.log.pushTechnical event source raw).map fun pushed =>
        ⟨pushed.1, fed.given ++ [pushed.2]⟩).getD fed

/-- Any calls, one after the other. -/
def run (fed : Fed) (calls : List LogCall) : Fed := calls.foldl call fed

/-- The log on which a call enters the trimming loop, if it does. -/
def trimming (fed : Fed) : LogCall → Option EventLog
  | .restore events => some (events.foldl EventLog.restoreEvent EventLog.empty)
  | .pushNormative _ => none
  | .pushTechnical event source raw => (sanitizeTechnicalLine raw).map (fed.log.enter event source)

/-- The accounting. -/
structure Keeps (fed : Fed) : Prop where
  counted : fed.log.Counted
  within : fed.log.Within
  /-- The normative events are all there, and of the technical ones the most recent. -/
  retained : ∃ discarded, Retained fed.given fed.log.events discarded
  last : ∀ event ∈ fed.given, event.sequence.toNat ≤ fed.log.lastSequence

variable {fed : Fed}

theorem keeps_start : start.Keeps where
  counted := EventLog.counted_empty
  within := ⟨Nat.zero_le _, Nat.zero_le _⟩
  retained := ⟨[], Retained.refl _⟩
  last := fun _ h => absurd h List.not_mem_nil

/-- Wherever the loop is entered, the counters are right. -/
theorem Keeps.counted_trimming (h : fed.Keeps) {call : LogCall} {entered : EventLog}
    (hentered : fed.trimming call = some entered) : entered.Counted := by
  cases call with
  | restore events =>
      cases hentered
      exact EventLog.counted_foldl events EventLog.counted_empty
  | pushNormative event => cases hentered
  | pushTechnical event source raw =>
      obtain ⟨sanitized, hsanitized, rfl⟩ := Option.map_eq_some_iff.mp hentered
      exact h.counted.enter h.within hsanitized

/-- A call trims the log on which it enters the loop. -/
theorem Keeps.trims (h : fed.Keeps) {call : LogCall} {entered : EventLog}
    (hentered : fed.trimming call = some entered) : EventLog.Trims entered (fed.call call).log := by
  have hcounted := h.counted_trimming hentered
  cases call with
  | restore events =>
      cases hentered
      refine EventLog.trims_trimTechnical _ _ hcounted ?_
      rw [EventLog.foldl_events]
      exact Nat.lt_succ_self _
  | pushNormative event => cases hentered
  | pushTechnical event source raw =>
      obtain ⟨sanitized, hsanitized, rfl⟩ := Option.map_eq_some_iff.mp hentered
      have hlog : (fed.call (.pushTechnical event source raw)).log =
          EventLog.trimTechnical ((fed.log.enter event source sanitized).events.length + 1)
            (fed.log.enter event source sanitized) := by
        rw [call, EventLog.pushTechnical, hsanitized]
        rfl
      rw [hlog]
      exact EventLog.trims_trimTechnical _ _ hcounted (Nat.lt_succ_self _)

/-- A log that was trimmed keeps the accounting of what was entered. -/
theorem keeps_of_trims {entered : EventLog} (htrims : EventLog.Trims entered fed.log)
    (hcounted : entered.Counted)
    (hretained : ∃ discarded, Retained fed.given entered.events discarded)
    (hlast : ∀ event ∈ fed.given, event.sequence.toNat ≤ entered.lastSequence) : fed.Keeps := by
  obtain ⟨htrimmed, hwithin, hsame, gone, hgone⟩ := htrims.spec hcounted
  obtain ⟨discarded, hdiscarded⟩ := hretained
  refine ⟨htrimmed, hwithin, ⟨discarded ++ gone, hdiscarded.trans hgone⟩, ?_⟩
  rw [hsame]
  exact hlast

/-- An event behind the others is at or below the greater of the two marks. -/
theorem Keeps.last_concat (h : fed.Keeps) {event : OperationEvent} {last : ℕ}
    (hold : fed.log.lastSequence ≤ last) (hnew : event.sequence.toNat ≤ last) :
    ∀ earlier ∈ fed.given ++ [event], earlier.sequence.toNat ≤ last := by
  rw [List.forall_mem_append, List.forall_mem_singleton]
  exact ⟨fun earlier hearlier => (h.last earlier hearlier).trans hold, hnew⟩

/-- Every call keeps the accounting. -/
theorem Keeps.call (h : fed.Keeps) {call : LogCall} (hasserted : call.Asserted) :
    (fed.call call).Keeps := by
  have htrims : ∀ entered, fed.trimming call = some entered →
      EventLog.Trims entered (fed.call call).log := fun _ hentered => h.trims hentered
  have hcounted : ∀ entered, fed.trimming call = some entered → entered.Counted :=
    fun _ hentered => h.counted_trimming hentered
  obtain ⟨discarded, hretained⟩ := h.retained
  cases call with
  | restore events =>
      refine keeps_of_trims (htrims _ rfl) (hcounted _ rfl) ?_ ?_
      · rw [EventLog.foldl_events]
        exact ⟨[], Retained.refl _⟩
      · intro event hevent
        have hmark := (EventLog.mark_le_foldl events EventLog.empty).2 event hevent
        refine le_trans ?_ hmark
        rw [EventLog.mark]
        split_ifs with hzero
        · rw [hzero]
          exact Nat.zero_le _
        · exact Nat.le_refl _
  | pushNormative event =>
      exact
        { counted := h.counted.pushNormative hasserted
          within := h.within
          retained := ⟨discarded, hretained.concat event⟩
          last := h.last_concat (Nat.le_max_left _ _) (Nat.le_max_right _ _) }
  | pushTechnical event source raw =>
      cases hsanitized : sanitizeTechnicalLine raw with
      | none =>
          have hsame : fed.call (.pushTechnical event source raw) = fed := by
            rw [Fed.call, EventLog.pushTechnical, hsanitized]
            rfl
          rw [hsame]
          exact h
      | some sanitized =>
          have hentered : fed.trimming (.pushTechnical event source raw) =
              some (fed.log.enter event source sanitized) := by
            rw [trimming, hsanitized]
            rfl
          have hgiven : (fed.call (.pushTechnical event source raw)).given =
              fed.given ++ [EventLog.withSanitized event source sanitized] := by
            rw [Fed.call, EventLog.pushTechnical, hsanitized]
            rfl
          refine keeps_of_trims (htrims _ hentered) (hcounted _ hentered) ?_ ?_
          · rw [hgiven]
            exact ⟨discarded, hretained.concat _⟩
          · rw [hgiven]
            exact h.last_concat (Nat.le_max_left _ _) (Nat.le_max_right _ _)

theorem Keeps.run (h : fed.Keeps) (calls : List LogCall)
    (hasserted : ∀ call ∈ calls, call.Asserted) : (fed.run calls).Keeps := by
  induction calls generalizing fed with
  | nil => exact h
  | cons call calls ih =>
      rw [List.forall_mem_cons] at hasserted
      exact ih (h.call hasserted.1) hasserted.2

/-- Below `u64::MAX` the next sequence is above every one given. -/
theorem Keeps.lt_nextSequence (h : fed.Keeps) {event : OperationEvent} (hevent : event ∈ fed.given)
    (hbelow : event.sequence.toNat < u64Max) :
    event.sequence.toNat < fed.log.nextSequence := by
  have hlast := h.last event hevent
  rw [EventLog.nextSequence, saturatingAdd]
  omega

end Fed

/-- **The log in memory keeps its accounting**, after any calls: the counters are the number of
technical events and the sum of their text lengths, and within their limits; of the events
given, all the normative ones are there and the most recent technical ones, in their order; the
next sequence is above all of theirs; and the trimming loop, wherever the next call enters it,
ends and finds a technical event in every turn. -/
theorem eventLog_accounts (calls : List LogCall) (hasserted : ∀ call ∈ calls, call.Asserted) :
    let fed := Fed.start.run calls
    (fed.log.technicalLines = (EventLog.technicalOf fed.log.events).length ∧
      fed.log.technicalBytes = EventLog.textBytes (EventLog.technicalOf fed.log.events)) ∧
    (fed.log.technicalLines ≤ maxTechnicalLines ∧ fed.log.technicalBytes ≤ maxTechnicalBytes) ∧
    (fed.log.events.Sublist fed.given ∧
      fed.log.events.filter OperationEvent.isNormative =
        fed.given.filter OperationEvent.isNormative ∧
      fed.log.events.filter OperationEvent.isTechnical <:+
        fed.given.filter OperationEvent.isTechnical) ∧
    (∀ event ∈ fed.given, event.sequence.toNat < u64Max →
      event.sequence.toNat < fed.log.nextSequence) ∧
    ∀ call entered, fed.trimming call = some entered →
      EventLog.Trims entered (fed.call call).log := by
  intro fed
  have h : fed.Keeps := Fed.keeps_start.run calls hasserted
  obtain ⟨discarded, hretained⟩ := h.retained
  refine ⟨⟨h.counted.lines, h.counted.bytes⟩, h.within, ⟨hretained.sublist, hretained.normative, ?_⟩,
    fun event hevent hbelow => h.lt_nextSequence hevent hbelow,
    fun call entered hentered => h.trims hentered⟩
  rw [hretained.technical]
  exact List.suffix_append _ _

/-- A log restored from the sample event, with an event of each kind pushed. -/
theorem eventLog_accounts_sample :
    let fed := Fed.start.run [.restore [sampleEvent],
      .pushNormative { sampleEvent with sequence := 8, technical := none },
      .pushTechnical { sampleEvent with sequence := 9 } .zypperStdout "zypper: done"]
    fed.log.technicalLines = (EventLog.technicalOf fed.log.events).length ∧
      fed.log.technicalLines ≤ maxTechnicalLines := by
  intro fed
  obtain ⟨⟨hlines, -⟩, ⟨hwithin, -⟩, -⟩ := eventLog_accounts
    [.restore [sampleEvent],
      .pushNormative { sampleEvent with sequence := 8, technical := none },
      .pushTechnical { sampleEvent with sequence := 9 } .zypperStdout "zypper: done"]
    (by
      rw [List.forall_mem_cons, List.forall_mem_cons, List.forall_mem_singleton]
      exact ⟨trivial, rfl, trivial⟩)
  exact ⟨hlines, hwithin⟩

end LyraUpgrade
