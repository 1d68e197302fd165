import LyraUpgrade.Encoding.Lines
import LyraUpgrade.Verifier.Reconciliation

/-!
# The scan of the state root

`pending_operation` of `verifier/src/pending.rs` on the entries of a directory: what each
entry is found to be, what is reported about it, and which operation is selected.  The
interaction model reads the same scan as a program (`pendingOperation`), with all that cannot
be an operation as one kind of entry; `foldl_scanEntry_observed` connects the two.

## Main definitions

* `ListedEntry`, `Listing` — an item of the directory, and a directory: no name twice.
* `inspect` — the record of an entry, or the reason why it has none.
* `scanListing` — the loop over the entries.

## Main results

* `scanListing_eq` — the three outputs, each as a function of the entries alone.
* `operation_scanListing` — the selected operation is the least of the pending ones.
* `pendingScan_independent` — neither the order nor the neighbours matter.
-/

namespace LyraUpgrade

open Encoding

/-! ## Diagnostics -/

/-- `u8::escape_ascii`. -/
def escapeAscii (byte : UInt8) : List Char :=
  if byte = 0x09 then ['\\', 't']
  else if byte = 0x0d then ['\\', 'r']
  else if byte = 0x0a then ['\\', 'n']
  else if byte = 0x27 || byte = 0x22 || byte = 0x5c then ['\\', Char.ofNat byte.toNat]
  else if 0x20 ≤ byte && byte ≤ 0x7e then [Char.ofNat byte.toNat]
  else ['\\', 'x', Nat.digitChar (byte.toNat / 16), Nat.digitChar (byte.toNat % 16)]

/-- `diagnostic_name`: a name that is safe to report. -/
def diagnosticName (name : List UInt8) : List Char :=
  (name.take 64).flatMap escapeAscii ++ if 64 < name.length then "...".toList else []

theorem escapeAscii_spec (byte : UInt8) : (escapeAscii byte).length ≤ 4 ∧
    ∀ c ∈ escapeAscii byte, 0x20 ≤ c.toNat ∧ c.toNat ≤ 0x7e := by
  have hbytes : ∀ n < 256, (escapeAscii (UInt8.ofNat n)).length ≤ 4 ∧
      ∀ c ∈ escapeAscii (UInt8.ofNat n), 0x20 ≤ c.toNat ∧ c.toNat ≤ 0x7e := by
    decide +kernel
  have hbyte := hbytes byte.toNat byte.toNat_lt
  rwa [UInt8.ofNat_toNat] at hbyte

/-- **A reported name** is short and printable, whatever the file is called. -/
theorem diagnosticName_spec (name : List UInt8) : (diagnosticName name).length ≤ 259 ∧
    ∀ c ∈ diagnosticName name, 0x20 ≤ c.toNat ∧ c.toNat ≤ 0x7e := by
  have hdots : ∀ c ∈ "...".toList, 0x20 ≤ c.toNat ∧ c.toNat ≤ 0x7e := by decide +kernel
  have hlength : ∀ bytes : List UInt8,
      (bytes.flatMap escapeAscii).length ≤ 4 * bytes.length := by
    intro bytes
    induction bytes with
    | nil => exact Nat.le_refl _
    | cons byte bytes ih =>
        have hbyte := (escapeAscii_spec byte).1
        rw [List.flatMap_cons, List.length_append, List.length_cons]
        omega
  constructor
  · have htake := hlength (name.take 64)
    rw [List.length_take] at htake
    rw [diagnosticName, List.length_append]
    split_ifs
    · have : "...".toList.length = 3 := rfl
      omega
    · simp only [List.length_nil]
      omega
  · intro c hc
    rcases List.mem_append.mp hc with hc | hc
    · obtain ⟨byte, -, hbyte⟩ := List.mem_flatMap.mp hc
      exact (escapeAscii_spec byte).2 c hbyte
    · split_ifs at hc
      · exact hdots c hc
      · cases hc

/-! ## Entries -/

/-- The kinds of files that the scan tells apart. -/
inductive ListedKind
  | directory
  | regular
  | other
  deriving DecidableEq, Repr

/-- An item of `fs::read_dir`. -/
inductive ListedEntry
  | unreadable
  /-- A name, its type, the type of the `state.json` in it, and what `load_state` reads there;
  a type may be unreadable. -/
  | named (name : List UInt8) (fileType stateType : Option ListedKind) (file : StateFile)
  deriving DecidableEq

namespace ListedEntry

def name : ListedEntry → Option (List UInt8)
  | unreadable => none
  | named name _ _ _ => some name

/-- The name in diagnostics. -/
def reportedName (entry : ListedEntry) : List UInt8 :=
  entry.name.getD (utf8 "<unreadable-entry>".toList)

end ListedEntry

/-- `OsStr::to_str`. -/
def operationName (name : List UInt8) : Option String := String.fromUTF8? name.toByteArray

/-- The record of an entry, or the reason why it is invalid. -/
def inspect : ListedEntry → Except String OperationStateRecord
  | .unreadable => .error "directory-entry-unreadable"
  | .named name fileType stateType file =>
      match fileType with
      | none => .error "directory-type-unreadable"
      | some .regular | some .other => .error "not-an-operation-directory"
      | some .directory =>
          match operationName name with
          | none => .error "non-utf8-operation-id"
          | some operationId =>
              match stateType with
              | none => .error "state-file-unavailable"
              | some .directory | some .other => .error "not-a-regular-state-file"
              | some .regular =>
                  match loadState file operationId with
                  | .error _ => .error "state-validation-failed"
                  | .ok state => .ok state

/-! ## The loop -/

/-- The scan and the diagnostics it has reported. -/
structure ReportedScan where
  scan : PendingScan := {}
  diagnostics : List (List Char × String) := []

/-- One entry.  `marked` is the operation that `/system-update` names. -/
def scanListed (marked : Option String) (result : ReportedScan) (entry : ListedEntry) :
    ReportedScan :=
  match inspect entry with
  | .error reason =>
      ⟨{ result.scan with invalidEntries := result.scan.invalidEntries + 1 },
        result.diagnostics ++ [(diagnosticName entry.reportedName, reason)]⟩
  | .ok state => { result with scan := scanRecord result.scan marked state }

def scanListing (marked : Option String) (entries : List ListedEntry) : ReportedScan :=
  entries.foldl (scanListed marked) {}

/-- A directory lists no name twice. -/
structure Listing where
  entries : List ListedEntry
  distinct : entries.Pairwise fun a b => a.name = none ∨ a.name ≠ b.name

/-! ## What an entry adds -/

section

variable {marked : Option String} {entry : ListedEntry} {entries : List ListedEntry}
variable {r : OperationStateRecord}

/-- The record of an entry that waits for the check of this boot. -/
def pendingRecord (entry : ListedEntry) : Option OperationStateRecord :=
  match inspect entry with
  | .error _ => none
  | .ok state => if isPending state then some state else none

/-- The record of an entry that a crash interrupted. -/
def leftRecord (marked : Option String) (entry : ListedEntry) : Option OperationStateRecord :=
  match inspect entry with
  | .error _ => none
  | .ok state =>
      if isPending state then none
      else if (state.state ≠ .readyToReboot && (interruptedState state.state).isSome) ||
          (state.state = .readyToReboot && marked ≠ some state.operationId) then some state
      else none

/-- What is reported about an entry. -/
def diagnostic (entry : ListedEntry) : Option (List Char × String) :=
  match inspect entry with
  | .error reason => some (diagnosticName entry.reportedName, reason)
  | .ok _ => none

/-- One entry adds to the three outputs what it is by itself. -/
theorem scanListed_eq (result : ReportedScan) : scanListed marked result entry =
    ⟨⟨result.scan.candidates ++ (pendingRecord entry).toList,
      result.scan.interrupted ++ (leftRecord marked entry).toList,
      result.scan.invalidEntries + (diagnostic entry).toList.length⟩,
      result.diagnostics ++ (diagnostic entry).toList⟩ := by
  obtain ⟨⟨candidates, interrupted, invalidEntries⟩, diagnostics⟩ := result
  unfold scanListed pendingRecord leftRecord diagnostic scanRecord
  cases inspect entry with
  | error reason => simp
  | ok state =>
      dsimp only
      split_ifs <;> simp

/-- **The scan is the sum of its entries.** -/
theorem scanListing_eq : scanListing marked entries =
    ⟨⟨entries.filterMap pendingRecord, entries.filterMap (leftRecord marked),
      (entries.filterMap diagnostic).length⟩, entries.filterMap diagnostic⟩ := by
  have hfrom : ∀ result : ReportedScan, entries.foldl (scanListed marked) result =
      ⟨⟨result.scan.candidates ++ entries.filterMap pendingRecord,
        result.scan.interrupted ++ entries.filterMap (leftRecord marked),
        result.scan.invalidEntries + (entries.filterMap diagnostic).length⟩,
        result.diagnostics ++ entries.filterMap diagnostic⟩ := by
    induction entries with
    | nil => simp
    | cons entry entries ih =>
        intro result
        rw [List.foldl_cons, ih, scanListed_eq]
        have hcons : ∀ {α : Type} (f : ListedEntry → Option α),
            (entry :: entries).filterMap f = (f entry).toList ++ entries.filterMap f := by
          intro α f
          rw [List.filterMap_cons]
          cases f entry <;> rfl
        simp only [hcons, List.append_assoc, List.length_append, Nat.add_assoc]
  rw [scanListing, hfrom]
  simp

/-! ## Names and records -/

theorem operationName_injective {name name' : List UInt8} {id : String}
    (h : operationName name = some id) (h' : operationName name' = some id) : name = name' := by
  have hbytes : ∀ {bytes : List UInt8}, operationName bytes = some id →
      id.toByteArray = bytes.toByteArray := by
    intro bytes hid
    unfold operationName String.fromUTF8? at hid
    split_ifs at hid with hvalid
    rw [← Option.some.inj hid]
    rfl
  have hsame := (hbytes h).symm.trans (hbytes h')
  exact List.toByteArray_inj.mp hsame

/-- The record of an entry carries the entry's name. -/
theorem name_of_inspect (h : inspect entry = .ok r) :
    ∃ name, entry.name = some name ∧ operationName name = some r.operationId := by
  cases entry with
  | unreadable => cases h
  | named name fileType stateType file =>
      refine ⟨name, rfl, ?_⟩
      simp only [inspect] at h
      split at h
      · cases h
      · cases h
      · cases h
      · split at h
        · cases h
        · next id hid =>
            split at h
            · cases h
            · cases h
            · cases h
            · cases hload : loadState file id with
              | error e => rw [hload] at h; cases h
              | ok state =>
                  rw [hload] at h
                  cases h
                  rw [hid, (loadState_eq_ok.mp hload).2.1]

theorem inspect_of_pendingRecord (h : pendingRecord entry = some r) :
    inspect entry = .ok r ∧ isPending r := by
  unfold pendingRecord at h
  cases hinspect : inspect entry with
  | error reason => rw [hinspect] at h; cases h
  | ok state =>
      rw [hinspect] at h
      dsimp only at h
      split_ifs at h with hpending
      cases h
      exact ⟨rfl, hpending⟩

/-- Two pending records of a directory with one identifier are one record. -/
theorem Listing.eq_of_operationId (l : Listing) {r' : OperationStateRecord}
    (h : r ∈ l.entries.filterMap pendingRecord) (h' : r' ∈ l.entries.filterMap pendingRecord)
    (hid : r.operationId = r'.operationId) : r = r' := by
  obtain ⟨entry, hmem, hentry⟩ := List.mem_filterMap.mp h
  obtain ⟨entry', hmem', hentry'⟩ := List.mem_filterMap.mp h'
  obtain ⟨name, hname, hoperation⟩ := name_of_inspect (inspect_of_pendingRecord hentry).1
  obtain ⟨name', hname', hoperation'⟩ := name_of_inspect (inspect_of_pendingRecord hentry').1
  rw [hid] at hoperation
  obtain rfl := operationName_injective hoperation hoperation'
  -- No name is listed twice, so the two entries are one.
  have hsame : entry = entry' := by
    by_contra hne
    have hsymm : Std.Symm fun a b : ListedEntry => a.name = none ∨ a.name ≠ b.name :=
      ⟨fun a b h => by grind⟩
    rcases l.distinct.forall hmem hmem' hne with hnone | hother
    · rw [hname] at hnone
      cases hnone
    · exact hother (hname.trans hname'.symm)
  subst hsame
  exact Option.some.inj (hentry.symm.trans hentry')

/-! ## The selected operation -/

/-- A scan whose candidates are told apart by their identifiers selects the least of them. -/
theorem PendingScan.operation_eq_some {scan : PendingScan}
    (hid : ∀ a ∈ scan.candidates, ∀ b ∈ scan.candidates, a.operationId = b.operationId → a = b) :
    scan.operation = some r ↔
      r ∈ scan.candidates ∧ ∀ b ∈ scan.candidates, earlierCandidate r b := by
  constructor
  · intro h
    exact ⟨VerifierState.mem_of_operation h, fun b hb => earlierCandidate_of_operation h hb⟩
  · rintro ⟨hmem, hleast⟩
    cases hoperation : scan.operation with
    | none =>
        have hsorted := (List.perm_insertionSort (fun a b : OperationStateRecord =>
          (earlierCandidate a b : Prop)) scan.candidates).mem_iff.mpr hmem
        rw [PendingScan.operation, List.head?_eq_none_iff] at hoperation
        rw [hoperation] at hsorted
        cases hsorted
    | some a =>
        have ha := VerifierState.mem_of_operation hoperation
        have hsame := id_eq_of_earlierCandidate (earlierCandidate_of_operation hoperation hmem)
          (hleast a ha)
        rw [hid a ha r hmem hsame]

/-- The records that wait for the check of this boot. -/
def Listing.Pending (l : Listing) (r : OperationStateRecord) : Prop :=
  ∃ entry ∈ l.entries, pendingRecord entry = some r

/-- The operation is the one with the latest time, and of these the one with the least
identifier. -/
structure Listing.Selects (l : Listing) (r : OperationStateRecord) : Prop where
  pending : l.Pending r
  least : ∀ r', l.Pending r' → r'.updatedAt < r.updatedAt ∨
    (r'.updatedAt = r.updatedAt ∧ r.operationId ≤ r'.operationId)

/-- **Which operation is selected.** -/
theorem operation_scanListing (l : Listing) :
    (scanListing marked l.entries).scan.operation = some r ↔ l.Selects r := by
  have hmem : ∀ r', r' ∈ l.entries.filterMap pendingRecord ↔ l.Pending r' :=
    fun r' => List.mem_filterMap
  rw [scanListing_eq, PendingScan.operation_eq_some fun a ha b hb => l.eq_of_operationId ha hb]
  constructor
  · rintro ⟨hpending, hleast⟩
    exact ⟨(hmem r).mp hpending,
      fun r' hr' => earlierCandidate_iff.mp (hleast r' ((hmem r').mpr hr'))⟩
  · intro h
    exact ⟨(hmem r).mpr h.pending,
      fun r' hr' => earlierCandidate_iff.mpr (h.least r' ((hmem r').mp hr'))⟩

/-- **Only the pending entries matter for the selection.** -/
theorem operation_congr {l l' : Listing} (marked' : Option String)
    (h : ∀ entry, (pendingRecord entry).isSome → (entry ∈ l.entries ↔ entry ∈ l'.entries)) :
    (scanListing marked l.entries).scan.operation =
      (scanListing marked' l'.entries).scan.operation := by
  have hpending : ∀ r, l.Pending r ↔ l'.Pending r := by
    intro r
    refine exists_congr fun entry => and_congr_left fun hentry => ?_
    exact h entry (by rw [hentry]; rfl)
  have hselects : ∀ r, l.Selects r ↔ l'.Selects r := by
    intro r
    constructor
    · intro hr
      exact ⟨(hpending r).mp hr.pending, fun r' hr' => hr.least r' ((hpending r').mpr hr')⟩
    · intro hr
      exact ⟨(hpending r).mpr hr.pending, fun r' hr' => hr.least r' ((hpending r').mp hr')⟩
  apply Option.ext
  intro r
  rw [operation_scanListing, operation_scanListing]
  exact hselects r

end

/-! ## The scan of the interaction model -/

/-- What the interaction model sees of an entry. -/
def ListedEntry.observed : ListedEntry → Entry
  | .named name (some .directory) (some .regular) _ =>
      match operationName name with
      | some operationId => .directory operationId
      | none => .invalid
  | _ => .invalid

/-- The file of an entry is the one that the world holds. -/
def ListedEntry.AgreesWith (w : World) : ListedEntry → Prop
  | .named name _ _ file => ∀ id, operationName name = some id → file = w.state id
  | .unreadable => True

theorem scan_scanListed {w : World} {entry : ListedEntry} (h : entry.AgreesWith w)
    (result : ReportedScan) :
    (scanListed w.marked result entry).scan = scanEntry w result.scan entry.observed := by
  unfold scanListed
  cases entry with
  | unreadable => rfl
  | named name fileType stateType file =>
      cases hname : operationName name with
      | none =>
          rcases fileType with _ | fileType <;> rcases stateType with _ | stateType <;>
            (try cases fileType) <;> (try cases stateType) <;>
            simp [inspect, ListedEntry.observed, scanEntry, hname]
      | some id =>
          have hfile : file = w.state id := h id hname
          subst hfile
          rcases fileType with _ | fileType <;> rcases stateType with _ | stateType <;>
            (try cases fileType) <;> (try cases stateType) <;>
            simp [inspect, ListedEntry.observed, scanEntry, hname]
          cases loadState (w.state id) id <;> rfl

/-- **The two scans agree.** -/
theorem foldl_scanEntry_observed {w : World} {entries : List ListedEntry}
    (h : ∀ entry ∈ entries, entry.AgreesWith w) :
    (entries.map ListedEntry.observed).foldl (scanEntry w) {} =
      (scanListing w.marked entries).scan := by
  have hfrom : ∀ result : ReportedScan,
      (entries.map ListedEntry.observed).foldl (scanEntry w) result.scan =
        (entries.foldl (scanListed w.marked) result).scan := by
    induction entries with
    | nil => exact fun _ => rfl
    | cons entry entries ih =>
        rw [List.forall_mem_cons] at h
        intro result
        rw [List.map_cons, List.foldl_cons, List.foldl_cons, ← scan_scanListed h.1]
        exact ih h.2 _
  exact hfrom {}

/-! ## Order and neighbours -/

/-- **The scan is independent of order and neighbours.**  It selects the valid pending record
with the latest time and, of these, the least identifier; every order of the entries gives the
same selection, the same interrupted records and as many invalid entries; and entries without a
pending record change nothing in the selection. -/
theorem pendingScan_independent (marked : Option String) (l l' : Listing) :
    (∀ r, (scanListing marked l.entries).scan.operation = some r ↔ l.Selects r) ∧
    (l.entries.Perm l'.entries →
      (scanListing marked l.entries).scan.operation =
        (scanListing marked l'.entries).scan.operation ∧
      (scanListing marked l.entries).scan.interrupted.Perm
        (scanListing marked l'.entries).scan.interrupted ∧
      (scanListing marked l.entries).scan.invalidEntries =
        (scanListing marked l'.entries).scan.invalidEntries) ∧
    ((∀ entry, (pendingRecord entry).isSome → (entry ∈ l.entries ↔ entry ∈ l'.entries)) →
      (scanListing marked l.entries).scan.operation =
        (scanListing marked l'.entries).scan.operation) := by
  refine ⟨fun r => operation_scanListing l, fun hperm => ⟨?_, ?_, ?_⟩, operation_congr marked⟩
  · exact operation_congr marked fun entry _ => hperm.mem_iff
  · rw [scanListing_eq, scanListing_eq]
    exact hperm.filterMap _
  · rw [scanListing_eq, scanListing_eq]
    exact (hperm.filterMap _).length_eq

namespace Sample

/-- An applied update beside an entry that cannot be read and a plain file. -/
def mixedEntries : Listing where
  entries :=
    [.unreadable, .named (utf8 "unexpected-file".toList) (some .regular) none .absent,
     .named (utf8 latestId.toList) (some .directory) (some .regular) (.record appliedRecord)]
  distinct := by decide +kernel

/-- The same entries from behind. -/
def mixedReversed : Listing where
  entries := mixedEntries.entries.reverse
  distinct := by decide +kernel

end Sample

theorem pendingScan_independent_sample :
    (scanListing none Sample.mixedEntries.entries).scan.operation =
        (scanListing none Sample.mixedReversed.entries).scan.operation ∧
      Sample.mixedEntries.Selects Sample.appliedRecord :=
  ⟨((pendingScan_independent none Sample.mixedEntries Sample.mixedReversed).2.1
      (List.reverse_perm _).symm).1,
    ((pendingScan_independent none Sample.mixedEntries Sample.mixedReversed).1 _).mp
      (by decide +kernel)⟩

end LyraUpgrade
