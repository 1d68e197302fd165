import LyraUpgrade.Core.Gate
import LyraUpgrade.Core.ProductRelease

/-!
# Inventories of packages

`package_inventory` of `core/src/discovery.rs`: the locked and the orphaned packages, as
`zypper` lists them.  The listing is a table among other messages.  Only lines behind the
header of the table name a package, and there every line is a row, a rule or the sentence
that says that there are none; anything else makes the whole inventory invalid.

## Main definitions

* `packageInventory` — the loop over the lines, with its three variables.
* `TableRow`, `TableLine` — a table as text, with the package that each row names.

## Main results

* `foldlM_before`, `foldlM_behind` — what the loop does up to the header and behind it.
* `packageInventory_complete` — a table is read completely, or not at all.
-/

namespace LyraUpgrade

/-! ## Columns -/

/-- `str::splitn`: at most so many pieces. -/
def splitN (separator : Char) : ℕ → List Char → List (List Char)
  | 0, _ => []
  | 1, cs => [cs]
  | n + 2, cs =>
      match splitOnce separator cs with
      | none => [cs]
      | some (piece, rest) => piece :: splitN separator (n + 1) rest

/-- The columns of a line; the last one may contain separators. -/
def columns (line : List Char) : List (List Char) := (splitN '|' 5 line).map trim

theorem splitN_append {separator : Char} {piece : List Char} (h : separator ∉ piece) (n : ℕ)
    (rest : List Char) :
    splitN separator (n + 2) (piece ++ separator :: rest) =
      piece :: splitN separator (n + 1) rest := by
  rw [splitN, splitOnce_append h]

/-! ## The inventories -/

/-- `InventoryKind`. -/
inductive PackageInventoryKind
  | locks
  | orphans
  deriving DecidableEq, Repr

namespace PackageInventoryKind

def header : PackageInventoryKind → List (List Char)
  | locks => ["#".toList, "Name".toList, "Type".toList, "Repository".toList, "Comment".toList]
  | orphans => ["S".toList, "Repository".toList, "Name".toList, "Version".toList, "Arch".toList]

/-- The sentence in place of a table. -/
def empty : PackageInventoryKind → List Char
  | locks => "There are no package locks defined.".toList
  | orphans => "No packages found.".toList

def nameIndex : PackageInventoryKind → ℕ
  | locks => 1
  | orphans => 2

/-- The other columns of a row: a lock is numbered, an orphan is installed. -/
def validRow : PackageInventoryKind → List (List Char) → Bool
  | locks, fields => (parseU64 (fields.getD 0 [])).any (0 < ·)
  | orphans, fields =>
      (fields.getD 0 []).head? = some 'i' && !(fields.getD 3 []).isEmpty &&
        !(fields.getD 4 []).isEmpty

end PackageInventoryKind

/-- A line between the rows. -/
def isRule (line : List Char) : Bool := line.all fun c => c = '-' || c = '+'

/-- The package of a row. -/
def rowName (kind : PackageInventoryKind) (fields : List (List Char)) : Option String :=
  let name := fields.getD kind.nameIndex []
  if fields.length ≠ 5 || name.isEmpty || name.any isControl || !kind.validRow fields then none
  else some (String.ofList name)

structure InventoryState where
  table : Bool := false
  emptySeen : Bool := false
  values : List String := []
  deriving DecidableEq

/-- One line, without the blanks around it. -/
def inventoryLine (kind : PackageInventoryKind) (state : InventoryState) (line : List Char) :
    Except DiscoverError InventoryState :=
  if line = kind.empty then .ok { state with emptySeen := true }
  else if columns line = kind.header then
    if state.table then .error .invalidPackageInventory else .ok { state with table := true }
  else if !state.table || isRule line then .ok state
  else match rowName kind (columns line) with
    | none => .error .invalidPackageInventory
    | some name => .ok { state with values := state.values ++ [name] }

/-- The lines that are looked at. -/
def significantLines (stdout : List Char) : List (List Char) :=
  ((lines stdout).map trim).filter (!·.isEmpty)

/-- `package_inventory`. -/
def packageInventory (success : Bool) (stdout : List Char) (kind : PackageInventoryKind) :
    Except DiscoverError (List String) :=
  if !success then .error (.commandFailed "zypper-inventory")
  else match (significantLines stdout).foldlM (inventoryLine kind) {} with
    | .error e => .error e
    | .ok state =>
        if (!state.table && !state.emptySeen) || (state.emptySeen && !state.values.isEmpty) then
          .error .invalidPackageInventory
        else .ok (dedup (sort state.values))

/-! ## The loop -/

section

variable {kind : PackageInventoryKind} {state : InventoryState} {ls : List (List Char)}
variable {line : List Char}

/-- The header of the table. -/
def IsHeader (kind : PackageInventoryKind) (line : List Char) : Prop := columns line = kind.header

instance (kind : PackageInventoryKind) (line : List Char) : Decidable (IsHeader kind line) :=
  inferInstanceAs (Decidable (columns line = kind.header))

theorem not_isHeader_empty (kind : PackageInventoryKind) : ¬ IsHeader kind kind.empty := by
  cases kind <;> decide +kernel

/-- **Up to the header** the loop only looks for the sentence. -/
theorem foldlM_before (htable : state.table = false) (h : ∀ line ∈ ls, ¬ IsHeader kind line) :
    ls.foldlM (inventoryLine kind) state =
      .ok { state with emptySeen := state.emptySeen || ls.contains kind.empty } := by
  induction ls generalizing state with
  | nil => simp [pure, Except.pure]
  | cons line ls ih =>
      rw [List.forall_mem_cons] at h
      rw [List.foldlM_cons]
      by_cases hempty : line = kind.empty
      · have hline : inventoryLine kind state line = .ok { state with emptySeen := true } :=
          if_pos hempty
        rw [hline]
        show ls.foldlM (inventoryLine kind) { state with emptySeen := true } = _
        rw [@ih { state with emptySeen := true } htable h.2, hempty]
        simp
      · have hline : inventoryLine kind state line = .ok state := by
          rw [inventoryLine, if_neg hempty, if_neg (show ¬ columns line = kind.header from h.1),
            htable]
          rfl
        rw [hline]
        show ls.foldlM (inventoryLine kind) state = _
        rw [ih htable h.2]
        simp [Ne.symm hempty]

/-- A line that the table may contain. -/
def ReadableLine (kind : PackageInventoryKind) (line : List Char) : Prop :=
  line = kind.empty ∨
    (¬ IsHeader kind line ∧ (isRule line ∨ (rowName kind (columns line)).isSome))

instance (kind : PackageInventoryKind) (line : List Char) : Decidable (ReadableLine kind line) :=
  inferInstanceAs (Decidable (_ ∨ _))

/-- The package that a line of the table names. -/
def lineName (kind : PackageInventoryKind) (line : List Char) : Option String :=
  if line = kind.empty || isRule line then none else rowName kind (columns line)

/-- One line behind the header. -/
theorem inventoryLine_behind (htable : state.table = true) :
    inventoryLine kind state line =
      if ReadableLine kind line then
        .ok ⟨true, state.emptySeen || line = kind.empty,
          state.values ++ (lineName kind line).toList⟩
      else .error .invalidPackageInventory := by
  obtain ⟨table, emptySeen, values⟩ := state
  obtain rfl : table = true := htable
  unfold inventoryLine ReadableLine lineName IsHeader
  by_cases hempty : line = kind.empty
  · simp [hempty]
  by_cases hheader : columns line = kind.header
  · simp [hempty, hheader]
  by_cases hrule : isRule line
  · simp [hempty, hheader, hrule]
  · rcases Option.eq_none_or_eq_some (rowName kind (columns line)) with hname | ⟨name, hname⟩
    · simp [hempty, hheader, hrule, hname]
    · simp [hempty, hheader, hrule, hname]

/-- **Behind the header** every line has to be readable. -/
theorem foldlM_behind (htable : state.table = true) :
    ls.foldlM (inventoryLine kind) state =
      if ∀ line ∈ ls, ReadableLine kind line then
        .ok ⟨true, state.emptySeen || ls.contains kind.empty,
          state.values ++ ls.filterMap (lineName kind)⟩
      else .error .invalidPackageInventory := by
  induction ls generalizing state with
  | nil =>
      obtain ⟨table, emptySeen, values⟩ := state
      obtain rfl : table = true := htable
      simp [pure, Except.pure]
  | cons line ls ih =>
      rw [List.foldlM_cons, inventoryLine_behind htable]
      by_cases hline : ReadableLine kind line
      · rw [if_pos hline]
        show ls.foldlM (inventoryLine kind) _ = _
        rw [ih rfl]
        have hnames : (line :: ls).filterMap (lineName kind) =
            (lineName kind line).toList ++ ls.filterMap (lineName kind) := by
          rw [List.filterMap_cons]
          cases lineName kind line <;> rfl
        simp only [List.forall_mem_cons, hline, true_and, hnames, List.append_assoc,
          List.contains_cons, Bool.or_assoc]
        have hsame : (decide (line = kind.empty) || ls.contains kind.empty) =
            (kind.empty == line || ls.contains kind.empty) := by
          congr 1
          rw [Bool.eq_iff_iff, decide_eq_true_eq, beq_iff_eq]
          exact eq_comm
        rw [hsame]
      · rw [if_neg hline, if_neg fun hall => hline (hall line (List.mem_cons_self ..))]
        rfl

end

/-! ## What is returned -/

section

variable {kind : PackageInventoryKind} {stdout : List Char} {before behind : List (List Char)}
variable {head : List Char} {values : List String}

/-- An output without a header. -/
theorem packageInventory_of_no_header
    (h : ∀ line ∈ significantLines stdout, ¬ IsHeader kind line) :
    packageInventory true stdout kind =
      if kind.empty ∈ significantLines stdout then .ok [] else .error .invalidPackageInventory := by
  have hrun := @foldlM_before kind {} _ rfl h
  rw [packageInventory, if_neg (by decide), hrun]
  by_cases hempty : kind.empty ∈ significantLines stdout
  · simp [hempty, sort, dedup]
  · simp [hempty]

/-- **An output with a header**, and what stands in front of it and behind it. -/
theorem packageInventory_of_header (h : significantLines stdout = before ++ head :: behind)
    (hbefore : ∀ line ∈ before, ¬ IsHeader kind line) (hhead : IsHeader kind head) :
    packageInventory true stdout kind =
      if (∀ line ∈ behind, ReadableLine kind line) ∧
          (kind.empty ∈ before ++ behind → behind.filterMap (lineName kind) = []) then
        .ok (dedup (sort (behind.filterMap (lineName kind))))
      else .error .invalidPackageInventory := by
  have hempty : head ≠ kind.empty := by
    rintro rfl
    exact not_isHeader_empty kind hhead
  have hline : ∀ emptySeen, inventoryLine kind ⟨false, emptySeen, []⟩ head =
      .ok ⟨true, emptySeen, []⟩ := by
    intro emptySeen
    rw [inventoryLine, if_neg hempty, if_pos (show columns head = kind.header from hhead)]
    rfl
  rw [packageInventory, if_neg (by decide), h, List.foldlM_append, foldlM_before rfl hbefore]
  show (match (head :: behind).foldlM (inventoryLine kind) ⟨false, _, []⟩ with
    | .error e => _
    | .ok state => _) = _
  rw [List.foldlM_cons, hline]
  show (match behind.foldlM (inventoryLine kind) ⟨true, _, []⟩ with
    | .error e => _
    | .ok state => _) = _
  rw [foldlM_behind rfl]
  by_cases hreadable : ∀ line ∈ behind, ReadableLine kind line
  · rw [if_pos hreadable]
    by_cases hseen : kind.empty ∈ before ++ behind
    · have hor := List.mem_append.mp hseen
      by_cases hnone : behind.filterMap (lineName kind) = []
      · simpa [hnone, hor] using hreadable
      · simp [hnone, hor]
    · have hnor := List.mem_append.not.mp hseen
      rw [not_or] at hnor
      simpa [hnor] using hreadable
  · rw [if_neg hreadable, if_neg fun hboth => hreadable hboth.1]

end

/-! ## A row as text -/

/-- A row that names a package: five cells with a bar between them.  Only the last cell may
contain bars, and no cell a line feed. -/
structure TableRow (kind : PackageInventoryKind) (name : List Char) where
  first : List Char
  second : List Char
  third : List Char
  fourth : List Char
  last : List Char
  bars : ∀ cell ∈ [first, second, third, fourth], '|' ∉ cell
  feeds : ∀ cell ∈ [first, second, third, fourth, last], '\n' ∉ cell
  named : ([first, second, third, fourth, last].map trim).getD kind.nameIndex [] = name
  valid : kind.validRow ([first, second, third, fourth, last].map trim)

/-- A name that `zypper` can list. -/
structure ListableName (name : List Char) : Prop where
  nonempty : name ≠ []
  trimmed : trim name = name
  bars : '|' ∉ name
  controls : ∀ c ∈ name, isControl c = false

namespace TableRow

variable {kind : PackageInventoryKind} {name : List Char}

def line (self : TableRow kind name) : List Char :=
  self.first ++ '|' :: (self.second ++ '|' :: (self.third ++ '|' :: (self.fourth ++ '|' ::
    self.last)))

/-- Blanks of the first and of the last cell are trimmed with the line. -/
theorem trim_line (self : TableRow kind name) : trim self.line =
    trimStart self.first ++ '|' :: (self.second ++ '|' :: (self.third ++ '|' ::
      (self.fourth ++ '|' :: trimEnd self.last))) := by
  have hbar : isWhitespace '|' = false := by decide
  have htrim : trim self.line = trimEnd (trimStart self.line) := rfl
  rw [htrim, trimStart, line, dropWhile_append_stop hbar, trimEnd_append_stop hbar,
    trimEnd_append_stop hbar, trimEnd_append_stop hbar, trimEnd_append_stop hbar]
  rfl

/-- The columns of a row are its cells. -/
theorem columns_trim_line (self : TableRow kind name) : columns (trim self.line) =
    [self.first, self.second, self.third, self.fourth, self.last].map trim := by
  have hbars := self.bars
  simp only [List.forall_mem_cons] at hbars
  have hfirst : '|' ∉ trimStart self.first :=
    fun h => hbars.1 ((List.dropWhile_suffix _).subset h)
  rw [columns, trim_line, splitN_append hfirst, splitN_append hbars.2.1,
    splitN_append hbars.2.2.1, splitN_append hbars.2.2.2.1, splitN]
  simp only [List.map_cons, List.map_nil, trim_trimStart, trim_trimEnd]

theorem bar_mem_trim_line (self : TableRow kind name) : '|' ∈ trim self.line := by
  rw [trim_line]
  exact List.mem_append_right _ (List.mem_cons_self ..)

theorem lineFeed_notMem_line (self : TableRow kind name) : '\n' ∉ self.line := by
  have hfeeds := self.feeds
  have hbar : '\n' ≠ '|' := by decide
  simp only [List.forall_mem_cons] at hfeeds
  simp [line, hfeeds, hbar]

/-- A row is neither the sentence, nor a rule, nor the header. -/
theorem lineName_trim_line (self : TableRow kind name) (hname : ListableName name) :
    ReadableLine kind (trim self.line) ∧ trim self.line ≠ kind.empty ∧
      lineName kind (trim self.line) = some (String.ofList name) := by
  have hsentence : '|' ∉ kind.empty := by cases kind <;> decide +kernel
  have hempty : trim self.line ≠ kind.empty := by
    intro heq
    exact hsentence (heq ▸ self.bar_mem_trim_line)
  have hrule : isRule (trim self.line) = false := by
    rw [← Bool.not_eq_true, isRule, List.all_eq_true]
    intro hall
    exact absurd (hall '|' self.bar_mem_trim_line) (by decide)
  have hcolumns := self.columns_trim_line
  have hrow : rowName kind (columns (trim self.line)) = some (String.ofList name) := by
    have hcontrols : name.any isControl = false := by
      rw [List.any_eq_false]
      intro c hc
      simp [hname.controls c hc]
    rw [hcolumns, rowName]
    simp only [self.named, self.valid, hcontrols, List.isEmpty_eq_false_iff.mpr hname.nonempty]
    exact if_neg (by simp)
  have hheader : ¬ IsHeader kind (trim self.line) := by
    have hinvalid : kind.validRow kind.header = false := by cases kind <;> decide +kernel
    intro hheader
    have hvalid := self.valid
    rw [← hcolumns, (show columns (trim self.line) = kind.header from hheader), hinvalid] at hvalid
    cases hvalid
  refine ⟨.inr ⟨hheader, .inr (by rw [hrow]; rfl)⟩, hempty, ?_⟩
  rw [lineName, if_neg (by simp [hempty, hrule]), hrow]

end TableRow

/-! ## A table as text -/

/-- A line behind the header. -/
inductive TableLine (kind : PackageInventoryKind)
  | rule (text : List Char) (rule : isRule (trim text)) (feed : '\n' ∉ text)
  | row (name : List Char) (listable : ListableName name) (cells : TableRow kind name)

namespace TableLine

variable {kind : PackageInventoryKind}

def text : TableLine kind → List Char
  | rule text _ _ => text
  | row _ _ cells => cells.line

/-- The package that the line names. -/
def name : TableLine kind → Option String
  | rule _ _ _ => none
  | row name _ _ => some (String.ofList name)

theorem lineFeed_notMem_text (self : TableLine kind) : '\n' ∉ self.text := by
  cases self with
  | rule text _ feed => exact feed
  | row name _ cells => exact cells.lineFeed_notMem_line

theorem not_isHeader_of_isRule {line : List Char} (h : isRule line) : ¬ IsHeader kind line := by
  have hbar : '|' ∉ line := by
    intro hmem
    exact absurd (List.all_eq_true.mp h '|' hmem) (by decide)
  have hone : columns line = [trim line] := by
    have hnone : splitOnce '|' line = none := by
      rw [splitOnce, List.dropWhile_eq_nil_iff.mpr]
      intro c hc
      rw [decide_eq_true_eq]
      rintro rfl
      exact hbar hc
    rw [columns, splitN, hnone]
    rfl
  intro hheader
  have hlength := congrArg List.length (hone.symm.trans hheader)
  cases kind <;> simp [PackageInventoryKind.header] at hlength

/-- What the loop makes of a line of the table. -/
theorem lineName_trim_text (self : TableLine kind) :
    ReadableLine kind (trim self.text) ∧ trim self.text ≠ kind.empty ∧
      lineName kind (trim self.text) = self.name := by
  cases self with
  | rule text hrule _ =>
      have hsentence : isRule kind.empty = false := by cases kind <;> decide +kernel
      refine ⟨.inr ⟨not_isHeader_of_isRule hrule, .inl hrule⟩, ?_, ?_⟩
      · intro heq
        rw [show trim text = kind.empty from heq, hsentence] at hrule
        cases hrule
      · exact if_pos (by simp [show isRule (trim text) from hrule, TableLine.text])
  | row name hname cells => exact cells.lineName_trim_line hname

/-- The names of a table, without the blank lines. -/
theorem filterMap_lineName (body : List (TableLine kind)) :
    (((body.map text).map trim).filter (!·.isEmpty)).filterMap (lineName kind) =
      body.filterMap name := by
  induction body with
  | nil => rfl
  | cons line body ih =>
      rw [List.map_cons, List.map_cons, List.filter_cons, List.filterMap_cons]
      split_ifs with hblank
      · rw [List.filterMap_cons, line.lineName_trim_text.2.2, ih]
      · have hnil : trim line.text = [] := by simpa using hblank
        have hnone : line.name = none := by
          rw [← line.lineName_trim_text.2.2, hnil]
          exact if_pos (by simp [isRule])
        rw [ih, hnone]

end TableLine

/-! ## Reading a table -/

section

variable {kind : PackageInventoryKind}

theorem significantLines_unlines {ls : List (List Char)} (h : ∀ line ∈ ls, '\n' ∉ line) :
    significantLines (unlines ls) = (ls.map trim).filter (!·.isEmpty) := by
  rw [significantLines, lines_unlines h, List.map_map]
  congr 1
  exact List.map_congr_left fun line _ => trim_chomp line

/-- A message in front of the table: neither the header nor the sentence. -/
structure Noise (kind : PackageInventoryKind) (line : List Char) : Prop where
  feed : '\n' ∉ line
  header : ¬ IsHeader kind (trim line)
  empty : trim line ≠ kind.empty

/-- **A table is read completely**, whatever stands in front of it. -/
theorem packageInventory_table {noise : List (List Char)} {head : List Char}
    (body : List (TableLine kind)) (hnoise : ∀ line ∈ noise, Noise kind line)
    (hfeed : '\n' ∉ head) (hhead : IsHeader kind (trim head)) :
    packageInventory true (unlines (noise ++ head :: body.map TableLine.text)) kind =
      .ok (dedup (sort (body.filterMap TableLine.name))) := by
  have hfeeds : ∀ line ∈ noise ++ head :: body.map TableLine.text, '\n' ∉ line := by
    intro line hline
    rcases List.mem_append.mp hline with hline | hline
    · exact (hnoise line hline).feed
    · rcases List.mem_cons.mp hline with rfl | hline
      · exact hfeed
      · obtain ⟨row, -, rfl⟩ := List.mem_map.mp hline
        exact row.lineFeed_notMem_text
  have hblank : (!(trim head).isEmpty) = true := by
    rw [Bool.not_eq_true', List.isEmpty_eq_false_iff]
    intro hnil
    rw [hnil] at hhead
    cases kind <;> exact absurd hhead (by decide +kernel)
  have hlines : significantLines (unlines (noise ++ head :: body.map TableLine.text)) =
      (noise.map trim).filter (!·.isEmpty) ++
        trim head :: ((body.map TableLine.text).map trim).filter (!·.isEmpty) := by
    rw [significantLines_unlines hfeeds, List.map_append, List.filter_append, List.map_cons,
      List.filter_cons, if_pos hblank]
  have hbefore : ∀ line ∈ (noise.map trim).filter (!·.isEmpty),
      ¬ IsHeader kind line ∧ line ≠ kind.empty := by
    intro line hline
    obtain ⟨text, htext, rfl⟩ := List.mem_map.mp (List.mem_filter.mp hline).1
    exact ⟨(hnoise text htext).header, (hnoise text htext).empty⟩
  have hbehind : ∀ line ∈ ((body.map TableLine.text).map trim).filter (!·.isEmpty),
      ReadableLine kind line ∧ line ≠ kind.empty := by
    intro line hline
    obtain ⟨text, htext, rfl⟩ := List.mem_map.mp (List.mem_filter.mp hline).1
    obtain ⟨row, -, rfl⟩ := List.mem_map.mp htext
    exact ⟨row.lineName_trim_text.1, row.lineName_trim_text.2.1⟩
  rw [packageInventory_of_header hlines (fun line hline => (hbefore line hline).1) hhead, if_pos,
    TableLine.filterMap_lineName]
  refine ⟨fun line hline => (hbehind line hline).1, fun hempty => ?_⟩
  rcases List.mem_append.mp hempty with hempty | hempty
  · exact absurd rfl (hbefore _ hempty).2
  · exact absurd rfl (hbehind _ hempty).2

/-! ## Every name can be listed -/

theorem trim_padded {name : List Char} (h : trim name = name) :
    trim (' ' :: (name ++ [' '])) = name := by
  have hblank : isWhitespace ' ' = true := by decide
  have hend : ∀ cs, trimEnd (cs ++ [' ']) = trimEnd cs := by
    intro cs
    rw [trimEnd, List.reverse_append, List.reverse_singleton, List.singleton_append,
      List.dropWhile_cons_of_pos hblank]
    rfl
  have hfront : trimStart (' ' :: name) = trimStart name := List.dropWhile_cons_of_pos hblank
  rw [← trim_trimEnd, ← List.cons_append, hend, trim_trimEnd, trim_eq, hfront]
  exact h

/-- The row of a name, as `zypper` pads it. -/
def TableRow.padded (kind : PackageInventoryKind) (name : List Char) (h : ListableName name) :
    TableRow kind name :=
  have hfeed : '\n' ∉ name := fun hmem => absurd (h.controls '\n' hmem) (by decide)
  match kind with
  | .locks =>
    { first := "1 ".toList
      second := ' ' :: (name ++ [' '])
      third := " package ".toList
      fourth := " (any) ".toList
      last := []
      bars := by
        have hbar : '|' ∉ ' ' :: (name ++ [' ']) := by simp [h.bars]
        simp only [List.forall_mem_cons]
        exact ⟨by decide, hbar, by decide, by decide, by simp⟩
      feeds := by
        have hpadded : '\n' ∉ ' ' :: (name ++ [' ']) := by simp [hfeed]
        simp only [List.forall_mem_cons]
        exact ⟨by decide, hpadded, by decide, by decide, by decide, by simp⟩
      named := trim_padded h.trimmed
      valid := by
        simp only [PackageInventoryKind.validRow, List.map_cons, List.getD_cons_zero]
        decide +kernel }
  | .orphans =>
    { first := "i ".toList
      second := " @System ".toList
      third := ' ' :: (name ++ [' '])
      fourth := " 1-1 ".toList
      last := " noarch".toList
      bars := by
        have hbar : '|' ∉ ' ' :: (name ++ [' ']) := by simp [h.bars]
        simp only [List.forall_mem_cons]
        exact ⟨by decide, by decide, hbar, by decide, by simp⟩
      feeds := by
        have hpadded : '\n' ∉ ' ' :: (name ++ [' ']) := by simp [hfeed]
        simp only [List.forall_mem_cons]
        exact ⟨by decide, by decide, hpadded, by decide, by decide, by simp⟩
      named := trim_padded h.trimmed
      valid := by
        simp only [PackageInventoryKind.validRow, List.map_cons, List.getD_cons_zero,
          List.getD_cons_succ]
        decide +kernel }

/-- **Every list of names is the list of a table.** -/
theorem exists_table (kind : PackageInventoryKind) (names : List (List Char))
    (h : ∀ name ∈ names, ListableName name) :
    ∃ body : List (TableLine kind), body.filterMap TableLine.name = names.map String.ofList := by
  induction names with
  | nil => exact ⟨[], rfl⟩
  | cons name names ih =>
      rw [List.forall_mem_cons] at h
      obtain ⟨body, hbody⟩ := ih h.2
      exact ⟨.row name h.1 (.padded kind name h.1) :: body, by rw [List.filterMap_cons, hbody]; rfl⟩

/-! ## All or nothing -/

/-- A row, or what should be one. -/
def IsRow (kind : PackageInventoryKind) (line : List Char) : Prop :=
  line ≠ kind.empty ∧ isRule line = false

theorem exists_name_of_readable {line : List Char} (h : ReadableLine kind line)
    (hrow : IsRow kind line) : ∃ name, lineName kind line = some name ∧
      (columns line)[kind.nameIndex]? = some name.toList := by
  rcases h with hempty | ⟨-, hrule | hname⟩
  · exact absurd hempty hrow.1
  · rw [hrow.2] at hrule
    cases hrule
  · obtain ⟨name, hname⟩ := Option.isSome_iff_exists.mp hname
    refine ⟨name, ?_, ?_⟩
    · rw [lineName, if_neg (by simp [hrow.1, hrow.2]), hname]
    · unfold rowName at hname
      dsimp only at hname
      split_ifs at hname with hinvalid
      simp only [ne_eq, Bool.or_eq_true, decide_eq_true_eq, not_or, not_not] at hinvalid
      have hlength := hinvalid.1.1.1
      have hindex : kind.nameIndex < (columns line).length := by
        rw [hlength]
        cases kind <;> decide
      rw [← Option.some.inj hname, String.toList_ofList, List.getElem?_eq_getElem hindex,
        List.getD_eq_getElem?_getD, List.getElem?_eq_getElem hindex, Option.getD_some]

/-- The first header of an output. -/
theorem exists_first_header {ls : List (List Char)} (h : ∃ line ∈ ls, IsHeader kind line) :
    ∃ before head behind, ls = before ++ head :: behind ∧
      (∀ line ∈ before, ¬ IsHeader kind line) ∧ IsHeader kind head := by
  induction ls with
  | nil =>
      obtain ⟨line, hline, -⟩ := h
      cases hline
  | cons line ls ih =>
      by_cases hline : IsHeader kind line
      · exact ⟨[], line, ls, rfl, by simp, hline⟩
      · have hrest : ∃ line ∈ ls, IsHeader kind line := by
          obtain ⟨other, hother, hheader⟩ := h
          rcases List.mem_cons.mp hother with rfl | hother
          · exact absurd hheader hline
          · exact ⟨other, hother, hheader⟩
        obtain ⟨before, head, behind, rfl, hbefore, hhead⟩ := ih hrest
        exact ⟨line :: before, head, behind, rfl, List.forall_mem_cons.mpr ⟨hline, hbefore⟩, hhead⟩

/-- What an accepted output with a header looks like behind it. -/
theorem behind_of_ok {stdout head : List Char} {before behind : List (List Char)}
    {values : List String} (h : packageInventory true stdout kind = .ok values)
    (hlines : significantLines stdout = before ++ head :: behind) (hhead : IsHeader kind head) :
    (∀ line ∈ before, ¬ IsHeader kind line) ∧ (∀ line ∈ behind, ReadableLine kind line) ∧
      (kind.empty ∈ before ++ behind → behind.filterMap (lineName kind) = []) ∧
      values = dedup (sort (behind.filterMap (lineName kind))) := by
  have hexists : ∃ line ∈ before ++ head :: behind, IsHeader kind line :=
    ⟨head, List.mem_append_right _ (List.mem_cons_self ..), hhead⟩
  obtain ⟨front, first, rest, hsplit, hfront, hfirst⟩ := exists_first_header hexists
  rw [packageInventory_of_header (hlines.trans hsplit) hfront hfirst] at h
  split_ifs at h with haccepted
  -- No line behind the first header is a header, so it is the one we look at.
  have hrest : ∀ line ∈ rest, ¬ IsHeader kind line := by
    intro line hline
    rcases haccepted.1 line hline with rfl | ⟨hnot, -⟩
    · exact not_isHeader_empty kind
    · exact hnot
  have hsame : front = before ∧ rest = behind := by
    rcases List.append_eq_append_iff.mp hsplit with ⟨mid, rfl, hmid⟩ | ⟨mid, rfl, hmid⟩
    · cases mid with
      | nil => exact ⟨by simp, (List.cons.inj hmid).2.symm⟩
      | cons line mid =>
          rw [List.cons_append, List.cons.injEq] at hmid
          exact absurd (hmid.1 ▸ hhead) (hfront line (by simp))
    · cases mid with
      | nil => exact ⟨by simp, (List.cons.inj hmid).2⟩
      | cons line mid =>
          rw [List.cons_append, List.cons.injEq] at hmid
          exact absurd hhead (hrest head (by rw [hmid.2]; simp))
  obtain ⟨rfl, rfl⟩ := hsame
  exact ⟨hfront, haccepted.1, haccepted.2, (Except.ok.inj h).symm⟩

end

/-- **A table is read completely or not at all.**  Every list of names is the list of a table;
the inventory of a table is the sorted list of its distinct names, whatever stands in front of
it.  Where an inventory is returned, every line behind the header that is not blank, not a rule
and not the sentence has contributed its name; and an output is refused that has neither a
header nor the sentence, two headers, or rows beside the sentence. -/
theorem packageInventory_complete (kind : PackageInventoryKind) :
    (∀ names : List (List Char), (∀ name ∈ names, ListableName name) →
      ∃ body : List (TableLine kind), body.filterMap TableLine.name = names.map String.ofList) ∧
    (∀ noise head (body : List (TableLine kind)), (∀ line ∈ noise, Noise kind line) →
      '\n' ∉ head → IsHeader kind (trim head) →
      ∃ values, packageInventory true (unlines (noise ++ head :: body.map TableLine.text)) kind =
        .ok values ∧ Ascending values ∧
        ∀ name, name ∈ values ↔ name ∈ body.filterMap TableLine.name) ∧
    (∀ success stdout values before head behind,
      packageInventory success stdout kind = .ok values →
      significantLines stdout = before ++ head :: behind → IsHeader kind head →
      ∀ line ∈ behind, IsRow kind line →
        ∃ name ∈ values, (columns line)[kind.nameIndex]? = some name.toList) ∧
    (∀ success stdout, (∀ line ∈ significantLines stdout, ¬ IsHeader kind line ∧ line ≠ kind.empty) →
      ∀ values, packageInventory success stdout kind ≠ .ok values) ∧
    (∀ success stdout before head mid second behind,
      significantLines stdout = before ++ head :: (mid ++ second :: behind) →
      IsHeader kind head → IsHeader kind second →
      ∀ values, packageInventory success stdout kind ≠ .ok values) ∧
    (∀ success stdout before head behind, significantLines stdout = before ++ head :: behind →
      IsHeader kind head → (∃ line ∈ behind, IsRow kind line) →
      kind.empty ∈ significantLines stdout →
      ∀ values, packageInventory success stdout kind ≠ .ok values) := by
  have hsuccess : ∀ {success stdout values}, packageInventory success stdout kind = .ok values →
      packageInventory true stdout kind = .ok values := by
    intro success stdout values h
    cases success with
    | false => cases h
    | true => exact h
  refine ⟨exists_table kind, ?_, ?_, ?_, ?_, ?_⟩
  · intro noise head body hnoise hfeed hhead
    refine ⟨_, packageInventory_table body hnoise hfeed hhead, ascending_dedup_sort _, fun name => ?_⟩
    rw [mem_dedup, (sort_perm _).mem_iff]
  · intro success stdout values before head behind h hlines hhead line hline hrow
    obtain ⟨-, hreadable, -, rfl⟩ := behind_of_ok (hsuccess h) hlines hhead
    obtain ⟨name, hname, hcolumn⟩ := exists_name_of_readable (hreadable line hline) hrow
    refine ⟨name, ?_, hcolumn⟩
    rw [mem_dedup, (sort_perm _).mem_iff]
    exact List.mem_filterMap.mpr ⟨line, hline, hname⟩
  · intro success stdout hnone values h
    have hok := hsuccess h
    rw [packageInventory_of_no_header fun line hline => (hnone line hline).1,
      if_neg fun hempty => (hnone _ hempty).2 rfl] at hok
    cases hok
  · intro success stdout before head mid second behind hlines hhead hsecond values h
    obtain ⟨-, hreadable, -⟩ := behind_of_ok (hsuccess h) hlines hhead
    rcases hreadable second (by simp) with rfl | ⟨hnot, -⟩
    · exact not_isHeader_empty kind hsecond
    · exact hnot hsecond
  · rintro success stdout before head behind hlines hhead ⟨line, hline, hrow⟩ hempty values h
    obtain ⟨-, hreadable, hsilent, -⟩ := behind_of_ok (hsuccess h) hlines hhead
    obtain ⟨name, hname, -⟩ := exists_name_of_readable (hreadable line hline) hrow
    have hseen : kind.empty ∈ before ++ behind := by
      rw [hlines] at hempty
      rcases List.mem_append.mp hempty with hempty | hempty
      · exact List.mem_append_left _ hempty
      · rcases List.mem_cons.mp hempty with rfl | hempty
        · exact absurd hhead (not_isHeader_empty kind)
        · exact List.mem_append_right _ hempty
    have hmem := List.mem_filterMap.mpr ⟨line, hline, hname⟩
    rw [hsilent hseen] at hmem
    cases hmem

/-- **The sentence behind the header** is no separator, and contributes no name. -/
theorem packageInventory_silent :
    ∃ stdout, packageInventory true stdout .locks = .ok [] ∧
      significantLines stdout = ["# | Name | Type | Repository | Comment".toList,
        "There are no package locks defined.".toList] ∧
      IsHeader .locks "# | Name | Type | Repository | Comment".toList ∧
      isRule "There are no package locks defined.".toList = false :=
  ⟨unlines ["# | Name | Type | Repository | Comment".toList,
    "There are no package locks defined.".toList], by decide +kernel, by decide +kernel,
    by decide +kernel, by decide +kernel⟩

end LyraUpgrade
