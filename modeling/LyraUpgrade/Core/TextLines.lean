import LyraUpgrade.Core.Text
import Mathlib.Data.List.TakeWhile

/-!
# Texts as lines

What `lines` reads from a text that was put together line by line, and the operations on a
single line that the parsers of this repository share: `str::strip_prefix`,
`str::strip_suffix` and `str::split_once`.

## Main results

* `lines_unlines` — the lines of a text are the ones it was written from.
* `lineFeed_notMem_lines` — no line contains a line feed.
-/

namespace LyraUpgrade

/-! ## Lines -/

/-- Lines, each of them ended by a line feed. -/
def unlines (ls : List (List Char)) : List Char := ls.flatMap (· ++ ['\n'])

@[simp] theorem lines_nil : lines [] = [] := rfl

/-- One line after the other. -/
theorem lines_append {line : List Char} (hline : '\n' ∉ line) (rest : List Char) :
    lines (line ++ '\n' :: rest) = chomp line :: lines rest := by
  have hsplit : (line ++ '\n' :: rest).splitOn '\n' = line :: rest.splitOn '\n' :=
    List.splitOn_append_cons_self_of_not_mem hline rest
  have hne : rest.splitOn '\n' ≠ [] := List.splitOn_ne_nil '\n' rest
  simp only [lines, hsplit, List.getLast?_cons_of_ne_nil hne, List.dropLast_cons_of_ne_nil hne,
    List.map_cons, List.cons_append]

/-- **Reading lines back.** -/
theorem lines_unlines {ls : List (List Char)} (hls : ∀ line ∈ ls, '\n' ∉ line) :
    lines (unlines ls) = ls.map chomp := by
  induction ls with
  | nil => rfl
  | cons line ls ih =>
      rw [List.forall_mem_cons] at hls
      have hrest : unlines (line :: ls) = line ++ '\n' :: unlines ls := by
        simp [unlines]
      rw [hrest, lines_append hls.1, ih hls.2, List.map_cons]

theorem chomp_of_getLast? {line : List Char} (h : line.getLast? ≠ some '\r') :
    chomp line = line := if_neg h

theorem mem_of_mem_chomp {line : List Char} {c : Char} (h : c ∈ chomp line) : c ∈ line := by
  unfold chomp at h
  split_ifs at h
  · exact List.dropLast_subset _ h
  · exact h

/-- No piece contains the separator. -/
theorem separator_notMem_splitOn (separator : Char) (cs : List Char) :
    ∀ piece ∈ cs.splitOn separator, separator ∉ piece := by
  induction cs with
  | nil => simp
  | cons c cs ih =>
      rw [List.splitOn_cons_eq_if_modifyHead]
      split_ifs with hc
      · simpa using ih
      · -- The character joins the first piece.
        obtain ⟨piece, pieces, hsplit⟩ :=
          List.exists_cons_of_ne_nil (List.splitOn_ne_nil separator cs)
        rw [hsplit, List.forall_mem_cons] at ih
        rw [hsplit, List.modifyHead_cons, List.forall_mem_cons]
        refine ⟨fun hmem => ?_, ih.2⟩
        rcases List.mem_cons.mp hmem with rfl | hmem
        · exact hc (beq_self_eq_true _)
        · exact ih.1 hmem

/-- No line contains a line feed. -/
theorem lineFeed_notMem_lines {cs line : List Char} (h : line ∈ lines cs) : '\n' ∉ line := by
  have hpiece := separator_notMem_splitOn '\n' cs
  rcases List.mem_append.mp h with hmem | hlast
  · obtain ⟨piece, hbefore, rfl⟩ := List.mem_map.mp hmem
    exact fun hfeed => hpiece piece (List.dropLast_subset _ hbefore) (mem_of_mem_chomp hfeed)
  · obtain ⟨hlast, -⟩ := Option.filter_eq_some_iff.mp (Option.mem_toList.mp hlast)
    exact hpiece line (List.mem_of_getLast? hlast)

/-! ## Blanks at the ends -/

/-- `str::trim_start`. -/
def trimStart (cs : List Char) : List Char := cs.dropWhile isWhitespace

/-- `str::trim_end`. -/
def trimEnd (cs : List Char) : List Char := (cs.reverse.dropWhile isWhitespace).reverse

theorem trim_eq (cs : List Char) : trim cs = trimEnd (trimStart cs) := rfl

theorem dropWhile_append_stop {p : Char → Bool} {c : Char} (hc : p c = false) (cs ds : List Char) :
    (cs ++ c :: ds).dropWhile p = cs.dropWhile p ++ c :: ds := by
  induction cs with
  | nil => rw [List.nil_append, List.dropWhile_cons_of_neg (by simp [hc])]; rfl
  | cons d cs ih =>
      by_cases hd : p d
      · rw [List.cons_append, List.dropWhile_cons_of_pos hd, List.dropWhile_cons_of_pos hd, ih]
      · rw [List.cons_append, List.dropWhile_cons_of_neg hd, List.dropWhile_cons_of_neg hd]
        rfl

theorem trimEnd_append_stop {c : Char} (hc : isWhitespace c = false) (cs ds : List Char) :
    trimEnd (cs ++ c :: ds) = cs ++ c :: trimEnd ds := by
  have hreverse : (cs ++ c :: ds).reverse = ds.reverse ++ c :: cs.reverse := by simp
  rw [trimEnd, hreverse, dropWhile_append_stop hc, trimEnd]
  simp

theorem dropWhile_eq_self {p : Char → Bool} {cs : List Char} (h : ∀ c ∈ cs.head?, p c = false) :
    cs.dropWhile p = cs := by
  cases cs with
  | nil => rfl
  | cons c cs => exact List.dropWhile_cons_of_neg (by simp [h c rfl])

theorem head?_dropWhile {p : Char → Bool} (cs : List Char) :
    ∀ c ∈ (cs.dropWhile p).head?, p c = false := by
  induction cs with
  | nil => simp
  | cons d cs ih =>
      by_cases hd : p d
      · rwa [List.dropWhile_cons_of_pos hd]
      · rw [List.dropWhile_cons_of_neg hd]
        simpa using hd

theorem trim_trimStart (cs : List Char) : trim (trimStart cs) = trim cs := by
  show trimEnd ((cs.dropWhile isWhitespace).dropWhile isWhitespace) = _
  rw [dropWhile_eq_self (head?_dropWhile cs)]
  rfl

theorem trimEnd_trimEnd (cs : List Char) : trimEnd (trimEnd cs) = trimEnd cs := by
  rw [trimEnd, trimEnd, List.reverse_reverse, dropWhile_eq_self (head?_dropWhile cs.reverse)]

theorem trim_trimEnd (cs : List Char) : trim (trimEnd cs) = trim cs := by
  have hparts := List.takeWhile_append_dropWhile (p := isWhitespace) (l := cs)
  have hblank : ∀ c ∈ cs.takeWhile isWhitespace, isWhitespace c = true :=
    fun c hc => List.mem_takeWhile_imp hc
  cases hdrop : cs.dropWhile isWhitespace with
  | nil =>
      -- The text is blank, and nothing of it is left on either side.
      rw [hdrop, List.append_nil] at hparts
      have hall : ∀ c ∈ cs.reverse, isWhitespace c = true := by
        intro c hc
        rw [← hparts] at hc
        exact hblank c (List.mem_reverse.mp hc)
      have hend : trimEnd cs = [] := by
        rw [trimEnd, List.dropWhile_eq_nil_iff.mpr hall]
        rfl
      rw [hend, trim_eq cs, trimStart, hdrop]
      rfl
  | cons c rest =>
      have hc : isWhitespace c = false := by
        have hhead := head?_dropWhile (p := isWhitespace) cs
        rw [hdrop] at hhead
        exact hhead c rfl
      rw [hdrop] at hparts
      have hend : trimEnd cs = cs.takeWhile isWhitespace ++ c :: trimEnd rest := by
        rw [← trimEnd_append_stop hc, hparts]
      have hfront : trimStart (trimEnd cs) = c :: trimEnd rest := by
        rw [hend, trimStart, List.dropWhile_append_of_pos hblank,
          List.dropWhile_cons_of_neg (by simp [hc])]
      have hsingle : ∀ ds, trimEnd (c :: ds) = c :: trimEnd ds := fun ds =>
        trimEnd_append_stop hc [] ds
      rw [trim_eq, hfront, hsingle, trimEnd_trimEnd, trim_eq, trimStart, hdrop, hsingle]

/-- A carriage return at the end is a blank. -/
theorem trim_chomp (line : List Char) : trim (chomp line) = trim line := by
  unfold chomp
  split_ifs with hlast
  · obtain ⟨front, rfl⟩ := List.getLast?_eq_some_iff.mp hlast
    have hreturn : isWhitespace '\r' = true := by decide
    have hend : trimEnd (front ++ ['\r']) = trimEnd front := by
      rw [trimEnd, List.reverse_append, List.reverse_singleton, List.singleton_append,
        List.dropWhile_cons_of_pos hreturn]
      rfl
    rw [List.dropLast_concat, ← trim_trimEnd (front ++ ['\r']), hend, trim_trimEnd]
  · rfl

/-! ## Parts of a line -/

/-- `str::strip_prefix`. -/
def stripPrefix (pattern line : List Char) : Option (List Char) :=
  if pattern.isPrefixOf line then some (line.drop pattern.length) else none

/-- `str::strip_suffix`. -/
def stripSuffix (pattern line : List Char) : Option (List Char) :=
  if pattern.isSuffixOf line then some (line.take (line.length - pattern.length)) else none

theorem stripPrefix_eq_some {pattern line rest : List Char} :
    stripPrefix pattern line = some rest ↔ line = pattern ++ rest := by
  unfold stripPrefix
  constructor
  · intro h
    split_ifs at h with hahead
    obtain ⟨tail, rfl⟩ := List.isPrefixOf_iff_prefix.mp hahead
    rw [List.drop_left, Option.some.injEq] at h
    rw [h]
  · rintro rfl
    rw [if_pos (List.isPrefixOf_iff_prefix.mpr (List.prefix_append ..)), List.drop_left]

theorem stripSuffix_eq_some {pattern line rest : List Char} :
    stripSuffix pattern line = some rest ↔ line = rest ++ pattern := by
  unfold stripSuffix
  constructor
  · intro h
    split_ifs at h with hbehind
    obtain ⟨front, rfl⟩ := List.isSuffixOf_iff_suffix.mp hbehind
    rw [List.length_append, Nat.add_sub_cancel, List.take_left, Option.some.injEq] at h
    rw [h]
  · rintro rfl
    rw [if_pos (List.isSuffixOf_iff_suffix.mpr (List.suffix_append ..)), List.length_append,
      Nat.add_sub_cancel, List.take_left]

/-- `str::split_once` at a character. -/
def splitOnce (separator : Char) (line : List Char) : Option (List Char × List Char) :=
  match line.dropWhile (· ≠ separator) with
  | [] => none
  | _ :: value => some (line.takeWhile (· ≠ separator), value)

theorem splitOnce_append {separator : Char} {key : List Char} (hkey : separator ∉ key)
    (value : List Char) :
    splitOnce separator (key ++ separator :: value) = some (key, value) := by
  have hpos : ∀ c ∈ key, decide (c ≠ separator) = true := by
    intro c hc
    rw [decide_eq_true_eq]
    rintro rfl
    exact hkey hc
  unfold splitOnce
  rw [List.dropWhile_append_of_pos hpos, List.takeWhile_append_of_pos hpos]
  simp

end LyraUpgrade
