import LyraUpgrade.Encoding.Json
import Mathlib.Data.List.TakeWhile

/-!
# Files of lines

A file that is a sequence of records, each ended by a line feed, and the two ways such a
file is read: from the front, piece by piece and never more than a limit at once, and from
the back, by what stands after the last line feed but one.

Both are exact on records that hold no line feed themselves (`readUntil_line`,
`lastPiece_append`).  The compact text of a JSON value is such a record
(`lineFeed_notMem_utf8_render`), because every control character of a string is escaped.

## Main definitions

* `readUntil`, `lastPiece` — the two ways, for any kind of element.
* `utf8` — the bytes of a text.
* `lineFeed` — the byte that ends a record.
-/

namespace Encoding

/-! ## Pieces -/

section

variable {α : Type} [DecidableEq α]

/-- The elements up to and including the first `stop`, but at most `limit` of them, and
what is left. -/
def readUntil (stop : α) : ℕ → List α → List α × List α
  | 0, xs => ([], xs)
  | _, [] => ([], [])
  | limit + 1, x :: xs =>
      if x = stop then ([x], xs)
      else (x :: (readUntil stop limit xs).1, (readUntil stop limit xs).2)

/-- Nothing is lost. -/
theorem readUntil_append (stop : α) (limit : ℕ) (xs : List α) :
    (readUntil stop limit xs).1 ++ (readUntil stop limit xs).2 = xs := by
  induction limit generalizing xs with
  | zero => rfl
  | succ limit ih =>
      cases xs with
      | nil => rfl
      | cons x xs =>
          rw [readUntil]
          split_ifs with hx
          · rfl
          · show x :: ((readUntil stop limit xs).1 ++ (readUntil stop limit xs).2) = x :: xs
            rw [ih]

theorem length_readUntil (stop : α) (limit : ℕ) (xs : List α) :
    (readUntil stop limit xs).1.length + (readUntil stop limit xs).2.length = xs.length := by
  rw [← List.length_append, readUntil_append]

@[simp] theorem readUntil_nil (stop : α) (limit : ℕ) : readUntil stop limit [] = ([], []) := by
  cases limit <;> rfl

/-- A record that fits the limit is read as it is. -/
theorem readUntil_line {stop : α} {limit : ℕ} {body : List α} (rest : List α)
    (hbody : stop ∉ body) (hlimit : body.length < limit) :
    readUntil stop limit (body ++ stop :: rest) = (body ++ [stop], rest) := by
  induction body generalizing limit with
  | nil =>
      obtain ⟨limit, rfl⟩ := Nat.exists_eq_succ_of_ne_zero (Nat.ne_of_gt hlimit)
      show readUntil stop (limit + 1) (stop :: rest) = _
      rw [readUntil, if_pos rfl]
      rfl
  | cons x body ih =>
      obtain ⟨limit, rfl⟩ := Nat.exists_eq_succ_of_ne_zero (Nat.ne_of_gt (Nat.zero_lt_of_lt hlimit))
      rw [List.mem_cons, not_or] at hbody
      rw [List.length_cons, Nat.succ_lt_succ_iff] at hlimit
      show readUntil stop (limit + 1) (x :: (body ++ stop :: rest)) = _
      rw [readUntil, if_neg (Ne.symm hbody.1), ih hbody.2 hlimit]
      rfl

/-- The elements after the last `stop`. -/
def lastPiece (stop : α) (xs : List α) : List α :=
  (xs.reverse.takeWhile fun x => decide (x ≠ stop)).reverse

/-- What stands before a record is nothing, or ends with `stop`. -/
theorem lastPiece_append {stop : α} {before body : List α} (hbody : stop ∉ body)
    (hbefore : ∀ x ∈ before.getLast?, x = stop) : lastPiece stop (before ++ body) = body := by
  have hreverse : ∀ x ∈ body.reverse, decide (x ≠ stop) = true := by
    intro x hx
    rw [decide_eq_true_eq]
    rintro rfl
    exact hbody (List.mem_reverse.mp hx)
  rw [lastPiece, List.reverse_append, List.takeWhile_append_of_pos hreverse]
  have hnone : before.reverse.takeWhile (fun x => decide (x ≠ stop)) = [] := by
    cases h : before.reverse with
    | nil => rfl
    | cons x xs =>
        have hlast : before.getLast? = some x := by
          rw [List.getLast?_eq_head?_reverse, h]
          rfl
        rw [List.takeWhile_cons_of_neg]
        simp [hbefore x hlast]
  rw [hnone, List.append_nil, List.reverse_reverse]

end

/-! ## Bytes -/

/-- The bytes of a text. -/
def utf8 (cs : List Char) : List UInt8 := cs.flatMap String.utf8EncodeChar

theorem utf8_injective : Function.Injective utf8 := by
  intro cs ds h
  have hbytes : cs.utf8Encode = ds.utf8Encode := by
    show (utf8 cs).toByteArray = (utf8 ds).toByteArray
    rw [h]
  rw [← String.toByteArray_ofList, ← String.toByteArray_ofList, String.toByteArray_inj] at hbytes
  exact String.ofList_injective hbytes

/-- `b'\n'`. -/
def lineFeed : UInt8 := 10

private theorem ofNat_ne_lineFeed {n : ℕ} (hlow : 10 < n) (hhigh : n < 256) :
    lineFeed ≠ UInt8.ofNat n := by
  intro h
  have := congrArg UInt8.toNat h
  rw [UInt8.toNat_ofNat_of_lt' (by simpa using hhigh)] at this
  simp [lineFeed] at this
  omega

/-- Only the line feed itself is written with its byte; the other control characters are
not needed here. -/
theorem lineFeed_notMem_utf8EncodeChar {c : Char} (h : 32 ≤ c.toNat) :
    lineFeed ∉ String.utf8EncodeChar c := by
  have hc : c.val.toNat = c.toNat := rfl
  rw [String.utf8EncodeChar, hc]
  split_ifs with h₁ h₂ h₃
  · simp only [List.mem_singleton]
    exact ofNat_ne_lineFeed (by omega) (by omega)
  · simp only [List.mem_cons, List.not_mem_nil, or_false, not_or]
    exact ⟨ofNat_ne_lineFeed (by omega) (by omega), ofNat_ne_lineFeed (by omega) (by omega)⟩
  · simp only [List.mem_cons, List.not_mem_nil, or_false, not_or]
    exact ⟨ofNat_ne_lineFeed (by omega) (by omega), ofNat_ne_lineFeed (by omega) (by omega),
      ofNat_ne_lineFeed (by omega) (by omega)⟩
  · simp only [List.mem_cons, List.not_mem_nil, or_false, not_or]
    exact ⟨ofNat_ne_lineFeed (by omega) (by omega), ofNat_ne_lineFeed (by omega) (by omega),
      ofNat_ne_lineFeed (by omega) (by omega), ofNat_ne_lineFeed (by omega) (by omega)⟩

/-! ## A value's text is one line -/

theorem le_hexDigit : ∀ n < 16, 32 ≤ (hexDigit n).toNat := by decide

/-- A short escape. -/
private theorem le_of_mem_pair {c d : Char} (h : d ∈ ['\\', c]) (hc : 32 ≤ c.toNat) :
    32 ≤ d.toNat := by
  simp only [List.mem_cons, List.not_mem_nil, or_false] at h
  rcases h with rfl | rfl
  · decide
  · exact hc

theorem le_of_mem_escape {c d : Char} (h : d ∈ escape c) : 32 ≤ d.toNat := by
  unfold escape at h
  split_ifs at h with hquote hslash hb ht hn hf hr hctl
  · exact le_of_mem_pair h (by decide)
  · exact le_of_mem_pair h (by decide)
  · exact le_of_mem_pair h (by decide)
  · exact le_of_mem_pair h (by decide)
  · exact le_of_mem_pair h (by decide)
  · exact le_of_mem_pair h (by decide)
  · exact le_of_mem_pair h (by decide)
  · have hhigh := le_hexDigit (c.toNat / 16) (by omega)
    have hlow := le_hexDigit (c.toNat % 16) (by omega)
    simp only [List.mem_cons, List.not_mem_nil, or_false] at h
    rcases h with rfl | rfl | rfl | rfl | rfl | rfl
    · decide
    · decide
    · decide
    · decide
    · exact hhigh
    · exact hlow
  · rw [List.mem_singleton.mp h]
    exact Nat.le_of_not_lt hctl

theorem le_of_mem_quote {s : String} {d : Char} (h : d ∈ quote s) : 32 ≤ d.toNat := by
  simp only [quote, List.mem_cons, List.mem_append, List.mem_flatMap, List.not_mem_nil,
    or_false] at h
  rcases h with rfl | ⟨c, -, hd⟩ | rfl
  · decide
  · exact le_of_mem_escape hd
  · decide

theorem le_of_mem_toDigits {n : ℕ} {d : Char} (h : d ∈ Nat.toDigits 10 n) : 32 ≤ d.toNat := by
  have hdigit := Nat.isDigit_of_mem_toDigits (b := 10) (n := n) (by decide) (by decide) h
  simp only [Char.isDigit, Bool.and_eq_true, decide_eq_true_eq] at hdigit
  have hle : (48 : ℕ) ≤ d.toNat := UInt32.le_iff_toNat_le.mp hdigit.1
  omega

/-- A fixed text. -/
theorem le_of_mem_text {cs : List Char} {d : Char} (hcs : cs.all (fun c => 32 ≤ c.toNat) = true)
    (h : d ∈ cs) : 32 ≤ d.toNat :=
  of_decide_eq_true (List.all_eq_true.mp hcs d h)

namespace Json

mutual

/-- No character of a value's text is a control character.  One case for each
constructor. -/
theorem le_of_mem_render {d : Char} (v : Json) (h : d ∈ render v) : 32 ≤ d.toNat := by
  match v with
  | null =>
      rw [render] at h
      exact le_of_mem_text (by decide) h
  | bool true =>
      rw [render] at h
      exact le_of_mem_text (by decide) h
  | bool false =>
      rw [render] at h
      exact le_of_mem_text (by decide) h
  | num n => exact le_of_mem_toDigits h
  | str s => exact le_of_mem_quote h
  | arr [] =>
      rw [render] at h
      exact le_of_mem_text (by decide) h
  | arr (v :: vs) =>
      simp only [render, List.mem_cons, List.mem_append] at h
      rcases h with rfl | h | h
      · decide
      · exact le_of_mem_render v h
      · exact le_of_mem_renderElements vs h
  | obj [] =>
      rw [render] at h
      exact le_of_mem_text (by decide) h
  | obj ((k, v) :: ms) =>
      simp only [render, List.mem_cons, List.mem_append] at h
      rcases h with rfl | h | rfl | h | h
      · decide
      · exact le_of_mem_quote h
      · decide
      · exact le_of_mem_render v h
      · exact le_of_mem_renderMembers ms h

theorem le_of_mem_renderElements {d : Char} (vs : List Json) (h : d ∈ renderElements vs) :
    32 ≤ d.toNat := by
  match vs with
  | [] =>
      rw [renderElements, List.mem_singleton] at h
      rw [h]
      decide
  | v :: vs =>
      simp only [renderElements, List.mem_cons, List.mem_append] at h
      rcases h with rfl | h | h
      · decide
      · exact le_of_mem_render v h
      · exact le_of_mem_renderElements vs h

theorem le_of_mem_renderMembers {d : Char} (ms : List (String × Json))
    (h : d ∈ renderMembers ms) : 32 ≤ d.toNat := by
  match ms with
  | [] =>
      rw [renderMembers, List.mem_singleton] at h
      rw [h]
      decide
  | (k, v) :: ms =>
      simp only [renderMembers, List.mem_cons, List.mem_append] at h
      rcases h with rfl | h | rfl | h | h
      · decide
      · exact le_of_mem_quote h
      · decide
      · exact le_of_mem_render v h
      · exact le_of_mem_renderMembers ms h

end

/-- **A value's text holds no line feed.** -/
theorem lineFeed_notMem_utf8_render (v : Json) : lineFeed ∉ utf8 v.render := by
  intro h
  obtain ⟨c, hc, hbyte⟩ := List.mem_flatMap.mp h
  exact lineFeed_notMem_utf8EncodeChar (le_of_mem_render v hc) hbyte

end Json

end Encoding
