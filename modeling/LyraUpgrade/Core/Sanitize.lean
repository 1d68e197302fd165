import Mathlib.Algebra.GroupWithZero.Nat
import LyraUpgrade.Core.Text
import LyraUpgrade.Encoding.Lines
import LyraUpgrade.Encoding.Search

/-!
# Technical lines

`core/src/sanitize.rs`: what becomes of a line of `zypper` before it is logged and shown.
Terminal controls are stripped, user names, secrets in URLs and assignments are masked, and
the line is cut at a number of bytes.

The first pass walks over bytes and slices the text where it stands; a slice that does not
begin at the boundary of a character panics (`none`).  The other passes search for texts, and
what they find begins and ends at such boundaries, so they are written on characters.
-/

namespace LyraUpgrade

open Encoding

def maxTechnicalLineBytes : ℕ := 4096

structure SanitizedLine where
  text : String
  truncated : Bool
  deriving DecidableEq, Repr

/-! ## Terminal controls -/

/-- The bytes behind a control sequence, which ends with a byte from `@` to `~`. -/
def skipCsi : List UInt8 → List UInt8
  | [] => []
  | byte :: bytes => if 0x40 ≤ byte && byte ≤ 0x7e then bytes else skipCsi bytes

/-- The bytes behind an operating system command, which ends with `BEL` or `ESC \`. -/
def skipOsc : List UInt8 → List UInt8
  | [] => []
  | byte :: bytes =>
      if byte = 0x07 then bytes
      else if byte = 0x1b ∧ bytes.head? = some 0x5c then bytes.tail
      else skipOsc bytes

/-- `str::is_char_boundary`: not inside a character. -/
def beginsCharacter (byte : UInt8) : Bool := byte < 0x80 || 0xc0 ≤ byte

/-- `str::chars().next()`. -/
def firstCharacter (bytes : List UInt8) : Option Char := bytes.toByteArray.utf8DecodeChar? 0

theorem skipCsi_suffix (bytes : List UInt8) : skipCsi bytes <:+ bytes := by
  induction bytes with
  | nil => exact List.suffix_rfl
  | cons byte bytes ih =>
      rw [skipCsi]
      split_ifs
      · exact List.suffix_cons ..
      · exact ih.trans (List.suffix_cons ..)

theorem skipOsc_suffix (bytes : List UInt8) : skipOsc bytes <:+ bytes := by
  induction bytes with
  | nil => exact List.suffix_rfl
  | cons byte bytes ih =>
      rw [skipOsc]
      split_ifs
      · exact List.suffix_cons ..
      · exact (List.tail_suffix bytes).trans (List.suffix_cons ..)
      · exact ih.trans (List.suffix_cons ..)

/-- `strip_terminal_controls`, on the bytes that are left; `none` is a panic. -/
def stripTerminalControls (bytes : List UInt8) : Option (List Char) :=
  match bytes with
  | [] => some []
  | byte :: bytes =>
      if byte = 0x1b then
        match bytes with
        | [] => some []
        | second :: bytes =>
            if second = 0x5b then stripTerminalControls (skipCsi bytes)
            else if second = 0x5d then stripTerminalControls (skipOsc bytes)
            else stripTerminalControls bytes
      else if byte = 0x09 then ('\t' :: ·) <$> stripTerminalControls bytes
      else if byte = 0x0a then (' ' :: ·) <$> stripTerminalControls bytes
      else if byte < 0x20 || (0x7f ≤ byte && byte ≤ 0x9f) then stripTerminalControls bytes
      else if !beginsCharacter byte then none
      else match firstCharacter (byte :: bytes) with
        | none => some []
        | some c => (c :: ·) <$> stripTerminalControls ((byte :: bytes).drop c.utf8Size)
termination_by bytes.length
decreasing_by
  · have := (skipCsi_suffix bytes).length_le
    simp
    omega
  · have := (skipOsc_suffix bytes).length_le
    simp
    omega
  · simp only [List.length_cons]
    omega
  · simp
  · simp
  · simp
  · have := c.utf8Size_pos
    simp
    omega

@[simp] theorem stripTerminalControls_nil : stripTerminalControls [] = some [] := by
  rw [stripTerminalControls.eq_def]

theorem stripTerminalControls_cons {byte : UInt8} (h : byte ≠ 0x1b) (bytes : List UInt8) :
    stripTerminalControls (byte :: bytes) =
      if byte = 0x09 then ('\t' :: ·) <$> stripTerminalControls bytes
      else if byte = 0x0a then (' ' :: ·) <$> stripTerminalControls bytes
      else if byte < 0x20 || (0x7f ≤ byte && byte ≤ 0x9f) then stripTerminalControls bytes
      else if !beginsCharacter byte then none
      else match firstCharacter (byte :: bytes) with
        | none => some []
        | some c => (c :: ·) <$> stripTerminalControls ((byte :: bytes).drop c.utf8Size) := by
  rw [stripTerminalControls.eq_def]
  exact if_neg h

theorem stripTerminalControls_escape (second : UInt8) (bytes : List UInt8) :
    stripTerminalControls (0x1b :: second :: bytes) =
      if second = 0x5b then stripTerminalControls (skipCsi bytes)
      else if second = 0x5d then stripTerminalControls (skipOsc bytes)
      else stripTerminalControls bytes := by
  rw [stripTerminalControls.eq_def]
  exact if_pos rfl

/-! ## Masks -/

/-- What is left behind a pattern that was found is shorter. -/
theorem length_dropWhile_find {pattern input rest : List Char} {n : ℕ} {p : Char → Bool}
    (h : find pattern rest = some n) (hrest : rest.length = input.length)
    (hpattern : 0 < pattern.length) :
    ((input.drop (n + pattern.length)).dropWhile p).length < input.length := by
  have hsuffix := (List.dropWhile_suffix p (l := input.drop (n + pattern.length))).length_le
  have hplace := find_add_le h
  rw [List.length_drop] at hsuffix
  omega

/-- `mask_home_paths`. -/
def maskHomePaths (input : List Char) : List Char :=
  match _h : find "/home/".toList input with
  | none => input
  | some position =>
      input.take position ++ ("/home/<user>".toList ++ maskHomePaths
        ((input.drop (position + "/home/".toList.length)).dropWhile
          fun c => !(c == '/' || isWhitespace c)))
termination_by input.length
decreasing_by
  exact length_dropWhile_find _h rfl (by decide)

/-- `mask_url`. -/
def maskUrl (url : List Char) : List Char :=
  let schemeEnd := ((find "://".toList url).map (· + 3)).getD 0
  let authority := (url.drop schemeEnd).takeWhile (· ≠ '/')
  let tail := (url.drop schemeEnd).dropWhile (· ≠ '/')
  let kept := tail.takeWhile fun c => !(c == '?' || c == '#')
  url.take schemeEnd ++
    ((if '@' ∈ authority then "***@".toList ++ lastPiece '@' authority else authority) ++
      (kept ++ if kept.length < tail.length then "?***".toList else []))

/-- The place of the first URL. -/
def findUrl (input : List Char) : Option ℕ :=
  match find "http://".toList input, find "https://".toList input with
  | some http, some https => some (min http https)
  | some http, none => some http
  | none, https => https

theorem findUrl_eq_some {input : List Char} {start : ℕ} (h : findUrl input = some start) :
    (find "http://".toList input = some start ∨ find "https://".toList input = some start) ∧
      (∀ n, find "http://".toList input = some n → start ≤ n) ∧
      ∀ n, find "https://".toList input = some n → start ≤ n := by
  rw [findUrl] at h
  rcases hhttp : find "http://".toList input with _ | http <;>
    rcases hhttps : find "https://".toList input with _ | https <;>
    simp only [hhttp, hhttps] at h
  · cases h
  · cases h
    simp
  · cases h
    simp
  · cases h
    simp only [Option.some.injEq, forall_eq']
    omega

/-- A URL has at least one character. -/
theorem length_dropWhile_findUrl {input : List Char} {start : ℕ} (h : findUrl input = some start) :
    ((input.drop start).dropWhile (!isWhitespace ·)).length < input.length := by
  have hh : ∃ before after, input = before ++ 'h' :: after ∧ before.length = start := by
    rcases (findUrl_eq_some h).1 with h | h
    · obtain ⟨before, after, hsplit, hlength, -⟩ := find_eq_some h
      exact ⟨before, "ttp://".toList ++ after, hsplit, hlength⟩
    · obtain ⟨before, after, hsplit, hlength, -⟩ := find_eq_some h
      exact ⟨before, "ttps://".toList ++ after, hsplit, hlength⟩
  obtain ⟨before, after, rfl, rfl⟩ := hh
  rw [List.drop_left, List.dropWhile_cons_of_pos (by decide), List.length_append, List.length_cons]
  have := (List.dropWhile_suffix (!isWhitespace ·) (l := after)).length_le
  omega

/-- `mask_urls`. -/
def maskUrls (input : List Char) : List Char :=
  match _h : findUrl input with
  | none => input
  | some start =>
      input.take start ++ (maskUrl ((input.drop start).takeWhile (!isWhitespace ·)) ++
        maskUrls ((input.drop start).dropWhile (!isWhitespace ·)))
termination_by input.length
decreasing_by
  exact length_dropWhile_findUrl _h

/-- Where the value of an assignment ends. -/
def endsValue (c : Char) : Bool := isWhitespace c || c == '&' || c == ';'

/-- What is searched for, without regard to case. -/
abbrev SecretKey := { key : List Char // 0 < key.length }

/-- The loop of `mask_assignments` for one key. -/
def maskAssignment (key : SecretKey) (input : List Char) : List Char :=
  match _h : find key.1 (input.map Char.toLower) with
  | none => input
  | some relative =>
      input.take (relative + key.1.length) ++ ("***".toList ++ maskAssignment key
        ((input.drop (relative + key.1.length)).dropWhile (!endsValue ·)))
termination_by input.length
decreasing_by
  exact length_dropWhile_find _h (List.length_map ..) key.2

def secretKeys : List SecretKey :=
  [⟨"token=".toList, by decide⟩, ⟨"password=".toList, by decide⟩, ⟨"passwd=".toList, by decide⟩,
    ⟨"secret=".toList, by decide⟩, ⟨"apikey=".toList, by decide⟩, ⟨"api_key=".toList, by decide⟩]

/-- `mask_assignments`. -/
def maskAssignments (input : List Char) : List Char :=
  secretKeys.foldl (fun result key => maskAssignment key result) input

/-! ## The cut -/

/-- The number of bytes of a text. -/
def byteLength (cs : List Char) : ℕ := (cs.map Char.utf8Size).sum

/-- `str::is_char_boundary`, for a number of bytes. -/
def isCharBoundary : List Char → ℕ → Bool
  | _, 0 => true
  | [], _ + 1 => false
  | c :: cs, n + 1 => c.utf8Size ≤ n + 1 && isCharBoundary cs (n + 1 - c.utf8Size)

/-- The last boundary at or before a number of bytes. -/
def lastBoundary (cs : List Char) : ℕ → ℕ
  | 0 => 0
  | n + 1 => if isCharBoundary cs (n + 1) then n + 1 else lastBoundary cs n

/-- The characters in a number of bytes. -/
def takeBytes : List Char → ℕ → List Char
  | [], _ => []
  | c :: cs, n => if c.utf8Size ≤ n then c :: takeBytes cs (n - c.utf8Size) else []

/-- `truncate_utf8`. -/
def truncateUtf8 (input : List Char) (limit : ℕ) : SanitizedLine :=
  if byteLength input ≤ limit then ⟨String.ofList input, false⟩
  else ⟨String.ofList (takeBytes input (lastBoundary input limit)), true⟩

/-- The passes between the first and the last. -/
def maskLine (input : List Char) : List Char :=
  maskAssignments (maskUrls (maskHomePaths input))

/-- `sanitize_technical_line`; `none` is a panic. -/
def sanitizeTechnicalLine (input : String) : Option SanitizedLine := do
  let withoutControls ← stripTerminalControls (utf8 input.toList)
  return truncateUtf8 (maskLine withoutControls) maxTechnicalLineBytes

end LyraUpgrade
