import LyraUpgrade.Core.Operation

/-!
# Text

The string operations of the standard library that the modelled functions use,
on `String` and on lists of characters: ASCII classes, `str::trim`, `str::lines`,
and reading and writing a `u64` in decimal.

Rust measures a string in UTF-8 bytes.  Where the source walks over bytes it only
accepts ASCII, so walking over characters accepts the same strings; lengths are
byte lengths (`String.utf8ByteSize`).
-/

namespace LyraUpgrade

/-- A statement about the characters of a text is decided by walking over the text, and not
over all characters. -/
instance (priority := high) decidableForallChar (p : Char → Prop) [DecidablePred p]
    (cs : List Char) : Decidable (∀ c ∈ cs, p c) :=
  List.decidableBAll p cs

/-- `byte.is_ascii_hexdigit() && !byte.is_ascii_uppercase()`. -/
def isHexLower (c : Char) : Bool := ('0' ≤ c && c ≤ '9') || ('a' ≤ c && c ≤ 'f')

/-- `byte.is_ascii_hexdigit() && !byte.is_ascii_lowercase()`. -/
def isHexUpper (c : Char) : Bool := ('0' ≤ c && c ≤ '9') || ('A' ≤ c && c ≤ 'F')

/-- `char::is_whitespace`: the Unicode property `White_Space`. -/
def isWhitespace (c : Char) : Bool :=
  (9 ≤ c.toNat && c.toNat ≤ 13) || c.toNat == 0x20 || c.toNat == 0x85 || c.toNat == 0xa0 ||
  c.toNat == 0x1680 || (0x2000 ≤ c.toNat && c.toNat ≤ 0x200a) || c.toNat == 0x2028 ||
  c.toNat == 0x2029 || c.toNat == 0x202f || c.toNat == 0x205f || c.toNat == 0x3000

/-- `char::is_control`: the Unicode category `Cc`. -/
def isControl (c : Char) : Bool := c.toNat < 0x20 || (0x7f ≤ c.toNat && c.toNat ≤ 0x9f)

/-- `str::trim`. -/
def trim (cs : List Char) : List Char :=
  ((cs.dropWhile isWhitespace).reverse.dropWhile isWhitespace).reverse

/-- A line without the carriage return of a `\r\n`. -/
def chomp (line : List Char) : List Char :=
  if line.getLast? = some '\r' then line.dropLast else line

/-- `str::lines`: the pieces between line feeds, and what is left behind the last one unless
that is empty.  Only a carriage return in front of a line feed belongs to the line end. -/
def lines (cs : List Char) : List (List Char) :=
  let pieces := cs.splitOn '\n'
  pieces.dropLast.map chomp ++ (pieces.getLast?.filter (!·.isEmpty)).toList

/-! ## Decimal numbers -/

/-- The value of a string of decimal digits. -/
def digitsValue (cs : List Char) : ℕ :=
  cs.foldl (fun n c => 10 * n + (c.toNat - '0'.toNat)) 0

/-- A nonempty string of decimal digits whose value fits `u64`. -/
def parseDigits (cs : List Char) : Option ℕ :=
  if !cs.isEmpty && cs.all Char.isDigit && digitsValue cs ≤ u64Max then some (digitsValue cs)
  else none

/-- `str::parse::<u64>`: decimal digits, after an optional plus sign. -/
def parseU64 : List Char → Option ℕ
  | '+' :: cs => parseDigits cs
  | cs => parseDigits cs

/-- `str::parse::<i64>`: decimal digits, after an optional sign. -/
def parseI64 : List Char → Option Int
  | '-' :: cs => ((parseDigits cs).filter (· ≤ 0x8000000000000000)).map fun n => -(n : Int)
  | '+' :: cs => ((parseDigits cs).filter (· < 0x8000000000000000)).map Int.ofNat
  | cs => ((parseDigits cs).filter (· < 0x8000000000000000)).map Int.ofNat

/-- A `u64` as `format!` writes it. -/
def decimal (n : ℕ) : List Char := Nat.toDigits 10 n

/-! ## Writing and reading a number -/

theorem digitsValue_decimal (n : ℕ) : digitsValue (decimal n) = n := by
  have h : digitsValue (decimal n) = Nat.ofDigitChars 10 (Nat.toDigits 10 n) 0 := rfl
  rw [h, Nat.ofDigitChars_ten_toDigits]

theorem isDigit_of_mem_decimal {n : ℕ} {c : Char} (h : c ∈ decimal n) : c.isDigit :=
  Nat.isDigit_of_mem_toDigits (by decide) (by decide) h

theorem parseDigits_decimal {n : ℕ} (h : n ≤ u64Max) : parseDigits (decimal n) = some n := by
  have hne : decimal n ≠ [] := Nat.toDigits_ne_nil
  have hdigits : (decimal n).all Char.isDigit :=
    List.all_eq_true.mpr fun c hc => isDigit_of_mem_decimal hc
  rw [parseDigits, digitsValue_decimal, if_pos]
  simp [hne, hdigits, h]

/-- A number starts with a digit, not with a sign. -/
theorem parseU64_decimal {n : ℕ} (h : n ≤ u64Max) : parseU64 (decimal n) = some n := by
  rw [← parseDigits_decimal h]
  unfold parseU64
  split
  · next heq =>
      have hplus : '+' ∈ decimal n := by rw [heq]; exact List.mem_cons_self ..
      exact absurd (isDigit_of_mem_decimal hplus) (by decide)
  · rfl

/-! ## ASCII -/

/-- An ASCII string has as many bytes as characters. -/
theorem utf8ByteSize_of_ascii {s : String} (h : ∀ c ∈ s.toList, c.toNat < 128) :
    s.utf8ByteSize = s.toList.length := by
  have hlist : ∀ cs : List Char, (∀ c ∈ cs, c.toNat < 128) →
      (String.ofList cs).utf8ByteSize = cs.length := by
    intro cs hcs
    induction cs with
    | nil => rfl
    | cons c cs ih =>
        rw [List.forall_mem_cons] at hcs
        have hone : c.utf8Size = 1 :=
          Char.utf8Size_eq_one_iff.mpr (UInt32.le_iff_toNat_le.mpr (Nat.le_of_lt_succ hcs.1))
        rw [String.ofList_cons, String.utf8ByteSize_append, String.utf8ByteSize_singleton, hone,
          ih hcs.2, List.length_cons, Nat.add_comm]
  have := hlist s.toList h
  rwa [String.ofList_toList] at this

theorem toNat_lt_of_le {c d : Char} {n : Nat} (h : c ≤ d) (hd : d.toNat < n) : c.toNat < n :=
  Nat.lt_of_le_of_lt (UInt32.le_iff_toNat_le.mp h) hd

theorem isHexUpper_ascii {c : Char} (h : isHexUpper c) : c.toNat < 128 := by
  simp only [isHexUpper, Bool.or_eq_true, Bool.and_eq_true, decide_eq_true_eq] at h
  rcases h with ⟨-, h⟩ | ⟨-, h⟩
  · exact toNat_lt_of_le h (by decide)
  · exact toNat_lt_of_le h (by decide)

theorem isHexLower_ascii {c : Char} (h : isHexLower c) : c.toNat < 128 := by
  simp only [isHexLower, Bool.or_eq_true, Bool.and_eq_true, decide_eq_true_eq] at h
  rcases h with ⟨-, h⟩ | ⟨-, h⟩
  · exact toNat_lt_of_le h (by decide)
  · exact toNat_lt_of_le h (by decide)

theorem isAlphanum_ascii {c : Char} (h : c.isAlphanum) : c.toNat < 128 := by
  delta Char.isAlphanum Char.isAlpha Char.isUpper Char.isLower Char.isDigit at h
  simp only [Bool.or_eq_true, Bool.and_eq_true, decide_eq_true_eq] at h
  rcases h with (⟨-, h⟩ | ⟨-, h⟩) | ⟨-, h⟩
  · exact Nat.lt_of_le_of_lt (UInt32.le_iff_toNat_le.mp h) (by decide)
  · exact Nat.lt_of_le_of_lt (UInt32.le_iff_toNat_le.mp h) (by decide)
  · exact Nat.lt_of_le_of_lt (UInt32.le_iff_toNat_le.mp h) (by decide)

end LyraUpgrade
