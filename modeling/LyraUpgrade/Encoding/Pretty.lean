import LyraUpgrade.Encoding.Json

/-!
# The indented text of a JSON value

The text with one element or member on each line, two blanks for each level, and a
blank behind the colon.  It is the compact text with blanks and line feeds between the
tokens: `strip` takes them out again, and leaves the inside of a string alone
(`strip_pretty`).  So the indented text determines the value as well.

## Main definitions

* `Json.pretty`: the text.
* `strip`: the text without the blanks between its tokens.
-/

namespace Encoding

/-! ## The text -/

/-- A line feed, and the blanks a level is indented by. -/
def newline (depth : ℕ) : List Char := '\n' :: List.replicate (2 * depth) ' '

namespace Json

mutual

/-- The indented text of a value at a level. -/
def pretty (depth : ℕ) : Json → List Char
  | null => "null".toList
  | bool true => "true".toList
  | bool false => "false".toList
  | num n => Nat.toDigits 10 n
  | str s => quote s
  | arr [] => ['[', ']']
  | arr (v :: vs) =>
      '[' :: (newline (depth + 1) ++ (pretty (depth + 1) v ++ prettyElements depth vs))
  | obj [] => ['{', '}']
  | obj ((k, v) :: ms) =>
      '{' :: (newline (depth + 1) ++ (quote k ++ ':' :: ' ' ::
        (pretty (depth + 1) v ++ prettyMembers depth ms)))

/-- The elements after the first, up to the closing bracket. -/
def prettyElements (depth : ℕ) : List Json → List Char
  | [] => newline depth ++ [']']
  | v :: vs => ',' :: (newline (depth + 1) ++ (pretty (depth + 1) v ++ prettyElements depth vs))

/-- The members after the first, up to the closing brace. -/
def prettyMembers (depth : ℕ) : List (String × Json) → List Char
  | [] => newline depth ++ ['}']
  | (k, v) :: ms =>
      ',' :: (newline (depth + 1) ++ (quote k ++ ':' :: ' ' ::
        (pretty (depth + 1) v ++ prettyMembers depth ms)))

end

end Json

/-! ## Taking the blanks out -/

/-- Where a text is: between tokens, inside a string, or behind a backslash there. -/
inductive Place
  | outside
  | inside
  | escaped

/-- The text without the blanks and line feeds outside its strings. -/
def strip : Place → List Char → List Char
  | _, [] => []
  | .outside, c :: s =>
      if c = ' ' ∨ c = '\n' then strip .outside s
      else c :: strip (if c = '"' then .inside else .outside) s
  | .inside, c :: s =>
      c :: strip (if c = '"' then .outside else if c = '\\' then .escaped else .inside) s
  | .escaped, c :: s => c :: strip .inside s

/-- A character of a token that is not a string. -/
def Bare (c : Char) : Prop := c ≠ ' ' ∧ c ≠ '\n' ∧ c ≠ '"'

instance (c : Char) : Decidable (Bare c) := inferInstanceAs (Decidable (_ ∧ _))

theorem strip_bare {c : Char} (h : Bare c) (s : List Char) :
    strip .outside (c :: s) = c :: strip .outside s := by
  rw [strip, if_neg (by simp [h.1, h.2.1]), if_neg h.2.2]

theorem strip_token {cs : List Char} (h : ∀ c ∈ cs, Bare c) (s : List Char) :
    strip .outside (cs ++ s) = cs ++ strip .outside s := by
  induction cs with
  | nil => rfl
  | cons c cs ih =>
      rw [List.forall_mem_cons] at h
      rw [List.cons_append, strip_bare h.1, ih h.2]
      rfl

theorem strip_newline (depth : ℕ) (s : List Char) :
    strip .outside (newline depth ++ s) = strip .outside s := by
  have hblanks : ∀ n, strip .outside (List.replicate n ' ' ++ s) = strip .outside s := by
    intro n
    induction n with
    | zero => rfl
    | succ n ih => exact ih
  exact hblanks (2 * depth)

/-- A character inside a string that is neither its end nor a backslash. -/
theorem strip_plain {c : Char} (hquote : c ≠ '"') (hslash : c ≠ '\\') (s : List Char) :
    strip .inside (c :: s) = c :: strip .inside s := by
  rw [strip, if_neg hquote, if_neg hslash]

private theorem hexDigit_plain : ∀ n < 16, hexDigit n ≠ '"' ∧ hexDigit n ≠ '\\' := by decide

theorem strip_escape (c : Char) (s : List Char) :
    strip .inside (escape c ++ s) = escape c ++ strip .inside s := by
  unfold escape
  split_ifs with hquote hslash hb ht hn hf hr hctl
  · rfl
  · rfl
  · rfl
  · rfl
  · rfl
  · rfl
  · rfl
  · have hhigh := hexDigit_plain (c.toNat / 16) (by omega)
    have hlow := hexDigit_plain (c.toNat % 16) (by omega)
    show '\\' :: 'u' :: '0' :: '0' :: strip .inside (hexDigit (c.toNat / 16) ::
      hexDigit (c.toNat % 16) :: s) = _
    rw [strip_plain hhigh.1 hhigh.2, strip_plain hlow.1 hlow.2]
    rfl
  · exact strip_plain hquote hslash s

theorem strip_quote (a : String) (s : List Char) :
    strip .outside (quote a ++ s) = quote a ++ strip .outside s := by
  have hbody : ∀ cs : List Char, strip .inside (cs.flatMap escape ++ '"' :: s) =
      cs.flatMap escape ++ '"' :: strip .outside s := by
    intro cs
    induction cs with
    | nil => rfl
    | cons c cs ih =>
        rw [List.flatMap_cons, List.append_assoc, strip_escape, ih, List.append_assoc]
  have := hbody a.toList
  simp only [quote, List.cons_append, List.append_assoc, List.nil_append] at this ⊢
  rw [← this]
  rfl

namespace Json

private theorem bare_of_mem_toDigits {n : ℕ} {c : Char} (h : c ∈ Nat.toDigits 10 n) : Bare c := by
  have hdigit := Nat.isDigit_of_mem_toDigits (b := 10) (n := n) (by decide) (by decide) h
  refine ⟨?_, ?_, ?_⟩ <;>
  · rintro rfl
    cases hdigit

mutual

/-- **Without its blanks the indented text is the compact one.**  One case for each
constructor. -/
theorem strip_pretty (depth : ℕ) (v : Json) (s : List Char) :
    strip .outside (pretty depth v ++ s) = render v ++ strip .outside s := by
  match v with
  | null => rfl
  | bool true => rfl
  | bool false => rfl
  | num n => exact strip_token (fun c hc => bare_of_mem_toDigits hc) s
  | str a => exact strip_quote a s
  | arr [] => rfl
  | arr (v :: vs) =>
      have hv := strip_pretty (depth + 1) v (prettyElements depth vs ++ s)
      have hvs := strip_prettyElements depth vs s
      simp only [pretty, render, List.cons_append, List.append_assoc]
      rw [strip_bare (by decide), strip_newline, hv, hvs]
  | obj [] => rfl
  | obj ((k, v) :: ms) =>
      have hv := strip_pretty (depth + 1) v (prettyMembers depth ms ++ s)
      have hms := strip_prettyMembers depth ms s
      simp only [pretty, render, List.cons_append, List.append_assoc]
      rw [strip_bare (by decide), strip_newline, strip_quote, strip_bare (by decide), ← hms, ← hv]
      rfl

theorem strip_prettyElements (depth : ℕ) (vs : List Json) (s : List Char) :
    strip .outside (prettyElements depth vs ++ s) = renderElements vs ++ strip .outside s := by
  match vs with
  | [] =>
      simp only [prettyElements, renderElements, List.append_assoc]
      rw [strip_newline]
      rfl
  | v :: vs =>
      have hv := strip_pretty (depth + 1) v (prettyElements depth vs ++ s)
      have hvs := strip_prettyElements depth vs s
      simp only [prettyElements, renderElements, List.cons_append, List.append_assoc]
      rw [strip_bare (by decide), strip_newline, hv, hvs]

theorem strip_prettyMembers (depth : ℕ) (ms : List (String × Json)) (s : List Char) :
    strip .outside (prettyMembers depth ms ++ s) = renderMembers ms ++ strip .outside s := by
  match ms with
  | [] =>
      simp only [prettyMembers, renderMembers, List.append_assoc]
      rw [strip_newline]
      rfl
  | (k, v) :: ms =>
      have hv := strip_pretty (depth + 1) v (prettyMembers depth ms ++ s)
      have hms := strip_prettyMembers depth ms s
      simp only [prettyMembers, renderMembers, List.cons_append, List.append_assoc]
      rw [strip_bare (by decide), strip_newline, strip_quote, strip_bare (by decide), ← hms, ← hv]
      rfl

end

/-- The indented text determines the value. -/
theorem pretty_injective (depth : ℕ) : Function.Injective (pretty depth) := by
  intro v v' h
  have hstrip := congrArg (strip .outside) h
  rw [← List.append_nil (pretty depth v), ← List.append_nil (pretty depth v'), strip_pretty,
    strip_pretty, List.append_cancel_right_eq] at hstrip
  exact render_injective hstrip

end Json

end Encoding
