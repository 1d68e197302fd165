import Mathlib.Data.List.Basic
import Mathlib.Tactic.Common

/-!
# JSON values and their compact text

A JSON value as a serializer sees it, and the compact text a serializer writes for
it: no blanks, members in the order given, strings with the short escapes where
there are any and `\u00xx` for the other control characters.

The result is that the text determines the value (`render_injective`).  It is
proved for a value followed by arbitrary further text, because that is what the
elements of an array and the members of an object are: `render_append_inj`.  A
number does not say where it ends, so the text after a value must not start with
a digit; the punctuation after an element or a member never does.

Everything that is turned into a value before it is written
(`Injective toJson`) therefore has an injective encoding.

## Main definitions

* `Json`, `Json.render` — values and their text.
* `escape`, `unescape` — one character of a string, and its inverse.
-/

namespace Encoding

inductive Json
  | null
  | bool (b : Bool)
  | num (n : ℕ)
  | str (s : String)
  | arr (elements : List Json)
  | obj (members : List (String × Json))

/-! ## Strings -/

/-- A hexadecimal digit, in lower case. -/
def hexDigit (n : ℕ) : Char := Nat.digitChar n

/-- One character inside a string. -/
def escape (c : Char) : List Char :=
  if c = '"' then ['\\', '"']
  else if c = '\\' then ['\\', '\\']
  else if c.toNat = 8 then ['\\', 'b']
  else if c.toNat = 9 then ['\\', 't']
  else if c.toNat = 10 then ['\\', 'n']
  else if c.toNat = 12 then ['\\', 'f']
  else if c.toNat = 13 then ['\\', 'r']
  else if c.toNat < 32 then ['\\', 'u', '0', '0', hexDigit (c.toNat / 16), hexDigit (c.toNat % 16)]
  else [c]

/-- Value of a hexadecimal digit. -/
def hexValue (c : Char) : ℕ :=
  if c.toNat < 97 then c.toNat - 48 else c.toNat - 87

/-- Read one character of a string back. -/
def unescape : List Char → Option (Char × List Char)
  | '\\' :: '"' :: s => some ('"', s)
  | '\\' :: '\\' :: s => some ('\\', s)
  | '\\' :: 'b' :: s => some (Char.ofNat 8, s)
  | '\\' :: 't' :: s => some (Char.ofNat 9, s)
  | '\\' :: 'n' :: s => some (Char.ofNat 10, s)
  | '\\' :: 'f' :: s => some (Char.ofNat 12, s)
  | '\\' :: 'r' :: s => some (Char.ofNat 13, s)
  | '\\' :: 'u' :: '0' :: '0' :: h :: l :: s => some (Char.ofNat (16 * hexValue h + hexValue l), s)
  | '"' :: _ => none
  | c :: s => some (c, s)
  | [] => none

theorem hexValue_hexDigit : ∀ n < 16, hexValue (hexDigit n) = n := by decide

private theorem eq_ofNat {c : Char} {n : ℕ} (h : c.toNat = n) : c = Char.ofNat n := by
  rw [← h, Char.ofNat_toNat]

theorem unescape_escape (c : Char) (s : List Char) : unescape (escape c ++ s) = some (c, s) := by
  unfold escape
  split_ifs with hquote hslash hb ht hn hf hr hctl
  · rw [hquote]; rfl
  · rw [hslash]; rfl
  · rw [eq_ofNat hb]; rfl
  · rw [eq_ofNat ht]; rfl
  · rw [eq_ofNat hn]; rfl
  · rw [eq_ofNat hf]; rfl
  · rw [eq_ofNat hr]; rfl
  · have hhigh := hexValue_hexDigit (c.toNat / 16) (by omega)
    have hlow := hexValue_hexDigit (c.toNat % 16) (by omega)
    change some (Char.ofNat (16 * hexValue (hexDigit (c.toNat / 16)) +
      hexValue (hexDigit (c.toNat % 16))), s) = _
    rw [hhigh, hlow, Nat.div_add_mod, Char.ofNat_toNat]
  · change unescape (c :: s) = _
    rw [unescape.eq_def]
    split <;> simp_all

/-- The quotation mark that ends a string is no character of it. -/
theorem unescape_quote (s : List Char) : unescape ('"' :: s) = none := rfl

/-- The text of a string, with its quotation marks. -/
def quote (s : String) : List Char := '"' :: (s.toList.flatMap escape ++ ['"'])

private theorem body_append_inj {cs cs' s t : List Char}
    (h : cs.flatMap escape ++ '"' :: s = cs'.flatMap escape ++ '"' :: t) : cs = cs' ∧ s = t := by
  induction cs generalizing cs' with
  | nil =>
      cases cs' with
      | nil => simpa using h
      | cons c' cs' =>
          have := congrArg unescape h
          rw [List.flatMap_cons, List.append_assoc, unescape_escape] at this
          cases this
  | cons c cs ih =>
      cases cs' with
      | nil =>
          have := congrArg unescape h
          rw [List.flatMap_cons, List.append_assoc, unescape_escape] at this
          cases this
      | cons c' cs' =>
          rw [List.flatMap_cons, List.flatMap_cons, List.append_assoc, List.append_assoc] at h
          have := congrArg unescape h
          rw [unescape_escape, unescape_escape, Option.some.injEq, Prod.mk.injEq] at this
          obtain ⟨rfl, rest⟩ := this
          obtain ⟨rfl, hst⟩ := ih rest
          exact ⟨rfl, hst⟩

theorem quote_append_inj {a b : String} {s t : List Char} (h : quote a ++ s = quote b ++ t) :
    a = b ∧ s = t := by
  simp only [quote, List.cons_append, List.append_assoc, List.cons.injEq,
    true_and, List.nil_append] at h
  obtain ⟨hab, hst⟩ := body_append_inj h
  exact ⟨String.toList_injective hab, hst⟩

/-! ## Numbers -/

/-- The text after a number must not continue it. -/
def Stops (s : List Char) : Prop := ∀ c ∈ s.head?, c.isDigit = false

theorem stops_nil : Stops [] := nofun

theorem stops_cons {c : Char} {s : List Char} (h : c.isDigit = false) : Stops (c :: s) := by
  rintro _ ⟨⟩
  exact h

private theorem takeWhile_digits {n : ℕ} {s : List Char} (hs : Stops s) :
    (Nat.toDigits 10 n ++ s).takeWhile Char.isDigit = Nat.toDigits 10 n := by
  rw [List.takeWhile_append_of_pos fun c hc =>
    Nat.isDigit_of_mem_toDigits (by decide) (by decide) hc]
  cases s with
  | nil => simp
  | cons c s => simp [hs c rfl]

theorem digits_append_inj {m n : ℕ} {s t : List Char} (hs : Stops s) (ht : Stops t)
    (h : Nat.toDigits 10 m ++ s = Nat.toDigits 10 n ++ t) : m = n ∧ s = t := by
  have hdigits : Nat.toDigits 10 m = Nat.toDigits 10 n := by
    rw [← takeWhile_digits hs, h, takeWhile_digits ht]
  have hmn : m = n := by
    rw [← Nat.ofDigitChars_ten_toDigits (n := m), hdigits, Nat.ofDigitChars_ten_toDigits]
  subst hmn
  exact ⟨rfl, List.append_cancel_left h⟩

/-! ## Values -/

namespace Json

mutual

/-- The compact text of a value. -/
def render : Json → List Char
  | null => "null".toList
  | bool true => "true".toList
  | bool false => "false".toList
  | num n => Nat.toDigits 10 n
  | str s => quote s
  | arr [] => ['[', ']']
  | arr (v :: vs) => '[' :: (render v ++ renderElements vs)
  | obj [] => ['{', '}']
  | obj ((k, v) :: ms) => '{' :: (quote k ++ ':' :: (render v ++ renderMembers ms))

/-- The elements after the first, up to the closing bracket. -/
def renderElements : List Json → List Char
  | [] => [']']
  | v :: vs => ',' :: (render v ++ renderElements vs)

/-- The members after the first, up to the closing brace. -/
def renderMembers : List (String × Json) → List Char
  | [] => ['}']
  | (k, v) :: ms => ',' :: (quote k ++ ':' :: (render v ++ renderMembers ms))

end

/-- What a value's text can start with tells its constructor. -/
inductive Starts : Json → Char → Prop
  | null : Starts null 'n'
  | true : Starts (bool true) 't'
  | false : Starts (bool false) 'f'
  | num (n c) (h : c.isDigit) : Starts (num n) c
  | str (s) : Starts (str s) '"'
  | arr (vs) : Starts (arr vs) '['
  | obj (ms) : Starts (obj ms) '{'

theorem starts_render (v : Json) (s : List Char) :
    ∃ c s', render v ++ s = c :: s' ∧ Starts v c := by
  cases v with
  | null => exact ⟨_, _, rfl, .null⟩
  | bool b => cases b; exacts [⟨_, _, rfl, .false⟩, ⟨_, _, rfl, .true⟩]
  | num n =>
      obtain ⟨c, cs, hcs⟩ := List.exists_cons_of_ne_nil (Nat.toDigits_ne_nil (n := n) (b := 10))
      refine ⟨c, cs ++ s, by rw [render, hcs]; rfl, .num n c ?_⟩
      exact Nat.isDigit_of_mem_toDigits (b := 10) (n := n) (by decide) (by decide) (by simp [hcs])
  | str a => exact ⟨_, _, rfl, .str a⟩
  | arr vs => cases vs <;> exact ⟨_, _, rfl, .arr _⟩
  | obj ms =>
      cases ms with
      | nil => exact ⟨_, _, rfl, .obj _⟩
      | cons m ms => exact ⟨_, _, rfl, .obj _⟩

theorem stops_elements (vs : List Json) (s : List Char) : Stops (renderElements vs ++ s) := by
  cases vs <;> exact stops_cons (by decide)

theorem stops_members (ms : List (String × Json)) (s : List Char) :
    Stops (renderMembers ms ++ s) := by
  cases ms <;> exact stops_cons (by decide)

/-- Number of the constructor. -/
def kind : Json → ℕ
  | null => 0
  | bool _ => 1
  | num _ => 2
  | str _ => 3
  | arr _ => 4
  | obj _ => 5

/-- Two values that start alike have the same constructor. -/
theorem Starts.kind_eq {v v' : Json} {c : Char} (h : Starts v c) (h' : Starts v' c) :
    v.kind = v'.kind := by
  cases h <;> cases h' <;> first | rfl | (rename_i hc; exact absurd hc (by decide))

theorem kind_eq_of_render {v v' : Json} {s t : List Char} (h : render v ++ s = render v' ++ t) :
    v.kind = v'.kind := by
  obtain ⟨c, s', hs, hv⟩ := starts_render v s
  obtain ⟨c', t', ht, hv'⟩ := starts_render v' t
  rw [hs, ht] at h
  cases h
  exact hv.kind_eq hv'

mutual

/-- **A value's text determines the value, and what follows it.**  One case for
each constructor; the other constructors start with another character. -/
theorem render_append_inj {s t : List Char} (v v' : Json) (hs : Stops s) (ht : Stops t)
    (h : render v ++ s = render v' ++ t) : v = v' ∧ s = t := by
  have hkind := kind_eq_of_render h
  match v, v' with
  | null, null => exact ⟨rfl, List.append_cancel_left h⟩
  | bool a, bool b =>
      cases a <;> cases b
      · exact ⟨rfl, List.append_cancel_left h⟩
      · cases h
      · cases h
      · exact ⟨rfl, List.append_cancel_left h⟩
  | num m, num n =>
      obtain ⟨rfl, hst⟩ := digits_append_inj hs ht h
      exact ⟨rfl, hst⟩
  | str a, str b =>
      obtain ⟨rfl, hst⟩ := quote_append_inj h
      exact ⟨rfl, hst⟩
  | arr [], arr [] => exact ⟨rfl, List.append_cancel_left h⟩
  | arr [], arr (w :: ws) =>
      obtain ⟨c, s', hw, hstart⟩ := starts_render w (renderElements ws ++ t)
      simp only [render, List.cons_append, List.nil_append, List.append_assoc, hw,
        List.cons.injEq, true_and] at h
      rw [← h.1] at hstart
      cases hstart
      contradiction
  | arr (u :: us), arr [] =>
      obtain ⟨c, s', hu, hstart⟩ := starts_render u (renderElements us ++ s)
      simp only [render, List.cons_append, List.nil_append, List.append_assoc, hu,
        List.cons.injEq, true_and] at h
      rw [h.1] at hstart
      cases hstart
      contradiction
  | arr (u :: us), arr (w :: ws) =>
      simp only [render, List.cons_append, List.append_assoc, List.cons.injEq, true_and] at h
      obtain ⟨rfl, hrest⟩ := render_append_inj u w (stops_elements us s) (stops_elements ws t) h
      obtain ⟨rfl, hst⟩ := renderElements_append_inj us ws hrest
      exact ⟨rfl, hst⟩
  | obj [], obj [] => exact ⟨rfl, List.append_cancel_left h⟩
  | obj [], obj (m :: ms) =>
      simp [render, quote] at h
  | obj (m :: ms), obj [] =>
      simp [render, quote] at h
  | obj ((k, u) :: us), obj ((l, w) :: ws) =>
      simp only [render, List.cons_append, List.append_assoc, List.cons.injEq, true_and] at h
      obtain ⟨rfl, hvalue⟩ := quote_append_inj h
      simp only [List.cons.injEq, true_and] at hvalue
      obtain ⟨rfl, hrest⟩ := render_append_inj u w (stops_members us s) (stops_members ws t) hvalue
      obtain ⟨rfl, hst⟩ := renderMembers_append_inj us ws hrest
      exact ⟨rfl, hst⟩

theorem renderElements_append_inj {s t : List Char} (us ws : List Json)
    (h : renderElements us ++ s = renderElements ws ++ t) : us = ws ∧ s = t := by
  match us, ws with
  | [], [] => exact ⟨rfl, List.append_cancel_left h⟩
  | [], _ :: _ => simp [renderElements] at h
  | _ :: _, [] => simp [renderElements] at h
  | u :: us, w :: ws =>
      simp only [renderElements, List.cons_append, List.append_assoc, List.cons.injEq,
        true_and] at h
      obtain ⟨rfl, hrest⟩ := render_append_inj u w (stops_elements us s) (stops_elements ws t) h
      obtain ⟨rfl, hst⟩ := renderElements_append_inj us ws hrest
      exact ⟨rfl, hst⟩

theorem renderMembers_append_inj {s t : List Char} (us ws : List (String × Json))
    (h : renderMembers us ++ s = renderMembers ws ++ t) : us = ws ∧ s = t := by
  match us, ws with
  | [], [] => exact ⟨rfl, List.append_cancel_left h⟩
  | [], (_, _) :: _ => simp [renderMembers] at h
  | (_, _) :: _, [] => simp [renderMembers] at h
  | (k, u) :: us, (l, w) :: ws =>
      simp only [renderMembers, List.cons_append, List.append_assoc, List.cons.injEq,
        true_and] at h
      obtain ⟨rfl, hvalue⟩ := quote_append_inj h
      simp only [List.cons.injEq, true_and] at hvalue
      obtain ⟨rfl, hrest⟩ := render_append_inj u w (stops_members us s) (stops_members ws t) hvalue
      obtain ⟨rfl, hst⟩ := renderMembers_append_inj us ws hrest
      exact ⟨rfl, hst⟩

end

theorem render_injective : Function.Injective render := by
  intro v v' h
  exact (render_append_inj v v' stops_nil stops_nil (by rw [h])).1

end Json

end Encoding
