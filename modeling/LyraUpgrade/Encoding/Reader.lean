import LyraUpgrade.Encoding.Document
import LyraUpgrade.Encoding.Pretty

/-!
# Reading the text of a JSON value

A reader for the texts a serializer writes: it takes blanks between the tokens for nothing, and
reads a value with a number of steps that the length of the text bounds.

The compact and the indented text are two layouts of a value, which differ in the line breaks and
in the blank behind a colon (`Json.layout`).  Whatever blanks a layout has, the reader gives the
value (`readValue_layout`), so it reads both texts back (`parseJson_render`, `parseJson_pretty`).

## Main definitions

* `parseJson` — the reader.
* `Json.layout` — the text of a value with given line breaks.
-/

namespace Encoding

/-! ## The reader -/

/-- What may stand between two tokens. -/
def isBlank (c : Char) : Bool := c == ' ' || c == '\n' || c == '\t' || c == '\r'

/-- The text behind its blanks. -/
def skip (s : List Char) : List Char := s.dropWhile isBlank

/-- The text behind a token of one character. -/
def token (c : Char) (s : List Char) : Option (List Char) :=
  match skip s with
  | [] => none
  | d :: s => if d = c then some s else none

/-- The inside of a string, up to its quotation mark. -/
def readBody : ℕ → List Char → Option (List Char × List Char)
  | 0, _ => none
  | n + 1, s =>
      match unescape s with
      | some (c, s) => (readBody n s).map fun (cs, s) => (c :: cs, s)
      | none => if s.head? = some '"' then some ([], s.tail) else none

/-- A value of one token that is not a string. -/
def readAtom : List Char → Option (Document × List Char)
  | 'n' :: 'u' :: 'l' :: 'l' :: s => some (.null, s)
  | 't' :: 'r' :: 'u' :: 'e' :: s => some (.bool true, s)
  | 'f' :: 'a' :: 'l' :: 's' :: 'e' :: s => some (.bool false, s)
  | s =>
      if s.head?.any Char.isDigit then
        some (.int (Nat.ofDigitChars 10 (s.takeWhile Char.isDigit) 0), s.dropWhile Char.isDigit)
      else none

/-- The key of a member, and its colon. -/
def readKey (n : ℕ) (s : List Char) : Option (String × List Char) :=
  (token '"' s).bind fun s => (readBody n s).bind fun (key, s) =>
    (token ':' s).map fun s => (String.ofList key, s)

mutual

/-- A value, in a number of steps. -/
def readValue : ℕ → List Char → Option (Document × List Char)
  | 0, _ => none
  | n + 1, s =>
      match token '"' s, token '[' s, token '{' s with
      | some s, _, _ => (readBody n s).map fun (cs, s) => (.str (String.ofList cs), s)
      | _, some s, _ =>
          match token ']' s with
          | some s => some (.list [], s)
          | none => (readValue n s).bind fun (v, s) =>
              (readElements n s).map fun (vs, s) => (.list (v :: vs), s)
      | _, _, some s =>
          match token '}' s with
          | some s => some (.dict [], s)
          | none => (readKey n s).bind fun (k, s) => (readValue n s).bind fun (v, s) =>
              (readMembers n s).map fun (ms, s) => (.dict ((k, v) :: ms), s)
      | _, _, _ => readAtom (skip s)

/-- The elements after the first. -/
def readElements : ℕ → List Char → Option (List Document × List Char)
  | 0, _ => none
  | n + 1, s =>
      match token ']' s with
      | some s => some ([], s)
      | none => (token ',' s).bind fun s => (readValue n s).bind fun (v, s) =>
          (readElements n s).map fun (vs, s) => (v :: vs, s)

/-- The members after the first. -/
def readMembers : ℕ → List Char → Option (Entries × List Char)
  | 0, _ => none
  | n + 1, s =>
      match token '}' s with
      | some s => some ([], s)
      | none => (token ',' s).bind fun s => (readKey n s).bind fun (k, s) =>
          (readValue n s).bind fun (v, s) =>
            (readMembers n s).map fun (ms, s) => ((k, v) :: ms, s)

end

/-- The value a whole text is of. -/
def parseJson (text : List Char) : Option Document := do
  let (value, s) ← readValue text.length text
  if skip s = [] then some value else none

/-! ## Layouts -/

namespace Json

section

variable (line : ℕ → List Char) (gap : List Char)

mutual

/-- The text of a value at a level, with given line breaks, and a gap behind each colon. -/
def layout (depth : ℕ) : Json → List Char
  | null => "null".toList
  | bool true => "true".toList
  | bool false => "false".toList
  | num n => Nat.toDigits 10 n
  | str s => quote s
  | arr [] => ['[', ']']
  | arr (v :: vs) =>
      '[' :: (line (depth + 1) ++ (layout (depth + 1) v ++ layoutElements depth vs))
  | obj [] => ['{', '}']
  | obj ((k, v) :: ms) =>
      '{' :: (line (depth + 1) ++ (quote k ++ ':' :: (gap ++
        (layout (depth + 1) v ++ layoutMembers depth ms))))

def layoutElements (depth : ℕ) : List Json → List Char
  | [] => line depth ++ [']']
  | v :: vs => ',' :: (line (depth + 1) ++ (layout (depth + 1) v ++ layoutElements depth vs))

def layoutMembers (depth : ℕ) : List (String × Json) → List Char
  | [] => line depth ++ ['}']
  | (k, v) :: ms =>
      ',' :: (line (depth + 1) ++ (quote k ++ ':' :: (gap ++
        (layout (depth + 1) v ++ layoutMembers depth ms))))

end

end

mutual

/-- The compact text is the layout without blanks. -/
theorem layout_render (depth : ℕ) (v : Json) : layout (fun _ => []) [] depth v = render v := by
  match v with
  | null => rfl
  | bool true => rfl
  | bool false => rfl
  | num n => rfl
  | str s => rfl
  | arr [] => rfl
  | arr (v :: vs) =>
      rw [layout, layout_render (depth + 1) v, layoutElements_render depth vs]
      rfl
  | obj [] => rfl
  | obj ((k, v) :: ms) =>
      rw [layout, layout_render (depth + 1) v, layoutMembers_render depth ms]
      rfl

theorem layoutElements_render (depth : ℕ) (vs : List Json) :
    layoutElements (fun _ => []) [] depth vs = renderElements vs := by
  match vs with
  | [] => rfl
  | v :: vs =>
      rw [layoutElements, layout_render (depth + 1) v, layoutElements_render depth vs]
      rfl

theorem layoutMembers_render (depth : ℕ) (ms : List (String × Json)) :
    layoutMembers (fun _ => []) [] depth ms = renderMembers ms := by
  match ms with
  | [] => rfl
  | (k, v) :: ms =>
      rw [layoutMembers, layout_render (depth + 1) v, layoutMembers_render depth ms]
      rfl

end

mutual

/-- The indented text. -/
theorem layout_pretty (depth : ℕ) (v : Json) : layout newline [' '] depth v = pretty depth v := by
  match v with
  | null => rfl
  | bool true => rfl
  | bool false => rfl
  | num n => rfl
  | str s => rfl
  | arr [] => rfl
  | arr (v :: vs) =>
      rw [layout, layout_pretty (depth + 1) v, layoutElements_pretty depth vs]
      rfl
  | obj [] => rfl
  | obj ((k, v) :: ms) =>
      rw [layout, layout_pretty (depth + 1) v, layoutMembers_pretty depth ms]
      rfl

theorem layoutElements_pretty (depth : ℕ) (vs : List Json) :
    layoutElements newline [' '] depth vs = prettyElements depth vs := by
  match vs with
  | [] => rfl
  | v :: vs =>
      rw [layoutElements, layout_pretty (depth + 1) v, layoutElements_pretty depth vs]
      rfl

theorem layoutMembers_pretty (depth : ℕ) (ms : List (String × Json)) :
    layoutMembers newline [' '] depth ms = prettyMembers depth ms := by
  match ms with
  | [] => rfl
  | (k, v) :: ms =>
      rw [layoutMembers, layout_pretty (depth + 1) v, layoutMembers_pretty depth ms]
      rfl

end

end Json

/-! ## Steps of the reader -/

section

variable {b s s' : List Char} {c d : Char} {n : ℕ}

theorem skip_append (h : ∀ c ∈ b, isBlank c) (s : List Char) : skip (b ++ s) = skip s :=
  List.dropWhile_append_of_pos h

theorem skip_cons (h : isBlank c = false) (s : List Char) : skip (c :: s) = c :: s :=
  List.dropWhile_cons_of_neg (by rw [h]; decide)

theorem token_append (h : ∀ c ∈ b, isBlank c) (c : Char) (s : List Char) :
    token c (b ++ s) = token c s := by
  rw [token, token, skip_append h]

theorem token_cons (h : isBlank c = false) (s : List Char) : token c (c :: s) = some s := by
  rw [token, skip_cons h]
  exact if_pos rfl

theorem token_of_ne (h : isBlank d = false) (hne : d ≠ c) (s : List Char) :
    token c (d :: s) = none := by
  rw [token, skip_cons h]
  exact if_neg hne

/-- Blanks in front of a value are skipped. -/
theorem readValue_append (h : ∀ c ∈ b, isBlank c) (n : ℕ) (s : List Char) :
    readValue n (b ++ s) = readValue n s := by
  cases n with
  | zero => rfl
  | succ n => simp only [readValue, token_append h, skip_append h]

theorem one_le_length_escape (c : Char) : 1 ≤ (escape c).length := by
  unfold escape
  split_ifs <;> exact Nat.succ_le_succ (Nat.zero_le _)

/-- The inside of a string is read back, one character after the other. -/
theorem readBody_escape {cs : List Char} (hn : (cs.flatMap escape ++ '"' :: s).length ≤ n) :
    readBody n (cs.flatMap escape ++ '"' :: s) = some (cs, s) := by
  induction cs generalizing n with
  | nil =>
      obtain ⟨n, rfl⟩ := Nat.exists_eq_succ_of_ne_zero (show n ≠ 0 by rintro rfl; simp at hn)
      rfl
  | cons c cs ih =>
      have hlength := one_le_length_escape c
      rw [List.flatMap_cons, List.append_assoc] at hn ⊢
      rw [List.length_append] at hn
      obtain ⟨n, rfl⟩ := Nat.exists_eq_succ_of_ne_zero (show n ≠ 0 by omega)
      rw [readBody, unescape_escape]
      show (readBody n _).map _ = _
      rw [ih (by omega)]
      rfl

theorem readBody_quote (a : String) (hn : (quote a ++ s).length ≤ n + 1) :
    readBody n (a.toList.flatMap escape ++ '"' :: s) = some (a.toList, s) := by
  refine readBody_escape ?_
  simp only [quote, List.cons_append, List.append_assoc, List.length_cons] at hn
  exact Nat.le_of_succ_le_succ hn

theorem quote_append (a : String) (s : List Char) :
    quote a ++ s = '"' :: (a.toList.flatMap escape ++ '"' :: s) := by
  rw [quote, List.cons_append, List.append_assoc]
  rfl

theorem readValue_quote (a : String) (hn : (quote a ++ s).length ≤ n + 1) :
    readValue (n + 1) (quote a ++ s) = some (.str a, s) := by
  have hbody := readBody_quote a hn
  rw [quote_append]
  simp only [readValue, token_cons (show isBlank '"' = false from rfl), hbody, Option.map_some,
    String.ofList_toList]

theorem readKey_quote (h : ∀ c ∈ b, isBlank c) (key : String)
    (hn : (quote key ++ ':' :: s).length ≤ n + 1) :
    readKey n (b ++ (quote key ++ ':' :: s)) = some (key, s) := by
  have hbody := readBody_quote key hn
  rw [readKey, token_append h, quote_append, token_cons (by decide), Option.bind_some, hbody]
  show (token ':' (':' :: s)).map _ = _
  rw [token_cons (by decide), Option.map_some, String.ofList_toList]

/-- A digit begins a number, and nothing else. -/
theorem readValue_digit (hc : c.isDigit) : readValue (n + 1) (c :: s) =
    some (.int (Nat.ofDigitChars 10 ((c :: s).takeWhile Char.isDigit) 0),
      (c :: s).dropWhile Char.isDigit) := by
  have hne : ∀ d : Char, d.isDigit = false → c ≠ d := by
    rintro d hd rfl
    rw [hc] at hd
    cases hd
  have hblank : isBlank c = false := by
    simp only [isBlank, Bool.or_eq_false_iff, beq_eq_false_iff_ne]
    exact ⟨⟨⟨hne ' ' rfl, hne '\n' rfl⟩, hne '\t' rfl⟩, hne '\r' rfl⟩
  simp only [readValue, token_of_ne hblank (hne '"' rfl), token_of_ne hblank (hne '[' rfl),
    token_of_ne hblank (hne '{' rfl), skip_cons hblank]
  rw [readAtom]
  · exact if_pos hc
  · rintro s hs
    exact hne 'n' rfl (List.cons.inj hs).1
  · rintro s hs
    exact hne 't' rfl (List.cons.inj hs).1
  · rintro s hs
    exact hne 'f' rfl (List.cons.inj hs).1

/-- A number is read up to its last digit. -/
theorem readValue_digits (m : ℕ) (hs : Stops s) :
    readValue (n + 1) (Nat.toDigits 10 m ++ s) = some (.int m, s) := by
  have hdigits : ∀ c ∈ Nat.toDigits 10 m, c.isDigit = true :=
    fun c hc => Nat.isDigit_of_mem_toDigits (by decide) (by decide) hc
  have hend : s.takeWhile Char.isDigit = [] ∧ s.dropWhile Char.isDigit = s := by
    cases s with
    | nil => exact ⟨rfl, rfl⟩
    | cons c s => simp [hs c rfl]
  obtain ⟨c, cs, hcs⟩ := List.exists_cons_of_ne_nil (Nat.toDigits_ne_nil (n := m) (b := 10))
  have hwhole : Nat.toDigits 10 m ++ s = c :: (cs ++ s) := by rw [hcs]; rfl
  rw [hwhole, readValue_digit (hdigits c (by simp [hcs])), ← hwhole,
    List.takeWhile_append_of_pos hdigits, List.dropWhile_append_of_pos hdigits, hend.1, hend.2,
    List.append_nil, Nat.ofDigitChars_ten_toDigits]

end

/-! ## Reading a layout -/

namespace Json

/-- Line breaks and gaps of blanks. -/
structure Blank (line : ℕ → List Char) (gap : List Char) : Prop where
  breaks : ∀ depth, ∀ c ∈ line depth, isBlank c
  gaps : ∀ c ∈ gap, isBlank c

theorem starts_layout (line : ℕ → List Char) (gap : List Char) (depth : ℕ) (v : Json) (s : List Char) :
    ∃ c s', layout line gap depth v ++ s = c :: s' ∧ Starts v c := by
  cases v with
  | null => exact ⟨_, _, rfl, .null⟩
  | bool b => cases b; exacts [⟨_, _, rfl, .false⟩, ⟨_, _, rfl, .true⟩]
  | num n => exact starts_render (.num n) s
  | str a => exact ⟨_, _, rfl, .str a⟩
  | arr vs => cases vs <;> exact ⟨_, _, rfl, .arr _⟩
  | obj ms =>
      cases ms with
      | nil => exact ⟨_, _, rfl, .obj _⟩
      | cons m ms => exact ⟨_, _, rfl, .obj _⟩

/-- No value starts with a blank or with a closing bracket. -/
theorem Starts.ne {v : Json} {c : Char} (h : Starts v c) :
    isBlank c = Bool.false ∧ c ≠ ']' ∧ c ≠ '}' := by
  cases h with
  | num n c h =>
      have hne : ∀ d : Char, d.isDigit = Bool.false → c ≠ d := by
        rintro d hd rfl
        rw [h] at hd
        cases hd
      refine ⟨?_, hne ']' rfl, hne '}' rfl⟩
      simp only [isBlank, Bool.or_eq_false_iff, beq_eq_false_iff_ne]
      exact ⟨⟨⟨hne ' ' rfl, hne '\n' rfl⟩, hne '\t' rfl⟩, hne '\r' rfl⟩
  | null | true | false | str | arr | obj => decide

/-- A line break or a token is no digit. -/
theorem stops_break {b : List Char} (h : ∀ c ∈ b, isBlank c) {c : Char} (hc : c.isDigit = false)
    (s : List Char) : Stops (b ++ c :: s) := by
  cases b with
  | nil => exact stops_cons hc
  | cons d b =>
      refine stops_cons (Bool.eq_false_iff.mpr fun hdigit => ?_)
      have hblank : isBlank d = true := h d List.mem_cons_self
      simp only [isBlank, Bool.or_eq_true, beq_iff_eq] at hblank
      rcases hblank with ((rfl | rfl) | rfl) | rfl <;> exact absurd hdigit (by decide)

section

variable {line : ℕ → List Char} {gap : List Char} (hblank : Blank line gap)

include hblank

theorem stops_layoutElements (depth : ℕ) (vs : List Json) (s : List Char) :
    Stops (layoutElements line gap depth vs ++ s) := by
  cases vs with
  | nil =>
      rw [layoutElements, List.append_assoc]
      exact stops_break (hblank.breaks depth) (by decide) s
  | cons v vs => exact stops_cons (by decide)

theorem stops_layoutMembers (depth : ℕ) (ms : List (String × Json)) (s : List Char) :
    Stops (layoutMembers line gap depth ms ++ s) := by
  cases ms with
  | nil =>
      rw [layoutMembers, List.append_assoc]
      exact stops_break (hblank.breaks depth) (by decide) s
  | cons m ms => exact stops_cons (by decide)

mutual

/-- **A layout is read back**, whatever follows it.  One case for each constructor. -/
theorem readValue_layout {s : List Char} {n : ℕ} (depth : ℕ) (v : Json) (hs : Stops s)
    (hn : (layout line gap depth v ++ s).length ≤ n) :
    readValue n (layout line gap depth v ++ s) = some (v.toDocument, s) := by
  obtain ⟨c, s', hc, -⟩ := starts_layout line gap depth v s
  obtain ⟨n, rfl⟩ := Nat.exists_eq_succ_of_ne_zero (show n ≠ 0 by rintro rfl; simp [hc] at hn)
  match v with
  | null => rfl
  | bool true => rfl
  | bool false => rfl
  | num m => exact readValue_digits m hs
  | str a => exact readValue_quote a hn
  | arr [] => rfl
  | arr (v :: vs) =>
      have htext : layout line gap depth (arr (v :: vs)) ++ s = '[' :: (line (depth + 1) ++
          (layout line gap (depth + 1) v ++ (layoutElements line gap depth vs ++ s))) := by
        simp [layout]
      rw [htext] at hn ⊢
      simp only [List.length_cons, List.length_append] at hn
      obtain ⟨d, t, hd, hstart⟩ := starts_layout line gap (depth + 1) v
        (layoutElements line gap depth vs ++ s)
      have hopen : token ']' (line (depth + 1) ++ (layout line gap (depth + 1) v ++
          (layoutElements line gap depth vs ++ s))) = none := by
        rw [token_append (hblank.breaks _), hd, token_of_ne hstart.ne.1 hstart.ne.2.1]
      have hv := readValue_layout (n := n) (depth + 1) v
        (stops_layoutElements hblank depth vs s) (by simp only [List.length_append]; omega)
      have hvs := readElements_layout (s := s) (n := n) depth vs
        (by simp only [List.length_append]; omega)
      simp only [readValue, token_of_ne (show isBlank '[' = false from rfl)
        (show '[' ≠ '"' by decide), token_cons (show isBlank '[' = false from rfl), hopen,
        readValue_append (hblank.breaks _), hv, hvs, Option.bind_some, Option.map_some, toDocument,
        toDocuments]
  | obj [] => rfl
  | obj ((k, v) :: ms) =>
      have htext : layout line gap depth (obj ((k, v) :: ms)) ++ s = '{' :: (line (depth + 1) ++
          (quote k ++ ':' :: (gap ++ (layout line gap (depth + 1) v ++
            (layoutMembers line gap depth ms ++ s))))) := by
        simp [layout]
      rw [htext] at hn ⊢
      simp only [List.length_cons, List.length_append] at hn
      have hopen : token '}' (line (depth + 1) ++ (quote k ++ ':' :: (gap ++
          (layout line gap (depth + 1) v ++ (layoutMembers line gap depth ms ++ s))))) = none := by
        rw [token_append (hblank.breaks _), quote_append, token_of_ne (by decide) (by decide)]
      have hk := readKey_quote (s := gap ++ (layout line gap (depth + 1) v ++
        (layoutMembers line gap depth ms ++ s))) (n := n) (hblank.breaks (depth + 1)) k
        (by simp only [List.length_cons, List.length_append]; omega)
      have hv := readValue_layout (n := n) (depth + 1) v
        (stops_layoutMembers hblank depth ms s) (by simp only [List.length_append]; omega)
      have hms := readMembers_layout (s := s) (n := n) depth ms
        (by simp only [List.length_append]; omega)
      simp only [readValue, token_of_ne (show isBlank '{' = false from rfl)
        (show '{' ≠ '"' by decide), token_of_ne (show isBlank '{' = false from rfl)
        (show '{' ≠ '[' by decide), token_cons (show isBlank '{' = false from rfl), hopen, hk,
        readValue_append hblank.gaps, hv, hms, Option.bind_some, Option.map_some, toDocument, toEntries]

theorem readElements_layout {s : List Char} {n : ℕ} (depth : ℕ) (vs : List Json)
    (hn : (layoutElements line gap depth vs ++ s).length ≤ n) :
    readElements n (layoutElements line gap depth vs ++ s) = some (toDocuments vs, s) := by
  obtain ⟨n, rfl⟩ := Nat.exists_eq_succ_of_ne_zero (show n ≠ 0 by
    rintro rfl
    cases vs <;> simp [layoutElements] at hn)
  match vs with
  | [] =>
      rw [layoutElements, List.append_assoc]
      simp only [readElements, token_append (hblank.breaks _), List.cons_append, List.nil_append,
        token_cons (show isBlank ']' = false from rfl), toDocuments]
  | v :: vs =>
      have htext : layoutElements line gap depth (v :: vs) ++ s = ',' :: (line (depth + 1) ++
          (layout line gap (depth + 1) v ++ (layoutElements line gap depth vs ++ s))) := by
        simp [layoutElements]
      rw [htext] at hn ⊢
      simp only [List.length_cons, List.length_append] at hn
      have hv := readValue_layout (n := n) (depth + 1) v
        (stops_layoutElements hblank depth vs s) (by simp only [List.length_append]; omega)
      have hvs := readElements_layout (s := s) (n := n) depth vs
        (by simp only [List.length_append]; omega)
      simp only [readElements, token_of_ne (show isBlank ',' = false from rfl)
        (show ',' ≠ ']' by decide), token_cons (show isBlank ',' = false from rfl),
        readValue_append (hblank.breaks _), hv, hvs, Option.bind_some, Option.map_some, toDocuments]

theorem readMembers_layout {s : List Char} {n : ℕ} (depth : ℕ) (ms : List (String × Json))
    (hn : (layoutMembers line gap depth ms ++ s).length ≤ n) :
    readMembers n (layoutMembers line gap depth ms ++ s) = some (toEntries ms, s) := by
  obtain ⟨n, rfl⟩ := Nat.exists_eq_succ_of_ne_zero (show n ≠ 0 by
    rintro rfl
    cases ms <;> simp [layoutMembers] at hn)
  match ms with
  | [] =>
      rw [layoutMembers, List.append_assoc]
      simp only [readMembers, token_append (hblank.breaks _), List.cons_append, List.nil_append,
        token_cons (show isBlank '}' = false from rfl), toEntries]
  | (k, v) :: ms =>
      have htext : layoutMembers line gap depth ((k, v) :: ms) ++ s = ',' :: (line (depth + 1) ++
          (quote k ++ ':' :: (gap ++ (layout line gap (depth + 1) v ++
            (layoutMembers line gap depth ms ++ s))))) := by
        simp [layoutMembers]
      rw [htext] at hn ⊢
      simp only [List.length_cons, List.length_append] at hn
      have hk := readKey_quote (s := gap ++ (layout line gap (depth + 1) v ++
        (layoutMembers line gap depth ms ++ s))) (n := n) (hblank.breaks (depth + 1)) k
        (by simp only [List.length_cons, List.length_append]; omega)
      have hv := readValue_layout (n := n) (depth + 1) v
        (stops_layoutMembers hblank depth ms s) (by simp only [List.length_append]; omega)
      have hms := readMembers_layout (s := s) (n := n) depth ms
        (by simp only [List.length_append]; omega)
      simp only [readMembers, token_of_ne (show isBlank ',' = false from rfl)
        (show ',' ≠ '}' by decide), token_cons (show isBlank ',' = false from rfl), hk,
        readValue_append hblank.gaps, hv, hms, Option.bind_some, Option.map_some, toEntries]

end

/-- **A layout is read back.** -/
theorem parseJson_layout (v : Json) : parseJson (layout line gap 0 v) = some v.toDocument := by
  have hv := readValue_layout hblank 0 v stops_nil (Nat.le_refl _)
  rw [List.append_nil] at hv
  rw [parseJson, hv]
  rfl

end

theorem parseJson_render (v : Json) : parseJson v.render = some v.toDocument := by
  rw [← layout_render 0 v]
  exact parseJson_layout ⟨by simp, by simp⟩ v

theorem parseJson_pretty (v : Json) : parseJson (v.pretty 0) = some v.toDocument := by
  have hnewline : ∀ depth, ∀ c ∈ newline depth, isBlank c := by
    intro depth c hc
    rcases List.mem_cons.mp hc with rfl | hc
    · rfl
    · rw [List.eq_of_mem_replicate hc]
      rfl
  rw [← layout_pretty 0 v]
  exact parseJson_layout ⟨hnewline, by simp [isBlank]⟩ v

end Json

end Encoding
