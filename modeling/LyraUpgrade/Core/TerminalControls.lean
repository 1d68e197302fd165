import LyraUpgrade.Core.Masks
import LyraUpgrade.Encoding.Utf8

/-!
# Terminal controls in technical lines

`strip_terminal_controls` walks over bytes.  On characters it is an automaton
(`TerminalMode`): in a text, behind an `ESC`, in a control sequence, or in an operating system
command.  `stripTerminalControls_utf8` says that the walk follows the automaton, with one
exception: behind an `ESC` it passes over one byte and not over one character, and if another
byte of that character is from `0xa0` on, it slices the text inside the character.

Of the control characters, the C1 controls are not taken out of a text: each of them is two
bytes, and neither byte is one of those the walk drops.

`sanitize_exact` is the result: when the function panics, and which control characters can be
left in what it returns.
-/

namespace LyraUpgrade

open Encoding

/-- Where the walk is. -/
inductive TerminalMode
  | text
  /-- Behind an `ESC`. -/
  | escape
  | csi
  | osc
  /-- In an operating system command, behind an `ESC`. -/
  | oscEscape
  deriving DecidableEq

namespace TerminalMode

def next : TerminalMode → Char → TerminalMode
  | text, c => if c = '\x1b' then escape else text
  | escape, c => if c = '[' then csi else if c = ']' then osc else text
  | csi, c => if 0x40 ≤ c.toNat ∧ c.toNat ≤ 0x7e then text else csi
  | osc, c => if c = '\x07' then text else if c = '\x1b' then oscEscape else osc
  | oscEscape, c =>
      if c = '\\' ∨ c = '\x07' then text else if c = '\x1b' then oscEscape else osc

/-- Where the walk is behind some characters. -/
def after (mode : TerminalMode) (cs : List Char) : TerminalMode := cs.foldl next mode

end TerminalMode

/-- One of the bytes of the character, but not the first one, is taken for the beginning of
another character. -/
def splitsCharacter (c : Char) : Bool := (String.utf8EncodeChar c).tail.any (0x9f < ·)

/-- A C1 control character. -/
def isC1 (c : Char) : Bool := 0x80 ≤ c.toNat && c.toNat ≤ 0x9f

/-- Behind an `ESC` stands a character that is split. -/
def Splits (cs : List Char) : Prop :=
  ∃ before c after, cs = before ++ c :: after ∧ TerminalMode.text.after before = .escape ∧
    splitsCharacter c

/-- The character stands in the text, outside the control sequences. -/
def StandsInText (c : Char) (cs : List Char) : Prop :=
  ∃ before after, cs = before ++ c :: after ∧ TerminalMode.text.after before = .text

/-- What the walk leaves of characters. -/
def visibleFrom : TerminalMode → List Char → Option (List Char)
  | _, [] => some []
  | .text, c :: cs =>
      if c = '\x1b' then visibleFrom .escape cs
      else if c = '\t' then ('\t' :: ·) <$> visibleFrom .text cs
      else if c = '\n' then (' ' :: ·) <$> visibleFrom .text cs
      else if c.toNat < 0x20 ∨ c.toNat = 0x7f then visibleFrom .text cs
      else (c :: ·) <$> visibleFrom .text cs
  | .escape, c :: cs =>
      if splitsCharacter c then none else visibleFrom (TerminalMode.escape.next c) cs
  | mode, c :: cs => visibleFrom (mode.next c) cs

theorem visibleFrom_nil (mode : TerminalMode) : visibleFrom mode [] = some [] := by
  cases mode <;> rfl

theorem visibleFrom_text (c : Char) (cs : List Char) :
    visibleFrom .text (c :: cs) =
      if c = '\x1b' then visibleFrom .escape cs
      else if c = '\t' then ('\t' :: ·) <$> visibleFrom .text cs
      else if c = '\n' then (' ' :: ·) <$> visibleFrom .text cs
      else if c.toNat < 0x20 ∨ c.toNat = 0x7f then visibleFrom .text cs
      else (c :: ·) <$> visibleFrom .text cs := rfl

theorem visibleFrom_escape (c : Char) (cs : List Char) :
    visibleFrom .escape (c :: cs) =
      if splitsCharacter c then none else visibleFrom (TerminalMode.escape.next c) cs := rfl

section

variable {c : Char} {cs out : List Char} {mode : TerminalMode}

/-! ## The walk follows the automaton -/

theorem firstCharacter_utf8 (c : Char) (cs : List Char) :
    firstCharacter (utf8 (c :: cs)) = some c :=
  List.utf8DecodeChar?_utf8Encode_cons

theorem drop_utf8 (c : Char) (cs : List Char) : (utf8 (c :: cs)).drop c.utf8Size = utf8 cs := by
  rw [utf8_cons, ← String.length_utf8EncodeChar, List.drop_left]

/-- A byte of a character that is not ASCII is none of the bytes the walk looks for. -/
theorem ne_of_wide {b : UInt8} (h : 0x80 ≤ b.toNat) {k : UInt8} (hk : k.toNat < 0x80) : b ≠ k := by
  rintro rfl
  omega

/-- The rest of a character of which the first byte was passed over. -/
theorem stripTerminalControls_rest {bytes : List UInt8} (rest : List UInt8)
    (h : ∀ b ∈ bytes, 0x80 ≤ b.toNat ∧ b.toNat < 0xc0) :
    stripTerminalControls (bytes ++ rest) =
      if bytes.any (0x9f < ·) then none else stripTerminalControls rest := by
  induction bytes with
  | nil => rfl
  | cons b bytes ih =>
      rw [List.forall_mem_cons] at h
      obtain ⟨⟨hlow, hhigh⟩, hbytes⟩ := h
      rw [List.cons_append, stripTerminalControls_cons (ne_of_wide hlow (by decide)),
        if_neg (ne_of_wide hlow (by decide)), if_neg (ne_of_wide hlow (by decide)), List.any_cons]
      by_cases hdropped : b ≤ 0x9f
      · have hpassed : (b < 0x20 || (0x7f ≤ b && b ≤ 0x9f)) = true := by
          have : (0x7f : UInt8) ≤ b := by
            rw [UInt8.le_iff_toNat_le]
            exact Nat.le_trans (by decide) hlow
          simp [this, hdropped]
        have hkept : decide (0x9f < b) = false := decide_eq_false (UInt8.not_lt.mpr hdropped)
        rw [if_pos hpassed, ih hbytes, hkept, Bool.false_or]
      · have hstays : ¬ (b < 0x20 || (0x7f ≤ b && b ≤ 0x9f)) = true := by
          have : ¬ b < 0x20 := by
            rw [UInt8.lt_iff_toNat_lt]
            exact fun hlt => absurd hlow (by have : b.toNat < 32 := hlt; omega)
          simp [this, hdropped]
        have hinside : (!beginsCharacter b) = true := by
          have h₁ : ¬ b < 0x80 := by
            rw [UInt8.lt_iff_toNat_lt]
            exact Nat.not_lt.mpr hlow
          have h₂ : ¬ 0xc0 ≤ b := by
            rw [UInt8.le_iff_toNat_le]
            exact Nat.not_le.mpr hhigh
          simp [beginsCharacter, h₁, h₂]
        have hsplit : decide (0x9f < b) = true := decide_eq_true (UInt8.not_le.mp hdropped)
        rw [if_neg hstays, if_pos hinside, hsplit, Bool.true_or, if_pos rfl]

/-- A character that is not ASCII stands in a text. -/
theorem stripTerminalControls_wide (h : 0x80 ≤ c.toNat) (cs : List Char) :
    stripTerminalControls (utf8 (c :: cs)) = (c :: ·) <$> stripTerminalControls (utf8 cs) := by
  obtain ⟨lead, bytes, hbytes, hlead, -⟩ := utf8EncodeChar_of_wide h
  have hfirst := firstCharacter_utf8 c cs
  have hdrop := drop_utf8 c cs
  rw [utf8_cons, hbytes, List.cons_append] at hfirst hdrop ⊢
  have hlow : 0x80 ≤ lead.toNat := Nat.le_trans (by decide) hlead
  have hstays : ¬ (lead < 0x20 || (0x7f ≤ lead && lead ≤ 0x9f)) = true := by
    simp only [Bool.or_eq_true, Bool.and_eq_true, decide_eq_true_eq, UInt8.lt_iff_toNat_lt,
      UInt8.le_iff_toNat_le]
    rintro (hlt | ⟨-, hle⟩)
    · have : lead.toNat < 32 := hlt
      omega
    · have : lead.toNat ≤ 159 := hle
      omega
  have hbegins : ¬ (!beginsCharacter lead) = true := by
    have : (0xc0 : UInt8) ≤ lead := UInt8.le_iff_toNat_le.mpr hlead
    simp [beginsCharacter, this]
  rw [stripTerminalControls_cons (ne_of_wide hlow (by decide)),
    if_neg (ne_of_wide hlow (by decide)), if_neg (ne_of_wide hlow (by decide)), if_neg hstays,
    if_neg hbegins, hfirst]
  dsimp only
  rw [hdrop]

/-- An ASCII character in a text, other than `ESC`. -/
theorem stripTerminalControls_ascii (h : c.toNat < 0x80) (hescape : c ≠ '\x1b') (cs : List Char) :
    stripTerminalControls (utf8 (c :: cs)) =
      if c = '\t' then ('\t' :: ·) <$> stripTerminalControls (utf8 cs)
      else if c = '\n' then (' ' :: ·) <$> stripTerminalControls (utf8 cs)
      else if c.toNat < 0x20 ∨ c.toNat = 0x7f then stripTerminalControls (utf8 cs)
      else (c :: ·) <$> stripTerminalControls (utf8 cs) := by
  have hfirst := firstCharacter_utf8 c cs
  have hdrop := drop_utf8 c cs
  rw [utf8_cons_of_ascii h] at hfirst hdrop ⊢
  have hsame : ∀ d : Char, d.toNat < 0x80 → (UInt8.ofNat c.toNat = UInt8.ofNat d.toNat ↔ c = d) :=
    fun d hd => ofNat_toNat_eq h d hd
  have hnat : (UInt8.ofNat c.toNat).toNat = c.toNat := toNat_ofNat_byte (by omega)
  have hpassed : (UInt8.ofNat c.toNat < 0x20 || (0x7f ≤ UInt8.ofNat c.toNat &&
      UInt8.ofNat c.toNat ≤ 0x9f)) = true ↔ c.toNat < 0x20 ∨ c.toNat = 0x7f := by
    simp only [Bool.or_eq_true, Bool.and_eq_true, decide_eq_true_eq, UInt8.lt_iff_toNat_lt,
      UInt8.le_iff_toNat_le, hnat]
    show c.toNat < 32 ∨ (127 ≤ c.toNat ∧ c.toNat ≤ 159) ↔ _
    omega
  have hbegins : ¬ (!beginsCharacter (UInt8.ofNat c.toNat)) = true := by
    have : UInt8.ofNat c.toNat < 0x80 := by
      rw [UInt8.lt_iff_toNat_lt, hnat]
      exact h
    simp [beginsCharacter, this]
  rw [stripTerminalControls_cons ((hsame '\x1b' (by decide)).not.mpr hescape), if_neg hbegins,
    hfirst]
  dsimp only
  rw [hdrop]
  simp only [hpassed, show (UInt8.ofNat c.toNat = 0x09) = (c = '\t') from
    propext (hsame '\t' (by decide)), show (UInt8.ofNat c.toNat = 0x0a) = (c = '\n') from
    propext (hsame '\n' (by decide))]

/-- All bytes of a character that is not ASCII are wide. -/
theorem wide_bytes (h : 0x80 ≤ c.toNat) : ∀ b ∈ String.utf8EncodeChar c, 0x80 ≤ b.toNat := by
  obtain ⟨lead, bytes, hbytes, hlead, hrest⟩ := utf8EncodeChar_of_wide h
  rw [hbytes, List.forall_mem_cons]
  exact ⟨Nat.le_trans (by decide) hlead, fun b hb => (hrest b hb).1⟩

theorem skipCsi_wide {bytes : List UInt8} (h : ∀ b ∈ bytes, 0x80 ≤ b.toNat) (rest : List UInt8) :
    skipCsi (bytes ++ rest) = skipCsi rest := by
  induction bytes with
  | nil => rfl
  | cons b bytes ih =>
      rw [List.forall_mem_cons] at h
      have hgoes : ¬ (0x40 ≤ b && b ≤ 0x7e) = true := by
        simp only [Bool.and_eq_true, decide_eq_true_eq, UInt8.le_iff_toNat_le]
        rintro ⟨-, hle⟩
        have : b.toNat ≤ 126 := hle
        omega
      rw [List.cons_append, skipCsi, if_neg hgoes, ih h.2]

theorem skipOsc_wide {bytes : List UInt8} (h : ∀ b ∈ bytes, 0x80 ≤ b.toNat) (rest : List UInt8) :
    skipOsc (bytes ++ rest) = skipOsc rest := by
  induction bytes with
  | nil => rfl
  | cons b bytes ih =>
      rw [List.forall_mem_cons] at h
      rw [List.cons_append, skipOsc, if_neg (ne_of_wide h.1 (by decide)),
        if_neg fun hescape => ne_of_wide h.1 (by decide) hescape.1, ih h.2]

/-- A control sequence ends where the automaton ends it. -/
theorem skipCsi_utf8 (cs : List Char) : ∃ ds, ds.length ≤ cs.length ∧
    skipCsi (utf8 cs) = utf8 ds ∧ visibleFrom .csi cs = visibleFrom .text ds := by
  induction cs with
  | nil => exact ⟨[], Nat.le_refl _, rfl, rfl⟩
  | cons c cs ih =>
      obtain ⟨ds, hlength, hskip, hvisible⟩ := ih
      have hgoes : ¬ (0x40 ≤ c.toNat ∧ c.toNat ≤ 0x7e) → skipCsi (utf8 (c :: cs)) = skipCsi (utf8 cs) →
          ∃ ds, ds.length ≤ (c :: cs).length ∧ skipCsi (utf8 (c :: cs)) = utf8 ds ∧
            visibleFrom .csi (c :: cs) = visibleFrom .text ds := by
        intro hc hsame
        refine ⟨ds, Nat.le_succ_of_le hlength, hsame.trans hskip, ?_⟩
        rw [← hvisible]
        show visibleFrom (TerminalMode.csi.next c) cs = _
        rw [TerminalMode.next, if_neg hc]
      by_cases hascii : c.toNat < 0x80
      · have hbyte : (0x40 ≤ UInt8.ofNat c.toNat && UInt8.ofNat c.toNat ≤ 0x7e) = true ↔
            0x40 ≤ c.toNat ∧ c.toNat ≤ 0x7e := by
          simp only [Bool.and_eq_true, decide_eq_true_eq, UInt8.le_iff_toNat_le,
            toNat_ofNat_byte (Nat.lt_trans hascii (by decide))]
          exact Iff.rfl
        by_cases hfinal : 0x40 ≤ c.toNat ∧ c.toNat ≤ 0x7e
        · refine ⟨cs, Nat.le_succ _, ?_, ?_⟩
          · rw [utf8_cons_of_ascii hascii, skipCsi, if_pos (hbyte.mpr hfinal)]
          · show visibleFrom (TerminalMode.csi.next c) cs = _
            rw [TerminalMode.next, if_pos hfinal]
        · refine hgoes hfinal ?_
          rw [utf8_cons_of_ascii hascii, skipCsi, if_neg (hbyte.not.mpr hfinal)]
      · refine hgoes (fun hfinal => hascii (Nat.lt_of_le_of_lt hfinal.2 (by decide))) ?_
        rw [utf8_cons, skipCsi_wide (wide_bytes (Nat.not_lt.mp hascii))]

/-- The first byte says whether the first character is a given ASCII character. -/
theorem head?_utf8 {d : Char} (hd : d.toNat < 0x80) (c : Char) (cs : List Char) :
    (utf8 (c :: cs)).head? = some (UInt8.ofNat d.toNat) ↔ c = d := by
  by_cases hascii : c.toNat < 0x80
  · rw [utf8_cons_of_ascii hascii, List.head?_cons, Option.some.injEq]
    exact ofNat_toNat_eq hascii d hd
  · obtain ⟨lead, bytes, hbytes, hlead, -⟩ := utf8EncodeChar_of_wide (Nat.not_lt.mp hascii)
    rw [utf8_cons, hbytes, List.cons_append, List.head?_cons, Option.some.injEq]
    constructor
    · rintro rfl
      rw [toNat_ofNat_byte (by omega)] at hlead
      omega
    · rintro rfl
      exact absurd hd hascii

/-- An operating system command ends where the automaton ends it. -/
theorem skipOsc_utf8 (cs : List Char) : ∃ ds, ds.length ≤ cs.length ∧
    skipOsc (utf8 cs) = utf8 ds ∧ visibleFrom .osc cs = visibleFrom .text ds := by
  induction cs with
  | nil => exact ⟨[], Nat.le_refl _, rfl, rfl⟩
  | cons c cs ih =>
      obtain ⟨ds, hlength, hskip, hvisible⟩ := ih
      by_cases hascii : c.toNat < 0x80
      · have hsame : ∀ d : Char, d.toNat < 0x80 →
            (UInt8.ofNat c.toNat = UInt8.ofNat d.toNat ↔ c = d) := fun d hd => ofNat_toNat_eq hascii d hd
        by_cases hbell : c = '\x07'
        · refine ⟨cs, Nat.le_succ _, ?_, ?_⟩
          · rw [utf8_cons_of_ascii hascii, skipOsc]
            exact if_pos ((hsame '\x07' (by decide)).mpr hbell)
          · show visibleFrom (TerminalMode.osc.next c) cs = _
            rw [TerminalMode.next, if_pos hbell]
        · have hskips : skipOsc (utf8 (c :: cs)) =
              if UInt8.ofNat c.toNat = 0x1b ∧ (utf8 cs).head? = some 0x5c then (utf8 cs).tail
              else skipOsc (utf8 cs) := by
            rw [utf8_cons_of_ascii hascii, skipOsc]
            exact if_neg ((hsame '\x07' (by decide)).not.mpr hbell)
          by_cases hescape : c = '\x1b'
          · subst hescape
            have hnext : visibleFrom .osc ('\x1b' :: cs) = visibleFrom .oscEscape cs := rfl
            rw [hskips, hnext]
            cases cs with
            | nil => exact ⟨[], Nat.zero_le _, rfl, rfl⟩
            | cons d cs =>
                by_cases hstring : d = '\\'
                · subst hstring
                  refine ⟨cs, Nat.le_succ_of_le (Nat.le_succ _), ?_, rfl⟩
                  rw [if_pos ⟨rfl, (head?_utf8 (by decide) '\\' cs).mpr rfl⟩,
                    utf8_cons_of_ascii (by decide)]
                  rfl
                · refine ⟨ds, Nat.le_succ_of_le hlength, ?_, ?_⟩
                  · have hother : (utf8 (d :: cs)).head? ≠ some 0x5c :=
                      (head?_utf8 (d := '\\') (by decide) d cs).not.mpr hstring
                    rw [if_neg fun h => hother h.2, hskip]
                  · rw [← hvisible]
                    show visibleFrom (TerminalMode.oscEscape.next d) cs =
                      visibleFrom (TerminalMode.osc.next d) cs
                    simp only [TerminalMode.next, hstring, false_or]
          · refine ⟨ds, Nat.le_succ_of_le hlength, ?_, ?_⟩
            · have hother : UInt8.ofNat c.toNat ≠ 0x1b :=
                (hsame '\x1b' (by decide)).not.mpr hescape
              rw [hskips, if_neg fun h => hother h.1, hskip]
            · rw [← hvisible]
              show visibleFrom (TerminalMode.osc.next c) cs = _
              rw [TerminalMode.next, if_neg hbell, if_neg hescape]
      · refine ⟨ds, Nat.le_succ_of_le hlength, ?_, ?_⟩
        · rw [utf8_cons, skipOsc_wide (wide_bytes (Nat.not_lt.mp hascii)), hskip]
        · rw [← hvisible]
          show visibleFrom (TerminalMode.osc.next c) cs = _
          rw [TerminalMode.next, if_neg, if_neg]
          · rintro rfl
            exact hascii (by decide)
          · rintro rfl
            exact hascii (by decide)

/-- Behind an `ESC`, for one step of the walk. -/
theorem stripTerminalControls_behind (c : Char) (cs : List Char)
    (ih : ∀ ds : List Char, ds.length ≤ cs.length →
      stripTerminalControls (utf8 ds) = visibleFrom .text ds) :
    stripTerminalControls (utf8 ('\x1b' :: c :: cs)) = visibleFrom .escape (c :: cs) := by
  rw [utf8_cons_of_ascii (by decide), show UInt8.ofNat '\x1b'.toNat = 0x1b from rfl,
    visibleFrom_escape]
  by_cases hascii : c.toNat < 0x80
  · have hsame : ∀ d : Char, d.toNat < 0x80 →
        (UInt8.ofNat c.toNat = UInt8.ofNat d.toNat ↔ c = d) := fun d hd => ofNat_toNat_eq hascii d hd
    have hwhole : splitsCharacter c = false := by
      rw [splitsCharacter, utf8EncodeChar_of_ascii hascii]
      rfl
    rw [utf8_cons_of_ascii hascii, stripTerminalControls_escape, hwhole, if_neg Bool.false_ne_true,
      TerminalMode.next]
    have hcsiByte : UInt8.ofNat c.toNat = 0x5b ↔ c = '[' := hsame '[' (by decide)
    have hoscByte : UInt8.ofNat c.toNat = 0x5d ↔ c = ']' := hsame ']' (by decide)
    by_cases hcsi : c = '['
    · obtain ⟨ds, hlength, hskip, hvisible⟩ := skipCsi_utf8 cs
      rw [if_pos (hcsiByte.mpr hcsi), if_pos hcsi, hskip, hvisible, ih ds hlength]
    · rw [if_neg (hcsiByte.not.mpr hcsi), if_neg hcsi]
      by_cases hosc : c = ']'
      · obtain ⟨ds, hlength, hskip, hvisible⟩ := skipOsc_utf8 cs
        rw [if_pos (hoscByte.mpr hosc), if_pos hosc, hskip, hvisible, ih ds hlength]
      · rw [if_neg (hoscByte.not.mpr hosc), if_neg hosc, ih cs (Nat.le_refl _)]
  · -- one byte is passed over, and the others stay
    obtain ⟨lead, bytes, hbytes, hlead, hrest⟩ := utf8EncodeChar_of_wide (Nat.not_lt.mp hascii)
    have hlow : 0x80 ≤ lead.toNat := Nat.le_trans (by decide) hlead
    have hsplits : splitsCharacter c = bytes.any (0x9f < ·) := by
      rw [splitsCharacter, hbytes]
      rfl
    have hnext : TerminalMode.escape.next c = .text := by
      rw [TerminalMode.next, if_neg, if_neg]
      · rintro rfl
        exact hascii (by decide)
      · rintro rfl
        exact hascii (by decide)
    rw [utf8_cons, hbytes, List.cons_append, stripTerminalControls_escape,
      if_neg (ne_of_wide hlow (by decide)), if_neg (ne_of_wide hlow (by decide)),
      stripTerminalControls_rest _ hrest, ih cs (Nat.le_refl _), hsplits, hnext]

/-- **The walk over bytes follows the automaton.** -/
theorem stripTerminalControls_utf8 (cs : List Char) :
    stripTerminalControls (utf8 cs) = visibleFrom .text cs := by
  induction hn : cs.length using Nat.strong_induction_on generalizing cs with
  | _ n ih =>
      subst hn
      cases cs with
      | nil =>
          rw [show utf8 [] = [] from rfl, stripTerminalControls_nil]
          rfl
      | cons c cs =>
          have hrest : ∀ ds : List Char, ds.length ≤ cs.length →
              stripTerminalControls (utf8 ds) = visibleFrom .text ds :=
            fun ds hlength => ih ds.length (Nat.lt_succ_of_le hlength) ds rfl
          rw [visibleFrom_text]
          by_cases hescape : c = '\x1b'
          · subst hescape
            rw [if_pos rfl]
            cases cs with
            | nil =>
                rw [stripTerminalControls.eq_def]
                rfl
            | cons d cs =>
                exact stripTerminalControls_behind d cs fun ds hlength =>
                  hrest ds (Nat.le_succ_of_le hlength)
          · rw [if_neg hescape, ← hrest cs (Nat.le_refl _)]
            by_cases hascii : c.toNat < 0x80
            · exact stripTerminalControls_ascii hascii hescape cs
            · rw [stripTerminalControls_wide (Nat.not_lt.mp hascii), if_neg, if_neg, if_neg]
              · omega
              · rintro rfl
                exact hascii (by decide)
              · rintro rfl
                exact hascii (by decide)

/-! ## What is visible -/

theorem visibleFrom_cons_eq_none : visibleFrom mode (c :: cs) = none ↔
    (mode = .escape ∧ splitsCharacter c) ∨ visibleFrom (mode.next c) cs = none := by
  cases mode with
  | text =>
      rw [visibleFrom_text, TerminalMode.next]
      split_ifs <;> simp
  | escape =>
      rw [visibleFrom_escape]
      split_ifs with hsplit
      · simp [hsplit]
      · simp [hsplit]
  | csi | osc | oscEscape => exact (or_iff_right fun h => nomatch h.1).symm

/-- The walk stops nowhere but where a character is split. -/
theorem visibleFrom_eq_none : visibleFrom mode cs = none ↔
    ∃ before c after, cs = before ++ c :: after ∧ mode.after before = .escape ∧
      splitsCharacter c := by
  induction cs generalizing mode with
  | nil =>
      rw [visibleFrom_nil]
      simp
  | cons c cs ih =>
      rw [visibleFrom_cons_eq_none, ih]
      constructor
      · rintro (⟨rfl, hsplit⟩ | ⟨before, d, after, rfl, hmode, hsplit⟩)
        · exact ⟨[], c, cs, rfl, rfl, hsplit⟩
        · exact ⟨c :: before, d, after, rfl, hmode, hsplit⟩
      · rintro ⟨before, d, after, hsame, hmode, hsplit⟩
        cases before with
        | nil =>
            cases hsame
            exact .inl ⟨hmode, hsplit⟩
        | cons _ before =>
            cases hsame
            exact .inr ⟨before, d, after, rfl, hmode, hsplit⟩

/-- One character is left out, or stands in the text and is left as it is or becomes blank. -/
theorem visibleFrom_cons_eq_some (h : visibleFrom mode (c :: cs) = some out) :
    ∃ rest, visibleFrom (mode.next c) cs = some rest ∧
      (out = rest ∨ out = '\t' :: rest ∨ out = ' ' :: rest ∨
        (mode = .text ∧ out = c :: rest ∧ ¬ (c.toNat < 0x20 ∨ c.toNat = 0x7f))) := by
  cases mode with
  | text =>
      rw [visibleFrom_text] at h
      rw [TerminalMode.next]
      split_ifs at h ⊢ with hescape htab hline hcontrol
      · exact ⟨out, h, .inl rfl⟩
      · obtain ⟨rest, hrest, rfl⟩ := Option.map_eq_some_iff.mp h
        exact ⟨rest, hrest, .inr (.inl rfl)⟩
      · obtain ⟨rest, hrest, rfl⟩ := Option.map_eq_some_iff.mp h
        exact ⟨rest, hrest, .inr (.inr (.inl rfl))⟩
      · exact ⟨out, h, .inl rfl⟩
      · obtain ⟨rest, hrest, rfl⟩ := Option.map_eq_some_iff.mp h
        exact ⟨rest, hrest, .inr (.inr (.inr ⟨rfl, rfl, hcontrol⟩))⟩
  | escape =>
      rw [visibleFrom_escape] at h
      split_ifs at h
      exact ⟨out, h, .inl rfl⟩
  | csi | osc | oscEscape => exact ⟨out, h, .inl rfl⟩

/-- What is visible and is a control character is a tab, or a C1 control that stands in the
text. -/
theorem control_of_visibleFrom {d : Char} (h : visibleFrom mode cs = some out) (hd : d ∈ out)
    (hcontrol : isControl d) : d = '\t' ∨ isC1 d ∧
      ∃ before after, cs = before ++ d :: after ∧ mode.after before = .text := by
  induction cs generalizing mode out with
  | nil =>
      rw [visibleFrom_nil] at h
      cases h
      cases hd
  | cons c cs ih =>
      obtain ⟨rest, hrest, hout⟩ := visibleFrom_cons_eq_some h
      -- what was visible later is so behind one more character
      have hlater : d ∈ rest → d = '\t' ∨ isC1 d ∧
          ∃ before after, c :: cs = before ++ d :: after ∧ mode.after before = .text := by
        intro hmem
        rcases ih hrest hmem with htab | ⟨hc1, before, after, rfl, hmode⟩
        · exact .inl htab
        · exact .inr ⟨hc1, c :: before, after, rfl, hmode⟩
      rcases hout with rfl | rfl | rfl | ⟨rfl, rfl, hkept⟩
      · exact hlater hd
      · rcases List.mem_cons.mp hd with htab | hmem
        · exact .inl htab
        · exact hlater hmem
      · rcases List.mem_cons.mp hd with hspace | hmem
        · subst hspace
          exact absurd hcontrol (by decide)
        · exact hlater hmem
      · rcases List.mem_cons.mp hd with hsame | hmem
        · subst hsame
          simp only [isControl, Bool.or_eq_true, Bool.and_eq_true, decide_eq_true_eq] at hcontrol
          refine .inr ⟨?_, [], cs, rfl, rfl⟩
          simp only [isC1, Bool.and_eq_true, decide_eq_true_eq]
          omega
        · exact hlater hmem

/-- A C1 control that stands in the text is visible. -/
theorem mem_visibleFrom {before after : List Char} (h : visibleFrom mode (before ++ c :: after) = some out)
    (hmode : mode.after before = .text) (hc : isC1 c) : c ∈ out := by
  induction before generalizing mode out with
  | nil =>
      obtain rfl : mode = .text := hmode
      simp only [isC1, Bool.and_eq_true, decide_eq_true_eq] at hc
      rw [List.nil_append, visibleFrom_text, if_neg, if_neg, if_neg, if_neg (by omega)] at h
      · obtain ⟨rest, -, rfl⟩ := Option.map_eq_some_iff.mp h
        exact List.mem_cons_self
      all_goals
        rintro rfl
        exact absurd hc.1 (by decide)
  | cons d before ih =>
      obtain ⟨rest, hrest, hout⟩ := visibleFrom_cons_eq_some h
      have hmem := ih hrest hmode
      rcases hout with rfl | rfl | rfl | ⟨-, rfl, -⟩
      · exact hmem
      · exact List.mem_cons_of_mem _ hmem
      · exact List.mem_cons_of_mem _ hmem
      · exact List.mem_cons_of_mem _ hmem

/-! ## The cut -/

theorem utf8ByteSize_ofList (cs : List Char) : (String.ofList cs).utf8ByteSize = byteLength cs := by
  induction cs with
  | nil => rfl
  | cons c cs ih =>
      rw [String.ofList_cons, String.utf8ByteSize_append, String.utf8ByteSize_singleton, ih,
        byteLength, byteLength, List.map_cons, List.sum_cons]

theorem takeBytes_isPrefix (cs : List Char) (n : ℕ) : takeBytes cs n <+: cs := by
  induction cs generalizing n with
  | nil => exact List.prefix_rfl
  | cons c cs ih =>
      rw [takeBytes]
      split_ifs
      · exact List.prefix_cons_inj c |>.mpr (ih _)
      · exact List.nil_prefix

theorem byteLength_takeBytes (cs : List Char) (n : ℕ) : byteLength (takeBytes cs n) ≤ n := by
  induction cs generalizing n with
  | nil => exact Nat.zero_le _
  | cons c cs ih =>
      rw [takeBytes]
      split_ifs with hfits
      · have := ih (n - c.utf8Size)
        rw [byteLength, List.map_cons, List.sum_cons]
        rw [byteLength] at this
        omega
      · exact Nat.zero_le _

theorem lastBoundary_le (cs : List Char) (n : ℕ) : lastBoundary cs n ≤ n := by
  induction n with
  | zero => exact Nat.le_refl _
  | succ n ih =>
      rw [lastBoundary]
      split_ifs
      · exact Nat.le_refl _
      · exact Nat.le_succ_of_le ih

/-- **The cut** keeps the limit and adds nothing. -/
theorem truncateUtf8_spec (cs : List Char) (limit : ℕ) :
    (truncateUtf8 cs limit).text.utf8ByteSize ≤ limit ∧
      ∀ c ∈ (truncateUtf8 cs limit).text.toList, c ∈ cs := by
  rw [truncateUtf8]
  split_ifs with hfits
  · rw [utf8ByteSize_ofList, String.toList_ofList]
    exact ⟨hfits, fun _ hc => hc⟩
  · rw [utf8ByteSize_ofList, String.toList_ofList]
    exact ⟨(byteLength_takeBytes ..).trans (lastBoundary_le ..),
      fun c hc => (takeBytes_isPrefix ..).subset hc⟩

end

/-! ## The line that comes out -/

/-- A line that fits, and has no control character but tabs. -/
def SafeLine (line : SanitizedLine) : Prop :=
  line.text.utf8ByteSize ≤ maxTechnicalLineBytes ∧ ∀ c ∈ line.text.toList, isControl c → c = '\t'

/-- A line of which the masks and the cut leave everything. -/
def Unmasked (input : String) : Prop :=
  ∀ out, stripTerminalControls (utf8 input.toList) = some out →
    maskLine out = out ∧ byteLength out ≤ maxTechnicalLineBytes

/-- Nothing is split, and no C1 control stands in the text. -/
def Strippable (input : String) : Prop :=
  ¬ Splits input.toList ∧ ∀ c, isC1 c → ¬ StandsInText c input.toList

section

variable {input : String} {line : SanitizedLine}

theorem sanitizeTechnicalLine_eq_none :
    sanitizeTechnicalLine input = none ↔ Splits input.toList := by
  rw [Splits, ← visibleFrom_eq_none, ← stripTerminalControls_utf8, sanitizeTechnicalLine]
  cases stripTerminalControls (utf8 input.toList) <;> simp

/-- What is left of control characters. -/
theorem control_of_sanitize (h : sanitizeTechnicalLine input = some line) :
    line.text.utf8ByteSize ≤ maxTechnicalLineBytes ∧ ∀ c ∈ line.text.toList, isControl c →
      c = '\t' ∨ (isC1 c ∧ StandsInText c input.toList) := by
  obtain ⟨out, hout, hline⟩ := Option.bind_eq_some_iff.mp h
  cases hline
  obtain ⟨hsize, hmem⟩ := truncateUtf8_spec (maskLine out) maxTechnicalLineBytes
  rw [stripTerminalControls_utf8] at hout
  have hmasked : ∀ c ∈ maskLine out, isControl c →
      c = '\t' ∨ (isC1 c ∧ StandsInText c input.toList) := by
    refine forall_mem_maskLine (fun c hc hcontrol => control_of_visibleFrom hout hc hcontrol) ?_
    intro c hc hcontrol
    have hnone : ∀ c ∈ "<user>***@?***".toList, isControl c = false := by decide
    rw [hnone c hc] at hcontrol
    cases hcontrol
  exact ⟨hsize, fun c hc => hmasked c (hmem c hc)⟩

/-- **When a line is safe.**  The function panics if and only if a character is split.  Where
nothing is split and no C1 control stands in the text, the line is safe; and where there is
nothing to mask or to cut, only then. -/
theorem sanitize_exact (input : String) :
    (sanitizeTechnicalLine input = none ↔ Splits input.toList) ∧
    (Strippable input → ∃ line, sanitizeTechnicalLine input = some line ∧ SafeLine line) ∧
    (Unmasked input → (∃ line, sanitizeTechnicalLine input = some line ∧ SafeLine line) →
      Strippable input) := by
  refine ⟨sanitizeTechnicalLine_eq_none, ?_, ?_⟩
  · rintro ⟨hwhole, hnone⟩
    rw [← sanitizeTechnicalLine_eq_none, ← ne_eq, Option.ne_none_iff_exists'] at hwhole
    obtain ⟨line, hline⟩ := hwhole
    obtain ⟨hsize, hcontrols⟩ := control_of_sanitize hline
    refine ⟨line, hline, hsize, fun c hc hcontrol => ?_⟩
    rcases hcontrols c hc hcontrol with htab | ⟨hc1, hstands⟩
    · exact htab
    · exact absurd hstands (hnone c hc1)
  · rintro hunmasked ⟨line, hline, -, hcontrols⟩
    refine ⟨fun hsplits => ?_, ?_⟩
    · rw [sanitizeTechnicalLine_eq_none.mpr hsplits] at hline
      cases hline
    · rintro c hc1 ⟨before, after, hsplit, hmode⟩
      obtain ⟨out, hout, hsame⟩ := Option.bind_eq_some_iff.mp hline
      obtain ⟨hmask, hfits⟩ := hunmasked out hout
      cases hsame
      rw [stripTerminalControls_utf8, hsplit] at hout
      have hmem : c ∈ (truncateUtf8 (maskLine out) maxTechnicalLineBytes).text.toList := by
        rw [hmask, truncateUtf8, if_pos hfits, String.toList_ofList]
        exact mem_visibleFrom hout hmode hc1
      have hcontrol : isControl c := by
        simp only [isC1, Bool.and_eq_true, decide_eq_true_eq] at hc1
        simp only [isControl, Bool.or_eq_true, Bool.and_eq_true, decide_eq_true_eq]
        omega
      rw [hcontrols c hmem hcontrol] at hc1
      exact absurd hc1 (by decide)

end

/-- An `ESC` before a letter that is not ASCII: the function panics.  And the eight-bit control
sequence introducer is left in a line. -/
theorem sanitize_unsafe : sanitizeTechnicalLine "\x1bé" = none ∧
    (sanitizeTechnicalLine "\u009b31m").map (·.text) = some "\u009b31m" := by
  decide +kernel

end LyraUpgrade
