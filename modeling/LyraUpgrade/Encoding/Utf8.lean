import LyraUpgrade.Encoding.Lines

/-!
# The bytes of a character

An ASCII character is one byte, which is its number.  Any other character begins with a byte
from `0xc0` on, and goes on with bytes from `0x80` to `0xbf`: a byte tells whether a character
begins with it.
-/

namespace Encoding

variable {c : Char}

theorem utf8_cons (c : Char) (cs : List Char) : utf8 (c :: cs) = String.utf8EncodeChar c ++ utf8 cs :=
  List.flatMap_cons

/-- The byte of an ASCII character. -/
theorem utf8EncodeChar_of_ascii (h : c.toNat < 0x80) :
    String.utf8EncodeChar c = [UInt8.ofNat c.toNat] := by
  rw [String.utf8EncodeChar, if_pos (show c.val.toNat ≤ 0x7f from Nat.le_of_lt_succ h)]
  rfl

theorem utf8_cons_of_ascii (h : c.toNat < 0x80) (cs : List Char) :
    utf8 (c :: cs) = UInt8.ofNat c.toNat :: utf8 cs := by
  rw [utf8_cons, utf8EncodeChar_of_ascii h, List.singleton_append]

theorem toNat_ofNat_byte {n : ℕ} (h : n < 256) : (UInt8.ofNat n).toNat = n :=
  UInt8.toNat_ofNat_of_lt' h

/-- The bytes of any other character. -/
theorem utf8EncodeChar_of_wide (h : 0x80 ≤ c.toNat) : ∃ lead bytes,
    String.utf8EncodeChar c = lead :: bytes ∧ 0xc0 ≤ lead.toNat ∧
      ∀ b ∈ bytes, 0x80 ≤ b.toNat ∧ b.toNat < 0xc0 := by
  have hc : c.val.toNat = c.toNat := rfl
  have htail : ∀ n, 0x80 ≤ (UInt8.ofNat (n % 0x40 + 0x80)).toNat ∧
      (UInt8.ofNat (n % 0x40 + 0x80)).toNat < 0xc0 := by
    intro n
    rw [toNat_ofNat_byte (by omega)]
    omega
  rw [String.utf8EncodeChar, hc]
  split_ifs with h₁ h₂ h₃
  · omega
  · refine ⟨_, _, rfl, ?_, List.forall_mem_singleton.mpr (htail _)⟩
    rw [toNat_ofNat_byte (by omega)]
    omega
  · refine ⟨_, _, rfl, ?_, List.forall_mem_cons.mpr ⟨htail _, List.forall_mem_singleton.mpr (htail _)⟩⟩
    rw [toNat_ofNat_byte (by omega)]
    omega
  · refine ⟨_, _, rfl, ?_, List.forall_mem_cons.mpr ⟨htail _, List.forall_mem_cons.mpr
      ⟨htail _, List.forall_mem_singleton.mpr (htail _)⟩⟩⟩
    rw [toNat_ofNat_byte (by omega)]
    omega

/-- An ASCII character is known by its byte. -/
theorem ofNat_toNat_eq (hc : c.toNat < 0x80) (d : Char) (hd : d.toNat < 0x80) :
    UInt8.ofNat c.toNat = UInt8.ofNat d.toNat ↔ c = d := by
  constructor
  · intro h
    have hnat := congrArg UInt8.toNat h
    rw [toNat_ofNat_byte (by omega), toNat_ofNat_byte (by omega)] at hnat
    exact Char.toNat_inj.mp hnat
  · rintro rfl
    rfl

end Encoding
