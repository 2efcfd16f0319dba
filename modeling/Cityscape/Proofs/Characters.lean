import Cityscape.Decimal.Numeral

/-!
# Characters and their codes

Letters and digits are known by their codes. Digits end where something else comes, and have no sign.
-/

namespace Cityscape

/-- Valid codes are those of their characters. -/
theorem toNat_ofNat {n : Nat} (h : n.isValidChar) : (Char.ofNat n).toNat = n := by
  rw [Char.ofNat, dif_pos h]
  rfl

/-- The code of the character of a byte. -/
theorem toNat_ofNat_byte (byte : UInt8) : (Char.ofNat byte.toNat).toNat = byte.toNat :=
  toNat_ofNat (.inl (Nat.lt_trans byte.toNat_lt (by decide)))

/-- The codes of digits. -/
theorem isDigit_iff {c : Char} : c.isDigit = true ↔ 48 ≤ c.toNat ∧ c.toNat ≤ 57 :=
  Char.isDigit_iff_toNat

/-- The codes of letters. -/
theorem isAlpha_iff {c : Char} :
    c.isAlpha = true ↔ (65 ≤ c.toNat ∧ c.toNat ≤ 90) ∨ (97 ≤ c.toNat ∧ c.toNat ≤ 122) := by
  change (decide (65 ≤ c.val ∧ c.val ≤ 90) || (decide (97 ≤ c.val) && decide (c.val ≤ 122))) = true ↔ _
  simp only [Bool.or_eq_true, Bool.and_eq_true, decide_eq_true_eq, UInt32.le_iff_toNat_le]
  rfl

/-- A nonempty run of digits. -/
def Digits (text : List Char) : Prop :=
  text ≠ [] ∧ ∀ c ∈ text, c.isDigit = true

/-- One more digit. -/
theorem Digits.snoc {text : List Char} {c : Char} (h : Digits text) (hc : c.isDigit = true) :
    Digits (text ++ [c]) := by
  refine ⟨List.append_ne_nil_of_right_ne_nil _ (List.cons_ne_nil _ _), ?_⟩
  intro d hd
  rcases List.mem_append.mp hd with hd | hd
  · exact h.2 d hd
  · rw [List.mem_singleton.mp hd]
    exact hc

/-- A single digit. -/
theorem Digits.singleton {c : Char} (hc : c.isDigit = true) : Digits [c] :=
  ⟨List.cons_ne_nil _ _, fun _ hd ↦ List.mem_singleton.mp hd ▸ hc⟩

/-- Digits end where something else comes. -/
theorem Digits.takeWhile_append {text : List Char} (h : Digits text) (rest : List Char)
    (hr : rest.head?.all (fun c ↦ !c.isDigit) = true) :
    (text ++ rest).takeWhile Char.isDigit = text ∧ (text ++ rest).dropWhile Char.isDigit = rest := by
  rw [List.takeWhile_append_of_pos h.2, List.dropWhile_append_of_pos h.2]
  cases rest with
  | nil => exact ⟨List.append_nil text, rfl⟩
  | cons c rest =>
    have hc : c.isDigit = false := by simpa using hr
    simp [hc]

/-- Digits have no sign. -/
theorem Digits.splitSign_append {text : List Char} (h : Digits text) (rest : List Char) :
    Decimal.splitSign (text ++ rest) = (false, text ++ rest) := by
  obtain ⟨hn, hd⟩ := h
  cases text with
  | nil => exact absurd rfl hn
  | cons c text =>
    have hc := hd c List.mem_cons_self
    unfold Decimal.splitSign
    split
    · next he =>
      cases he
      cases hc
    · next he =>
      cases he
      cases hc
    · rfl

end Cityscape
