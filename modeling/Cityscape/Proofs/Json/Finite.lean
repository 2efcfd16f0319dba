import Cityscape.Proofs.Json.Lexeme

/-!
# Values with finite numbers

A number of a text is a whole number of sixty-four bits or a double, and one beyond the doubles is refused. So all
numbers that are read are finite.
-/

namespace Cityscape

namespace Decimal

private theorem nearest_lt_infinite {num bits : Nat} (h : num < 2 ^ bits) (hb : bits ≤ 2000) :
    nearest num 1 < infinite := by
  have hl : num.log2 ≤ bits := by
    rcases Nat.eq_zero_or_pos num with rfl | hn
    · exact Nat.zero_le _
    · exact ((Nat.log2_lt hn.ne').mpr h).le
  have hq : num / 2 ^ (num.log2 - 52) < 2 ^ 53 := by
    rw [Nat.div_lt_iff_lt_mul (Nat.two_pow_pos _), ← Nat.pow_add]
    exact Nat.lt_log2_self.trans_le (Nat.pow_le_pow_right (by decide) (by omega))
  have hr : roundDiv .even num (2 ^ (num.log2 - 52)) ≤ 2 ^ 53 := by
    rcases roundDiv_eq_or .even num (2 ^ (num.log2 - 52)) with hr | hr <;> omega
  have hn : nearest num 1 ≤ (num.log2 - 52) * 2 ^ 52 + roundDiv .even num (2 ^ (num.log2 - 52)) := by
    rw [nearest, Nat.div_one, Nat.one_mul]
    exact Nat.min_le_right _ _
  have hi : infinite = 2047 * 2 ^ 52 := rfl
  omega

/-- The magnitude of a decimal is infinite at most. -/
theorem Scaled.nearest_le (decimal : Scaled) : decimal.nearest ≤ infinite := by
  unfold Scaled.nearest
  simp only
  split_ifs
  · exact Nat.zero_le _
  · exact Nat.le_refl _
  · exact Nat.zero_le _
  · exact Nat.min_le_left _ _

private theorem Scaled.nearest_integer {n : Nat} (h : n < 2 ^ 64) : Scaled.nearest ⟨n, 0⟩ < infinite := by
  have hl : n.log2 < 64 := by
    rcases Nat.eq_zero_or_pos n with rfl | hn
    · decide
    · exact (Nat.log2_lt hn.ne').mpr h
  unfold Scaled.nearest
  simp only
  split_ifs
  · decide
  · omega
  · omega
  · obtain ⟨k, hk, hu⟩ : ∃ k ≤ 1075, unitsPerOne ≤ 2 ^ k :=
      ⟨1075, Nat.le_refl _, by rw [← two_mul_unitsPerOne]; omega⟩
    have hn : n * 1 * unitsPerOne < 2 ^ (64 + k) :=
      calc n * 1 * unitsPerOne ≤ n * 2 ^ k := by rw [Nat.mul_one]; exact Nat.mul_le_mul_left n hu
        _ < 2 ^ 64 * 2 ^ k := Nat.mul_lt_mul_of_pos_right h (Nat.two_pow_pos k)
        _ = 2 ^ (64 + k) := (Nat.pow_add ..).symm
    exact nearest_lt_infinite hn (by omega)

end Decimal

namespace Json

/-- Whether all numbers in a value are finite. -/
inductive Finite : Json → Prop where
  | null : Finite null
  | bool (value : Bool) : Finite (bool value)
  | integer {value : Int} (h : value.natAbs < 2 ^ 64) : Finite (integer value)
  | double {value : Float} (h : value.isFinite = true) : Finite (double value)
  | string (value : String) : Finite (string value)
  | array {items : List Json} (h : ∀ item ∈ items, Finite item) : Finite (array items)
  | object {members : List (String × Json)} (h : ∀ member ∈ members, Finite member.2) : Finite (object members)

/-- The number that such a value is. -/
theorem Finite.number {value : Json} (h : value.Finite) {number : Float} (hn : value.number? = some number) :
    number.isFinite = true := by
  cases h with
  | @integer value h =>
    cases hn
    exact Decimal.isFinite_ofMagnitude _ (Decimal.Scaled.nearest_integer h)
  | double h =>
    cases hn
    exact h
  | null | bool | string | array | object => cases hn

/-- The items of such an array. -/
theorem Finite.items {items : List Json} (h : (Json.array items).Finite) : ∀ item ∈ items, item.Finite := by
  cases h with
  | array h => exact h

/-- A number that is read is finite. -/
theorem NumberParts.finite_toJson [Numerals] {parts : NumberParts} {negative : Bool} {value : Json}
    (h : parts.toJson negative = .ok value) : value.Finite := by
  have hs : UInt64.size = 2 ^ 64 := rfl
  unfold toJson at h
  simp only [Bool.and_eq_true, decide_eq_true_eq] at h
  split_ifs at h with h1 h2
  · cases h
    exact .integer (by simp only [Int.natAbs_natCast]; omega)
  · cases h
    exact .integer (by simp only [Int.natAbs_neg, Int.natAbs_natCast]; omega)
  · split at h
    · next found hd =>
      cases h
      exact .double (Numerals.finite hd)
    · cases h

end Json

end Cityscape
