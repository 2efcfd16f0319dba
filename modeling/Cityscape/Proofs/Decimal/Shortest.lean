import Cityscape.Proofs.Decimal.Nearest

/-!
# The shortest decimal reads back

The search for the shortest decimal gives points of the interval only, and it meets one in the end: every
magnitude is a point of the finest grid it comes to.
-/

namespace Cityscape.Decimal

variable {m : Nat} {tie : Tie} {exponent : Int}

/-- Rounding gives the quotient or the number after it. -/
theorem roundDiv_eq_or (tie : Tie) (num den : Nat) :
    roundDiv tie num den = num / den ∨ roundDiv tie num den = num / den + 1 := by
  unfold roundDiv
  simp only
  split
  · exact .inl rfl
  · split
    · exact .inr rfl
    · cases tie with
      | even =>
        simp only
        omega
      | up => exact .inr rfl

private theorem near_of_onGrid? {decimal : Scaled} (h : (Interval.of m).onGrid? tie exponent = some decimal) :
    decimal.Near m := by
  have hn (c : Nat) : (Scaled.mk c exponent).Near m ↔ (Interval.of m).holds
      (c * (10 ^ exponent.toNat * (2 * unitsPerOne))) (10 ^ (-exponent).toNat) = true := Iff.rfl
  simp only [Interval.onGrid?, Nat.pow_eq] at h
  generalize 10 ^ exponent.toNat * (2 * unitsPerOne) = step at h hn
  generalize 10 ^ (-exponent).toNat = den at h hn
  split at h
  · cases h
  · next hb _ =>
    cases h
    exact (hn _).mpr hb
  · next _ ha =>
    cases h
    exact (hn _).mpr ha
  · next hb ha =>
    cases h
    rw [hn]
    rcases roundDiv_eq_or tie ((Interval.of m).middle * den) step with hr | hr
    · rw [hr]
      exact hb
    · rw [hr]
      exact ha

private theorem holds_middle (hm : 0 < m) {den : Nat} (hd : 0 < den) :
    (Interval.of m).holds ((Interval.of m).middle * den) den = true := by
  have h1 := units_strictMono (Nat.sub_lt hm Nat.one_pos)
  have h2 : units m < units (m + 1) := units_strictMono (Nat.lt_succ_self m)
  have hlow : (units (m - 1) + units m) * den < 2 * units m * den :=
    Nat.mul_lt_mul_of_pos_right (by omega) hd
  have hhigh : 2 * units m * den < (units m + units (m + 1)) * den :=
    Nat.mul_lt_mul_of_pos_right (by omega) hd
  rw [Interval.holds, Interval.of]
  split
  · simp only [Bool.and_eq_true, decide_eq_true_eq]
    exact ⟨hlow.le, hhigh.le⟩
  · simp only [Bool.and_eq_true, decide_eq_true_eq]
    exact ⟨hlow, hhigh⟩

private theorem onGrid?_finest (hm : 0 < m) (tie : Tie) {n : Nat} (hn : 2 * unitsPerOne = 2 ^ n) :
    ((Interval.of m).onGrid? tie (-n)).isSome := by
  have hs : 10 ^ (-(n : Int)).toNat * (2 * unitsPerOne) = 2 ^ n := by
    rw [Int.toNat_neg_natCast, Nat.pow_zero, Nat.one_mul, hn]
  have hd : 10 ^ (- -(n : Int)).toNat = 5 ^ n * 2 ^ n := by
    rw [Int.neg_neg, Int.toNat_natCast, ← Nat.mul_pow]
  have hexact : (Interval.of m).middle * (5 ^ n * 2 ^ n) / 2 ^ n * 2 ^ n =
      (Interval.of m).middle * (5 ^ n * 2 ^ n) := by
    apply Nat.div_mul_cancel
    rw [← Nat.mul_assoc]
    exact Nat.dvd_mul_left _ _
  have hh := holds_middle hm (Nat.mul_pos (Nat.pow_pos (by decide) : 0 < 5 ^ n) (Nat.two_pow_pos n))
  simp only [Interval.onGrid?, Nat.pow_eq, hs, hd, hexact, hh]
  split
  · next h _ => cases h
  · rfl
  · rfl
  · rfl

private theorem near_search (tie : Tie) (steps : Nat) (exponent : Int)
    (h : ∃ k < steps, ((Interval.of m).onGrid? tie (exponent - k)).isSome) :
    ((Interval.of m).search tie steps exponent).Near m := by
  induction steps generalizing exponent with
  | zero =>
    obtain ⟨k, hk, _⟩ := h
    cases hk
  | succ steps ih =>
    rw [Interval.search]
    split
    · next hg => exact near_of_onGrid? hg
    · next hg =>
      apply ih
      obtain ⟨k, hk, hs⟩ := h
      cases k with
      | zero =>
        rw [Int.natCast_zero, Int.sub_zero, hg] at hs
        cases hs
      | succ k =>
        refine ⟨k, by omega, ?_⟩
        rwa [show exponent - 1 - (k : Int) = exponent - ((k + 1 : Nat) : Int) by omega]

/-- The shortest decimal of a positive magnitude lies in its interval. -/
theorem shortest_near (tie : Tie) (hm : 0 < m) : (shortest tie m).Near m := by
  apply near_search
  have ht : -1075 ≤ exponentAbove m := by
    rw [exponentAbove]
    omega
  exact ⟨(exponentAbove m + 1075).toNat, by omega, by
    rw [show exponentAbove m - ((exponentAbove m + 1075).toNat : Int) = -1075 by omega]
    exact onGrid?_finest (n := 1075) hm tie two_mul_unitsPerOne⟩

/-- The shortest decimal of a positive finite magnitude reads as this magnitude. -/
theorem nearest_shortest (tie : Tie) (hm : 0 < m) (hi : m < infinite) : (shortest tie m).nearest = m :=
  (shortest_near tie hm).nearest_eq hm hi

end Cityscape.Decimal
