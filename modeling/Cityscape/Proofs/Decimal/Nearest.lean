import Mathlib.Tactic.Linarith
import Cityscape.Decimal.Numeral
import Cityscape.Proofs.Decimal.Binary

/-!
# The nearest double

Whatever lies in the interval of a magnitude has this magnitude as its nearest one. The spacing of
magnitudes doubles from one binade to the next, so the interval of the first magnitude of a binade
reaches less far down than up.
-/

namespace Cityscape.Decimal

/-- How often the spacing has doubled at a magnitude. -/
def binade (magnitude : Nat) : Nat :=
  magnitude / fractionRange - 1

/-- The multiple of its spacing that a magnitude is. -/
def significand (magnitude : Nat) : Nat :=
  magnitude - binade magnitude * fractionRange

variable {m : Nat}

private theorem binade_significand (m : Nat) : m = binade m * 2 ^ 52 + significand m ∧
    significand m < 2 ^ 53 ∧ (binade m = 0 ∨ 2 ^ 52 ≤ significand m) := by
  rw [significand, binade, fractionRange_eq]
  omega

private theorem units_eq (m : Nat) : units m = significand m * 2 ^ binade m := by
  rw [units, significand, binade]
  split
  · next hf =>
    rw [hf, Nat.zero_sub, Nat.zero_mul, Nat.sub_zero, Nat.pow_zero, Nat.mul_one]
    rw [fractionRange_eq] at hf ⊢
    omega
  · next hf =>
    have hs : fractionRange + m % fractionRange =
        m - (m / fractionRange - 1) * fractionRange := by
      rw [fractionRange_eq] at hf ⊢
      omega
    rw [hs, Nat.pow_eq]

private theorem binade_succ (m : Nat) :
    (binade (m + 1) = binade m ∧ significand (m + 1) = significand m + 1) ∨
      (binade (m + 1) = binade m + 1 ∧ significand m + 1 = 2 ^ 53 ∧ significand (m + 1) = 2 ^ 52) := by
  rw [significand, significand, binade, binade, fractionRange_eq]
  omega

private theorem units_succ (m : Nat) : units (m + 1) = units m + 2 ^ binade m := by
  rw [units_eq, units_eq]
  rcases binade_succ m with ⟨he, hq⟩ | ⟨he, hq, hq'⟩
  · rw [he, hq]
    ring
  · rw [he, hq', Nat.pow_succ, ← Nat.succ_mul, Nat.succ_eq_add_one, hq]
    ring

private theorem upper_end (m den : Nat) : (units m + units (m + 1)) * den =
    2 * significand m * (den * 2 ^ binade m) + den * 2 ^ binade m := by
  rw [units_succ, units_eq]
  ring

private theorem lower_end (hm : 0 < m) (den : Nat) :
    (units (m - 1) + units m) * den + den * 2 ^ binade (m - 1) =
      2 * significand m * (den * 2 ^ binade m) := by
  have hu : units m = units (m - 1) + 2 ^ binade (m - 1) := by
    rw [← units_succ, Nat.sub_add_cancel hm]
  calc (units (m - 1) + units m) * den + den * 2 ^ binade (m - 1)
      = (units (m - 1) + 2 ^ binade (m - 1) + units m) * den := by ring
    _ = 2 * units m * den := by rw [← hu, Nat.two_mul]
    _ = 2 * significand m * (den * 2 ^ binade m) := by
      rw [units_eq]
      ring

/-- Further magnitudes are larger. -/
theorem units_strictMono {m n : Nat} (h : m < n) : units m < units n := by
  induction n with
  | zero => cases h
  | succ n ih =>
    have hp : 0 < 2 ^ binade n := Nat.two_pow_pos _
    rw [units_succ]
    rcases Nat.lt_succ_iff_lt_or_eq.mp h with h | rfl
    · have := ih h
      omega
    · omega

private theorem roundDiv_even_eq {num den q : Nat} (hd : 0 < den) (hlow : 2 * q * den ≤ 2 * num + den)
    (hhigh : 2 * num ≤ 2 * q * den + den)
    (htie : 2 * q * den = 2 * num + den ∨ 2 * num = 2 * q * den + den → q % 2 = 0) :
    roundDiv .even num den = q := by
  have hn := Nat.div_add_mod num den
  have hr := Nat.mod_lt num hd
  rw [roundDiv]
  generalize num / den = k at *
  generalize num % den = r at *
  have hq : q = k ∨ q = k + 1 := by
    have h1 : q ≤ k + 1 := by
      by_contra hc
      nlinarith
    have h2 : k ≤ q := by
      by_contra hc
      nlinarith
    omega
  have hk : 2 * k * den = 2 * (den * k) := by ring
  rcases hq with rfl | rfl
  · rw [hk] at hlow hhigh htie
    split
    · rfl
    · split
      · omega
      · have := htie (by omega)
        omega
  · have hk' : 2 * (k + 1) * den = 2 * (den * k) + 2 * den := by ring
    rw [hk'] at hlow hhigh htie
    split
    · omega
    · split
      · rfl
      · have := htie (by omega)
        omega

/-- What it means to lie in the interval of a magnitude. -/
theorem holds_of {num den : Nat} (h : (Interval.of m).holds num den = true) :
    (units (m - 1) + units m) * den ≤ num ∧ num ≤ (units m + units (m + 1)) * den ∧
      (m % 2 ≠ 0 → (units (m - 1) + units m) * den ≠ num ∧ num ≠ (units m + units (m + 1)) * den) := by
  rw [Interval.holds, Interval.of] at h
  simp only [decide_eq_true_eq] at h
  split at h
  · next hc =>
    simp only [Bool.and_eq_true, decide_eq_true_eq] at h
    exact ⟨h.1, h.2, fun hn ↦ absurd hc hn⟩
  · simp only [Bool.and_eq_true, decide_eq_true_eq] at h
    exact ⟨h.1.le, h.2.le, fun _ ↦ ⟨h.1.ne, h.2.ne⟩⟩

/--
A number near a magnitude is rounded to it, if it is shifted by some binade of which the magnitude is a
multiple.
-/
private theorem nearest_eq_of_shift {num den shift q : Nat} (hd : 0 < den) (hi : m < infinite)
    (hs : (num / den).log2 - 52 = shift) (hm : m = shift * 2 ^ 52 + q)
    (hlow : 2 * q * (den * 2 ^ shift) ≤ 2 * num + den * 2 ^ shift)
    (hhigh : 2 * num ≤ 2 * q * (den * 2 ^ shift) + den * 2 ^ shift)
    (htie : 2 * q * (den * 2 ^ shift) = 2 * num + den * 2 ^ shift ∨
      2 * num = 2 * q * (den * 2 ^ shift) + den * 2 ^ shift → q % 2 = 0) :
    nearest num den = m := by
  rw [nearest, hs, Nat.pow_eq, roundDiv_even_eq (Nat.mul_pos hd (Nat.two_pow_pos _)) hlow hhigh htie,
    fractionRange_eq, ← hm]
  exact Nat.min_eq_right hi.le

private theorem div_lt_of_holds {num den : Nat} (hd : 0 < den)
    (h : (Interval.of m).holds (2 * num) den = true) : num / den < 2 ^ (52 + binade m + 1) := by
  obtain ⟨-, hhigh, -⟩ := holds_of h
  obtain ⟨-, hq, -⟩ := binade_significand m
  have hP : 0 < den * 2 ^ binade m := Nat.mul_pos hd (Nat.two_pow_pos _)
  rw [upper_end, Nat.mul_assoc] at hhigh
  rw [Nat.div_lt_iff_lt_mul hd]
  have hr : 2 ^ (52 + binade m + 1) * den = 2 ^ 53 * (den * 2 ^ binade m) := by ring
  have hD := Nat.mul_le_mul_right (den * 2 ^ binade m) (Nat.succ_le_of_lt hq)
  rw [Nat.succ_mul] at hD
  omega

private theorem nearest_eq_of_binade {num den : Nat} (hd : 0 < den) (hm : 0 < m) (hi : m < infinite)
    (h : (Interval.of m).holds (2 * num) den = true) (hs : (num / den).log2 - 52 = binade m) :
    nearest num den = m := by
  obtain ⟨hlow, hhigh, hodd⟩ := holds_of h
  obtain ⟨hmq, -, -⟩ := binade_significand m
  have hdn := lower_end hm den
  have hle : den * 2 ^ binade (m - 1) ≤ den * 2 ^ binade m := by
    apply Nat.mul_le_mul_left
    apply Nat.pow_le_pow_right (by decide)
    exact Nat.sub_le_sub_right (Nat.div_le_div_right (Nat.sub_le m 1)) 1
  rw [upper_end] at hhigh hodd
  apply nearest_eq_of_shift hd hi hs hmq
  · omega
  · exact hhigh
  · intro ht
    have heven : m % 2 = 0 := by
      by_contra ho
      have := hodd ho
      omega
    omega

private theorem nearest_eq_of_below {num den : Nat} (hd : 0 < den) (hm : 0 < m) (hi : m < infinite)
    (h : (Interval.of m).holds (2 * num) den = true) (he : binade m ≠ 0)
    (hb : num / den < 2 ^ (52 + binade m)) : nearest num den = m := by
  obtain ⟨hlow, -, -⟩ := holds_of h
  obtain ⟨hmq, -, hn⟩ := binade_significand (m - 1)
  have hdn := lower_end hm den
  have hnum := (Nat.div_lt_iff_lt_mul hd).mp hb
  have hcases := binade_succ (m - 1)
  rw [Nat.sub_add_cancel hm] at hcases
  generalize binade (m - 1) = e at *
  generalize significand (m - 1) = q at *
  have hP : 0 < den * 2 ^ e := Nat.mul_pos hd (Nat.two_pow_pos e)
  rcases hcases with ⟨hbin, hsig⟩ | ⟨hbin, hlast, hsig⟩
  · -- Not the first magnitude: the interval does not reach down to the binade before.
    rw [hbin, hsig, Nat.mul_assoc] at hdn
    rw [hbin] at he hnum
    have hD := Nat.mul_le_mul_right (den * 2 ^ e) (hn.resolve_left he)
    have hr : 2 ^ (52 + e) * den = 2 ^ 52 * (den * 2 ^ e) := by ring
    have hq : (q + 1) * (den * 2 ^ e) = q * (den * 2 ^ e) + den * 2 ^ e := Nat.succ_mul ..
    omega
  · rw [hbin, hsig] at hdn
    rw [hbin] at hb hnum
    have hD : den * 2 ^ (e + 1) = 2 * (den * 2 ^ e) := by ring
    have hr : 2 ^ (52 + (e + 1)) * den = 2 ^ 53 * (den * 2 ^ e) := by ring
    have hge : 2 ^ (52 + e) ≤ num / den := by
      rw [Nat.le_div_iff_mul_le hd]
      have hr : 2 ^ (52 + e) * den = 2 ^ 52 * (den * 2 ^ e) := by ring
      omega
    have hpos : num / den ≠ 0 := (Nat.lt_of_lt_of_le (Nat.two_pow_pos _) hge).ne'
    have hs : (num / den).log2 - 52 = e := by
      rw [(Nat.log2_eq_iff hpos).mpr ⟨hge, hb⟩]
      exact Nat.add_sub_cancel_left ..
    have hm' : m = e * 2 ^ 52 + 2 ^ 53 := by omega
    apply nearest_eq_of_shift hd hi hs hm'
    · omega
    · omega
    · intro _
      norm_num

private theorem nearest_eq_of_holds {num den : Nat} (hd : 0 < den) (hm : 0 < m) (hi : m < infinite)
    (h : (Interval.of m).holds (2 * num) den = true) : nearest num den = m := by
  have hlt := div_lt_of_holds hd h
  rcases Nat.lt_or_ge (num / den) (2 ^ (52 + binade m)) with hb | hb
  · by_cases he : binade m = 0
    · apply nearest_eq_of_binade hd hm hi h
      have hbits : (num / den).log2 < 53 := by
        rcases Nat.eq_zero_or_pos (num / den) with hz | hz
        · rw [hz]
          decide
        · rw [he] at hlt
          exact (Nat.log2_lt hz.ne').mpr hlt
      omega
    · exact nearest_eq_of_below hd hm hi h he hb
  · apply nearest_eq_of_binade hd hm hi h
    have hpos : num / den ≠ 0 := (Nat.lt_of_lt_of_le (Nat.two_pow_pos _) hb).ne'
    rw [(Nat.log2_eq_iff hpos).mpr ⟨hb, hlt⟩]
    exact Nat.add_sub_cancel_left ..

/-- A decimal as a number of half units over a power of ten. -/
def Scaled.halfUnits (decimal : Scaled) : Nat :=
  decimal.coefficient * (10 ^ decimal.exponent.toNat * (2 * unitsPerOne))

/-- The power of ten that a decimal is divided by. -/
def Scaled.denominator (decimal : Scaled) : Nat :=
  10 ^ (-decimal.exponent).toNat

/-- Whether a decimal lies in the interval of a magnitude. -/
def Scaled.Near (decimal : Scaled) (m : Nat) : Prop :=
  (Interval.of m).holds decimal.halfUnits decimal.denominator = true

private theorem units_pos (hm : 0 < m) : 0 < units m :=
  units_strictMono hm

private theorem two_pow_le {c a n : Nat} (hc : c ≠ 0) (h : n ≤ c.log2 + 3 * a) : 2 ^ n ≤ c * 10 ^ a := by
  calc 2 ^ n ≤ 2 ^ (c.log2 + 3 * a) := Nat.pow_le_pow_right (by decide) h
    _ = 2 ^ c.log2 * 8 ^ a := by rw [Nat.pow_add, Nat.pow_mul]
    _ ≤ c * 10 ^ a := Nat.mul_le_mul (Nat.log2_self_le hc) (Nat.pow_le_pow_left (by decide) a)

private theorem lt_ten_pow {c b n : Nat} (h : c.log2 + 1 + n ≤ 3 * b) : c * 2 ^ n < 10 ^ b := by
  calc c * 2 ^ n < 2 ^ (c.log2 + 1) * 2 ^ n :=
        Nat.mul_lt_mul_of_pos_right Nat.lt_log2_self (Nat.two_pow_pos n)
    _ = 2 ^ (c.log2 + 1 + n) := (Nat.pow_add ..).symm
    _ ≤ 2 ^ (3 * b) := Nat.pow_le_pow_right (by decide) h
    _ = 8 ^ b := by rw [Nat.pow_mul]
    _ ≤ 10 ^ b := Nat.pow_le_pow_left (by decide) b

/-- The half units in the number one. -/
theorem two_mul_unitsPerOne : 2 * unitsPerOne = 2 ^ 1075 := by
  decide +kernel

private theorem units_infinite : units infinite = 2 ^ 1024 * unitsPerOne := by
  decide +kernel

namespace Scaled.Near

variable {decimal : Scaled}

private theorem denominator_le (h : decimal.Near m) (hm : 0 < m) : decimal.denominator ≤ decimal.halfUnits := by
  have hu := units_pos hm
  calc decimal.denominator = 1 * decimal.denominator := (Nat.one_mul _).symm
    _ ≤ (units (m - 1) + units m) * decimal.denominator := Nat.mul_le_mul_right _ (by omega)
    _ ≤ decimal.halfUnits := (holds_of h).1

private theorem halfUnits_lt (h : decimal.Near m) (hi : m < infinite) :
    decimal.halfUnits < 2 ^ 1024 * (2 * unitsPerOne) * decimal.denominator := by
  have h1 := units_strictMono hi
  have h2 : units (m + 1) ≤ units infinite := by
    rcases Nat.lt_or_eq_of_le (Nat.succ_le_of_lt hi) with h | h
    · exact (units_strictMono h).le
    · exact h ▸ Nat.le_refl _
  have hd : 0 < decimal.denominator := Nat.pow_pos (by decide)
  calc decimal.halfUnits ≤ (units m + units (m + 1)) * decimal.denominator := (holds_of h).2.1
    _ < 2 * units infinite * decimal.denominator := Nat.mul_lt_mul_of_pos_right (by omega) hd
    _ = 2 ^ 1024 * (2 * unitsPerOne) * decimal.denominator := by
      rw [units_infinite, Nat.mul_left_comm]

/-- A decimal in the interval of a positive magnitude is not zero. -/
theorem coefficient_ne_zero (h : decimal.Near m) (hm : 0 < m) : decimal.coefficient ≠ 0 := by
  intro hc
  have hd : 0 < decimal.denominator := Nat.pow_pos (by decide)
  have hl := h.denominator_le hm
  rw [halfUnits, hc, Nat.zero_mul] at hl
  omega

private theorem log2_lt (h : decimal.Near m) (hm : 0 < m) (hi : m < infinite) (he : 0 ≤ decimal.exponent) :
    (decimal.coefficient.log2 : Int) + 3 * decimal.exponent < 1024 := by
  by_contra hc
  have hl := h.halfUnits_lt hi
  obtain ⟨a, ha⟩ := Int.eq_ofNat_of_zero_le he
  have hd : decimal.denominator = 1 := by
    rw [denominator, ha, Int.toNat_neg_natCast, Nat.pow_zero]
  have hbits : 1024 ≤ decimal.coefficient.log2 + 3 * a := by omega
  rw [hd, halfUnits, ha, Int.toNat_natCast, Nat.mul_one, ← Nat.mul_assoc] at hl
  have hlt := Nat.lt_of_mul_lt_mul_right hl
  exact absurd hlt (Nat.not_lt_of_ge (two_pow_le (h.coefficient_ne_zero hm) hbits))

private theorem le_log2 (h : decimal.Near m) (hm : 0 < m) :
    -1075 ≤ (decimal.coefficient.log2 : Int) + 1 + 3 * decimal.exponent := by
  by_contra hc
  have hl := h.denominator_le hm
  obtain ⟨b, hb⟩ : ∃ b : Nat, decimal.exponent = -b := ⟨(-decimal.exponent).toNat, by omega⟩
  have hbits : decimal.coefficient.log2 + 1 + 1075 < 3 * b := by omega
  have hh : decimal.halfUnits = decimal.coefficient * 2 ^ 1075 := by
    rw [halfUnits, hb, Int.toNat_neg_natCast, two_mul_unitsPerOne, Nat.pow_zero, Nat.one_mul]
  have hd : decimal.denominator = 10 ^ b := by
    rw [denominator, hb, Int.neg_neg, Int.toNat_natCast]
  rw [hh, hd] at hl
  exact absurd hl (Nat.not_le_of_gt (lt_ten_pow hbits.le))

/-- A decimal in the interval of a finite magnitude reads as this magnitude. -/
theorem nearest_eq (h : decimal.Near m) (hm : 0 < m) (hi : m < infinite) : decimal.nearest = m := by
  have hlow := h.le_log2 hm
  rw [Scaled.nearest, if_neg (h.coefficient_ne_zero hm), if_neg, if_neg (by omega)]
  · apply nearest_eq_of_holds (Nat.pow_pos (by decide)) hm hi
    have hu : 2 * (decimal.coefficient * 10 ^ decimal.exponent.toNat * unitsPerOne) =
        decimal.halfUnits := by
      rw [halfUnits]
      ring
    rw [Nat.pow_eq, hu]
    exact h
  · rintro ⟨hb, he⟩
    have := h.log2_lt hm hi he
    omega

end Scaled.Near

end Cityscape.Decimal
