import Cityscape.Decimal.Style
import Cityscape.Proofs.Decimal.Shortest
import Cityscape.Proofs.Characters

/-!
# The text of a magnitude reads back

However a style lays out the shortest decimal of a magnitude, the digits before and behind the point and
the exponent make up a decimal that reads as this magnitude.
-/

namespace Cityscape.Decimal

variable {m n : Nat}

private theorem ofDigits_eq (text : List Char) : ofDigits text = Nat.ofDigitChars 10 text 0 :=
  Nat.ofDigitChars_eq_foldl.symm

/-- The digits of a number have its value. -/
theorem ofDigits_digitsOf (n : Nat) : ofDigits (digitsOf n) = n := by
  rw [ofDigits_eq, digitsOf, Nat.ofDigitChars_ten_toDigits]

private theorem ofDigits_zeros_append (count : Nat) (text : List Char) :
    ofDigits (List.replicate count '0' ++ text) = ofDigits text := by
  rw [ofDigits_eq, ofDigits_eq, Nat.ofDigitChars_append, Nat.ofDigitChars_replicate_zero, Nat.mul_zero]

private theorem ofDigits_append_zeros (text : List Char) (count : Nat) :
    ofDigits (text ++ List.replicate count '0') = ofDigits text * 10 ^ count := by
  rw [ofDigits_eq, ofDigits_eq, Nat.ofDigitChars_append, Nat.ofDigitChars_replicate_zero, Nat.mul_comm]

/-- A number is written with digits. -/
theorem digits_digitsOf (n : Nat) : Digits (digitsOf n) :=
  ⟨Nat.toDigits_ne_nil, fun _ hc ↦ Nat.isDigit_of_mem_toDigits (by decide) (by decide) hc⟩

private theorem isDigit_of_mem_zeros {c : Char} (h : c ∈ List.replicate n '0') : c.isDigit = true := by
  rw [List.eq_of_mem_replicate h]
  rfl

private theorem head?_digitsOf (h : 0 < n) : (digitsOf n).head? ≠ some '0' := by
  induction n using Nat.strongRecOn with
  | _ n ih =>
    rw [digitsOf]
    by_cases hn : n < 10
    · rw [Nat.toDigits_of_lt_base hn]
      have hc : ∀ k < 10, 0 < k → some (Nat.digitChar k) ≠ some '0' := by decide
      exact hc n hn h
    · have hd := ih (n / 10) (by omega) (by omega)
      rw [Nat.toDigits_of_base_le (by decide) (by omega), List.head?_append]
      rw [digitsOf] at hd
      cases ht : (Nat.toDigits 10 (n / 10)).head? with
      | none => exact absurd (List.head?_eq_none_iff.mp ht) Nat.toDigits_ne_nil
      | some c =>
        rw [ht] at hd
        exact hd

private theorem Interval.holds_congr (interval : Interval) {num den num' den' : Nat} (hd : 0 < den) (hd' : 0 < den')
    (h : num * den' = num' * den) : interval.holds num den = interval.holds num' den' := by
  have hle (a : Nat) : a * den ≤ num ↔ a * den' ≤ num' := by
    rw [← Nat.mul_le_mul_right_iff hd', h, Nat.mul_right_comm, Nat.mul_le_mul_right_iff hd]
  have hge (a : Nat) : num ≤ a * den ↔ num' ≤ a * den' := by
    rw [← Nat.mul_le_mul_right_iff hd', h, Nat.mul_right_comm, Nat.mul_le_mul_right_iff hd]
  simp only [holds, ← Nat.not_le, hle, hge]

private theorem Scaled.Near.shift {coefficient : Nat} {exponent : Int} (h : (Scaled.mk coefficient exponent).Near m)
    (count : Nat) : (Scaled.mk (coefficient * 10 ^ count) (exponent - count)).Near m := by
  rw [Near, ← h]
  apply Interval.holds_congr _ (Nat.pow_pos (by decide)) (Nat.pow_pos (by decide))
  simp only [halfUnits]
  have hp : 10 ^ count * 10 ^ (exponent - count).toNat * 10 ^ (-exponent).toNat =
      10 ^ exponent.toNat * 10 ^ (-(exponent - count)).toNat := by
    rw [← Nat.pow_add, ← Nat.pow_add, ← Nat.pow_add]
    congr 1
    omega
  generalize 2 * unitsPerOne = one
  calc coefficient * 10 ^ count * (10 ^ (exponent - count).toNat * one) * 10 ^ (-exponent).toNat
      = coefficient * one * (10 ^ count * 10 ^ (exponent - count).toNat * 10 ^ (-exponent).toNat) := by
        ring
    _ = coefficient * (10 ^ exponent.toNat * one) * 10 ^ (-(exponent - count)).toNat := by
        rw [hp]
        ring

/-- Digits around a point and an exponent that read as a magnitude; no zero leads without need. -/
structure Reads (m : Nat) (whole fraction : List Char) (exponent : Int) : Prop where
  digits : Digits whole
  digits' : ∀ c ∈ fraction, c.isDigit = true
  canonical : whole = ['0'] ∨ whole.head? ≠ some '0'
  nearest : (Scaled.ofParts whole fraction exponent).nearest = m

namespace Reads

variable {digits : List Char} {exponent : Int}

private theorem zeros_behind (hd : Digits digits) (hz : digits.head? ≠ some '0') {count : Nat}
    (h : (Scaled.mk (ofDigits digits) count).Near m) (hm : 0 < m) (hi : m < infinite) (more : Nat) :
    Reads m (digits ++ List.replicate count '0') (List.replicate more '0') 0 := by
  refine ⟨⟨List.append_ne_nil_of_left_ne_nil hd.1 _, ?_⟩, fun _ ↦ isDigit_of_mem_zeros, .inr ?_, ?_⟩
  · intro c hc
    rcases List.mem_append.mp hc with hc | hc
    · exact hd.2 c hc
    · exact isDigit_of_mem_zeros hc
  · rw [List.head?_append]
    cases digits with
    | nil => exact absurd rfl hd.1
    | cons first rest => exact hz
  · have hs := h.shift (count + more)
    rw [show (count : Int) - ((count + more : Nat) : Int) = 0 - (more : Nat) by omega] at hs
    rw [Scaled.ofParts, List.append_assoc, List.replicate_append_replicate, ofDigits_append_zeros,
      List.length_replicate]
    exact hs.nearest_eq hm hi

private theorem point_among (hd : Digits digits) (hz : digits.head? ≠ some '0')
    (h : (Scaled.mk (ofDigits digits) exponent).Near m) (hm : 0 < m) (hi : m < infinite) (count : Nat)
    (hp : 0 < count) (hc : exponent = count - digits.length) (hl : count ≤ digits.length) :
    Reads m (digits.take count) (digits.drop count) 0 := by
  have ht : digits.take count ≠ [] := by
    rw [← List.length_pos_iff, List.length_take]
    exact Nat.lt_min.mpr ⟨hp, Nat.lt_of_lt_of_le hp hl⟩
  refine ⟨⟨ht, fun c hc ↦ hd.2 c (List.mem_of_mem_take hc)⟩,
    fun c hc ↦ hd.2 c (List.mem_of_mem_drop hc), .inr ?_, ?_⟩
  · rw [List.head?_take, if_neg hp.ne']
    exact hz
  · rw [Scaled.ofParts, List.take_append_drop, List.length_drop,
      show (0 : Int) - ((digits.length - count : Nat) : Int) = exponent by omega]
    exact h.nearest_eq hm hi

private theorem zeros_before (hd : Digits digits) (h : (Scaled.mk (ofDigits digits) exponent).Near m) (hm : 0 < m)
    (hi : m < infinite) (count : Nat) (hc : exponent = -(count + digits.length : Nat)) :
    Reads m ['0'] (List.replicate count '0' ++ digits) 0 := by
  refine ⟨.singleton rfl, fun c hc ↦ ?_, .inl rfl, ?_⟩
  · rcases List.mem_append.mp hc with hc | hc
    · exact isDigit_of_mem_zeros hc
    · exact hd.2 c hc
  · rw [Scaled.ofParts]
    change (Scaled.mk (ofDigits (List.replicate 1 '0' ++ _)) _).nearest = m
    rw [ofDigits_zeros_append, ofDigits_zeros_append, List.length_append, List.length_replicate,
      Int.zero_sub, ← hc]
    exact h.nearest_eq hm hi

end Reads

/-- The ways in which a style lays out a magnitude. -/
inductive Style.Layout (style : Style) (m : Nat) : List Char → Prop where
  | integral (whole : List Char) (h : Reads m whole [] 0) (h' : Reads m whole ['0'] 0) :
    Layout style m (whole ++ style.whole.toList)
  | fractional (whole fraction : List Char) (hf : Digits fraction) (h : Reads m whole fraction 0) :
    Layout style m (whole ++ '.' :: fraction)
  | scientific (first : Char) (fraction : List Char) (exponent : Int) (h : Reads m [first] fraction exponent)
    (hp : style.positional exponent = false) :
    Layout style m (first :: (if fraction = [] then [] else '.' :: fraction) ++
      'e' :: (if exponent < 0 then ['-'] else style.plus.toList) ++ digitsOf exponent.natAbs)

namespace Style

variable {style : Style} {decimal : Scaled}

private theorem layout_plain (h : decimal.Near m) (hm : 0 < m) (hi : m < infinite) :
    style.Layout m (style.plain decimal) := by
  obtain ⟨coefficient, exponent⟩ := decimal
  have hd := digits_digitsOf coefficient
  have hz := head?_digitsOf (Nat.pos_of_ne_zero (h.coefficient_ne_zero hm))
  rw [← ofDigits_digitsOf coefficient] at h
  rw [plain]
  generalize digitsOf coefficient = digits at *
  simp only
  split
  · next he =>
    obtain ⟨count, rfl⟩ := Int.eq_ofNat_of_zero_le he
    exact .integral _ (.zeros_behind hd hz h hm hi 0) (.zeros_behind hd hz h hm hi 1)
  · next he =>
    split
    · next hp =>
      have hr := Reads.point_among hd hz h hm hi (digits.length - (-exponent).toNat) (by omega) (by omega)
        (by omega)
      have hf : digits.drop (digits.length - (-exponent).toNat) ≠ [] := by
        rw [ne_eq, List.drop_eq_nil_iff]
        omega
      exact .fractional _ _ ⟨hf, hr.digits'⟩ hr
    · next hp =>
      have hr := Reads.zeros_before hd h hm hi ((-exponent).toNat - digits.length) (by omega)
      exact .fractional ['0'] _ ⟨List.append_ne_nil_of_right_ne_nil _ hd.1, hr.digits'⟩ hr

private theorem layout_scientific (h : decimal.Near m) (hm : 0 < m) (hi : m < infinite) {lead : Int}
    (hl : lead = decimal.exponent + (digitsOf decimal.coefficient).length - 1)
    (hp : style.positional lead = false) : style.Layout m (style.scientific decimal lead) := by
  obtain ⟨coefficient, exponent⟩ := decimal
  have hd := digits_digitsOf coefficient
  have hz := head?_digitsOf (Nat.pos_of_ne_zero (h.coefficient_ne_zero hm))
  have hv := ofDigits_digitsOf coefficient
  rw [scientific]
  simp only at hl ⊢
  generalize digitsOf coefficient = digits at *
  cases digits with
  | nil => exact absurd rfl hd.1
  | cons first fraction =>
    have hr : Reads m [first] fraction lead := by
      refine ⟨.singleton (hd.2 first List.mem_cons_self),
        fun c hc ↦ hd.2 c (List.mem_cons_of_mem first hc), .inr hz, ?_⟩
      rw [Scaled.ofParts, List.singleton_append, hv, hl, List.length_cons,
        show exponent + ((fraction.length + 1 : Nat) : Int) - 1 - fraction.length = exponent by omega]
      exact h.nearest_eq hm hi
    have ht : style.Layout m _ := .scientific first fraction lead hr hp
    cases fraction <;> exact ht

/-- Every finite magnitude is laid out in one of the ways. -/
theorem layout_magnitude (style : Style) (hi : m < infinite) : style.Layout m (style.magnitude m) := by
  rw [magnitude]
  split
  · next hz =>
    subst hz
    refine .integral ['0'] ⟨.singleton rfl, (fun _ h ↦ nomatch h), .inl rfl, rfl⟩
      ⟨.singleton rfl, fun c hc ↦ ?_, .inl rfl, rfl⟩
    rw [List.mem_singleton.mp hc]
    rfl
  · next hz =>
    have hm := Nat.pos_of_ne_zero hz
    have hn := shortest_near style.tie hm
    rw [decimal]
    split
    · exact layout_plain hn hm hi
    · next hp => exact layout_scientific hn hm hi rfl (Bool.eq_false_iff.mpr hp)

end Style

end Cityscape.Decimal
