import Mathlib.Data.Nat.Log
import Mathlib.Tactic.Ring
import Cityscape.Decimal.Binary

/-!
# Doubles and their bits

A finite double is its sign and its magnitude. Zero minus a magnitude is the magnitude with its sign
changed, and a zero is equal to the other zero in the sense of comparisons.
-/

namespace Cityscape.Decimal

open Float.Model
open Float.Model.UnpackedFloat

/-- The weight of the exponent bits is a power of two. -/
theorem fractionRange_eq : fractionRange = 2 ^ 52 := rfl

private theorem isNegative_eq (value : Float) : isNegative value = decide (2 ^ 63 ≤ value.toBits.toNat) := rfl

private theorem magnitude_eq (value : Float) : magnitude value = value.toBits.toNat % 2 ^ 63 := rfl

/-- The sign of a double as bits weigh it. -/
def signWeight : Sign → Nat
  | .positive => 0
  | .negative => 2 ^ 63

private theorem signWeight_eq_or (sign : Sign) : signWeight sign = 0 ∨ signWeight sign = 2 ^ 63 := by
  cases sign with
  | positive => exact .inl rfl
  | negative => exact .inr rfl

private theorem toNat_unpackMantissa (bits : BitVec Format.binary64.numBits) :
    (unpackMantissa bits).toNat = bits.toNat % 2 ^ 52 := by
  simp [unpackMantissa]

private theorem toNat_unpackExponent (bits : BitVec Format.binary64.numBits) :
    (unpackExponent bits).toNat = bits.toNat / 2 ^ 52 % 2 ^ 11 := by
  simp [unpackExponent, Nat.shiftRight_eq_div_pow]

private theorem toNat_unpackSign (bits : BitVec Format.binary64.numBits) :
    (unpackSign bits).toNat = bits.toNat / 2 ^ 63 % 2 := by
  change (bits.toNat >>> 63) % 2 ^ 1 = _
  rw [Nat.shiftRight_eq_div_pow]

private theorem toNat_packComponents (sign : Sign) (exponent : BitVec 11) (mantissa : BitVec 52) :
    (packComponents .binary64 sign exponent mantissa).toNat =
      signWeight sign + exponent.toNat * 2 ^ 52 + mantissa.toNat := by
  have hs : sign.toBitVec.toNat * 2 ^ 63 = signWeight sign := by
    cases sign <;> rfl
  have hm := mantissa.isLt
  have he := exponent.isLt
  rw [packComponents, BitVec.toNat_append, ← Nat.shiftLeft_add_eq_or_of_lt hm, BitVec.toNat_append,
    ← Nat.shiftLeft_add_eq_or_of_lt he, Nat.shiftLeft_eq, Nat.shiftLeft_eq, Nat.add_mul, Nat.mul_assoc,
    ← Nat.pow_add]
  exact congrArg (· + _ + _) hs

/-- What a sign and a finite magnitude unpack to. -/
def unpacked (sign : Sign) (magnitude : Nat) : UnpackedFloat :=
  if h : magnitude = 0 then .zero sign
  else if magnitude < fractionRange then .finite sign magnitude (-1074) (Nat.pos_of_ne_zero h)
  else .finite sign (fractionRange + magnitude % fractionRange)
    ((magnitude / fractionRange : Nat) - 1075) (Nat.add_pos_left (by decide) _)

/-- The sign that is one of two. -/
def signOf (negative : Bool) : Sign :=
  if negative then .negative else .positive

variable {sign : Sign} {magnitude : Nat}

private theorem finite_congr {m m' : Nat} {e e' : Int} {h : 0 < m} {h' : 0 < m'} (hm : m = m') (he : e = e') :
    UnpackedFloat.finite sign m e h = .finite sign m' e' h' := by
  subst hm he
  rfl

private theorem unpacked_subnormal (sign : Sign) (hz : 0 < magnitude) (hl : magnitude < fractionRange) :
    unpacked sign magnitude = .finite sign magnitude (-1074) hz := by
  rw [unpacked, dif_neg (Nat.ne_of_gt hz), if_pos hl]

private theorem unpacked_normal (sign : Sign) (hl : fractionRange ≤ magnitude) :
    unpacked sign magnitude = .finite sign (fractionRange + magnitude % fractionRange)
      ((magnitude / fractionRange : Nat) - 1075) (Nat.add_pos_left (by decide) _) := by
  have hz : 0 < magnitude := Nat.lt_of_lt_of_le (by decide) hl
  rw [unpacked, dif_neg (Nat.ne_of_gt hz), if_neg (Nat.not_lt_of_le hl)]

private theorem exists_unpacked (hz : magnitude ≠ 0) :
    ∃ mantissa exponent h, ∀ sign, unpacked sign magnitude = .finite sign mantissa exponent h := by
  rcases Nat.lt_or_ge magnitude fractionRange with hl | hl
  · exact ⟨_, _, _, fun sign ↦ unpacked_subnormal sign (Nat.pos_of_ne_zero hz) hl⟩
  · exact ⟨_, _, _, fun sign ↦ unpacked_normal sign hl⟩

private theorem ofBitVec_unpackSign {bits : BitVec Format.binary64.numBits} (h : magnitude < 2 ^ 63)
    (hb : bits.toNat = signWeight sign + magnitude) : Sign.ofBitVec (unpackSign bits) = sign := by
  have hn := toNat_unpackSign bits
  rw [hb] at hn
  cases sign with
  | positive =>
    rw [signWeight] at hn
    have hz : unpackSign bits = 0#1 := BitVec.eq_of_toNat_eq (hn.trans (show _ = 0 by omega))
    rw [hz]
    rfl
  | negative =>
    rw [signWeight] at hn
    have hz : unpackSign bits = 1#1 := BitVec.eq_of_toNat_eq (hn.trans (show _ = 1 by omega))
    rw [hz]
    rfl

private theorem toNat_one_append (mantissa : BitVec 52) :
    (1#1 ++ mantissa).toNat = 2 ^ 52 + mantissa.toNat := by
  rw [BitVec.toNat_append, ← Nat.shiftLeft_add_eq_or_of_lt mantissa.isLt]
  rfl

/-- Unpacking the bits of a sign and a finite magnitude. -/
theorem unpack_bits (sign : Sign) (h : magnitude < infinite) (bits : BitVec Format.binary64.numBits)
    (hb : bits.toNat = signWeight sign + magnitude) :
    UnpackedFloat.unpack .binary64 bits = unpacked sign magnitude := by
  have hw := signWeight_eq_or sign
  have hi : magnitude < 2047 * 2 ^ 52 := h
  have hs : Sign.ofBitVec (unpackSign bits) = sign := ofBitVec_unpackSign (by omega) hb
  have hm : (unpackMantissa bits).toNat = magnitude % 2 ^ 52 := by
    rw [toNat_unpackMantissa, hb]
    omega
  have he : (unpackExponent bits).toNat = magnitude / 2 ^ 52 := by
    rw [toNat_unpackExponent, hb]
    omega
  have hn : unpackExponent bits ≠ -1#_ := by
    intro hx
    have hx : (unpackExponent bits).toNat = 2047 := congrArg BitVec.toNat hx
    omega
  unfold UnpackedFloat.unpack
  dsimp only
  rw [hs, if_neg hn]
  by_cases hx : unpackExponent bits = 0#_
  · have hx' : (unpackExponent bits).toNat = 0 := congrArg BitVec.toNat hx
    have hl : magnitude < 2 ^ 52 := by omega
    have hm' : (unpackMantissa bits).toNat = magnitude := hm.trans (Nat.mod_eq_of_lt hl)
    rw [if_pos hx]
    by_cases hz : unpackMantissa bits = 0#_
    · have hz' : (unpackMantissa bits).toNat = 0 := congrArg BitVec.toNat hz
      rw [dif_pos hz, ← hm', hz']
      rfl
    · have hz' : (unpackMantissa bits).toNat ≠ 0 := fun h ↦ hz (BitVec.eq_of_toNat_eq h)
      rw [dif_neg hz, unpacked_subnormal sign (Nat.pos_of_ne_zero (hm' ▸ hz')) hl]
      apply finite_congr hm'
      rw [hx']
      rfl
  · have hx' : (unpackExponent bits).toNat ≠ 0 := fun h ↦ hx (BitVec.eq_of_toNat_eq h)
    rw [if_neg hx, unpacked_normal sign (by rw [fractionRange_eq]; omega)]
    apply finite_congr ((toNat_one_append _).trans (congrArg _ hm))
    rw [he]
    rfl

private theorem pack_finite (sign : Sign) (mantissa : Nat) (exponent : Int) (h : 0 < mantissa) :
    UnpackedFloat.pack .binary64 (.finite sign mantissa exponent h) =
      let biased := (exponent + Format.binary64.exponentBias + Format.binary64.mantissaBitsWithoutImplicit).toNat
      if 2 ^ Format.binary64.exponentBits ≤ biased + 1 then packedInfinity .binary64 sign
      else if mantissa.log2 + 1 = Format.binary64.mantissaBits then
        packComponents .binary64 sign (.ofNat _ biased) (.ofNat _ mantissa)
      else packComponents .binary64 sign 0 (.ofNat _ mantissa) :=
  rfl

private theorem toNat_pack_subnormal (sign : Sign) (hz : 0 < magnitude) (hl : magnitude < fractionRange) :
    (UnpackedFloat.pack .binary64 (unpacked sign magnitude)).toNat = signWeight sign + magnitude := by
  have hl' : magnitude < 2 ^ 52 := hl
  have hlog := (Nat.log2_lt (Nat.ne_of_gt hz)).mpr hl'
  have hn : ¬ magnitude.log2 + 1 = Format.binary64.mantissaBits := by
    rw [show Format.binary64.mantissaBits = 53 from rfl]
    omega
  rw [unpacked_subnormal sign hz hl, pack_finite, if_neg (by decide), if_neg hn, toNat_packComponents,
    BitVec.toNat_ofNat]
  change signWeight sign + 0 * 2 ^ 52 + magnitude % 2 ^ 52 = _
  omega

private theorem log2_mantissa (magnitude : Nat) :
    (fractionRange + magnitude % fractionRange).log2 + 1 = Format.binary64.mantissaBits := by
  have hf : 0 < fractionRange + magnitude % fractionRange := Nat.add_pos_left (by decide) _
  have hm : magnitude % fractionRange < 2 ^ 52 := Nat.mod_lt _ (by decide)
  have hlow : 52 ≤ (fractionRange + magnitude % fractionRange).log2 :=
    (Nat.le_log2 (Nat.ne_of_gt hf)).mpr (Nat.le_add_right _ _)
  have hhigh : (fractionRange + magnitude % fractionRange).log2 < 53 := by
    apply (Nat.log2_lt (Nat.ne_of_gt hf)).mpr
    change 2 ^ 52 + magnitude % fractionRange < 2 ^ 53
    omega
  rw [show Format.binary64.mantissaBits = 53 from rfl]
  omega

private theorem toNat_pack_normal (sign : Sign) (hl : fractionRange ≤ magnitude) (h : magnitude < infinite) :
    (UnpackedFloat.pack .binary64 (unpacked sign magnitude)).toNat = signWeight sign + magnitude := by
  have hi : magnitude < 2047 * 2 ^ 52 := h
  have hd : 1 ≤ magnitude / fractionRange := (Nat.one_le_div_iff (by decide)).mpr hl
  have hb : ((magnitude / fractionRange : Nat) - 1075 + Format.binary64.exponentBias +
      Format.binary64.mantissaBitsWithoutImplicit : Int).toNat = magnitude / fractionRange := by
    change ((magnitude / fractionRange : Nat) - 1075 + 1023 + 52 : Int).toNat = _
    omega
  have he : magnitude / fractionRange < 2047 := Nat.div_lt_of_lt_mul (by rw [Nat.mul_comm]; exact hi)
  rw [unpacked_normal sign hl, pack_finite]
  simp only [hb]
  rw [if_neg (by omega), if_pos (log2_mantissa magnitude), toNat_packComponents, BitVec.toNat_ofNat,
    BitVec.toNat_ofNat, Nat.mod_eq_of_lt (Nat.lt_trans he (by decide))]
  change signWeight sign + magnitude / 2 ^ 52 * 2 ^ 52 + (2 ^ 52 + magnitude % 2 ^ 52) % 2 ^ 52 = _
  omega

private theorem toNat_pack_unpacked (sign : Sign) (h : magnitude < infinite) :
    (UnpackedFloat.pack .binary64 (unpacked sign magnitude)).toNat = signWeight sign + magnitude := by
  rcases Nat.eq_zero_or_pos magnitude with rfl | hz
  · exact toNat_packComponents sign 0 0
  rcases Nat.lt_or_ge magnitude fractionRange with hl | hl
  · exact toNat_pack_subnormal sign hz hl
  · exact toNat_pack_normal sign hl h

private theorem toNat_bits (negative : Bool) (h : magnitude < infinite) :
    (UInt64.ofNat (if negative then Nat.pow 2 63 + magnitude else magnitude)).toBitVec.toNat =
      signWeight (signOf negative) + magnitude := by
  have hi : magnitude < 2047 * 2 ^ 52 := h
  rw [UInt64.toNat_toBitVec, UInt64.toNat_ofNat']
  cases negative with
  | true =>
    rw [if_pos rfl, signOf, if_pos rfl, signWeight, Nat.pow_eq]
    omega
  | false =>
    rw [if_neg Bool.false_ne_true, signOf, if_neg Bool.false_ne_true, signWeight]
    omega

private theorem ofMagnitude_eq (negative : Bool) (h : magnitude < infinite) :
    ofMagnitude negative magnitude =
      .ofModel (Float.Model.pack (unpacked (signOf negative) magnitude)) := by
  rw [ofMagnitude, Float.ofBits, Float.Model.ofBits, unpack_bits _ h _ (toNat_bits negative h)]

private theorem unpack_ofMagnitude (negative : Bool) (h : magnitude < infinite) :
    (ofMagnitude negative magnitude).toModel.unpack = unpacked (signOf negative) magnitude := by
  rw [ofMagnitude_eq negative h]
  exact unpack_bits _ h _ (toNat_pack_unpacked _ h)

/-- Zero minus a magnitude is the magnitude with its sign changed. -/
theorem zero_sub_ofMagnitude (h : magnitude < infinite) (hz : magnitude ≠ 0) :
    ofMagnitude false 0 - ofMagnitude false magnitude = ofMagnitude true magnitude := by
  have hu : UnpackedFloat.sub .binary64 (unpacked .positive 0) (unpacked .positive magnitude) =
      unpacked .negative magnitude := by
    obtain ⟨mantissa, exponent, _, hu⟩ := exists_unpacked hz
    rw [hu, hu]
    rfl
  have hm : (ofMagnitude false 0 - ofMagnitude false magnitude) = .ofModel (Float.Model.pack
      (UnpackedFloat.sub .binary64 (ofMagnitude false 0).toModel.unpack
        (ofMagnitude false magnitude).toModel.unpack)) := rfl
  rw [hm, unpack_ofMagnitude false (by decide), unpack_ofMagnitude false h, ofMagnitude_eq true h]
  exact congrArg (fun u ↦ Float.ofModel (Float.Model.pack u)) hu

private theorem toNat_toBits (value : Float) :
    value.toBits.toBitVec.toNat = signWeight (signOf (isNegative value)) + Decimal.magnitude value := by
  have hl := value.toBits.toBitVec.isLt
  rw [UInt64.toNat_toBitVec] at hl ⊢
  rw [magnitude_eq]
  by_cases hn : 2 ^ 63 ≤ value.toBits.toNat
  · rw [isNegative_eq, decide_eq_true hn, signOf, if_pos rfl, signWeight]
    omega
  · rw [isNegative_eq, decide_eq_false hn, signOf, if_neg Bool.false_ne_true, signWeight]
    omega

private theorem isFinite_unpack_eq_false (sign : Sign) (hi : infinite ≤ magnitude) (hl : magnitude < 2 ^ 63)
    (bits : BitVec Format.binary64.numBits) (hb : bits.toNat = signWeight sign + magnitude) :
    (UnpackedFloat.unpack .binary64 bits).isFinite = false := by
  have hi' : 2047 * 2 ^ 52 ≤ magnitude := hi
  have hw := signWeight_eq_or sign
  have he : unpackExponent bits = -1#_ := by
    apply BitVec.eq_of_toNat_eq
    rw [toNat_unpackExponent, hb]
    change _ = 2047
    omega
  unfold UnpackedFloat.unpack
  dsimp only
  rw [if_pos he]
  split <;> rfl

private theorem isFinite_unpacked (sign : Sign) (magnitude : Nat) : (unpacked sign magnitude).isFinite = true := by
  by_cases hz : magnitude = 0
  · rw [hz]
    rfl
  · obtain ⟨mantissa, exponent, _, hu⟩ := exists_unpacked hz
    rw [hu]
    rfl

/-- A double is finite if its magnitude is. -/
theorem isFinite_iff {value : Float} : value.isFinite = true ↔ Decimal.magnitude value < infinite := by
  have hb := toNat_toBits value
  constructor
  · intro hf
    rcases Nat.lt_or_ge (Decimal.magnitude value) infinite with hm | hm
    · exact hm
    · have hl : Decimal.magnitude value < 2 ^ 63 := Nat.mod_lt _ (by decide)
      have hu : value.toModel.unpack.isFinite = false := isFinite_unpack_eq_false _ hm hl _ hb
      cases hu.symm.trans hf
  · intro h
    have hu : value.toModel.unpack = unpacked (signOf (isNegative value)) (Decimal.magnitude value) :=
      unpack_bits _ h _ hb
    change value.toModel.unpack.isFinite = true
    rw [hu, isFinite_unpacked]

/-- A double with a finite magnitude is finite. -/
theorem isFinite_ofMagnitude (negative : Bool) (h : magnitude < infinite) :
    (ofMagnitude negative magnitude).isFinite = true := by
  change (ofMagnitude negative magnitude).toModel.unpack.isFinite = true
  rw [unpack_ofMagnitude negative h, isFinite_unpacked]

/-- A finite double is its sign and its magnitude. -/
theorem ofMagnitude_magnitude {value : Float} (h : value.isFinite = true) :
    ofMagnitude (isNegative value) (Decimal.magnitude value) = value := by
  have hm := isFinite_iff.mp h
  have hb : (ofMagnitude (isNegative value) (Decimal.magnitude value)).toModel.toBits =
      value.toModel.toBits := by
    rw [ofMagnitude_eq _ hm]
    apply UInt64.toBitVec_inj.mp
    apply BitVec.eq_of_toNat_eq
    exact (toNat_pack_unpacked _ hm).trans (toNat_toBits value).symm
  generalize ofMagnitude (isNegative value) (Decimal.magnitude value) = other at hb
  obtain ⟨⟨bits, valid⟩⟩ := value
  obtain ⟨⟨bits', valid'⟩⟩ := other
  obtain rfl : bits' = bits := hb
  rfl

/-- A double without the sign of a zero. -/
def plain (value : Float) : Float :=
  if Decimal.magnitude value = 0 then ofMagnitude false 0 else value

/-- Only negative zero has a sign to lose. -/
theorem plain_eq (value : Float) : plain value = if value = -0.0 then 0.0 else value := by
  split
  · next h =>
    rw [h]
    rfl
  · next h =>
    rw [plain]
    split
    · next hm =>
      have hv := ofMagnitude_magnitude (isFinite_iff.mpr (show Decimal.magnitude value < infinite by rw [hm]; decide))
      rw [hm] at hv
      cases hn : isNegative value with
      | false => rwa [hn] at hv
      | true =>
        rw [hn] at hv
        exact absurd hv.symm h
    · rfl

private theorem compare_finite_self (sign : Sign) (mantissa : Nat) (exponent : Int) (h : 0 < mantissa) :
    UnpackedFloat.compare (.finite sign mantissa exponent h) (.finite sign mantissa exponent h) = some .eq := by
  have hc : (compare exponent exponent).then (compare mantissa mantissa) = .eq := by
    rw [Std.compare_self, Std.compare_self]
    rfl
  cases sign with
  | positive => exact congrArg some hc
  | negative => exact congrArg (fun order ↦ some order.swap) hc

/-- Comparisons do not see the sign of a zero. -/
theorem plain_beq {value : Float} (h : value.isFinite = true) : (plain value == value) = true := by
  have hm := isFinite_iff.mp h
  have hu : value.toModel.unpack = unpacked (signOf (isNegative value)) (Decimal.magnitude value) :=
    unpack_bits _ hm _ (toNat_toBits value)
  rw [plain]
  split
  · next hz =>
    change (UnpackedFloat.compare (ofMagnitude false 0).toModel.unpack value.toModel.unpack ==
      some .eq) = true
    rw [hu, hz, unpack_ofMagnitude false (by decide)]
    rfl
  · next hz =>
    change (UnpackedFloat.compare value.toModel.unpack value.toModel.unpack == some .eq) = true
    obtain ⟨mantissa, exponent, _, hf⟩ := exists_unpacked hz
    rw [hu, hf, compare_finite_self]
    rfl

end Cityscape.Decimal
