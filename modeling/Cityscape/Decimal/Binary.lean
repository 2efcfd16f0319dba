/-!
# Doubles as whole numbers of units

A double without its sign is a number below `2 ^ 63`, its *magnitude*: eleven bits of exponent above
fifty-two bits of fraction. Every finite double is a whole number of units of `2 ^ (-1074)`, so
reading and writing decimals needs natural numbers only. Magnitudes are ordered as their values are,
and the magnitude after the largest finite one stands for infinity.
-/

namespace Cityscape.Decimal

/-- The weight of the exponent bits in a magnitude. -/
def fractionRange : Nat := Nat.pow 2 52

/-- One divided by the unit: the units in the number one. -/
def unitsPerOne : Nat := Nat.pow 2 1074

/-- The magnitude of infinity. -/
def infinite : Nat := 0x7ff * fractionRange

/-- The value of a finite magnitude, in units. -/
def units (magnitude : Nat) : Nat :=
  let field := magnitude / fractionRange
  let fraction := magnitude % fractionRange
  if field = 0 then fraction else (fractionRange + fraction) * Nat.pow 2 (field - 1)

/-- Which of two equally near neighbours is taken. -/
inductive Tie where
  | even
  | up
  deriving DecidableEq, Repr

/-- The whole number nearest to `num / den`. -/
def roundDiv (tie : Tie) (num den : Nat) : Nat :=
  let quotient := num / den
  let twice := 2 * (num % den)
  if twice < den then quotient
  else if den < twice then quotient + 1
  else match tie with
    | .even => quotient + quotient % 2
    | .up => quotient + 1

/--
The magnitude nearest to `num / den` units, halves to the even one. Above fifty-three bits the
quotient is rounded to the spacing of its binade, which shows as a carry into the exponent bits.
-/
def nearest (num den : Nat) : Nat :=
  let shift := (num / den).log2 - 52
  min infinite (shift * fractionRange + roundDiv .even num (den * Nat.pow 2 shift))

/-- The double with this sign and magnitude. -/
def ofMagnitude (negative : Bool) (magnitude : Nat) : Float :=
  Float.ofBits (UInt64.ofNat (if negative then Nat.pow 2 63 + magnitude else magnitude))

/-- A power of two, infinite from the exponent 1024 on. -/
def powerOfTwo (exponent : Nat) : Float :=
  ofMagnitude false (min ((exponent + 1023) * fractionRange) infinite)

/-- Whether the sign bit is set. -/
def isNegative (value : Float) : Bool :=
  Nat.pow 2 63 ≤ value.toBits.toNat

/-- A double without its sign bit. -/
def magnitude (value : Float) : Nat :=
  value.toBits.toNat % Nat.pow 2 63

end Cityscape.Decimal
