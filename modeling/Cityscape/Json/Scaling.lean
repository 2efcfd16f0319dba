import Cityscape.Json.Lexeme

/-!
# Doubles by scaling

The usual way to make a double of a number: its leading digits, as many as sixty-four bits hold, are multiplied or
divided by one power of ten. This is fast, but both steps round, so the double is not always the nearest one.
-/

namespace Cityscape.Json

/-- Puts digits behind a number for as long as it fits into sixty-four bits; gives the digits left, too. -/
def appendDigits (significand : Nat) : List Char → Nat × List Char
  | [] => (significand, [])
  | digit :: rest =>
    let next := 10 * significand + (digit.toNat - '0'.toNat)
    if next < UInt64.size then appendDigits next rest else (significand, digit :: rest)

/-- The exponent of the greatest power of ten among the doubles. -/
def greatestPower : Nat := 308

/-- The double nearest to a power of ten. -/
def powerOfTen (exponent : Nat) : Float :=
  Decimal.Scaled.toFloat false ⟨1, exponent⟩

/-- Divides by a power of ten; the greatest power is taken out `steps` times first. -/
def divided (value : Float) (exponent : Nat) : Nat → Float
  | 0 => value / powerOfTen exponent
  | steps + 1 =>
    if value == 0 then value
    else divided (value / powerOfTen greatestPower) (exponent - greatestPower) steps

/-- Multiplies a double by a power of ten or divides it by one, if there is a double for the result. -/
def scaled? (value : Float) : Int → Option Float
  | .ofNat exponent =>
    if exponent ≤ greatestPower then some (value * powerOfTen exponent)
    else if value == 0 then some value
    else none
  | .negSucc exponent => some (divided value (exponent + 1) (exponent / greatestPower))

/-- The double that a number is scaled to, which may be beyond the range of doubles. -/
def NumberParts.scaled? (parts : NumberParts) : Option Float :=
  let fraction := parts.fraction.getD []
  let (significand, left) := appendDigits 0 parts.whole
  let (significand, unused) := appendDigits significand fraction
  let exponent : Int := left.length - (fraction.length - unused.length) + parts.exponent.getD 0
  Json.scaled? (Decimal.Scaled.toFloat false ⟨significand, 0⟩) exponent

instance : Numerals where
  double? negative parts :=
    (parts.scaled?.map fun value ↦ if negative then -value else value).filter Float.isFinite
  finite h := (Option.filter_eq_some_iff.mp h).2

end Cityscape.Json
