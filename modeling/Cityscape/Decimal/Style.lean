import Cityscape.Decimal.Shortest

/-!
# Decimal text of doubles

The digits of a double are its shortest decimal. How they are laid out is a matter of the format being
written, and each format states its choices as one `Style`.
-/

namespace Cityscape.Decimal

/-- The choices a format makes when it writes a double. -/
structure Style where
  /-- Which digit is taken when two shortest decimals are equally near. -/
  tie : Tie
  /-- The exponents of the leading digit that are written without an exponent. -/
  positional : Int → Bool
  /-- What follows the digits of a whole number. -/
  whole : String
  /-- The sign of an exponent that is not negative. -/
  plus : String
  notANumber : String
  infinity : String
  negativeInfinity : String

/-- The decimal digits of a number. -/
def digitsOf (n : Nat) : List Char :=
  Nat.toDigits 10 n

/-- A decimal written out in full. -/
def Style.plain (style : Style) (decimal : Scaled) : List Char :=
  let digits := digitsOf decimal.coefficient
  if 0 ≤ decimal.exponent then
    digits ++ List.replicate decimal.exponent.toNat '0' ++ style.whole.toList
  else
    let places := (-decimal.exponent).toNat
    if places < digits.length then
      digits.take (digits.length - places) ++ '.' :: digits.drop (digits.length - places)
    else
      '0' :: '.' :: List.replicate (places - digits.length) '0' ++ digits

/-- A decimal with one digit before the point and the exponent of that digit. -/
def Style.scientific (style : Style) (decimal : Scaled) (lead : Int) : List Char :=
  let mantissa := match digitsOf decimal.coefficient with
    | [] => []
    | [first] => [first]
    | first :: rest => first :: '.' :: rest
  let sign := if lead < 0 then ['-'] else style.plus.toList
  mantissa ++ 'e' :: sign ++ digitsOf lead.natAbs

/-- A decimal with or without an exponent, as the style asks. -/
def Style.decimal (style : Style) (decimal : Scaled) : List Char :=
  let lead := decimal.exponent + (digitsOf decimal.coefficient).length - 1
  if style.positional lead then style.plain decimal else style.scientific decimal lead

/-- A finite magnitude; zero is a whole number. -/
def Style.magnitude (style : Style) (magnitude : Nat) : List Char :=
  if magnitude = 0 then '0' :: style.whole.toList else style.decimal (shortest style.tie magnitude)

/-- The text of a double. -/
def Style.write (style : Style) (value : Float) : String :=
  let m := Decimal.magnitude value
  if infinite < m then style.notANumber
  else if m = infinite then
    if isNegative value then style.negativeInfinity else style.infinity
  else
    String.ofList ((if isNegative value then ['-'] else []) ++ style.magnitude m)

end Cityscape.Decimal
