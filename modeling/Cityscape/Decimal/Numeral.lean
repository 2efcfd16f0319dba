import Cityscape.Decimal.Shortest

/-!
# Reading decimals

A numeral is an optional sign, digits with an optional point among or around them, and an optional
exponent. It denotes the double nearest to its exact value.
-/

namespace Cityscape.Decimal

/--
The magnitude nearest to `coefficient * 10 ^ exponent`. Numbers that are out of range by their count
of bits alone are settled first, so that no huge power of ten is computed.
-/
def Scaled.nearest (decimal : Scaled) : Nat :=
  let bits : Int := decimal.coefficient.log2
  if decimal.coefficient = 0 then 0
  else if 1024 ≤ bits + 3 * decimal.exponent ∧ 0 ≤ decimal.exponent then infinite
  else if bits + 1 + 3 * decimal.exponent < -1075 then 0
  else
    Decimal.nearest (decimal.coefficient * Nat.pow 10 decimal.exponent.toNat * unitsPerOne)
      (Nat.pow 10 (-decimal.exponent).toNat)

/-- The double nearest to a signed decimal. -/
def Scaled.toFloat (negative : Bool) (decimal : Scaled) : Float :=
  ofMagnitude negative decimal.nearest

/-- The value of a run of decimal digits. -/
def ofDigits (digits : List Char) : Nat :=
  digits.foldl (fun value digit ↦ 10 * value + (digit.toNat - '0'.toNat)) 0

/-- The decimal with these digits before and after its point and this exponent behind them. -/
def Scaled.ofParts (whole fraction : List Char) (exponent : Int) : Scaled :=
  ⟨ofDigits (whole ++ fraction), exponent - fraction.length⟩

/-- A sign and what follows it. -/
def splitSign : List Char → Bool × List Char
  | '-' :: rest => (true, rest)
  | '+' :: rest => (false, rest)
  | text => (false, text)

/-- The value of an exponent: an optional sign and at least one digit, to the end of the text. -/
def exponent? (text : List Char) : Option Int :=
  let (negative, digits) := splitSign text
  if digits ≠ [] ∧ digits.all Char.isDigit then
    some (if negative then -(ofDigits digits : Int) else ofDigits digits)
  else none

/-- A numeral without its sign: digits, perhaps a point, perhaps an exponent. -/
def scaled? (text : List Char) : Option Scaled :=
  let whole := text.takeWhile Char.isDigit
  let (fraction, rest) := match text.dropWhile Char.isDigit with
    | '.' :: rest => (rest.takeWhile Char.isDigit, rest.dropWhile Char.isDigit)
    | rest => ([], rest)
  if whole = [] ∧ fraction = [] then none
  else match rest with
    | [] => some (.ofParts whole fraction 0)
    | mark :: rest =>
      if mark = 'e' ∨ mark = 'E' then (exponent? rest).map (.ofParts whole fraction ·) else none

/-- The double that a numeral denotes. -/
def read? (text : String) : Option Float :=
  let (negative, rest) := splitSign text.toList
  (scaled? rest).map (·.toFloat negative)

end Cityscape.Decimal
