import Cityscape.Decimal.Binary

/-!
# The shortest decimal of a double

Of the decimals that read back as a given double, the shortest are those on the coarsest grid of
multiples of a power of ten that meets the interval of reals rounding to the double. The search walks
the grids from coarse to fine; a double lies on the grid of `10 ^ (-1075)` itself, so it always ends.
-/

namespace Cityscape.Decimal

/-- The number `coefficient * 10 ^ exponent`. -/
structure Scaled where
  coefficient : Nat
  exponent : Int
  deriving DecidableEq, Repr

/-- The reals that round to a double, in half units; the ends belong to it when `closed` holds. -/
structure Interval where
  low : Nat
  middle : Nat
  high : Nat
  closed : Bool

/-- The reals that round to a positive finite magnitude. -/
def Interval.of (magnitude : Nat) : Interval where
  low := units (magnitude - 1) + units magnitude
  middle := 2 * units magnitude
  high := units magnitude + units (magnitude + 1)
  closed := magnitude % 2 = 0

/-- Whether `num / den` half units lie in the interval. -/
def Interval.holds (interval : Interval) (num den : Nat) : Bool :=
  if interval.closed then
    interval.low * den ≤ num && num ≤ interval.high * den
  else
    interval.low * den < num && num < interval.high * den

/-- The nearest point of the grid `10 ^ exponent` that lies in the interval, if any does. -/
def Interval.onGrid? (interval : Interval) (tie : Tie) (exponent : Int) : Option Scaled :=
  let step := Nat.pow 10 exponent.toNat * (2 * unitsPerOne)
  let den := Nat.pow 10 (-exponent).toNat
  let below := interval.middle * den / step
  match interval.holds (below * step) den, interval.holds ((below + 1) * step) den with
  | false, false => none
  | true, false => some ⟨below, exponent⟩
  | false, true => some ⟨below + 1, exponent⟩
  | true, true => some ⟨roundDiv tie (interval.middle * den) step, exponent⟩

/-- The first grid at or below `exponent` with a point in the interval, `steps` grids further at most. -/
def Interval.search (interval : Interval) (tie : Tie) : Nat → Int → Scaled
  | 0, exponent => ⟨0, exponent⟩
  | steps + 1, exponent =>
    match interval.onGrid? tie exponent with
    | some point => point
    | none => interval.search tie steps (exponent - 1)

/-- An exponent of ten above a positive magnitude, at most three too high. -/
def exponentAbove (magnitude : Nat) : Int :=
  ((units magnitude).log2 + 1 - 1074 : Int) * 30103 / 100000 + 1

/-- The shortest decimal that reads back as a positive finite magnitude, the nearest of those. -/
def shortest (tie : Tie) (magnitude : Nat) : Scaled :=
  let top := exponentAbove magnitude
  (Interval.of magnitude).search tie (top + 1076).toNat top

end Cityscape.Decimal
