import Cityscape.Decimal.Style

/-!
# Numbers in scripts

Scripts have no exponents, and a whole number has no point.
-/

namespace Cityscape.Script

/-- Numbers are written in full, a half goes up, and nothing follows a whole number. Specification, section 10.10. -/
def numeral : Decimal.Style where
  tie := .up
  positional := fun _ ↦ true
  whole := ""
  plus := ""
  notANumber := "NaN"
  infinity := "inf"
  negativeInfinity := "-inf"

end Cityscape.Script
