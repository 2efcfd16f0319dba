import Cityscape.Decimal.Style
import Cityscape.Drawing.Stroke

/-!
# Drawings as text

One line for each stroke, with points as pairs.
-/

namespace Cityscape.Trace

/-- Coordinates of pixels keep a point and its digit, a half goes up, and a plus has no sign. -/
def numeral : Decimal.Style where
  tie := .up
  positional := fun lead ↦ -4 ≤ lead && lead < 16
  whole := ".0"
  plus := ""
  notANumber := "NaN"
  infinity := "inf"
  negativeInfinity := "-inf"

/-- Radii are written in full, and nothing follows a whole number. -/
def radius : Decimal.Style :=
  { numeral with positional := fun _ ↦ true, whole := "" }

/-- A point as a pair. -/
def pixel (point : Pixel) : String :=
  "(" ++ numeral.write point.x ++ ", " ++ numeral.write point.y ++ ")"

/-- A stroke on one line. Specification, section 10.11. -/
def stroke : Stroke → String
  | .line start finish => "line " ++ pixel start ++ " -> " ++ pixel finish
  | .circle center r => "circle " ++ pixel center ++ " r=" ++ radius.write r
  | .polygon points => "polygon [" ++ ", ".intercalate (points.map pixel) ++ "]"

end Cityscape.Trace
