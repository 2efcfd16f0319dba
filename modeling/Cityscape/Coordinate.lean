import Cityscape.Decimal.Binary

/-!
# Coordinates and the shapes derived from them

Coordinates are named pairs of longitude and latitude. A bend is given by its ends and an angle, a
circle by its centre and radius; both are turned into points here.
-/

namespace Cityscape

/-- A named place; `x` is the longitude, `y` the latitude. Specification, section 3. -/
structure Coordinate where
  name : String
  x : Float
  y : Float
  deriving Repr

/-- The ratio of a circle's circumference to its diameter. -/
def pi : Float := 3.141592653589793

/-- An angle in degrees, in radians. -/
def radians (degrees : Float) : Float :=
  degrees * (pi / 180.0)

/--
The length of the hypotenuse. Legs whose squares would leave the range of doubles are scaled by a power
of two first, and an infinite leg makes the hypotenuse infinite whatever the other is.
-/
def hypotenuse (x y : Float) : Float :=
  let longer := if x.abs < y.abs then y.abs else x.abs
  if x.isInf || y.isInf then 1.0 / 0.0
  else
    let scale :=
      if 1.0e150 < longer then 1.0 / Decimal.powerOfTwo 600
      else if longer < 1.0e-150 then Decimal.powerOfTwo 600
      else 1.0
    let a := x * scale
    let b := y * scale
    (a * a + b * b).sqrt / scale

/-- Three points of a bent street: where it starts and where it is drawn to, the latter twice. -/
structure Curve where
  start : Coordinate
  control : Coordinate
  again : Coordinate
  deriving Repr

/-- The points of a curve in order. -/
def Curve.toList (curve : Curve) : List Coordinate :=
  [curve.start, curve.control, curve.again]

/-- A straight piece between two coordinates. -/
structure Segment where
  first : Coordinate
  second : Coordinate
  deriving Repr

/-- The ends of a segment in order. -/
def Segment.toList (segment : Segment) : List Coordinate :=
  [segment.first, segment.second]

/-- Four corners. -/
structure Block where
  first : Coordinate
  second : Coordinate
  third : Coordinate
  fourth : Coordinate
  deriving Repr

/-- The corners of a block in order. -/
def Block.toList (block : Block) : List Coordinate :=
  [block.first, block.second, block.third, block.fourth]

namespace Coordinate

/-- A coordinate that no variable holds. -/
def anonymous (x y : Float) : Coordinate :=
  ⟨"coord", x, y⟩

/-- The same place under another name. -/
def renamed (place : Coordinate) (name : String) : Coordinate :=
  { place with name }

/-- The distance between two places in the plane of degrees. -/
def distance (a b : Coordinate) : Float :=
  hypotenuse (b.x - a.x) (b.y - a.y)

/--
The bend from one place to another: its control point leaves the midpoint in the direction of the angle, by a
tenth of the distance. Specification, section 4.4.
-/
def bend (start finish : Coordinate) (degrees : Float) : Curve :=
  let angle := radians degrees
  let offset := start.distance finish * 0.1
  let control := anonymous ((start.x + finish.x) / 2.0 + offset * angle.cos)
    ((start.y + finish.y) / 2.0 + offset * angle.sin)
  ⟨start, control, control⟩

/--
`count` points around a centre; they go round twice, so that the first half closes the circle. Specification,
section 4.4.
-/
def around (center : Coordinate) (radius : Float) (count : Nat) : List Coordinate :=
  let step := 4.0 * pi / count.toFloat
  (List.range count).map fun i ↦
    let angle := i.toFloat * step
    anonymous (center.x + radius * angle.cos) (center.y + radius * angle.sin)

end Coordinate

end Cityscape
