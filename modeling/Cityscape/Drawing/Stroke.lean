import Cityscape.Drawing.Projection
import Cityscape.Element

/-!
# Drawing elements

The strokes that draw an element on a map.
-/

namespace Cityscape

/-- One call of a drawing. Specification, section 6. -/
inductive Stroke where
  | line (start finish : Pixel)
  | circle (center : Pixel) (radius : Float)
  | polygon (points : List Pixel)
  deriving Repr

/-- The radius of the marks on corners and statues, in pixels. -/
def markerRadius : Float := 10.0

/-- Where a coordinate is drawn. -/
def Coordinate.pixel (project : Projection) (place : Coordinate) : Pixel :=
  project place.x place.y

/--
The strokes of an element: a street is the line of its segment, an institution four marks, a square its corners,
a statue one mark and a lake its shore. Specification, section 10.8.
-/
def Element.strokes (project : Projection) : Element → List Stroke
  | street _ _ line => [.line (line.first.pixel project) (line.second.pixel project)]
  | institution _ _ _ block =>
    block.toList.map fun corner ↦ .circle (corner.pixel project) markerRadius
  | square _ block => [.polygon (block.toList.map (·.pixel project))]
  | statue _ point => [.circle (point.pixel project) markerRadius]
  | lake _ _ _ samples => [.polygon ((shore samples).map (·.pixel project))]

end Cityscape
