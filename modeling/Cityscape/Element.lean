import Cityscape.Coordinate
import Cityscape.Feature

/-!
# Elements

A completed element of a city with its coordinates, and the feature that stands for it in a document.
-/

namespace Cityscape

/-- A completed element. Specification, section 3. -/
inductive Element where
  | street (name : String) (bend : Curve) (line : Segment)
  | institution (name address : String) (events : Float) (block : Block)
  | square (name : String) (block : Block)
  | statue (name : String) (point : Coordinate)
  | lake (name : String) (center : Coordinate) (radius : Float) (samples : List Coordinate)
  deriving Repr

/-- A place as a document writes it. Specification, section 4.5. -/
def Coordinate.latLon (place : Coordinate) : LatLon :=
  ⟨place.y, place.x⟩

/-- Points taken around a lake. -/
def lakeSamples : Nat := 20

/-- Points of a lake's shore before it closes. -/
def shorePoints : Nat := 10

/-- The points of a list and the first of them again. -/
def closeRing (points : List Coordinate) : List Coordinate :=
  points ++ points.head?.toList

/-- The closed shore of a lake: the leading samples and the first one again. -/
def shore (samples : List Coordinate) : List Coordinate :=
  closeRing (samples.take shorePoints)

namespace Element

/-- A lake around a centre, with the usual number of samples. Specification, section 10.9. -/
def lakeAround (name : String) (center : Coordinate) (radius : Float) : Element :=
  .lake name center radius (center.around radius lakeSamples)

/-- What a feature says about the element. Specification, section 4.5. -/
def properties : Element → Properties
  | street name .. => .street name
  | institution name address events _ => .institution name address events
  | square name _ => .square name
  | statue name _ => .statue name
  | lake name .. => .lake name

/-- The shape of the element's feature. Specification, section 4.5. -/
def geometry : Element → Geometry
  | street _ bend line => .lineString ((bend.toList ++ line.toList).map Coordinate.latLon)
  | institution _ _ _ block | square _ block => .polygon [(closeRing block.toList).map Coordinate.latLon]
  | statue _ point => .point point.latLon
  | lake _ _ _ samples => .polygon [(shore samples).map Coordinate.latLon]

/-- The feature that stands for the element. Specification, section 4.5. -/
def feature (element : Element) : Feature :=
  ⟨element.properties, element.geometry⟩

/-- The kind of the element. -/
def kind (element : Element) : ElementKind :=
  element.properties.kind

/-- The name of the element. -/
def name (element : Element) : String :=
  element.properties.name

end Element

end Cityscape
