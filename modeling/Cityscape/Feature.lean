/-!
# Features

The document that describes a city: one feature for each element, with the properties of the element and
a geometry. Positions in a document are written latitude first.
-/

namespace Cityscape

/-- A position of a document. -/
structure LatLon where
  latitude : Float
  longitude : Float
  deriving Repr

/-- What a feature says about its element. -/
inductive Properties where
  | street (name : String)
  | institution (name address : String) (events : Float)
  | square (name : String)
  | statue (name : String)
  | lake (name : String)
  deriving Repr

/-- The shape of a feature. -/
inductive Geometry where
  | point (position : LatLon)
  | lineString (positions : List LatLon)
  | polygon (rings : List (List LatLon))
  deriving Repr

/-- One element of a document. -/
structure Feature where
  properties : Properties
  geometry : Geometry
  deriving Repr

/-- A whole document. -/
structure Document where
  features : List Feature
  deriving Repr

/-- The kinds of elements. -/
inductive ElementKind where
  | street
  | institution
  | square
  | statue
  | lake
  deriving DecidableEq, Repr

/-- The kind as a document names it. -/
def ElementKind.name : ElementKind → String
  | street => "Street"
  | institution => "Institution"
  | square => "Square"
  | statue => "Statue"
  | lake => "Lake"

/-- The kind with this name. -/
def ElementKind.ofName? : String → Option ElementKind
  | "Street" => some street
  | "Institution" => some institution
  | "Square" => some square
  | "Statue" => some statue
  | "Lake" => some lake
  | _ => none

namespace Properties

/-- The kind of element described. -/
def kind : Properties → ElementKind
  | street _ => .street
  | institution .. => .institution
  | square _ => .square
  | statue _ => .statue
  | lake _ => .lake

/-- The name of the element described. -/
def name : Properties → String
  | street name | institution name .. | square name | statue name | lake name => name

end Properties

/-- The type of a geometry as a document names it. -/
def Geometry.typeName : Geometry → String
  | point _ => "Point"
  | lineString _ => "LineString"
  | polygon _ => "Polygon"

end Cityscape
