import Cityscape.Feature
import Cityscape.Json

/-!
# The text of a document

A document is written as a GeoJSON feature collection. Every object names its type first, the properties of a
feature name its element, and positions are pairs of latitude and longitude.
-/

namespace Cityscape

/-- A position as a pair. -/
def LatLon.toJson (position : LatLon) : Json :=
  .array [.double position.latitude, .double position.longitude]

/-- Properties with their element first. -/
def Properties.toJson (properties : Properties) : Json :=
  .object ([("element", .string properties.kind.name), ("name", .string properties.name)] ++ details)
where
  /-- What only institutions have. -/
  details : List (String × Json) := match properties with
    | .institution _ address events => [("address", .string address), ("events", .double events)]
    | _ => []

/-- The coordinates of a geometry, nested as deep as its type asks. -/
def Geometry.coordinates : Geometry → Json
  | point position => position.toJson
  | lineString positions => .array (positions.map LatLon.toJson)
  | polygon rings => .array (rings.map fun ring ↦ .array (ring.map LatLon.toJson))

/-- A geometry with its type first. -/
def Geometry.toJson (geometry : Geometry) : Json :=
  .object [("type", .string geometry.typeName), ("coordinates", geometry.coordinates)]

/-- A feature: properties, then geometry. -/
def Feature.toJson (feature : Feature) : Json :=
  .object [("type", .string "Feature"), ("properties", feature.properties.toJson),
    ("geometry", feature.geometry.toJson)]

/-- A feature collection. -/
def Document.toJson (document : Document) : Json :=
  .object [("type", .string "FeatureCollection"),
    ("features", .array (document.features.map Feature.toJson))]

/-- The text of a document. Specification, section 10.9. -/
def Document.text (document : Document) : String :=
  document.toJson.pretty 0

end Cityscape
