import Cityscape.Feature
import Cityscape.Json.Reader

/-!
# Reading documents

Two readers share the frame of a document and its properties and differ in how they look at geometries: a strict
one, which gives back what was written, and a loose one, which takes any type and any coordinates. The types of
the collection and of its features are not looked at, and fields that nobody asks for are passed over.
-/

namespace Cityscape

open Json (Numerals Reader)
open Json.Reader

variable [Numerals] {γ : Type}

/-- The properties of an element of a kind, from their fields. -/
def Properties.ofFields? (kind : ElementKind) (fields : Fields) : Option Properties :=
  match kind with
  | .institution => do
    match ← fields.select ["name", "address", "events"] with
    | [.string name, .string address, events] => return .institution name address (← events.number?)
    | _ => none
  | .street => named .street
  | .square => named .square
  | .statue => named .statue
  | .lake => named .lake
where
  /-- Properties that are a name only. -/
  named (make : String → Properties) : Option Properties := do
    match ← fields.select ["name"] with
    | [.string name] => return make name
    | _ => none

/-- The properties of a feature. -/
def readProperties (depth : Nat) : Reader Properties := do
  let (kind, fields) ← tagged depth "element" ElementKind.ofName?
  require (Properties.ofFields? kind fields)

/-- The fields of a feature met so far. -/
structure FeatureFields (γ : Type) where
  properties : Option Properties := none
  geometry : Option γ := none

/-- A feature whose geometry is read by `geometry`. -/
def readFeature (geometry : Nat → Reader γ) (depth : Nat) : Reader (Properties × γ) :=
  record depth onObject onArray
where
  /-- The members of an object. -/
  onObject (depth : Nat) : Reader (Properties × γ) := do
    let fields : FeatureFields γ ← members (fun fields name ↦ do
      match name with
      | "properties" =>
        return { fields with properties := ← once fields.properties (readProperties depth) }
      | "geometry" => return { fields with geometry := ← once fields.geometry (geometry depth) }
      | _ => memberValue skip; return fields) {}
    return (← require fields.properties, ← require fields.geometry)
  /-- The items of an array. -/
  onArray (depth : Nat) : Reader (Properties × γ) := do
    let properties ← field true (readProperties depth)
    let geometry ← field false (geometry depth)
    return (properties, geometry)

/-- The features of a collection. -/
def readCollection (geometry : Nat → Reader γ) (depth : Nat) : Reader (List (Properties × γ)) :=
  record depth onObject onArray
where
  /-- The features behind their name. -/
  features (depth : Nat) : Reader (List (Properties × γ)) :=
    array depth (readFeature geometry)
  /-- The members of an object. -/
  onObject (depth : Nat) : Reader (List (Properties × γ)) := do
    let met : Option (List (Properties × γ)) ← members (fun met name ↦ do
      match name with
      | "features" => once met (features depth)
      | _ => memberValue skip; return met) none
    require met
  /-- The items of an array. -/
  onArray (depth : Nat) : Reader (List (Properties × γ)) :=
    field true (features depth)

/-- The types of geometries. -/
inductive GeometryType where
  | point
  | lineString
  | polygon
  deriving DecidableEq, Repr

/-- The type with this name. -/
def GeometryType.ofName? : String → Option GeometryType
  | "Point" => some point
  | "LineString" => some lineString
  | "Polygon" => some polygon
  | _ => none

/-- A pair of numbers. -/
def LatLon.ofJson? : Json → Option LatLon
  | .array [latitude, longitude] => return ⟨← latitude.number?, ← longitude.number?⟩
  | _ => none

/-- A list of values that `item?` accepts. -/
def listOfJson? {α : Type} (item? : Json → Option α) (value : Json) : Option (List α) := do
  (← value.items?).mapM item?

/-- The geometry of a type, from its fields. -/
def Geometry.ofFields? (type : GeometryType) (fields : Fields) : Option Geometry := do
  match ← fields.select ["coordinates"] with
  | [value] =>
    match type with
    | .point => return .point (← LatLon.ofJson? value)
    | .lineString => return .lineString (← listOfJson? LatLon.ofJson? value)
    | .polygon => return .polygon (← listOfJson? (listOfJson? LatLon.ofJson?) value)
  | _ => none

/-- A geometry of a document. -/
def readGeometry (depth : Nat) : Reader Geometry := do
  let (type, fields) ← tagged depth "type" GeometryType.ofName?
  require (Geometry.ofFields? type fields)

/-- The document that a text is. -/
def Document.read (text : String) : Except Json.Fault Document := do
  let features ← readAll (readCollection readGeometry deepest) text
  return ⟨features.map fun (properties, geometry) ↦ ⟨properties, geometry⟩⟩

/-- A geometry as it stands in a text. -/
structure Outline where
  type : String
  coordinates : Json

/-- The fields of an outline met so far. -/
structure OutlineFields where
  type : Option String := none
  coordinates : Option Json := none

/-- A geometry of any type with any coordinates. -/
def readOutline (depth : Nat) : Reader Outline :=
  record depth onObject onArray
where
  /-- The members of an object. -/
  onObject (depth : Nat) : Reader Outline := do
    let fields : OutlineFields ← members (fun fields name ↦ do
      match name with
      | "type" => return { fields with type := ← once fields.type string }
      | "coordinates" =>
        return { fields with coordinates := ← once fields.coordinates (value depth) }
      | _ => memberValue skip; return fields) {}
    return ⟨← require fields.type, ← require fields.coordinates⟩
  /-- The items of an array. -/
  onArray (depth : Nat) : Reader Outline := do
    let type ← field true string
    let coordinates ← field false (value depth)
    return ⟨type, coordinates⟩

/-- The features of a text with their geometries as they stand there. -/
def readOutlines (text : String) : Except Json.Fault (List (Properties × Outline)) :=
  readAll (readCollection readOutline deepest) text

end Cityscape
