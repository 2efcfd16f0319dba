import Cityscape.Feature.Reader
import Cityscape.Script.Numeral

/-!
# Scripts from documents

A document is turned back into a script, one stanza for each feature. A document holds neither the angle of a bend
nor the radius of a lake, so these are written from options, and of a street only three positions are used. A
feature whose coordinates do not fit its stanza is refused, and the first such feature decides.
-/

namespace Cityscape.Script

/-- What is written where a document says nothing. Specification, section 10.4. -/
structure Options where
  cityName : String := "Maribor City 123"
  bendAngle : Float := 1.0
  lakeRadius : Float := 0.0005
  deriving Repr

/-- Why a feature has no stanza. -/
inductive Reason where
  | noNumeral (value : Float)
  | noPositions (found : Json)
  | noPosition (found : Json)
  | nonNumeric (found : Json)
  | shortLine (length : Nat)
  | noRing
  | shortRing (length : Nat)
  | noCenter

/-- The wording of a reason. -/
def Reason.message : Reason → String
  | noNumeral value => numeral.write value ++ " cannot be written as a number"
  | noPositions found => "expected a list of positions, found " ++ found.compact
  | noPosition found => "expected a position, found " ++ found.compact
  | nonNumeric found => "position has non-numeric members: " ++ found.compact
  | shortLine length => "LineString needs at least 3 positions, has " ++ toString length
  | noRing => "Polygon has no rings"
  | shortRing length => "Polygon ring needs at least 4 positions, has " ++ toString length
  | noCenter => "no position to centre a circle on"

/-- Why a text has no script. -/
inductive Fault where
  | json (fault : Json.Fault)
  /-- The feature at this index, counted from zero, has no stanza. -/
  | shape (feature : Nat) (reason : Reason)

/--
A number in a script; there is no sign, so a negative number is subtracted from zero. Specification, section
10.10.
-/
def number (value : Float) : Except Reason String :=
  let magnitude := Decimal.magnitude value
  let text := String.ofList (numeral.magnitude magnitude)
  if Decimal.infinite ≤ magnitude then .error (.noNumeral value)
  else if Decimal.isNegative value && magnitude ≠ 0 then .ok ("0 - " ++ text)
  else .ok text

/-- A position, longitude first. Specification, section 10.10. -/
def coordinate (position : LatLon) : Except Reason String := do
  let longitude ← number position.longitude
  let latitude ← number position.latitude
  return "(" ++ longitude ++ ", " ++ latitude ++ ")"

/-- The position that an array begins with. -/
def position (value : Json) : Except Reason LatLon :=
  match value with
  | .array (latitude :: longitude :: _) =>
    match latitude.number?, longitude.number? with
    | some latitude, some longitude => .ok ⟨latitude, longitude⟩
    | _, _ => .error (.nonNumeric value)
  | _ => .error (.noPosition value)

/-- The positions of an array. -/
def positions (value : Json) : Except Reason (List LatLon) :=
  match value with
  | .array items => items.mapM position
  | _ => .error (.noPositions value)

/-- The first item of an array. -/
def firstItem? (value : Json) : Option Json := do
  (← value.items?).head?

/-- An optional value, or a reason. -/
def orRefuse {α : Type} (reason : Reason) : Option α → Except Reason α
  | some value => .ok value
  | none => .error reason

/-- The bend and the line of a street, through the first three positions. Specification, section 4.6. -/
def streetLines (options : Options) (coordinates : Json) : Except Reason (List String) := do
  match ← positions coordinates with
  | first :: second :: third :: _ =>
    let angle ← number options.bendAngle
    let first ← coordinate first
    let second ← coordinate second
    let third ← coordinate third
    return ["bend(" ++ first ++ ", " ++ second ++ ", " ++ angle ++ ")",
      "line(" ++ second ++ ", " ++ third ++ ")"]
  | short => throw (.shortLine short.length)

/-- The block of the first four corners of the first ring. Specification, section 10.10. -/
def blockLines (coordinates : Json) : Except Reason (List String) := do
  let ring ← orRefuse .noRing (firstItem? coordinates)
  let corners ← positions ring
  if corners.length < 4 then throw (.shortRing corners.length)
  let corners ← (corners.take 4).mapM coordinate
  return ["block(" ++ ", ".intercalate corners ++ ")"]

/-- The point of a statue. Specification, section 4.6. -/
def pointLines (coordinates : Json) : Except Reason (List String) := do
  return ["point " ++ (← coordinate (← position coordinates))]

/-- A circle around the first position of the first ring. Specification, section 10.10. -/
def circleLines (options : Options) (coordinates : Json) : Except Reason (List String) := do
  let center ← position (← orRefuse .noCenter (firstItem? coordinates >>= firstItem?))
  let radius ← number options.lakeRadius
  return ["circle(" ++ (← coordinate center) ++ ", " ++ radius ++ ")"]

/--
The geometry of a feature: its type decides, but a lake and an unknown type are always a circle. Specification,
section 10.10.
-/
def shapeLines (options : Options) (kind : ElementKind) (outline : Outline) :
    Except Reason (List String) :=
  if kind = .lake then circleLines options outline.coordinates
  else match outline.type with
    | "LineString" => streetLines options outline.coordinates
    | "Polygon" => blockLines outline.coordinates
    | "Point" => pointLines outline.coordinates
    | _ => circleLines options outline.coordinates

/-- What an institution says about itself. Specification, section 10.10. -/
def detailLines : Properties → Except Reason (List String)
  | .institution _ address events => do
    let events ← number events
    return ["address = \"" ++ address ++ "\"", "events = " ++ events]
  | _ => .ok []

/-- The keyword of a kind of element. -/
def keyword : ElementKind → String
  | .street => "street"
  | .institution => "institution"
  | .square => "square"
  | .statue => "statue"
  | .lake => "lake"

/-- The stanza of a feature. Specification, section 10.10. -/
def stanza (options : Options) (properties : Properties) (outline : Outline) :
    Except Reason String := do
  let details ← detailLines properties
  let shape ← shapeLines options properties.kind outline
  return "    " ++ keyword properties.kind ++ " \"" ++ properties.name ++ "\" \x7b\n"
    ++ String.join ((details ++ shape).map fun line ↦ "        " ++ line ++ "\n") ++ "    \x7d\n\n"

/-- The stanzas of features, the first of which has the given index. -/
def stanzas (options : Options) : Nat → List (Properties × Outline) → Except Fault (List String)
  | _, [] => .ok []
  | index, (properties, outline) :: rest =>
    match stanza options properties outline with
    | .error reason => .error (.shape index reason)
    | .ok text => return text :: (← stanzas options (index + 1) rest)

/-- A script with these stanzas. Specification, section 10.10. -/
def assemble (options : Options) (stanzas : List String) : String :=
  "city \"" ++ options.cityName ++ "\" \x7b\n\n" ++ String.join stanzas ++ "\x7d\n"

/-- The script of the features of a document. -/
def ofOutlines (options : Options) (features : List (Properties × Outline)) : Except Fault String := do
  return assemble options (← stanzas options 0 features)

/-- The script of the document that a text is. Specification, section 4.6. -/
def ofText [Json.Numerals] (options : Options) (text : String) : Except Fault String :=
  match readOutlines text with
  | .error fault => .error (.json fault)
  | .ok features => ofOutlines options features

/-- The wording of a shape fault. -/
def describeShape (feature : Nat) (reason : Reason) : String :=
  "feature " ++ toString feature ++ ": " ++ reason.message

end Cityscape.Script
