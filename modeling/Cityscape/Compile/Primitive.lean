import Cityscape.Compile.Operation

/-!
# Elements

An element is a keyword, a name and a body: operations of its own, then what its kind asks for. Its
variables are forgotten when it begins and when it ends. What each kind asks for is the grammar of the specification,
section 10.7.
-/

namespace Cityscape.Compile

/-- A coordinate of an element, under the name of its part there. -/
def place (name : String) : Compile Coordinate := do
  return (← required .coordinate (← coordinate true)).renamed name

/-- A number of an element. -/
def quantity : Compile Float := do
  required .number (← number true)

/-- A bend: two places and an angle. -/
def bend : Compile Curve := do
  let _ ← expectWord .bend
  expectMark .openParen
  let start ← place "bendFirst"
  expectMark .comma
  let finish ← place "bendSecond"
  expectMark .comma
  let degrees ← quantity
  expectMark .closeParen
  return start.bend finish degrees

/-- A line between two places. -/
def segment : Compile Segment := do
  let _ ← expectWord .line
  expectMark .openParen
  let first ← place "first"
  expectMark .comma
  let second ← place "second"
  expectMark .closeParen
  return ⟨first, second⟩

/-- A block of four corners. -/
def block : Compile Block := do
  let _ ← expectWord .block
  expectMark .openParen
  let first ← place "first"
  expectMark .comma
  let second ← place "second"
  expectMark .comma
  let third ← place "third"
  expectMark .comma
  let fourth ← place "fourth"
  expectMark .closeParen
  return ⟨first, second, third, fourth⟩

/-- A circle: a centre and a radius. -/
def circle : Compile (Coordinate × Float) := do
  let _ ← expectWord .circle
  expectMark .openParen
  let center ← place "center"
  expectMark .comma
  let radius ← quantity
  expectMark .closeParen
  return (center, radius)

/-- The address of an institution. -/
def address : Compile String := do
  let _ ← expectWord .address
  expectMark .assign
  required .address (← string true)

/-- The number of events at an institution. -/
def events : Compile Float := do
  let _ ← expectWord .events
  expectMark .assign
  quantity

/-- What follows the operations in a street called `name`. -/
def street (name : String) : Compile Element := do
  let bend ← bend
  let line ← segment
  return .street name bend line

/-- What follows the operations in an institution called `name`. -/
def institution (name : String) : Compile Element := do
  let address ← address
  let events ← events
  let block ← block
  return .institution name address events block

/-- What follows the operations in a square called `name`. -/
def square (name : String) : Compile Element := do
  return .square name (← block)

/-- What follows the operations in a statue called `name`. -/
def statue (name : String) : Compile Element := do
  let _ ← expectWord .point
  return .statue name (← place "point")

/-- What follows the operations in a lake called `name`. -/
def lake (name : String) : Compile Element := do
  let (center, radius) ← circle
  return .lakeAround name center radius

/--
Draws a completed element, emits its feature, and notes that at the line of its keyword. Specification, section
4.3.
-/
def complete (element : Element) (line : Nat) : Compile Unit := do
  modify (·.complete element)
  note line (element.kind.name ++ " \"" ++ element.name ++ "\" emitted as feature "
    ++ toString (← get).features.length)

/-- A whole element: its keyword, its name, and its body with what `content` reads. Specification, section 4.3. -/
def element (word : Keyword) (content : String → Compile Element) : Compile Unit := do
  let keyword ← expectWord word
  let name ← expectString
  expectMark .openBrace
  modifyScopes Scopes.clearElement
  operations .element deepestNesting true
  let element ← content name
  expectMark .closeBrace
  complete element keyword.position.line
  modifyScopes Scopes.clearElement

end Cityscape.Compile
