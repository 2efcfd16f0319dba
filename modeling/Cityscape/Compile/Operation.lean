import Cityscape.Compile.Value
import Cityscape.Script.Numeral

/-!
# Operations

Declarations and conditionals. A conditional runs one of its branches; the other one is read without
effect, and so is everything inside it. Their grammar is in the specification, section 10.7.
-/

namespace Cityscape.Compile

/-- A declaration up to its value: the keyword, the variable and the sign between. -/
def declarationHead (word : Keyword) : Compile Token := do
  let _ ← expectWord word
  let name ← expect .identifier
  expectMark .assign
  return name

/-- Stores a value and notes it, if the branch is taken and the value is there. Specification, section 4.2. -/
def store {α : Type} (level : Level) (active : Bool) (name : Token) (value : Option α)
    (toValue : α → Value) (text : α → String) : Compile Unit :=
  match active, value with
  | true, some value => do
    note name.position.line (text value)
    modifyScopes (·.declare level name.lexeme (toValue value))
  | _, _ => pure ()

/-- A string variable. -/
def declareString (level : Level) (active : Bool) : Compile Unit := do
  let name ← declarationHead .declareString
  let value ← string active
  store level active name value .string fun value ↦ "string " ++ name.lexeme ++ " = \"" ++ value ++ "\""

/--
An integer variable; its expression does not begin with a decimal number and loses its fraction. Specification,
section 10.7.
-/
def declareInt (level : Level) (active : Bool) : Compile Unit := do
  let name ← declarationHead .declareInt
  if (← peek) = .double then unexpected .integerExpression
  let value ← number active
  store level active name (value.map Float.toInt64) .int fun value ↦
    "int " ++ name.lexeme ++ " = " ++ toString value.toInt

/-- A double variable. -/
def declareDouble (level : Level) (active : Bool) : Compile Unit := do
  let name ← declarationHead .declareDouble
  let value ← number active
  store level active name value .double fun value ↦
    "double " ++ name.lexeme ++ " = " ++ Script.numeral.write value

/-- A coordinate variable; the coordinate takes its name. -/
def declareCoordinate (level : Level) (active : Bool) : Compile Unit := do
  let name ← declarationHead .declareCoordinate
  let value ← coordinate active
  store level active name value (fun value ↦ .coordinate (value.renamed name.lexeme)) fun value ↦
    "coordinate " ++ name.lexeme ++ " = (" ++ Script.numeral.write value.x ++ ", "
      ++ Script.numeral.write value.y ++ ")"

/-- The operations between two braces. -/
def branch (body : Compile Unit) : Compile Unit := do
  expectMark .openBrace
  body
  expectMark .closeBrace

/-- A conditional behind its keyword, whose branches are read by `body`. Specification, section 4.3. -/
def conditional (active : Bool) (body : Bool → Compile Unit) (keyword : Token) : Compile Unit := do
  expectMark .openParen
  let left ← number active
  let comparison ← comparison
  let right ← number active
  expectMark .closeParen
  let holds := match left, right with
    | some left, some right => comparison.holds left right
    | _, _ => false
  if active then
    note keyword.position.line
      (if holds then "if: taking then branch" else "if: taking else branch")
  branch (body (active && holds))
  if (← peek) = .keyword .otherwise then
    let _ ← advance
    branch (body (active && !holds))

/-- One operation, if one comes next; `onConditional` reads a conditional behind its keyword. -/
def operation (level : Level) (active : Bool) (onConditional : Token → Compile Unit) :
    Compile (Option Unit) := do
  match ← peek with
  | .keyword .declareString => some <$> declareString level active
  | .keyword .declareInt => some <$> declareInt level active
  | .keyword .declareDouble => some <$> declareDouble level active
  | .keyword .declareCoordinate => some <$> declareCoordinate level active
  | .keyword .onlyIf => some <$> (expectWord .onlyIf >>= onConditional)
  | _ => pure none

/-- All operations that come next, with conditionals nested up to `depth` deep. Specification, section 10.7. -/
def operations (level : Level) : Nat → Bool → Compile Unit
  | 0, active => many (fun _ ↦ operation level active (refuse .deepConditional)) ()
  | depth + 1, active =>
    many (fun _ ↦ operation level active (conditional active (operations level depth))) ()

end Cityscape.Compile
