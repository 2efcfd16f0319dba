import Cityscape.Compile
import Cityscape.Drawing.Stroke
import Cityscape.Proofs.Syntax

/-!
# The meaning of syntax trees

A big-step evaluator: it sees a whole tree, never a token sequence, and has no flag for branches that are
not taken. Of a conditional one branch is performed; the other is only checked, and checking looks at
nothing but the length of expressions and the nesting of conditionals. Values are functions of the
variables; only declarations, elements and the city itself change anything.
-/

namespace Cityscape

section

variable {ε σ α β : Type} {step : EStateM ε σ α} {next : α → EStateM ε σ β} {before after : σ}

/-- A step that succeeds and what follows it. -/
theorem run_bind_of_ok {a : α} (h : step.run before = .ok a after) :
    (step >>= next).run before = (next a).run after := by
  simp only [EStateM.run, Bind.bind, EStateM.bind] at h ⊢
  rw [h]

/-- Nothing follows a step that fails. -/
theorem run_bind_of_error {fault : ε} (h : step.run before = .error fault after) :
    (step >>= next).run before = .error fault after := by
  simp only [EStateM.run, Bind.bind, EStateM.bind] at h ⊢
  rw [h]

/-- Two steps lead to the same if what follows the first one does, where it is reached. -/
theorem run_bind_congr {next' : α → EStateM ε σ β}
    (h : ∀ a after, step.run before = .ok a after → (next a).run after = (next' a).run after) :
    (step >>= next).run before = (step >>= next').run before := by
  cases hs : step.run before with
  | ok a after => rw [run_bind_of_ok hs, run_bind_of_ok hs, h a after hs]
  | error fault after => rw [run_bind_of_error hs, run_bind_of_error hs]

/-- What two steps in sequence lead to, each of them leads to. -/
theorem exists_of_run_bind {b : β} (h : (step >>= next).run before = .ok b after) :
    ∃ a between, step.run before = .ok a between ∧ (next a).run between = .ok b after := by
  cases hs : step.run before with
  | ok a between =>
    rw [run_bind_of_ok hs] at h
    exact ⟨a, between, rfl, h⟩
  | error fault between =>
    simp only [EStateM.run, Bind.bind, EStateM.bind] at h hs
    rw [hs] at h
    cases h

end

/-- The city called `name` with these elements and the features of each of them. -/
def City.ofElements (name : String) (elements : List Element) (scopes : Scopes) : City where
  name
  elements
  features := elements.map Element.feature
  scopes

/-- What an evaluation has done so far; the records are all there, oldest first. -/
structure Work where
  scopes : Scopes := .empty
  elements : List Element := []
  records : List Record := []

/-- A step of an evaluation. -/
abbrev Evaluate := EStateM Fault Work

namespace Evaluate

/-- A value that depends on the variables only. -/
def value {α : Type} (of : Scopes → Except Fault α) : Evaluate α := fun work ↦
  match of work.scopes with
  | .ok a => .ok a work
  | .error fault => .error fault work

/-- A check that depends on nothing. -/
def ensure (check : Except Fault Unit) : Evaluate Unit :=
  value fun _ ↦ check

/-- Adds a record. -/
def note (line : Nat) (message : String) : Evaluate Unit :=
  modify fun work ↦ { work with records := work.records ++ [⟨line, message⟩] }

/-- Notes what a declaration says and stores its value. -/
def declare (level : Level) (name : Token) (message : String) (value : Value) : Evaluate Unit := do
  note name.position.line message
  modify fun work ↦ { work with scopes := work.scopes.declare level name.lexeme value }

/-- Forgets the variables of the element. -/
def clearElement : Evaluate Unit :=
  modify fun work ↦ { work with scopes := work.scopes.clearElement }

/-- Adds a completed element and notes its place among the features. -/
def complete (element : Element) (line : Nat) : Evaluate Unit := do
  modify fun work ↦ { work with elements := work.elements ++ [element] }
  note line (element.kind.name ++ " \"" ++ element.name ++ "\" emitted as feature "
    ++ toString (← get).elements.length)

end Evaluate

namespace Syntax

/-- The value of a variable, or the fault of its absence. -/
def lookup {α : Type} (sort : VariableSort) (name : Token) : Option α → Except Fault α
  | some value => .ok value
  | none => .error ⟨.undefined sort name.lexeme, name.position⟩

/-- The string that a tree stands for. -/
def Text.evaluate (scopes : Scopes) : Text → Except Fault String
  | literal text => .ok text.1.unquoted
  | named name => lookup .string name (scopes.string? name.1.lexeme)

/-- The double nearest to digits, or to digits with a point and more digits behind them. -/
def numeral (text : String) : Float :=
  let whole := text.toList.takeWhile Char.isDigit
  let fraction := (text.toList.dropWhile Char.isDigit).drop 1
  (Decimal.Scaled.ofParts whole fraction 0).toFloat false

/-- The number that an operand stands for. -/
def Operand.evaluate (scopes : Scopes) : Operand → Except Fault Float
  | integer literal => .ok (numeral literal.1.lexeme)
  | double literal => .ok (numeral literal.1.lexeme)
  | named name => lookup .number name (scopes.number? name.1.lexeme)

namespace Expression

/-- The number that an expression stands for, whatever its length: an operand and what follows it. -/
def value (scopes : Scopes) : Expression → Except Fault Float
  | last operand => operand.evaluate scopes
  | chain operand operator _ rest => do
    let left ← operand.evaluate scopes
    let right ← rest.value scopes
    return operator.apply left right

/-- The fault of an expression with too many operands. -/
def tooLong (expression : Expression) : Fault :=
  ⟨.longExpression, expression.first.token.position⟩

/-- Refuses an expression with too many operands. -/
def check (expression : Expression) : Except Fault Unit :=
  if longestExpression < expression.operands.length then .error expression.tooLong else .ok ()

/--
The number that an expression stands for. One with too many operands is refused, but only if all those
that may stand in an expression have a value.
-/
def evaluate (scopes : Scopes) (expression : Expression) : Except Fault Float :=
  if longestExpression < expression.operands.length then do
    (expression.operands.take longestExpression).forM fun operand ↦ do
      let _ ← operand.evaluate scopes
    throw expression.tooLong
  else expression.value scopes

end Expression

/-- The number that a component stands for. -/
def Component.evaluate (scopes : Scopes) : Component → Except Fault Float
  | first _ _ name _ => do
    return (← lookup .coordinate name (scopes.coordinate? name.1.lexeme)).x
  | second _ _ name _ => do
    return (← lookup .coordinate name (scopes.coordinate? name.1.lexeme)).y
  | expression value => value.evaluate scopes

/-- Refuses a component that is too long an expression. -/
def Component.check : Component → Except Fault Unit
  | first .. | second .. => .ok ()
  | expression value => value.check

/-- The place that a coordinate stands for. -/
def Coordinate.evaluate (scopes : Scopes) : Coordinate → Except Fault Cityscape.Coordinate
  | pair _ x _ y _ => do
    let x ← x.evaluate scopes
    let y ← y.evaluate scopes
    return .anonymous x y
  | named name => lookup .coordinate name (scopes.coordinate? name.1.lexeme)

/-- Refuses a coordinate with too long an expression. -/
def Coordinate.check : Coordinate → Except Fault Unit
  | pair _ x _ y _ => do
    x.check
    y.check
  | named _ => .ok ()

open Evaluate (value ensure note declare clearElement complete)

/-- Performs a declaration at a level. -/
def Declaration.perform (level : Level) : Declaration → Evaluate Unit
  | string ⟨_, name, _⟩ text => do
    let text ← value text.evaluate
    declare level name ("string " ++ name.1.lexeme ++ " = \"" ++ text ++ "\"") (.string text)
  | int ⟨_, name, _⟩ expression _ => do
    let whole := (← value expression.evaluate).toInt64
    declare level name ("int " ++ name.1.lexeme ++ " = " ++ toString whole.toInt) (.int whole)
  | double ⟨_, name, _⟩ expression => do
    let number ← value expression.evaluate
    declare level name ("double " ++ name.1.lexeme ++ " = " ++ Script.numeral.write number)
      (.double number)
  | coordinate ⟨_, name, _⟩ place => do
    let place ← value place.evaluate
    declare level name ("coordinate " ++ name.1.lexeme ++ " = (" ++ Script.numeral.write place.x
      ++ ", " ++ Script.numeral.write place.y ++ ")") (.coordinate (place.renamed name.1.lexeme))

/-- Refuses a declaration with too long an expression. -/
def Declaration.check : Declaration → Except Fault Unit
  | string .. => .ok ()
  | int _ expression _ | double _ expression => expression.check
  | coordinate _ place => place.check

namespace Condition

/-- Refuses a conditional inside as many others as may be open. -/
def enter (condition : Condition) (enclosing : Nat) : Except Fault Unit :=
  if deepestNesting ≤ enclosing then .error ⟨.deepConditional, condition.keyword.1.position⟩
  else .ok ()

/-- Whether a condition holds. -/
def evaluate (scopes : Scopes) (condition : Condition) : Except Fault Bool := do
  let left ← condition.left.evaluate scopes
  let right ← condition.right.evaluate scopes
  return condition.comparison.holds left right

/-- Decides a condition and notes which branch is taken. -/
def decide (condition : Condition) : Evaluate Bool := do
  let holds ← value condition.evaluate
  note condition.keyword.1.position.line
    (if holds then "if: taking then branch" else "if: taking else branch")
  return holds

/-- Refuses a condition with too long an expression. -/
def check (condition : Condition) : Except Fault Unit := do
  condition.left.check
  condition.right.check

end Condition

namespace Operations

/-- Checks operations that are not performed, inside as many conditionals as `enclosing` says. -/
def check (enclosing : Nat) : Operations → Except Fault Unit
  | done => .ok ()
  | declare declaration rest => do
    declaration.check
    rest.check enclosing
  | conditional condition _ yes _ rest => do
    condition.enter enclosing
    condition.check
    yes.check (enclosing + 1)
    rest.check enclosing
  | alternative condition _ yes _ _ _ no _ rest => do
    condition.enter enclosing
    condition.check
    yes.check (enclosing + 1)
    no.check (enclosing + 1)
    rest.check enclosing

/-- Performs operations at a level, inside as many conditionals as `enclosing` says. -/
def perform (level : Level) (enclosing : Nat) : Operations → Evaluate Unit
  | done => pure ()
  | declare declaration rest => do
    declaration.perform level
    rest.perform level enclosing
  | conditional condition _ yes _ rest => do
    ensure (condition.enter enclosing)
    let holds ← condition.decide
    if holds then yes.perform level (enclosing + 1) else ensure (yes.check (enclosing + 1))
    rest.perform level enclosing
  | alternative condition _ yes _ _ _ no _ rest => do
    ensure (condition.enter enclosing)
    let holds ← condition.decide
    if holds then yes.perform level (enclosing + 1) else ensure (yes.check (enclosing + 1))
    if holds then ensure (no.check (enclosing + 1)) else no.perform level (enclosing + 1)
    rest.perform level enclosing

end Operations

/-- A coordinate of an element, under the name of its part there. -/
def Coordinate.place (name : String) (scopes : Scopes) (coordinate : Coordinate) :
    Except Fault Cityscape.Coordinate := do
  return (← coordinate.evaluate scopes).renamed name

/-- The curve of a bend. -/
def Bend.evaluate (scopes : Scopes) (bend : Bend) : Except Fault Curve := do
  let start ← bend.start.place "bendFirst" scopes
  let finish ← bend.finish.place "bendSecond" scopes
  let degrees ← bend.angle.evaluate scopes
  return start.bend finish degrees

/-- The ends of a line. -/
def Line.evaluate (scopes : Scopes) (line : Line) : Except Fault Segment := do
  let first ← line.first.place "first" scopes
  let second ← line.second.place "second" scopes
  return ⟨first, second⟩

/-- The corners of a block. -/
def Block.evaluate (scopes : Scopes) (block : Block) : Except Fault Cityscape.Block := do
  let first ← block.first.place "first" scopes
  let second ← block.second.place "second" scopes
  let third ← block.third.place "third" scopes
  let fourth ← block.fourth.place "fourth" scopes
  return ⟨first, second, third, fourth⟩

/-- The centre and the radius of a circle. -/
def Circle.evaluate (scopes : Scopes) (circle : Circle) :
    Except Fault (Cityscape.Coordinate × Float) := do
  let center ← circle.center.place "center" scopes
  let radius ← circle.radius.evaluate scopes
  return (center, radius)

/-- The element called `name` with this content. -/
def Content.evaluate {group : Group} (name : String) (scopes : Scopes) :
    Content group → Except Fault Cityscape.Element
  | street bend line => do
    let bend ← bend.evaluate scopes
    let line ← line.evaluate scopes
    return .street name bend line
  | institution address events block => do
    let address ← address.value.evaluate scopes
    let events ← events.value.evaluate scopes
    let block ← block.evaluate scopes
    return .institution name address events block
  | square block => do
    return .square name (← block.evaluate scopes)
  | statue _ place => do
    return .statue name (← place.place "point" scopes)
  | lake circle => do
    let (center, radius) ← circle.evaluate scopes
    return .lakeAround name center radius

/-- Performs an element: its operations in an empty scope of its own, then its content. -/
def Element.perform {group : Group} (element : Element group) : Evaluate Unit := do
  clearElement
  element.operations.perform .element 0
  let completed ← value (element.content.evaluate element.name.1.unquoted)
  complete completed element.keyword.1.position.line
  clearElement

/-- Whether an element with this keyword is among the mandatory ones. -/
def City.has (city : City) (word : Keyword) : Bool :=
  city.required.any fun element ↦ element.content.keyword = word

/-- Refuses a city without streets or without institutions. -/
def City.check (city : City) : Except Fault Unit :=
  if city.has .street && city.has .institution then .ok ()
  else .error ⟨.incompleteCity, city.first.keyword.1.position⟩

/-- Performs a city; its own record stands at the line of what follows its opening brace. -/
def City.perform (city : City) : Evaluate Cityscape.City := do
  let name := city.name.1.unquoted
  note (city.body.headD city.closing).position.line ("city \"" ++ name ++ "\"")
  city.operations.perform .city 0
  city.required.forM Element.perform
  ensure city.check
  city.optional.forM Element.perform
  let work ← get
  return .ofElements name work.elements work.scopes

end Syntax

/-- What evaluating a tree leads to; elements and records are those up to a fault, if there is one. -/
structure Evaluation where
  result : Except Fault City
  elements : List Element
  records : List Record

/-- The strokes of the completed elements in order. -/
def Evaluation.strokes (evaluation : Evaluation) (project : Projection) : List Stroke :=
  evaluation.elements.flatMap (·.strokes project)

/-- Evaluates a tree from the beginning. -/
def Syntax.City.evaluation (city : Syntax.City) : Evaluation :=
  match city.perform.run {} with
  | .ok result work => ⟨.ok result, work.elements, work.records⟩
  | .error fault work => ⟨.error fault, work.elements, work.records⟩

end Cityscape
