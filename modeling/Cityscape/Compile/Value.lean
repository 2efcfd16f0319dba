import Cityscape.Compile.Session
import Cityscape.Decimal.Numeral

/-!
# Values

Strings, numbers and coordinates of a script are evaluated as they are read. In a branch that is not
taken they are read all the same: there a variable without a value is no fault, and the value of what
contains it is missing.
-/

namespace Cityscape.Compile

/-- The operators of expressions. -/
inductive Operator where
  | plus
  | minus
  deriving DecidableEq, Repr

/-- The operator that a token is. -/
def Operator.ofKind? : Kind → Option Operator
  | .mark .plus => some plus
  | .mark .minus => some minus
  | _ => none

/-- The value of two operands. -/
def Operator.apply : Operator → Float → Float → Float
  | plus, a, b => a + b
  | minus, a, b => a - b

/-- The comparisons of conditionals. -/
inductive Comparison where
  | equal
  | notEqual
  | less
  | greater
  deriving DecidableEq, Repr

/-- The comparison that a token is. -/
def Comparison.ofKind? : Kind → Option Comparison
  | .mark .equal => some equal
  | .mark .notEqual => some notEqual
  | .mark .less => some less
  | .mark .greater => some greater
  | _ => none

/-- Whether a comparison of two numbers holds. -/
def Comparison.holds : Comparison → Float → Float → Bool
  | equal, a, b => a == b
  | notEqual, a, b => a != b
  | less, a, b => a < b
  | greater, a, b => b < a

/--
The value of a variable; without one the script is refused, unless the branch is not taken. Specification,
section 10.2.
-/
def resolve {α : Type} (active : Bool) (sort : VariableSort) (name : Token) (value : Option α) :
    Compile (Option α) :=
  match value with
  | some value => pure (some value)
  | none => if active then refuse (.undefined sort name.lexeme) name else pure none

/-- A string literal or a string variable. -/
def string (active : Bool) : Compile (Option String) := do
  match ← peek with
  | .string => return some (← advance).unquoted
  | .identifier =>
    let name ← advance
    resolve active .string name ((← scopes).string? name.lexeme)
  | _ => unexpected .string

/-- A number literal or a numeric variable. Specification, section 10.7. -/
def operand (active : Bool) : Compile (Option Float) := do
  match ← peek with
  | .integer | .double =>
    let literal ← advance
    match Decimal.read? literal.lexeme with
    | some value => pure (some value)
    | none => refuse (.invalidNumber literal.lexeme) literal
  | .identifier =>
    let name ← advance
    resolve active .number name ((← scopes).number? name.lexeme)
  | _ => unexpected .operand

/-- Operands and the operators between them, the last ones first. -/
structure Series (α : Type) where
  operands : List (Option α)
  operators : List Operator

namespace Series

variable {α : Type}

/-- One operand. -/
def single (operand : Option α) : Series α :=
  ⟨[operand], []⟩

/-- One more operator and the operand behind it. -/
def push (series : Series α) (operator : Operator) (operand : Option α) : Series α :=
  ⟨operand :: series.operands, operator :: series.operators⟩

/--
The value of a series. Expressions group to the right, so it is computed from the end: each operand is the left
one of what has been computed so far. If an operand is missing, so is the value. Specification, section 4.3.
-/
def value (apply : Operator → α → α → α) (series : Series α) : Option α :=
  match series.operands with
  | [] => none
  | last :: before =>
    (before.zip series.operators).foldl (fun right (left, operator) ↦ do apply operator (← left) (← right)) last

end Series

/--
An operator and the operand behind it, if an operator comes next. An expression that is long enough already is
refused at its first token. Specification, section 10.7.
-/
def furtherOperand (active : Bool) (first : Token) (series : Series Float) :
    Compile (Option (Series Float)) := do
  match Operator.ofKind? (← peek) with
  | none => pure none
  | some operator =>
    if longestExpression ≤ series.operands.length then refuse .longExpression first
    let _ ← advance
    return some (series.push operator (← operand active))

/-- A whole expression, with this arithmetic. Specification, section 4.3. -/
def expression (apply : Operator → Float → Float → Float) (active : Bool) : Compile (Option Float) := do
  let first ← current
  let series ← many (furtherOperand active first) (.single (← operand active))
  return series.value apply

/-- A number: an expression with the arithmetic of doubles. -/
def number (active : Bool) : Compile (Option Float) :=
  expression Operator.apply active

/-- The value of a coordinate variable. -/
def resolveCoordinate (active : Bool) (name : Token) : Compile (Option Coordinate) := do
  resolve active .coordinate name ((← scopes).coordinate? name.lexeme)

/-- A projection of a coordinate variable, or an expression. Specification, section 10.7. -/
def component (active : Bool) : Compile (Option Float) := do
  match ← peek with
  | .keyword .first => return (← projected).map Coordinate.x
  | .keyword .second => return (← projected).map Coordinate.y
  | _ => number active
where
  /-- The coordinate variable in parentheses behind a projection. -/
  projected : Compile (Option Coordinate) := do
    let _ ← advance
    expectMark .openParen
    let name ← expect .identifier
    expectMark .closeParen
    resolveCoordinate active name

/-- Two components in parentheses, or a coordinate variable. Specification, section 10.7. -/
def coordinate (active : Bool) : Compile (Option Coordinate) := do
  match ← peek with
  | .mark .openParen =>
    let _ ← advance
    let x ← component active
    expectMark .comma
    let y ← component active
    expectMark .closeParen
    return do Coordinate.anonymous (← x) (← y)
  | .identifier => resolveCoordinate active (← advance)
  | _ => unexpected .coordinate

/-- A comparison. -/
def comparison : Compile Comparison := do
  match Comparison.ofKind? (← peek) with
  | some comparison =>
    let _ ← advance
    return comparison
  | none => unexpected .comparison

/-- A value that has to be there. -/
def required {α : Type} (wanted : Wanted) (value : Option α) : Compile α := do
  match value with
  | some value => pure value
  | none => refuse (.unevaluated wanted) (← current)

end Cityscape.Compile
