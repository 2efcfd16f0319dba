import Cityscape.Decimal.Numeral
import Cityscape.Hexadecimal
import Cityscape.Yaml.Node

/-!
# Typed values

Strings and numbers from scalars. Any scalar is a string; a number is a plain scalar or a literal block with the tag
of the number, and whole numbers may be written in other bases.
-/

namespace Cityscape.Yaml

/-- The value of a digit. -/
def digit? (base : Nat) (c : Char) : Option Nat := do
  let value ← hexDigit? c
  if value < base then some value else none

/-- The value of at least one digit. -/
def digits? (base : Nat) (text : List Char) : Option Nat := do
  if text.isEmpty then none
  let values ← text.mapM (digit? base)
  return values.foldl (fun value digit ↦ base * value + digit) 0

/-- Whether a text is a run of digits that begins with a needless zero, which makes it no number. -/
def isZeroLed (text : List Char) : Bool :=
  match (Decimal.splitSign text).2 with
  | '0' :: rest => !rest.isEmpty && rest.all Char.isDigit
  | _ => false

/-- A number behind the mark of its base, or in base ten. -/
def based? (text : List Char) : Option Nat :=
  match text with
  | '0' :: 'x' :: rest => digits? 16 rest
  | '0' :: 'o' :: rest => digits? 8 rest
  | '0' :: 'b' :: rest => digits? 2 rest
  | text => digits? 10 text

/-- The whole number that a text is. -/
def integer? (text : List Char) : Option Int :=
  if isZeroLed text then none
  else match text with
    | '-' :: rest => (based? rest).map fun n ↦ -(n : Int)
    | '+' :: rest => (based? rest).map Int.ofNat
    | text => (based? text).map Int.ofNat

/-- The whole number that a text is, if it is written without a minus. -/
def natural? (text : List Char) : Option Nat :=
  if isZeroLed text then none
  else match text with
    | '+' :: rest => based? rest
    | text => based? text

/-- The double that a text is; it is finite unless it is spelt out. -/
def double? (text : String) : Option Float :=
  if [".inf", ".Inf", ".INF", "+.inf", "+.Inf", "+.INF"].contains text then some (1.0 / 0.0)
  else if ["-.inf", "-.Inf", "-.INF"].contains text then some (-1.0 / 0.0)
  else if [".nan", ".NaN", ".NAN"].contains text then some (0.0 / 0.0)
  else (Decimal.read? text).filter Float.isFinite

/-- The tag of a whole number. -/
def integerTag : String := "tag:yaml.org,2002:int"

/-- The tag of a double. -/
def doubleTag : String := "tag:yaml.org,2002:float"

namespace Document

/-- What a node stands for. -/
def resolve (document : Document) : Node → Option Node
  | .alias number => document.anchors.get? number
  | node => some node

/-- The text of a scalar. -/
def string? (document : Document) (node : Node) : Option String := do
  match ← document.resolve node with
  | .scalar text _ _ => some text
  | _ => none

/-- The text of a scalar that may be a number: a plain one, or a literal block with the tag of the number. -/
def numeral? (document : Document) (tag : String) (node : Node) : Option String := do
  match ← document.resolve node with
  | .scalar text .plain _ => some text
  | .scalar text .literal found => if found = some tag then some text else none
  | _ => none

/-- A whole number below a bound. -/
def natural? (document : Document) (bound : Nat) (node : Node) : Option Nat := do
  let value ← Yaml.natural? (← document.numeral? integerTag node).toList
  if value < bound then some value else none

/-- A whole number in the range of sixty-four bits. -/
def int64? (document : Document) (node : Node) : Option Int64 := do
  let value ← Yaml.integer? (← document.numeral? integerTag node).toList
  if Int64.minValue.toInt ≤ value ∧ value ≤ Int64.maxValue.toInt then some (Int64.ofInt value) else none

/-- A double. -/
def double? (document : Document) (node : Node) : Option Float := do
  Yaml.double? (← document.numeral? doubleTag node)

/-- The entries of a mapping whose keys are scalars; what is not written is a mapping without entries. -/
def entries? (document : Document) (node : Node) : Option (List (String × Node)) := do
  match ← document.resolve node with
  | .mapping entries => entries.mapM fun (key, value) ↦ do return (← document.string? key, value)
  | .scalar "" .plain _ => some []
  | _ => none

end Document

/-- The value of a key that may be missing but not occur twice. -/
def field {α : Type} (entries : List (String × Node)) (key : String) (default : α)
    (read? : Node → Option α) : Option α :=
  match entries.filter (·.1 = key) with
  | [] => some default
  | [(_, node)] => read? node
  | _ => none

end Cityscape.Yaml
