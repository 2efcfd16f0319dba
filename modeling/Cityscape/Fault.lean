import Cityscape.Token.Scan

/-!
# Faults

Why a script is refused, and where. A fault is kept as its cause; the wording stands in one function.
-/

namespace Cityscape

/-- The sorts of variables a script can name. -/
inductive VariableSort where
  | string
  | number
  | coordinate
  deriving DecidableEq, Repr

/-- What the grammar allows at some place. -/
inductive Expected where
  | kind (kind : Kind)
  | mandatoryElement
  | integerExpression
  | comparison
  | string
  | coordinate
  | operand
  deriving DecidableEq, Repr

/-- A value that an element cannot do without. -/
inductive Wanted where
  | address
  | coordinate
  | number
  deriving DecidableEq, Repr

/-- Why a script is refused. Specification, section 10.2. -/
inductive Cause where
  /-- No lexeme is complete before what was found; `none` is the end of the input. -/
  | lexical (lexeme : String) (found : Option Char)
  | invalidNumber (lexeme : String)
  /-- A token that the grammar does not allow. -/
  | unexpected (expected : Expected) (found : Token)
  | undefined (sort : VariableSort) (name : String)
  /-- Only streets or only institutions. -/
  | incompleteCity
  | longExpression
  | deepConditional
  | unevaluated (wanted : Wanted)
  deriving DecidableEq, Repr

/-- A cause and where it was met. -/
structure Fault where
  cause : Cause
  position : Position
  deriving DecidableEq, Repr

/-- The stage of compilation that refuses a script. -/
inductive Stage where
  | lex
  | parse
  | semantic
  deriving DecidableEq, Repr

/-- Operands that one expression may have. Specification, section 10.7. -/
def longestExpression : Nat := 4096

/-- Conditionals that may be open around another one. Specification, section 10.7. -/
def deepestNesting : Nat := 256

/-- The name of a stage in messages. -/
def Stage.name : Stage → String
  | lex => "Lex"
  | parse => "Parse"
  | semantic => "Semantic"

/-- The word for a sort of variables. -/
def VariableSort.describe : VariableSort → String
  | string => "string"
  | number => "numeric"
  | coordinate => "coordinate"

/-- How an expectation reads. -/
def Expected.describe : Expected → String
  | kind k => k.describe
  | mandatoryElement => "'street' or 'institution'"
  | integerExpression => "integer expression"
  | comparison => "'==', '!=', '<' or '>'"
  | string => "string or variable"
  | coordinate => "coordinate"
  | operand => "number or variable"

/-- The word for a wanted value. -/
def Wanted.describe : Wanted → String
  | address => "address"
  | coordinate => "coordinate"
  | number => "number"

/-- How a found token reads. -/
def Token.describe (token : Token) : String :=
  if token.kind = .finish then "end of input" else "'" ++ token.lexeme ++ "'"

/-- A character on one line: printable ones as they are, quotes and the usual controls escaped. -/
def escape (c : Char) : String :=
  if c = '\t' then "\\t"
  else if c = '\r' then "\\r"
  else if c = '\n' then "\\n"
  else if c = '\'' ∨ c = '"' ∨ c = '\\' then String.ofList ['\\', c]
  else if 0x20 ≤ c.toNat ∧ c.toNat ≤ 0x7e then c.toString
  else "\\u\x7b" ++ String.ofList (Nat.toDigits 16 c.toNat) ++ "\x7d"

/-- How the end of a lexeme reads. -/
def describeFound : Option Char → String
  | some c => "'" ++ escape c ++ "'"
  | none => "end of input"

/-- The stage that a cause belongs to. Specification, section 10.2. -/
def Cause.stage : Cause → Stage
  | lexical .. | invalidNumber .. => .lex
  | unexpected .. => .parse
  | undefined .. | incompleteCity | longExpression | deepConditional | unevaluated .. => .semantic

/-- The wording of a cause. Specification, section 10.7. -/
def Cause.message : Cause → String
  | lexical lexeme found =>
    if lexeme.isEmpty then "unexpected " ++ describeFound found
    else "invalid pattern '" ++ lexeme ++ "' before " ++ describeFound found
  | invalidNumber lexeme => "invalid number: " ++ lexeme
  | unexpected expected found => "expected " ++ expected.describe ++ ", got " ++ found.describe
  | undefined sort name => "undefined " ++ sort.describe ++ " variable '" ++ name ++ "'"
  | incompleteCity => "a city needs at least one street and one institution"
  | longExpression => "expression longer than " ++ toString longestExpression ++ " terms"
  | deepConditional => "conditionals nested deeper than " ++ toString deepestNesting
  | unevaluated wanted => wanted.describe ++ " could not be evaluated"

namespace Fault

/-- A lexical fault as a reason to refuse the script. -/
def ofLexical (fault : LexicalFault) : Fault :=
  ⟨.lexical fault.lexeme fault.found, fault.position⟩

/-- Position, stage and wording on one line. -/
def describe (fault : Fault) : String :=
  "[" ++ toString fault.position.line ++ ":" ++ toString fault.position.column ++ "] "
    ++ fault.cause.stage.name ++ ": " ++ fault.cause.message

end Fault

end Cityscape
