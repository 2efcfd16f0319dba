import Cityscape.Compile.Value
import Cityscape.Proofs.Grammar

/-!
# Syntax trees

The tree of a script keeps every token: what stands between two brackets is a subtree, and the tokens of
a tree in order are the tokens it was read from. A leaf carries the proof of its kind, so every tree is
grammatical, and every token sequence that the grammar derives has a tree.
-/

namespace Cityscape.Compile

/-- The mark that an operator is written with. -/
def Operator.mark : Operator → Mark
  | plus => .plus
  | minus => .minus

/-- The mark that a comparison is written with. -/
def Comparison.mark : Comparison → Mark
  | equal => .equal
  | notEqual => .notEqual
  | less => .less
  | greater => .greater

/-- The mark of an operator stands for it. -/
@[simp]
theorem Operator.ofKind?_mark (operator : Operator) :
    Operator.ofKind? (.mark operator.mark) = some operator := by
  cases operator <;> rfl

/-- The mark of a comparison stands for it. -/
@[simp]
theorem Comparison.ofKind?_mark (comparison : Comparison) :
    Comparison.ofKind? (.mark comparison.mark) = some comparison := by
  cases comparison <;> rfl

end Cityscape.Compile

namespace Cityscape.Syntax

open Compile (Operator Comparison)

/-- A token of one kind. -/
abbrev Leaf (kind : Kind) := { token : Token // token.kind = kind }

/-- A keyword. -/
abbrev Word (word : Keyword) := Leaf (.keyword word)

/-- A mark. -/
abbrev Sign (mark : Mark) := Leaf (.mark mark)

/-- A string literal or a string variable. -/
inductive Text where
  | literal (text : Leaf .string)
  | named (name : Leaf .identifier)

/-- The tokens of a string. -/
def Text.tokens : Text → List Token
  | literal text => [text.1]
  | named name => [name.1]

/-- A number literal or a numeric variable. -/
inductive Operand where
  | integer (numeral : Leaf .integer)
  | double (numeral : Leaf .double)
  | named (name : Leaf .identifier)

/-- The only token of an operand. -/
def Operand.token : Operand → Token
  | integer numeral => numeral.1
  | double numeral => numeral.1
  | named name => name.1

/-- An operand, and perhaps an operator with the rest of the expression. -/
inductive Expression where
  | last (operand : Operand)
  | chain (operand : Operand) (operator : Operator) (sign : Sign operator.mark) (rest : Expression)

namespace Expression

/-- The tokens of an expression. -/
def tokens : Expression → List Token
  | last operand => [operand.token]
  | chain operand _ sign rest => operand.token :: sign.1 :: rest.tokens

/-- The operands of an expression in order. -/
def operands : Expression → List Operand
  | last operand => [operand]
  | chain operand _ _ rest => operand :: rest.operands

/-- The operand that an expression begins with. -/
def first : Expression → Operand
  | last operand => operand
  | chain operand .. => operand

end Expression

/-- A projection of a coordinate variable, or an expression. -/
inductive Component where
  | first (word : Word .first) (opening : Sign .openParen) (name : Leaf .identifier)
    (closing : Sign .closeParen)
  | second (word : Word .second) (opening : Sign .openParen) (name : Leaf .identifier)
    (closing : Sign .closeParen)
  | expression (value : Expression)

/-- The tokens of a component. -/
def Component.tokens : Component → List Token
  | first word opening name closing => [word.1, opening.1, name.1, closing.1]
  | second word opening name closing => [word.1, opening.1, name.1, closing.1]
  | expression value => value.tokens

/-- Two components in parentheses, or a coordinate variable. -/
inductive Coordinate where
  | pair (opening : Sign .openParen) (x : Component) (comma : Sign .comma) (y : Component)
    (closing : Sign .closeParen)
  | named (name : Leaf .identifier)

/-- The tokens of a coordinate. -/
def Coordinate.tokens : Coordinate → List Token
  | pair opening x comma y closing =>
    opening.1 :: (x.tokens ++ comma.1 :: (y.tokens ++ [closing.1]))
  | named name => [name.1]

/-- The variable being declared, between its keyword and the sign before its value. -/
structure Head (word : Keyword) where
  keyword : Word word
  name : Leaf .identifier
  assign : Sign .assign

/-- The tokens before the value of a declaration. -/
def Head.tokens {word : Keyword} (head : Head word) : List Token :=
  [head.keyword.1, head.name.1, head.assign.1]

/-- A declaration; the expression of an integer does not begin with a decimal number. -/
inductive Declaration where
  | string (head : Head .declareString) (value : Text)
  | int (head : Head .declareInt) (value : Expression) (whole : value.first.token.kind ≠ .double)
  | double (head : Head .declareDouble) (value : Expression)
  | coordinate (head : Head .declareCoordinate) (value : Coordinate)

/-- The tokens of a declaration. -/
def Declaration.tokens : Declaration → List Token
  | string head value => head.tokens ++ value.tokens
  | int head value _ => head.tokens ++ value.tokens
  | double head value => head.tokens ++ value.tokens
  | coordinate head value => head.tokens ++ value.tokens

/-- The keyword of a conditional and the comparison behind it. -/
structure Condition where
  keyword : Word .onlyIf
  opening : Sign .openParen
  left : Expression
  comparison : Comparison
  sign : Sign comparison.mark
  right : Expression
  closing : Sign .closeParen

/-- The tokens of a condition behind its keyword. -/
def Condition.tail (condition : Condition) : List Token :=
  condition.opening.1 :: (condition.left.tokens ++ condition.sign.1 ::
    (condition.right.tokens ++ [condition.closing.1]))

/-- A sequence of operations. -/
inductive Operations where
  | done
  | declare (declaration : Declaration) (rest : Operations)
  | conditional (condition : Condition) (opening : Sign .openBrace) (yes : Operations)
    (closing : Sign .closeBrace) (rest : Operations)
  | alternative (condition : Condition) (opening : Sign .openBrace) (yes : Operations)
    (closing : Sign .closeBrace) (otherwise : Word .otherwise) (opening' : Sign .openBrace)
    (no : Operations) (closing' : Sign .closeBrace) (rest : Operations)

/-- The tokens between two braces and the braces. -/
def braced (opening : Sign .openBrace) (inner : List Token) (closing : Sign .closeBrace) : List Token :=
  opening.1 :: (inner ++ [closing.1])

/-- The tokens of a sequence of operations. -/
def Operations.tokens : Operations → List Token
  | done => []
  | declare declaration rest => declaration.tokens ++ rest.tokens
  | conditional condition opening yes closing rest =>
    condition.keyword.1 :: (condition.tail ++ (braced opening yes.tokens closing ++ rest.tokens))
  | alternative condition opening yes closing otherwise opening' no closing' rest =>
    condition.keyword.1 :: (condition.tail ++ (braced opening yes.tokens closing ++
      otherwise.1 :: (braced opening' no.tokens closing' ++ rest.tokens)))

/-- A bend. -/
structure Bend where
  word : Word .bend
  opening : Sign .openParen
  start : Coordinate
  comma : Sign .comma
  finish : Coordinate
  comma' : Sign .comma
  angle : Expression
  closing : Sign .closeParen

/-- The tokens of a bend. -/
def Bend.tokens (bend : Bend) : List Token :=
  bend.word.1 :: bend.opening.1 :: (bend.start.tokens ++ bend.comma.1 :: (bend.finish.tokens ++
    bend.comma'.1 :: (bend.angle.tokens ++ [bend.closing.1])))

/-- A line. -/
structure Line where
  word : Word .line
  opening : Sign .openParen
  first : Coordinate
  comma : Sign .comma
  second : Coordinate
  closing : Sign .closeParen

/-- The tokens of a line. -/
def Line.tokens (line : Line) : List Token :=
  line.word.1 :: line.opening.1 :: (line.first.tokens ++ line.comma.1 ::
    (line.second.tokens ++ [line.closing.1]))

/-- A block. -/
structure Block where
  word : Word .block
  opening : Sign .openParen
  first : Coordinate
  comma : Sign .comma
  second : Coordinate
  comma' : Sign .comma
  third : Coordinate
  comma'' : Sign .comma
  fourth : Coordinate
  closing : Sign .closeParen

/-- The tokens of a block. -/
def Block.tokens (block : Block) : List Token :=
  block.word.1 :: block.opening.1 :: (block.first.tokens ++ block.comma.1 :: (block.second.tokens ++
    block.comma'.1 :: (block.third.tokens ++ block.comma''.1 ::
      (block.fourth.tokens ++ [block.closing.1]))))

/-- A circle. -/
structure Circle where
  word : Word .circle
  opening : Sign .openParen
  center : Coordinate
  comma : Sign .comma
  radius : Expression
  closing : Sign .closeParen

/-- The tokens of a circle. -/
def Circle.tokens (circle : Circle) : List Token :=
  circle.word.1 :: circle.opening.1 :: (circle.center.tokens ++ circle.comma.1 ::
    (circle.radius.tokens ++ [circle.closing.1]))

/-- An address. -/
structure Address where
  word : Word .address
  assign : Sign .assign
  value : Text

/-- The tokens of an address. -/
def Address.tokens (address : Address) : List Token :=
  address.word.1 :: address.assign.1 :: address.value.tokens

/-- A number of events. -/
structure Events where
  word : Word .events
  assign : Sign .assign
  value : Expression

/-- The tokens of a number of events. -/
def Events.tokens (events : Events) : List Token :=
  events.word.1 :: events.assign.1 :: events.value.tokens

/-- The two groups of elements: a city begins with one and ends with the other. -/
inductive Group where
  | mandatory
  | optional
  deriving DecidableEq, Repr

/-- What follows the operations of an element. -/
inductive Content : Group → Type where
  | street (bend : Bend) (line : Line) : Content .mandatory
  | institution (address : Address) (events : Events) (block : Block) : Content .mandatory
  | square (block : Block) : Content .optional
  | statue (word : Word .point) (place : Coordinate) : Content .optional
  | lake (circle : Circle) : Content .optional

namespace Content

variable {group : Group}

/-- The keyword of the element. -/
def keyword : Content group → Keyword
  | street .. => .street
  | institution .. => .institution
  | square .. => .square
  | statue .. => .statue
  | lake .. => .lake

/-- The tokens that follow the operations. -/
def tokens : Content group → List Token
  | street bend line => bend.tokens ++ line.tokens
  | institution address events block => address.tokens ++ (events.tokens ++ block.tokens)
  | square block => block.tokens
  | statue word place => word.1 :: place.tokens
  | lake circle => circle.tokens

end Content

/-- A whole element. -/
structure Element (group : Group) where
  content : Content group
  keyword : Word content.keyword
  name : Leaf .string
  opening : Sign .openBrace
  operations : Operations
  closing : Sign .closeBrace

/-- The tokens of an element behind its keyword. -/
def Element.tail {group : Group} (element : Element group) : List Token :=
  element.name.1 :: element.opening.1 :: (element.operations.tokens ++
    (element.content.tokens ++ [element.closing.1]))

/-- The tokens of an element. -/
def Element.tokens {group : Group} (element : Element group) : List Token :=
  element.keyword.1 :: element.tail

/-- The tokens of elements in order. -/
def elementTokens {group : Group} (elements : List (Element group)) : List Token :=
  elements.flatMap Element.tokens

/-- A whole city; it has at least one mandatory element. -/
structure City where
  keyword : Word .city
  name : Leaf .string
  opening : Sign .openBrace
  operations : Operations
  first : Element .mandatory
  mandatory : List (Element .mandatory)
  optional : List (Element .optional)
  closing : Sign .closeBrace

/-- The mandatory elements of a city. -/
def City.required (city : City) : List (Element .mandatory) :=
  city.first :: city.mandatory

/-- The tokens between the braces of a city. -/
def City.body (city : City) : List Token :=
  city.operations.tokens ++ (elementTokens city.required ++ elementTokens city.optional)

/-- The tokens of a city. -/
def City.tokens (city : City) : List Token :=
  city.keyword.1 :: city.name.1 :: city.opening.1 :: (city.body ++ [city.closing.1])

end Cityscape.Syntax
