import Cityscape.Token.Kind

/-!
# Tokens and their positions
-/

namespace Cityscape

/-- A place in a source: lines and columns count from one, columns in bytes. Specification, section 10.6. -/
structure Position where
  line : Nat
  column : Nat
  deriving DecidableEq, Repr

namespace Position

/-- Where a source begins. -/
def first : Position := ⟨1, 1⟩

/-- The place behind a character that stands here. -/
def after (here : Position) (c : Char) : Position :=
  if c = '\n' then ⟨here.line + 1, 1⟩ else ⟨here.line, here.column + 1⟩

/-- The place behind a text that begins here. -/
def afterAll (here : Position) (text : List Char) : Position :=
  text.foldl after here

/-- Going past two texts is going past the first and then past the second. -/
theorem afterAll_append (here : Position) (first second : List Char) :
    here.afterAll (first ++ second) = (here.afterAll first).afterAll second := by
  simp [afterAll]

end Position

/-- A lexeme with its kind and the place where it begins. Specification, section 3. -/
structure Token where
  kind : Kind
  lexeme : String
  position : Position
  deriving DecidableEq, Repr

/-- The characters between the quotes around a text, and the whole text if it has none. -/
def unquote (text : List Char) : List Char :=
  match text with
  | '"' :: rest => if rest.getLast? = some '"' then rest.dropLast else text
  | _ => text

/-- The lexeme without the quotes of a string literal. -/
def Token.unquoted (token : Token) : String :=
  String.ofList (unquote token.lexeme.toList)

end Cityscape
