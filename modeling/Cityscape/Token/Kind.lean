/-!
# Kinds of tokens

A token is a literal, a variable, a keyword or a mark. Every kind has a short name, used when tokens
are listed, and a description, used when one was expected and something else was found.
-/

namespace Cityscape

/-- The reserved words. Specification, section 10.6. -/
inductive Keyword where
  | city
  | street
  | institution
  | square
  | statue
  | lake
  | block
  | bend
  | line
  | point
  | circle
  | address
  | events
  | onlyIf
  | otherwise
  | declareString
  | declareInt
  | declareDouble
  | declareCoordinate
  | first
  | second
  deriving DecidableEq, Repr

namespace Keyword

/-- How the word is written. -/
def spelling : Keyword → String
  | city => "city"
  | street => "street"
  | institution => "institution"
  | square => "square"
  | statue => "statue"
  | lake => "lake"
  | block => "block"
  | bend => "bend"
  | line => "line"
  | point => "point"
  | circle => "circle"
  | address => "address"
  | events => "events"
  | onlyIf => "if"
  | otherwise => "else"
  | declareString => "string"
  | declareInt => "int"
  | declareDouble => "double"
  | declareCoordinate => "coordinate"
  | first => "fst"
  | second => "snd"

/-- The name in a listing: the word itself, except where a literal's kind has that name already. -/
def name : Keyword → String
  | declareString => "stringVar"
  | declareInt => "intVar"
  | declareDouble => "doubleVar"
  | declareCoordinate => "coordinateVar"
  | first => "first"
  | second => "second"
  | word => word.spelling

/-- All reserved words. -/
def all : List Keyword :=
  [city, street, institution, square, statue, lake, block, bend, line, point, circle, address, events,
    onlyIf, otherwise, declareString, declareInt, declareDouble, declareCoordinate, first, second]

end Keyword

/-- Brackets, separators and operators. Specification, section 10.6. -/
inductive Mark where
  | openParen
  | closeParen
  | openBracket
  | closeBracket
  | openBrace
  | closeBrace
  | comma
  | assign
  | plus
  | minus
  | equal
  | notEqual
  | less
  | greater
  deriving DecidableEq, Repr

namespace Mark

/-- How the mark is written. -/
def spelling : Mark → String
  | openParen => "("
  | closeParen => ")"
  | openBracket => "["
  | closeBracket => "]"
  | openBrace => "\x7b"
  | closeBrace => "\x7d"
  | comma => ","
  | assign => "="
  | plus => "+"
  | minus => "-"
  | equal => "=="
  | notEqual => "!="
  | less => "<"
  | greater => ">"

/-- The name in a listing. -/
def name : Mark → String
  | openParen => "lparen"
  | closeParen => "rparen"
  | openBracket => "lsparen"
  | closeBracket => "rsparen"
  | openBrace => "lcparen"
  | closeBrace => "rcparen"
  | comma => "comma"
  | assign => "assign"
  | plus => "plus"
  | minus => "minus"
  | equal => "equals"
  | notEqual => "notequal"
  | less => "smaller"
  | greater => "bigger"

/-- The mark that a single character is. -/
def ofChar? : Char → Option Mark
  | '(' => some openParen
  | ')' => some closeParen
  | '[' => some openBracket
  | ']' => some closeBracket
  | '\x7b' => some openBrace
  | '\x7d' => some closeBrace
  | ',' => some comma
  | '=' => some assign
  | '+' => some plus
  | '-' => some minus
  | '<' => some less
  | '>' => some greater
  | _ => none

end Mark

/-- What a token is. Blanks are scanned like tokens and left out of the result. Specification, section 3. -/
inductive Kind where
  | integer
  | double
  | string
  | identifier
  | keyword (word : Keyword)
  | mark (mark : Mark)
  | finish
  | blank
  deriving DecidableEq, Repr

namespace Kind

/-- The name in a listing. Specification, section 10.11. -/
def name : Kind → String
  | integer => "int"
  | double => "double"
  | string => "string"
  | identifier => "variable"
  | keyword word => word.name
  | mark m => m.name
  | finish => "eof"
  | blank => "skip"

/-- How the kind reads in a script, quoted when it has a fixed spelling. Specification, section 10.7. -/
def describe : Kind → String
  | integer => "integer"
  | double => "decimal number"
  | string => "string literal"
  | identifier => "identifier"
  | keyword word => "'" ++ word.spelling ++ "'"
  | mark m => "'" ++ m.spelling ++ "'"
  | finish => "end of input"
  | blank => "whitespace"

end Kind

end Cityscape
