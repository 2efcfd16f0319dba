import Cityscape.Decimal.Numeral
import Cityscape.Decimal.Style

/-!
# JSON values and their text

Values as a text gives them: the members of an object in their order, also when a name occurs twice. Whole
numbers in the range of sixty-four bits stay whole; all other numbers are doubles.
-/

namespace Cityscape

/-- A JSON value. -/
inductive Json where
  | null
  | bool (value : Bool)
  | integer (value : Int)
  | double (value : Float)
  | string (value : String)
  | array (items : List Json)
  | object (members : List (String × Json))
  deriving Repr

namespace Json

/-- Doubles keep a point and its digit; an exponent has a sign, and a half goes to the even digit. -/
def numeral : Decimal.Style where
  tie := .even
  positional := fun lead ↦ -5 ≤ lead && lead < 16
  whole := ".0"
  plus := "+"
  notANumber := "null"
  infinity := "null"
  negativeInfinity := "null"

/-- The number that a value is. -/
def number? : Json → Option Float
  | integer value => some (Decimal.Scaled.toFloat (value < 0) ⟨value.natAbs, 0⟩)
  | double value => some value
  | _ => none

/-- The items of an array. -/
def items? : Json → Option (List Json)
  | array items => some items
  | _ => none

/-- A character inside a string literal. -/
def escapeChar (c : Char) : List Char :=
  if c = '"' then ['\\', '"']
  else if c = '\\' then ['\\', '\\']
  else if c = '\n' then ['\\', 'n']
  else if c = '\r' then ['\\', 'r']
  else if c = '\t' then ['\\', 't']
  else if c = '\x08' then ['\\', 'b']
  else if c = '\x0c' then ['\\', 'f']
  else if c.toNat < 0x20 then
    ['\\', 'u', '0', '0', Nat.digitChar (c.toNat / 16), Nat.digitChar (c.toNat % 16)]
  else [c]

/-- A string literal. -/
def quote (text : String) : String :=
  "\"" ++ String.ofList (text.toList.flatMap escapeChar) ++ "\""

/-- The members of an object, each name once with its last value, in the order of the names. -/
def sortMembers {α : Type} (members : List (String × α)) : List (String × α) :=
  members.foldl insert []
where
  /-- Puts a member in its place, over one of the same name. -/
  insert (sorted : List (String × α)) (new : String × α) : List (String × α) :=
    match sorted with
    | [] => [new]
    | old :: rest =>
      if new.1 < old.1 then new :: old :: rest
      else if new.1 = old.1 then new :: rest
      else old :: insert rest new

mutual

/-- The value on one line without blanks, the members of objects in the order of their names. -/
def compact : Json → String
  | null => "null"
  | bool value => if value then "true" else "false"
  | integer value => toString value
  | double value => numeral.write value
  | string value => quote value
  | array items => "[" ++ ",".intercalate (compactItems items) ++ "]"
  | object members =>
    let texts := (sortMembers (compactMembers members)).map fun (name, text) ↦ quote name ++ ":" ++ text
    "\x7b" ++ ",".intercalate texts ++ "\x7d"

/-- The texts of the items of an array. -/
def compactItems : List Json → List String
  | [] => []
  | item :: rest => compact item :: compactItems rest

/-- The texts of the members of an object. -/
def compactMembers : List (String × Json) → List (String × String)
  | [] => []
  | (name, value) :: rest => (name, compact value) :: compactMembers rest

end

/-- A line break and the indentation behind it. -/
def newline (indent : Nat) : String :=
  "\n" ++ String.ofList (List.replicate (2 * indent) ' ')

/-- Bracketed texts, each on a line of its own; nothing stands between the brackets of an empty list. -/
def bracketed (opening closing : String) (indent : Nat) (texts : List String) : String :=
  if texts.isEmpty then opening ++ closing
  else
    opening ++ newline (indent + 1) ++ ("," ++ newline (indent + 1)).intercalate texts
      ++ newline indent ++ closing

mutual

/-- The value over several lines, two blanks deeper on every level. -/
def pretty (indent : Nat) : Json → String
  | null => "null"
  | bool value => if value then "true" else "false"
  | integer value => toString value
  | double value => numeral.write value
  | string value => quote value
  | array items => bracketed "[" "]" indent (prettyItems (indent + 1) items)
  | object members => bracketed "\x7b" "\x7d" indent (prettyMembers (indent + 1) members)

/-- The texts of the items of an array. -/
def prettyItems (indent : Nat) : List Json → List String
  | [] => []
  | item :: rest => pretty indent item :: prettyItems indent rest

/-- The texts of the members of an object. -/
def prettyMembers (indent : Nat) : List (String × Json) → List String
  | [] => []
  | (name, value) :: rest =>
    (quote name ++ ": " ++ pretty indent value) :: prettyMembers indent rest

end

end Json

end Cityscape
