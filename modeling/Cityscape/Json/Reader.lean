import Cityscape.Json.Lexeme

/-!
# Reading JSON

A text is read once, from left to right, and the first fault decides. A reader asks for what it needs: any
value, a string, a record of named fields. What nobody asks for is skipped, but has to be JSON all the same.
Values that are read may be nested so deep only; the reader is told how many levels are left.
-/

namespace Cityscape.Json

/-- The text still to be read; `size` is the length of the whole text and bounds every repetition. -/
structure Text where
  rest : List Char
  size : Nat

/-- A step of reading. -/
abbrev Reader := EStateM Fault Text

namespace Reader

variable [Numerals] {α σ : Type}

/-- Whether a character may stand between the parts of a text. -/
def isBlank (c : Char) : Bool :=
  c = ' ' || c = '\n' || c = '\t' || c = '\r'

/-- Goes past blanks and looks at the character behind them. -/
def peek? : Reader (Option Char) := do
  let text ← get
  let rest := text.rest.dropWhile isBlank
  set { text with rest }
  return rest.head?

/-- Goes past one character. -/
def eat : Reader Unit :=
  modify fun text ↦ { text with rest := text.rest.drop 1 }

/-- Reads a part of the text with a function on characters. -/
def lift (part : List Char → Except Fault (α × List Char)) : Reader α := do
  let text ← get
  match part text.rest with
  | .ok (value, rest) =>
    set { text with rest }
    return value
  | .error fault => throw fault

/-- A word behind its first letter, standing for a value. -/
def word (letters : List Char) (value : α) : Reader α := do
  eat
  lift fun text ↦ (literal letters text).map fun rest ↦ (value, rest)

/-- A string behind its opening quote. -/
def stringTail : Reader String := do
  return String.ofList (← lift (stringBody escapeAhead))

/-- A number behind its sign. -/
def numberTail (negative : Bool) : Reader Json :=
  lift fun text ↦ do
    let (parts, rest) ← numberParts .truncated text
    return (← parts.toJson negative, rest)

/-- A value that holds no others; `onArray` and `onObject` read the rest behind their opening bracket. -/
def valueWith (onArray onObject : Reader Json) : Reader Json := do
  match ← peek? with
  | none => throw .truncated
  | some 'n' => word ['u', 'l', 'l'] .null
  | some 't' => word ['r', 'u', 'e'] (.bool true)
  | some 'f' => word ['a', 'l', 's', 'e'] (.bool false)
  | some '"' => eat; return .string (← stringTail)
  | some '-' => eat; numberTail true
  | some '[' => eat; onArray
  | some '\x7b' => eat; onObject
  | some c => if c.isDigit then numberTail false else throw .malformed

/-- Refuses the value ahead for what it is, or for not being JSON. -/
def refuse : Reader α := do
  let _ ← valueWith (throw .unfit) (throw .unfit)
  throw .unfit

/-- Whether another item of an array comes; `first` holds before the first one. -/
def moreItems (first : Bool) : Reader Bool := do
  match ← peek? with
  | none => throw .truncated
  | some ']' => return false
  | some c =>
    if first then return true
    else if c = ',' then
      eat
      match ← peek? with
      | none => throw .truncated
      | some ']' => throw .malformed
      | some _ => return true
    else throw .malformed

/-- Whether another member of an object comes; `first` holds before the first one. -/
def moreMembers (first : Bool) : Reader Bool := do
  match ← peek? with
  | none => throw .truncated
  | some '\x7d' => return false
  | some c =>
    if first then
      if c = '"' then return true else throw .malformed
    else if c = ',' then
      eat
      match ← peek? with
      | none => throw .truncated
      | some '"' => return true
      | some _ => throw .malformed
    else throw .malformed

/-- Goes past the colon between a name and its value. -/
def colon : Reader Unit := do
  match ← peek? with
  | none => throw .truncated
  | some ':' => eat
  | some _ => throw .malformed

/-- The name of a member. -/
def memberName : Reader String := do
  eat
  stringTail

/-- The value of a member, with the colon before it. -/
def memberValue (item : Reader α) : Reader α := do
  colon
  item

/-- Goes past a closing bracket. -/
def close (bracket : Char) : Reader Unit := do
  match ← peek? with
  | none => throw .truncated
  | some c => if c = bracket then eat else throw .malformed

/-- The items of an array up to its closing bracket, `limit` at most. -/
def itemsUpTo (item : Reader α) : Nat → Bool → Reader (List α)
  | 0, _ => throw .truncated
  | limit + 1, first => do
    if ← moreItems first then
      let value ← item
      let rest ← itemsUpTo item limit false
      return value :: rest
    else return []

/-- The items of an array behind its opening bracket, without its closing one. -/
def items (item : Reader α) (first : Bool) : Reader (List α) := do
  itemsUpTo item ((← get).size + 1) first

/--
The members of an object up to its closing bracket, `limit` at most; `member` reads each of them behind its
name.
-/
def membersUpTo (member : σ → String → Reader σ) : Nat → Bool → σ → Reader σ
  | 0, _, _ => throw .truncated
  | limit + 1, first, state => do
    if ← moreMembers first then
      let name ← memberName
      membersUpTo member limit false (← member state name)
    else return state

/-- The members of an object behind its opening bracket, without its closing one. -/
def members (member : σ → String → Reader σ) (state : σ) : Reader σ := do
  membersUpTo member ((← get).size + 1) true state

/-- The items of an array behind its opening bracket. -/
def arrayTail (item : Reader α) : Reader (List α) := do
  let values ← items item true
  close ']'
  return values

/-- The members of an object behind its opening bracket. -/
def objectTail (member : σ → String → Reader σ) (state : σ) : Reader σ := do
  let state ← members member state
  close '\x7d'
  return state

/-- Any value, with `depth` levels of arrays and objects at most. -/
def value : Nat → Reader Json
  | 0 => valueWith (throw .malformed) (throw .malformed)
  | depth + 1 =>
    valueWith (return .array (← arrayTail (value depth)))
      (return .object (← objectTail
        (fun read name ↦ return read ++ [(name, ← memberValue (value depth))]) []))

/-- A string. -/
def string : Reader String := do
  match ← peek? with
  | some '"' => eat; stringTail
  | _ => refuse

/-- An array of any length. -/
def array (depth : Nat) (item : Nat → Reader α) : Reader (List α) := do
  match ← peek?, depth with
  | some '[', 0 => throw .malformed
  | some '[', depth + 1 => eat; arrayTail (item depth)
  | _, _ => refuse

/--
A record: an object read member by member, or an array of the fields in their order. Both readers stop
before the closing bracket.
-/
def record (depth : Nat) (onObject onArray : Nat → Reader α) : Reader α := do
  match ← peek?, depth with
  | some '\x7b', 0 | some '[', 0 => throw .malformed
  | some '\x7b', depth + 1 => eat; let value ← onObject depth; close '\x7d'; return value
  | some '[', depth + 1 => eat; let value ← onArray depth; close ']'; return value
  | _, _ => refuse

/-- The next field of a record that is written as an array. -/
def field (first : Bool) (item : Reader α) : Reader α := do
  if ← moreItems first then item else throw .unfit

/-- A field of a record, or its absence as a fault. -/
def require (value : Option α) : Reader α :=
  match value with
  | some value => pure value
  | none => throw .unfit

/-- The value of a member that has not been met before. -/
def once (met : Option α) (item : Reader α) : Reader (Option α) := do
  if met.isSome then throw .unfit
  return some (← memberValue item)

/-- An array or object that is open while skipping. -/
inductive Frame where
  | array
  | object
  deriving DecidableEq

/-- The bracket that closes a frame. -/
def Frame.closing : Frame → Char
  | array => ']'
  | object => '\x7d'

/-- What skipping has to meet next inside the innermost frame. -/
inductive Expecting where
  /-- A value, or in an object a name and a value. -/
  | entry
  | value
  /-- The closing bracket or another entry; `first` holds behind the opening bracket. -/
  | more (first : Bool)

/-- Goes past a number behind its sign. -/
def skipNumber : Reader Unit :=
  lift fun text ↦ (numberParts .malformed text).map fun (_, rest) ↦ ((), rest)

/-- Goes past a string behind its opening quote. -/
def skipString : Reader Unit :=
  lift fun text ↦ (stringBody looseEscapeAhead text).map fun (_, rest) ↦ ((), rest)

/-- Goes past a name and its colon. -/
def skipName : Reader Unit := do
  match ← peek? with
  | none => throw .truncated
  | some '"' => eat; skipString
  | some _ => throw .malformed
  colon

/-- Goes past a value or its opening bracket, which it gives. -/
def skipOpening : Reader (Option Frame) := do
  match ← peek? with
  | none => throw .truncated
  | some 'n' => word ['u', 'l', 'l'] none
  | some 't' => word ['r', 'u', 'e'] none
  | some 'f' => word ['a', 'l', 's', 'e'] none
  | some '"' => eat; skipString; return none
  | some '-' => eat; skipNumber; return none
  | some '[' => eat; return some .array
  | some '\x7b' => eat; return some .object
  | some c => if c.isDigit then skipNumber; return none else throw .malformed

/-- Goes past what is left of the open frames, in `limit` steps at most. -/
def skipFrames : Nat → Expecting → List Frame → Reader Unit
  | 0, _, _ => throw .truncated
  | limit + 1, .value, frames => do
    match ← skipOpening with
    | some frame => skipFrames limit (.more true) (frame :: frames)
    | none => skipFrames limit (.more false) frames
  | limit + 1, .entry, frames => do
    if frames.head? = some .object then skipName
    skipFrames limit .value frames
  | _ + 1, .more _, [] => pure ()
  | limit + 1, .more first, frame :: frames => do
    match ← peek? with
    | none => throw .truncated
    | some c =>
      if c = frame.closing then
        eat
        skipFrames limit (.more false) frames
      else if first then skipFrames limit .entry (frame :: frames)
      else if c = ',' then
        eat
        skipFrames limit .entry (frame :: frames)
      else throw .malformed

/-- Goes past a value of any depth. -/
def skip : Reader Unit := do
  skipFrames (3 * (← get).size + 3) .value []

/-- The fields of a record whose meaning depends on one of them. -/
inductive Fields where
  | named (members : List (String × Json))
  | listed (items : List Json)

/-- The values of exactly these fields; other named fields are passed over. -/
def Fields.select (names : List String) : Fields → Option (List Json)
  | .named members =>
    names.mapM fun name ↦
      match members.filter (·.1 = name) with
      | [(_, value)] => some value
      | _ => none
  | .listed items => if items.length = names.length then some items else none

/-- A string with a meaning. -/
def tag (meaning : String → Option α) : Reader α := do
  require (meaning (← string))

/--
A record whose field `name` says what it is. The other fields are read as they are and can be looked at
when all of them are known; an array begins with that field.
-/
def tagged (depth : Nat) (name : String) (meaning : String → Option α) : Reader (α × Fields) :=
  record depth onObject onArray
where
  /-- The members of an object, the tag apart from the others. -/
  onObject (depth : Nat) : Reader (α × Fields) := do
    let (met, others) ← members (fun (met, others) key ↦
      if key = name then return (← once met (tag meaning), others)
      else return (met, others ++ [(key, ← memberValue (value depth))])) (none, [])
    return (← require met, .named others)
  /-- The items of an array, the tag first. -/
  onArray (depth : Nat) : Reader (α × Fields) := do
    let met ← field true (tag meaning)
    return (met, .listed (← items (value depth) false))

/-- Levels of arrays and objects that may be open at once. -/
def deepest : Nat := 127

/-- Reads a whole text. -/
def readAll (reader : Reader α) (text : String) : Except Fault α :=
  let chars := text.toList
  let whole : Reader α := do
    let value ← reader
    if (← peek?).isSome then throw .malformed
    return value
  match EStateM.run whole ⟨chars, chars.length⟩ with
  | .ok value _ => .ok value
  | .error fault _ => .error fault

end Reader

end Cityscape.Json
