import Cityscape.Yaml.Token

/-!
# A YAML text being scanned

The place in the text, the blocks and flow collections that are open there, and the tokens found so far. A mapping
key shows only at the colon behind it, so every place where one may have begun is remembered until then.
-/

namespace Cityscape.Yaml

/-- A place where a mapping key may have begun. -/
structure KeyStart where
  /-- How many tokens come before it. -/
  token : Nat
  /-- Whether nothing else than a key may stand there. -/
  required : Bool
  /-- How many bytes come before it. -/
  offset : Nat
  line : Nat
  column : Nat

/-- A text being scanned. -/
structure Cursor where
  rest : List Char
  /-- The length of the whole text, which bounds every repetition. -/
  size : Nat
  /-- How many bytes come before the rest. -/
  offset : Nat := 0
  line : Nat := 0
  column : Nat := 0
  /-- The column of the innermost block, and those of the blocks around it. -/
  indent : Int := -1
  outer : List Int := []
  /-- For each flow collection that is open, innermost first, and for the blocks around: the last place where a
  key may have begun. -/
  keys : List (Option KeyStart) := [none]
  /-- Whether a key may begin at the next token. -/
  keyAllowed : Bool := true
  tokens : Array Token := #[]

/-- A step of scanning; every fault is the same. -/
abbrev Scan := StateT Cursor Option

/-- The furthest that the colon of a key may be from its beginning, in bytes. -/
def longestKey : Nat := 1024

namespace Scan

/-- Whether a flow collection is open. -/
def inFlow : Scan Bool := do
  return !((← get).keys.drop 1).isEmpty

/-- The text from here on. -/
def rest : Scan (List Char) := do
  return (← get).rest

/-- The next character. -/
def next : Scan (Option Char) := do
  return (← rest).head?

/-- Goes past a text that comes next and does not hold the end of a line. -/
def skipText (text : List Char) : Scan Unit :=
  modify fun cursor ↦
    { cursor with
      rest := cursor.rest.drop text.length
      offset := cursor.offset + text.foldr (·.utf8Size + ·) 0
      column := cursor.column + text.length }

/-- Goes past several characters, none of which ends a line. -/
def skipMany (count : Nat) : Scan Unit := do
  skipText ((← rest).take count)

/-- Goes past one character that does not end a line. -/
def skip : Scan Unit :=
  skipMany 1

/-- Goes past a character that has to come. -/
def expect (c : Char) : Scan Unit := do
  if (← next) = some c then skip else failure

/-- Goes past the end of a line and gives how it counts in a scalar. -/
def skipBreak : Scan Char := do
  let cursor ← get
  let (width, mark) := match cursor.rest with
    | '\r' :: '\n' :: _ => (2, '\n')
    | '\u2028' :: _ => (1, '\u2028')
    | '\u2029' :: _ => (1, '\u2029')
    | _ => (1, '\n')
  skipMany width
  modify fun cursor ↦ { cursor with line := cursor.line + 1, column := 0 }
  return mark

/-- Goes past the characters that satisfy a condition, none of which ends a line, and gives them. -/
def takeWhile (condition : Char → Bool) : Scan (List Char) := do
  let taken := (← rest).takeWhile condition
  skipText taken
  return taken

/-- Goes past a part of the text that a function finds, of some count of characters, and gives its meaning. -/
def take {α : Type} (part? : List Char → Option (α × Nat)) : Scan α := do
  match part? (← rest) with
  | some (found, count) =>
    skipMany count
    return found
  | none => failure

/-- Repeats a step for as long as it gives something to go on with, `limit` times at most. -/
def iterate {σ : Type} (step : σ → Scan (Option σ)) : Nat → σ → Scan σ
  | 0, state => pure state
  | limit + 1, state => do
    match ← step state with
    | some next => iterate step limit next
    | none => pure state

/-- Repeats a step that goes past at least one character whenever it gives something to go on with. -/
def many {σ : Type} (step : σ → Scan (Option σ)) (state : σ) : Scan σ := do
  iterate step ((← get).size + 2) state

/-- Goes past blanks, a comment behind them and the end of the line; nothing else may stand there. -/
def skipLineEnd : Scan Unit := do
  let _ ← takeWhile isBlank
  if (← next) = some '#' then
    let _ ← takeWhile (!isBreak ·)
  match ← next with
  | some c => if isBreak c then let _ ← skipBreak else failure
  | none => pure ()

/-- Whether the mark of a new document, or of the end of one, stands at the beginning of the line. -/
def atDocumentMark (mark : Char) : Scan Bool := do
  let cursor ← get
  return cursor.column = 0 && cursor.rest.take 3 = [mark, mark, mark] && isGap cursor.rest[3]?

/-- Whether any mark between documents stands at the beginning of the line. -/
def atAnyDocumentMark : Scan Bool := do
  return (← atDocumentMark '-') || (← atDocumentMark '.')

/-- Adds a token. -/
def emit (token : Token) : Scan Unit :=
  modify fun cursor ↦ { cursor with tokens := cursor.tokens.push token }

/-- Says whether a key may begin at the next token. -/
def allowKey (allowed : Bool) : Scan Unit :=
  modify fun cursor ↦ { cursor with keyAllowed := allowed }

/-- Forgets where a key may have begun; one that is required has to have come. -/
def dropKey : Scan Unit := do
  let cursor ← get
  match cursor.keys with
  | some key :: keys =>
    if key.required then failure
    set { cursor with keys := none :: keys }
  | _ => pure ()

/-- Remembers that a key may begin here. -/
def markKey : Scan Unit := do
  let cursor ← get
  if cursor.keyAllowed then
    let required := !(← inFlow) && cursor.indent = cursor.column
    dropKey
    modify fun cursor ↦
      { cursor with
        keys := some ⟨cursor.tokens.size, required, cursor.offset, cursor.line, cursor.column⟩
          :: cursor.keys.drop 1 }

/-- The place where the key before a colon began: on the same line and not far away. -/
def keyBefore : Scan (Option KeyStart) := do
  let cursor ← get
  match cursor.keys with
  | some key :: _ =>
    if key.line = cursor.line ∧ cursor.offset ≤ key.offset + longestKey then return some key
    else if key.required then failure
    else return none
  | _ => return none

/-- Opens a block at a column that is deeper than the innermost one; its token goes before token `place`. -/
def openBlock (column place : Nat) (token : Token) : Scan Unit := do
  let cursor ← get
  if !(← inFlow) && cursor.indent < column then
    set { cursor with
      indent := column, outer := cursor.indent :: cursor.outer
      tokens := cursor.tokens.insertIdxIfInBounds place token }

/-- Closes the blocks that are deeper than a column. -/
def closeBlocks (column : Int) : Scan Unit := do
  if !(← inFlow) then modify fun cursor ↦ close cursor cursor.outer
where
  /-- Closes blocks, given the columns of those around them. -/
  close (cursor : Cursor) : List Int → Cursor
    | [] => cursor
    | indent :: outer =>
      if column < cursor.indent then
        close { cursor with indent, outer, tokens := cursor.tokens.push .blockEnd } outer
      else cursor

end Scan

end Cityscape.Yaml
