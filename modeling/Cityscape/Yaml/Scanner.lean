import Cityscape.Yaml.Scalar
import Cityscape.Yaml.Tag

/-!
# From text to tokens

A colon makes a key of what began at the last place where a key was possible on the same line; the tokens for the
mapping and the key are then put there. Blocks close when a token stands to the left of them.
-/

namespace Cityscape.Yaml.Scan

/--
Goes past blanks, comments and ends of lines; tabs do not count as blanks where a block may begin. A mark of the byte
order may stand at the beginning of a line, where it takes a column.
-/
def skipToToken : Scan Unit :=
  many (fun () ↦ do
    if (← get).column = 0 ∧ (← next) = some '\ufeff' then skip
    let tabs := (← inFlow) || !(← get).keyAllowed
    let _ ← takeWhile fun c ↦ c = ' ' || (tabs && c = '\t')
    if (← next) = some '#' then
      let _ ← takeWhile (!isBreak ·)
    if (← next).any isBreak then
      let _ ← skipBreak
      if !(← inFlow) then allowKey true
      return some ()
    else return none) ()

/-- A bracket that opens a flow collection. -/
def openFlow (token : Token) : Scan Unit := do
  markKey
  modify fun cursor ↦ { cursor with keys := none :: cursor.keys }
  allowKey true
  skip
  emit token

/-- A bracket that closes a flow collection. -/
def closeFlow (token : Token) : Scan Unit := do
  dropKey
  if ← inFlow then modify fun cursor ↦ { cursor with keys := cursor.keys.drop 1 }
  allowKey false
  skip
  emit token

/-- A comma in a flow collection. -/
def flowEntry : Scan Unit := do
  dropKey
  allowKey true
  skip
  emit .flowEntry

/-- A dash before an item of a block sequence. -/
def blockEntry : Scan Unit := do
  let cursor ← get
  if !(← inFlow) then
    if !cursor.keyAllowed then failure
    openBlock cursor.column cursor.tokens.size .blockSequenceStart
  dropKey
  allowKey true
  skip
  emit .blockEntry

/-- A question mark before a key. -/
def explicitKey : Scan Unit := do
  let cursor ← get
  if !(← inFlow) then
    if !cursor.keyAllowed then failure
    openBlock cursor.column cursor.tokens.size .blockMappingStart
  dropKey
  allowKey (!(← inFlow))
  skip
  emit .key

/-- A colon before a value. -/
def value : Scan Unit := do
  match ← keyBefore with
  | some key =>
    modify fun cursor ↦
      { cursor with
        tokens := cursor.tokens.insertIdxIfInBounds key.token .key
        keys := none :: cursor.keys.drop 1 }
    openBlock key.column key.token .blockMappingStart
    allowKey false
  | none =>
    let cursor ← get
    if !(← inFlow) then
      if !cursor.keyAllowed then failure
      openBlock cursor.column cursor.tokens.size .blockMappingStart
    allowKey (!(← inFlow))
  skip
  emit .value

/-- The name behind the mark of an anchor or an alias. -/
def anchorName : Scan String := do
  markKey
  allowKey false
  skip
  let name ← takeWhile isNameChar
  let after ← next
  if name.isEmpty || !(isGap after || after.any ("?:,]\x7d%@`".toList.contains ·)) then failure
  return String.ofList name

/-- A tag before a node. -/
def nodeTag : Scan Unit := do
  markKey
  allowKey false
  emit (.tag (← tag))

/-- A scalar that a key may begin with. -/
def inlineScalar (read : Scan String) (style : ScalarStyle) : Scan Unit := do
  markKey
  allowKey false
  let text ← read
  emit (.scalar text style)

/-- A block scalar behind its indicator. -/
def blockScalar (folded : Bool) : Scan Unit := do
  dropKey
  allowKey true
  skip
  let text ← block folded
  emit (.scalar text (if folded then .folded else .literal))

/-- A mark between documents. -/
def documentMark (token : Token) : Scan Unit := do
  closeBlocks (-1)
  dropKey
  allowKey false
  skipMany 3
  emit token

/-- A line that says something about the documents behind it. -/
def directiveLine : Scan Unit := do
  closeBlocks (-1)
  dropKey
  allowKey false
  emit (← directive)

/-- Whether a plain scalar may begin with a character before another one. -/
def beginsPlain (flow : Bool) (c : Char) (after : Option Char) : Bool :=
  if c = '-' then !after.any isBlank
  else if c = '?' || c = ':' then !flow && !isGap after
  else !(isGap (some c) || ",[]\x7b\x7d#&*!|>'\"%@`".toList.contains c)

/-- The next token, if the text is not at its end. -/
def token : Scan (Option Unit) := do
  skipToToken
  closeBlocks (← get).column
  let flow ← inFlow
  let column := (← get).column
  match ← next, (← rest)[1]? with
  | none, _ =>
    closeBlocks (-1)
    dropKey
    return none
  | some c, after =>
    if column = 0 && c = '%' then directiveLine
    else if ← atDocumentMark '-' then documentMark .documentStart
    else if ← atDocumentMark '.' then documentMark .documentEnd
    else if c = '[' then openFlow .flowSequenceStart
    else if c = '\x7b' then openFlow .flowMappingStart
    else if c = ']' then closeFlow .flowSequenceEnd
    else if c = '\x7d' then closeFlow .flowMappingEnd
    else if c = ',' then flowEntry
    else if c = '-' && isGap after then blockEntry
    else if c = '?' && (flow || isGap after) then explicitKey
    else if c = ':' && (flow || isGap after) then value
    else if c = '*' then emit (.alias (← anchorName))
    else if c = '&' then emit (.anchor (← anchorName))
    else if c = '!' then nodeTag
    else if c = '|' && !flow then blockScalar false
    else if c = '>' && !flow then blockScalar true
    else if c = '\'' || c = '"' then inlineScalar (quoted c) .quoted
    else if beginsPlain flow c after then inlineScalar plain .plain
    else failure
    return some ()

end Cityscape.Yaml.Scan

namespace Cityscape.Yaml

/-- The tokens of a text, unless it is malformed. -/
def tokens? (text : String) : Option (List Token) := do
  let chars := text.toList
  guard (chars.all isAllowed)
  let ((), cursor) ← (Scan.many (fun () ↦ Scan.token) ()).run { rest := chars, size := chars.length }
  return cursor.tokens.toList

end Cityscape.Yaml
