import Cityscape.Hexadecimal
import Cityscape.Yaml.Cursor

/-!
# Reading scalars

Plain, quoted and block scalars. In the first two, blanks around the end of a line count as one space, and an
empty line as the end of a line. Text is gathered from its end, so what has been read so far stands last character
first.
-/

namespace Cityscape.Yaml

/-- The characters of a plain scalar up to the next gap or to its end, with their number. -/
def plainWord? (flow : Bool) : List Char → Option (List Char × Nat)
  | [] => some ([], 0)
  | c :: rest =>
    if isGap (some c) then some ([], 0)
    else if flow && c = ':' && rest.head?.any (fun d ↦ isFlowMark d || d = '?') then none
    else if c = ':' && isGap rest.head? then some ([], 0)
    else if flow && isFlowMark c then some ([], 0)
    else (plainWord? flow rest).map fun (word, count) ↦ (c :: word, count + 1)

/-- The character whose code has the given number of hexadecimal digits, and that number and one for the mark. -/
def codeEscape? (length : Nat) (text : List Char) : Option (Char × Nat) := do
  let digits := text.take length
  let code ← hexValue? digits
  if h : code.isValidChar ∧ digits.length = length then
    some (Char.ofNatAux code h.1, length + 1)
  else none

/-- The character of an escape behind its backslash, and how many characters the escape takes there. -/
def escape? : List Char → Option (Char × Nat)
  | [] => none
  | mark :: rest =>
    match mark with
    | '0' => some ('\x00', 1)
    | 'a' => some ('\x07', 1)
    | 'b' => some ('\x08', 1)
    | 't' | '\t' => some ('\t', 1)
    | 'n' => some ('\n', 1)
    | 'v' => some ('\x0b', 1)
    | 'f' => some ('\x0c', 1)
    | 'r' => some ('\r', 1)
    | 'e' => some ('\x1b', 1)
    | ' ' => some (' ', 1)
    | '"' => some ('"', 1)
    | '/' => some ('/', 1)
    | '\\' => some ('\\', 1)
    | 'N' => some ('\u0085', 1)
    | '_' => some ('\u00a0', 1)
    | 'L' => some ('\u2028', 1)
    | 'P' => some ('\u2029', 1)
    | 'x' => codeEscape? 2 rest
    | 'u' => codeEscape? 4 rest
    | 'U' => codeEscape? 8 rest
    | _ => none

/-- The characters between single quotes up to the next gap or to the closing quote, and how many they take. -/
def singleQuotedWord : List Char → List Char × Nat
  | '\'' :: '\'' :: rest =>
    let (word, count) := singleQuotedWord rest
    ('\'' :: word, count + 2)
  | [] => ([], 0)
  | c :: rest =>
    if isGap (some c) || c = '\'' then ([], 0)
    else
      let (word, count) := singleQuotedWord rest
      (c :: word, count + 1)

/--
The characters between double quotes up to the next gap, to the closing quote or to an escaped end of a line, and
how many they take.
-/
def doubleQuotedWord? (text : List Char) : Option (List Char × Nat) :=
  match text with
  | [] => some ([], 0)
  | '"' :: _ => some ([], 0)
  | '\\' :: rest =>
    if rest.head?.any isBreak then some ([], 0)
    else do
      let (c, length) ← escape? rest
      let (word, count) ← doubleQuotedWord? (rest.drop length)
      return (c :: word, count + length + 1)
  | c :: rest =>
    if isGap (some c) then some ([], 0)
    else do
      let (word, count) ← doubleQuotedWord? rest
      return (c :: word, count + 1)
termination_by text.length

/-- The word between quotes of a kind that comes next. -/
def quotedWord? (quote : Char) (text : List Char) : Option (List Char × Nat) :=
  if quote = '\'' then some (singleQuotedWord text) else doubleQuotedWord? text

/-- What stands between two words of a scalar. -/
inductive Gap where
  | blanks (text : List Char)
  /-- Ends of lines, the first one apart and the others last one first; the first is missing when it was escaped. -/
  | lines (first : Option Char) (more : List Char)

/-- How a gap counts, last character first. -/
def Gap.fold : Gap → List Char
  | blanks text => text.reverse
  | lines (some '\n') [] => [' ']
  | lines (some '\n') more => more
  | lines first more => more ++ first.toList

/-- Whether a gap goes over the end of a line. -/
def Gap.isBroken : Gap → Bool
  | blanks _ => false
  | lines .. => true

namespace Scan

/-- Goes past blanks and ends of lines; a tab before column `indent` of a new line is refused. -/
def gap (indent : Int) : Gap → Scan Gap :=
  many fun gap ↦ do
    let column := (← get).column
    let blanks ← takeWhile isBlank
    let spaces := (blanks.takeWhile (· = ' ')).length
    let gap := match gap with
      | .blanks text => .blanks (text ++ blanks)
      | .lines .. => gap
    if gap.isBroken && spaces < blanks.length && (column + spaces : Int) < indent then failure
    if (← next).any isBreak then
      let mark ← skipBreak
      match gap with
      | .blanks _ => return some (.lines (some mark) [])
      | .lines first more => return some (.lines first (mark :: more))
    else if blanks.isEmpty then return none
    else return some gap

/-- A plain scalar so far, the gap behind it, and whether it may go on. -/
structure PlainPart where
  reversed : List Char := []
  gap : Gap := .blanks []
  more : Bool := true

/-- A plain scalar; it goes on over lines that are indented deeper than the block around it. -/
def plain : Scan String := do
  let indent := (← get).indent + 1
  let flow ← inFlow
  let part ← many (fun part ↦ do
    if !part.more || (← atAnyDocumentMark) || (← next) = some '#' then return none
    let word ← take (plainWord? flow)
    let part : PlainPart :=
      if word.isEmpty then part
      else { reversed := word.reverse ++ part.gap.fold ++ part.reversed }
    if (← next).any fun c ↦ isBlank c || isBreak c then
      let gap ← gap indent (.blanks [])
      let column := (← get).column
      return some { part with gap, more := flow || indent ≤ column }
    else return some { part with more := false }) ({} : PlainPart)
  if part.gap.isBroken then allowKey true
  return String.ofList part.reversed.reverse

/-- A quoted scalar. -/
def quoted (quote : Char) : Scan String := do
  skip
  let (reversed, _) ← many (fun (reversed, closed) ↦ do
    if closed then return none
    if (← atAnyDocumentMark) || (← next).isNone then failure
    let word ← take (quotedWord? quote)
    let reversed := word.reverse ++ reversed
    if (← next) = some quote then
      skip
      return some (reversed, true)
    else
      let start ← if (← next) = some '\\' then do
          skip
          let _ ← skipBreak
          pure (Gap.lines none [])
        else pure (.blanks [])
      let gap ← gap (-1) start
      return some (gap.fold ++ reversed, false)) ([], false)
  return String.ofList reversed.reverse

/-- What becomes of the ends of lines behind a block scalar. -/
inductive Chomp where
  | strip
  | clip
  | keep
  deriving DecidableEq

/-- The chomping that a mark asks for. -/
def Chomp.ofChar? : Char → Option Chomp
  | '-' => some strip
  | '+' => some keep
  | _ => none

/-- The header of a block scalar: chomping and depth, each at most once and in any order. -/
def blockHeader : Scan (Chomp × Option Nat) := do
  let chomp? ← chomping
  let depth ← depth
  let chomp? ← match chomp?, depth with
    | none, some _ => chomping
    | chomp?, _ => pure chomp?
  skipLineEnd
  return (chomp?.getD .clip, depth)
where
  /-- A mark for chomping, if one comes. -/
  chomping : Scan (Option Chomp) := do
    let chomp? := (← next).bind Chomp.ofChar?
    if chomp?.isSome then skip
    return chomp?
  /-- A depth, if one comes. -/
  depth : Scan (Option Nat) := do
    match ← next with
    | some c =>
      if c = '0' then failure
      else if c.isDigit then
        skip
        return some (c.toNat - '0'.toNat)
      else return none
    | none => return none

/--
Goes past the empty lines before a line of a block scalar and past its indentation. The first line decides on the
depth if it is not known; the empty lines, last one first, and the depth are given.
-/
def blockBreaks (depth : Option Nat) : Scan (List Char × Nat) := do
  let (breaks, deepest, _) ← many (fun (breaks, deepest, done) ↦ do
    if done then return none
    let column := (← get).column
    let spaces := ((← rest).takeWhile (· = ' ')).length
    skipMany (match depth with
      | some depth => min spaces (depth - column)
      | none => spaces)
    let column := (← get).column
    if (← next) = some '\t' ∧ depth.all (column < ·) then failure
    let deepest := max deepest column
    if (← next).any isBreak then return some ((← skipBreak) :: breaks, deepest, false)
    else return some (breaks, deepest, true)) ([], 0, false)
  return (breaks, depth.getD (max deepest (max ((← get).indent + 1) 1).toNat))

/-- A block scalar so far: its text, the end of its last line and the empty lines behind it. -/
structure BlockPart where
  reversed : List Char := []
  lastBreak : List Char := []
  emptyLines : List Char
  /-- Whether the last line began with a blank. -/
  blank : Bool := false

/-- A block scalar behind its indicator; a folded one joins lines that do not begin with a blank. -/
def block (folded : Bool) : Scan String := do
  let (chomp, explicit) ← blockHeader
  let base := (max (← get).indent 0).toNat
  let (breaks, depth) ← blockBreaks (explicit.map (base + ·))
  let part ← many (fun part ↦ do
    let c? ← next
    if (← get).column ≠ depth || c?.isNone then return none
    let blank := c?.any isBlank
    let joint :=
      if folded && part.lastBreak = ['\n'] && !part.blank && !blank then
        if part.emptyLines.isEmpty then [' '] else []
      else part.lastBreak
    let line ← takeWhile (!isBreak ·)
    let lastBreak ← if (← next).isSome then (do return [← skipBreak]) else pure []
    let (emptyLines, _) ← blockBreaks (some depth)
    let reversed := line.reverse ++ part.emptyLines ++ joint ++ part.reversed
    return some { reversed, lastBreak, emptyLines, blank }) ({ emptyLines := breaks } : BlockPart)
  let reversed := match chomp with
    | .strip => part.reversed
    | .clip => part.lastBreak ++ part.reversed
    | .keep => part.emptyLines ++ part.lastBreak ++ part.reversed
  return String.ofList reversed.reverse

end Scan

end Cityscape.Yaml
