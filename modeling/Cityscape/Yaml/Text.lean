import Cityscape.Decimal.Style
import Cityscape.Yaml.Token

/-!
# Writing scalars

How strings and numbers are written as values of a mapping. A string is written plainly where it reads back as
that string, in a block where it has several lines, and in quotes otherwise.
-/

namespace Cityscape.Yaml

/-- Doubles keep a point and its digit; a plus has no sign, and a half goes to the even digit. -/
def numeral : Decimal.Style where
  tie := .even
  positional := fun lead ↦ -5 ≤ lead && lead < 16
  whole := ".0"
  plus := ""
  notANumber := ".nan"
  infinity := ".inf"
  negativeInfinity := "-.inf"

/-- The ways to write a string. -/
inductive Quotation where
  | plain
  | single
  | double
  | literal
  deriving DecidableEq, Repr

/-- Whether a character is written as it is. -/
def isPrintable (c : Char) : Bool :=
  c = '\n' || (0x20 ≤ c.toNat && c.toNat ≤ 0x7e) ||
    (0xa0 ≤ c.toNat && c.toNat ≤ 0xfffd && c ≠ '\ufeff') || 0x10000 ≤ c.toNat

/-- Whether a mark inside a plain scalar would end it. -/
def hasInnerMark : List Char → Bool
  | a :: b :: rest => (a = ':' && isBlank b) || (isBlank a && b = '#') || hasInnerMark (b :: rest)
  | [a] => a = ':'
  | [] => false

/-- Whether a mark at the beginning makes a text something else than a plain scalar. -/
def hasOuterMark : List Char → Bool
  | [] => false
  | '-' :: '-' :: '-' :: _ | '.' :: '.' :: '.' :: _ => true
  | c :: rest =>
    "#,[]\x7b\x7d&*!|>'\"%@`".toList.contains c ||
      ((c = '?' || c = ':' || c = '-') && isGap rest.head?)

/-- Whether a text is a plain scalar as it stands. -/
def isPlainSafe (text : List Char) : Bool :=
  text.all isPrintable && !text.any isBreak && text.head? ≠ some ' ' && text.getLast? ≠ some ' '
    && !hasOuterMark text && !hasInnerMark text

/-- Whether a space stands before the end of a line. -/
def hasSpaceBreak : List Char → Bool
  | a :: b :: rest => (a = ' ' && isBreak b) || hasSpaceBreak (b :: rest)
  | _ => false

/-- Whether a line begins with a space, the first line apart. -/
def hasBreakSpace : List Char → Bool
  | a :: b :: rest => (isBreak a && b = ' ') || hasBreakSpace (b :: rest)
  | _ => false

/--
How a text is written; `ambiguous` tells that a plain one would read back as something else. A block cannot hold
spaces at the end of a line, and single quotes cannot hold any around it.
-/
def quotation (ambiguous : Bool) (text : List Char) : Quotation :=
  let foldable := text.all isPrintable && !hasSpaceBreak text
  if text.contains '\n' then
    if foldable && text.getLast? ≠ some ' ' then .literal else .double
  else if !ambiguous && isPlainSafe text then .plain
  else if foldable && !hasBreakSpace text then .single
  else .double

/-- Hexadecimal digits in capitals, at least `width` of them. -/
def hexDigits (width code : Nat) : List Char :=
  let digits := (Nat.toDigits 16 code).map Char.toUpper
  List.replicate (width - digits.length) '0' ++ digits

/-- A character between double quotes. -/
def escapeChar (c : Char) : List Char :=
  match c with
  | '\x00' => ['\\', '0']
  | '\x07' => ['\\', 'a']
  | '\x08' => ['\\', 'b']
  | '\t' => ['\\', 't']
  | '\n' => ['\\', 'n']
  | '\x0b' => ['\\', 'v']
  | '\x0c' => ['\\', 'f']
  | '\r' => ['\\', 'r']
  | '\x1b' => ['\\', 'e']
  | '"' => ['\\', '"']
  | '\\' => ['\\', '\\']
  | '\u0085' => ['\\', 'N']
  | '\u2028' => ['\\', 'L']
  | '\u2029' => ['\\', 'P']
  | c =>
    if isPrintable c then [c]
    else if c.toNat ≤ 0xff then '\\' :: 'x' :: hexDigits 2 c.toNat
    else if c.toNat ≤ 0xffff then '\\' :: 'u' :: hexDigits 4 c.toNat
    else '\\' :: 'U' :: hexDigits 8 c.toNat

/-- The header of a block: the depth if the first line does not show it, and what becomes of the last breaks. -/
def blockHeader (text : List Char) : List Char :=
  let depth := if text.head?.any fun c ↦ c = ' ' || isBreak c then ['2'] else []
  let chomp := match text.reverse with
    | [] => ['-']
    | last :: rest =>
      if !isBreak last then ['-']
      else if rest.head?.all isBreak then ['+']
      else []
  '|' :: depth ++ chomp

/-- Text with two blanks before every line that is not empty; `fresh` tells that a line begins. -/
def indentLines (fresh : Bool) : List Char → List Char
  | [] => []
  | c :: rest =>
    if isBreak c then c :: indentLines true rest
    else (if fresh then [' ', ' ', c] else [c]) ++ indentLines false rest

/-- Text between single quotes, with two blanks before every line but the first that is not empty. -/
def singleQuoted (fresh : Bool) : List Char → List Char
  | [] => if fresh then [' ', ' '] else []
  | c :: rest =>
    if isBreak c then c :: singleQuoted true rest
    else
      (if fresh then [' ', ' '] else []) ++ (if c = '\'' then ['\'', '\''] else [c])
        ++ singleQuoted false rest

/-- A text written in one of the ways. -/
def Quotation.write (text : List Char) : Quotation → List Char
  | plain => text
  | single => '\'' :: singleQuoted false text ++ ['\'']
  | double => '"' :: text.flatMap escapeChar ++ ['"']
  | literal => blockHeader text ++ '\n' :: indentLines true text

/-- An entry of a mapping, ending its line. -/
def entry (key : String) (value : List Char) : String :=
  key ++ ": " ++ String.ofList (if value.getLast?.any isBreak then value else value ++ ['\n'])

end Cityscape.Yaml
