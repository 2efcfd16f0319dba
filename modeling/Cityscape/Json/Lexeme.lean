import Cityscape.Hexadecimal
import Cityscape.Json

/-!
# JSON literals

The parts of a JSON text that hold no other values: strings, numbers and the three words. Each reader takes
the characters ahead and gives what it read together with what is left.
-/

namespace Cityscape.Json

/-- Why a JSON text is refused. -/
inductive Fault where
  /-- The text is not JSON, or a number or the nesting is out of range. -/
  | malformed
  /-- The text ends too early. -/
  | truncated
  /-- The text is JSON so far, but not what was asked for. -/
  | unfit
  deriving DecidableEq, Repr

/-- The value of the four hexadecimal digits ahead; fewer than four bytes are the end of the text. -/
def hexQuad (text : List Char) : Except Fault Nat :=
  if (text.take 4).foldr (·.utf8Size + ·) 0 < 4 then .error .truncated
  else match hexValue? (text.take 4) with
    | some value => .ok value
    | none => .error .malformed

/-- Whether a code unit is the first half of a character outside the basic plane. -/
def isLeading (unit : Nat) : Bool :=
  0xd800 ≤ unit && unit < 0xdc00

/-- Whether a code unit is the second half of a character outside the basic plane. -/
def isTrailing (unit : Nat) : Bool :=
  0xdc00 ≤ unit && unit < 0xe000

/-- The character of a numeric escape behind its mark, and how many characters the escape takes. -/
def unicodeEscape (text : List Char) : Except Fault (Char × Nat) := do
  let unit ← hexQuad text
  if isTrailing unit then throw .malformed
  else if isLeading unit then
    match text.drop 4 with
    | [] => throw .truncated
    | ['\\'] => throw .truncated
    | '\\' :: 'u' :: rest =>
      let second ← hexQuad rest
      if isTrailing second then
        return (Char.ofNat ((unit - 0xd800) * 0x400 + (second - 0xdc00) + 0x10000), 10)
      else throw .malformed
    | _ => throw .malformed
  else return (Char.ofNat unit, 4)

/-- The character that an escape of one letter stands for. -/
def shortEscape? : Char → Option Char
  | '"' => some '"'
  | '\\' => some '\\'
  | '/' => some '/'
  | 'b' => some '\x08'
  | 'f' => some '\x0c'
  | 'n' => some '\n'
  | 'r' => some '\r'
  | 't' => some '\t'
  | _ => none

/-- The character of an escape behind its backslash, and how many characters the escape takes. -/
def escapeAhead : List Char → Except Fault (Char × Nat)
  | [] => .error .truncated
  | 'u' :: rest => do
    let (c, length) ← unicodeEscape rest
    return (c, length + 1)
  | mark :: _ =>
    match shortEscape? mark with
    | some c => .ok (c, 1)
    | none => .error .malformed

/-- As `escapeAhead` for a string whose value does not matter: halves of characters may stand alone. -/
def looseEscapeAhead : List Char → Except Fault (Char × Nat)
  | 'u' :: rest => do
    let _ ← hexQuad rest
    return ('u', 5)
  | text => escapeAhead text

/-- A string behind its opening quote, up to and with its closing one. -/
def stringBody (escape : List Char → Except Fault (Char × Nat)) (text : List Char) :
    Except Fault (List Char × List Char) :=
  match text with
  | [] => .error .truncated
  | '"' :: rest => .ok ([], rest)
  | '\\' :: rest => do
    let (c, length) ← escape rest
    let (body, rest) ← stringBody escape (rest.drop length)
    return (c :: body, rest)
  | c :: rest =>
    if c.toNat < 0x20 then .error .malformed
    else do
      let (body, rest) ← stringBody escape rest
      return (c :: body, rest)
termination_by text.length

/-- The parts of a number without its sign. -/
structure NumberParts where
  whole : List Char
  fraction : Option (List Char)
  exponent : Option Int

/-- Digits without a needless leading zero; `ended` is the fault of a text that ends here. -/
def wholeDigits (ended : Fault) (text : List Char) : Except Fault (List Char × List Char) :=
  match text with
  | [] => .error ended
  | '0' :: rest =>
    if rest.head?.any Char.isDigit then .error .malformed else .ok (['0'], rest)
  | c :: _ => if c.isDigit then .ok (text.span Char.isDigit) else .error .malformed

/-- At least one digit. -/
def someDigits (ended : Fault) (text : List Char) : Except Fault (List Char × List Char) :=
  match text with
  | [] => .error ended
  | c :: _ => if c.isDigit then .ok (text.span Char.isDigit) else .error .malformed

/-- A number behind its sign; `ended` is the fault of a text that ends inside it. -/
def numberParts (ended : Fault) (text : List Char) : Except Fault (NumberParts × List Char) := do
  let (whole, rest) ← wholeDigits ended text
  let (fraction, rest) ← match rest with
    | '.' :: rest => do
      let (digits, rest) ← someDigits ended rest
      pure (some digits, rest)
    | rest => pure (none, rest)
  let (exponent, rest) ← match rest with
    | mark :: after =>
      if mark = 'e' ∨ mark = 'E' then do
        let (negative, after) := Decimal.splitSign after
        let (digits, after) ← someDigits ended after
        let size : Int := Decimal.ofDigits digits
        pure (some (if negative then -size else size), after)
      else pure (none, rest)
    | [] => pure (none, rest)
  return (⟨whole, fraction, exponent⟩, rest)

/--
How the library that reads JSON makes a double of a number. There is none for a number beyond the doubles, which is
refused. The readers do not depend on how it rounds: a number that was written need not be read as the same one.
-/
class Numerals where
  double? (negative : Bool) (parts : NumberParts) : Option Float
  finite {negative : Bool} {parts : NumberParts} {value : Float} :
    double? negative parts = some value → value.isFinite = true

/-- The value of a number: whole numbers of sixty-four bits stay whole, all others are doubles. -/
def NumberParts.toJson [Numerals] (negative : Bool) (parts : NumberParts) : Except Fault Json :=
  let whole := Decimal.ofDigits parts.whole
  if parts.fraction.isNone && parts.exponent.isNone && !negative && whole < UInt64.size then
    .ok (.integer whole)
  else if parts.fraction.isNone && parts.exponent.isNone && negative && 0 < whole && whole ≤ UInt64.size / 2 then
    .ok (.integer (-whole))
  else match Numerals.double? negative parts with
    | some value => .ok (.double value)
    | none => .error .malformed

/-- The rest of a word that has to stand here. -/
def literal (word text : List Char) : Except Fault (List Char) :=
  match word, text with
  | [], text => .ok text
  | _, [] => .error .truncated
  | a :: word, b :: text => if a = b then literal word text else .error .malformed

end Cityscape.Json
