import Cityscape.Token.Kind
import Cityscape.Token.Trie

/-!
# The automaton of the lexical classes

A deterministic automaton over characters and the end of the input. Keywords are laid over the
identifiers as a trie: as long as the letters read so far begin a keyword the state says how the
keyword may go on, and every other letter or digit falls back to the states of plain identifiers.
-/

namespace Cityscape

/-- One input of the automaton. Specification, section 10.6. -/
inductive Code where
  | char (c : Char)
  | finish
  deriving DecidableEq, Repr

/-- Where the automaton is inside a lexeme. Specification, section 4.1. -/
inductive State where
  /-- No lexeme begins with what was read. -/
  | dead
  | start
  /-- Letters that begin a keyword: the kind of the word read, if it is one, and how it may go on. -/
  | word (kind : Option Kind) (below : Trie Kind)
  /-- Letters that begin no keyword. -/
  | letters
  | lettersDigits
  | digits
  /-- Digits and a point, still without a fraction. -/
  | point
  | fraction
  /-- A string without its closing quote. -/
  | quote
  | quoted
  | mark (mark : Mark)
  /-- An exclamation mark, half of a comparison. -/
  | bang
  | blank
  | finish
  deriving DecidableEq, Repr

/-- The characters that separate tokens. Specification, section 10.6. -/
def isBlank (c : Char) : Bool :=
  c = ' ' || c = '\t' || c = '\r' || c = '\n'

/-- The characters of string literals between their quotes. Specification, section 10.6. -/
def isQuotable (c : Char) : Bool :=
  c.isAlpha || c.isDigit || c = ' ' || c = '.' || c = ','

/-- The keywords with their kinds, as a trie. -/
def keywords : Trie Kind :=
  .ofList (Keyword.all.map fun word ↦ (word.spelling.toList, .keyword word))

namespace State

/-- The kind of the lexeme read, if it is complete. Specification, section 4.1. -/
def symbol : State → Option Kind
  | dead | start | point | quote | bang => none
  | word kind _ => some (kind.getD .identifier)
  | letters | lettersDigits => some .identifier
  | digits => some .integer
  | fraction => some .double
  | quoted => some .string
  | mark m => some (.mark m)
  | blank => some .blank
  | finish => some .finish

/-- Reads a letter where the words of a trie may begin or go on. -/
def spell (trie : Trie Kind) (c : Char) : State :=
  match trie.follow? c with
  | some (kind, below) => word kind below
  | none => letters

/-- The first character of a lexeme. -/
def opening (words : Trie Kind) (c : Char) : State :=
  if c.isAlpha then spell words c
  else if c.isDigit then digits
  else if isBlank c then blank
  else if c = '"' then quote
  else if c = '!' then bang
  else match Mark.ofChar? c with
    | some m => mark m
    | none => dead

/-- One step on a character. -/
def read (words : Trie Kind) : State → Char → State
  | start, c => opening words c
  | word _ below, c =>
    if c.isAlpha then spell below c else if c.isDigit then lettersDigits else dead
  | letters, c => if c.isAlpha then letters else if c.isDigit then lettersDigits else dead
  | lettersDigits, c => if c.isDigit then lettersDigits else dead
  | digits, c => if c.isDigit then digits else if c = '.' then point else dead
  | point, c => if c.isDigit then fraction else dead
  | fraction, c => if c.isDigit then fraction else dead
  | quote, c => if c = '"' then quoted else if isQuotable c then quote else dead
  | mark .assign, c => if c = '=' then mark .equal else dead
  | bang, c => if c = '=' then mark .notEqual else dead
  | blank, c => if isBlank c then blank else dead
  | dead, _ | quoted, _ | mark _, _ | finish, _ => dead

/-- One step on any input; the end is accepted between lexemes only. Specification, section 4.1. -/
def next (words : Trie Kind) : State → Code → State
  | state, .char c => state.read words c
  | start, .finish => finish
  | _, .finish => dead

/-- No lexeme is begun twice. -/
theorem read_ne_start (words : Trie Kind) (state : State) (c : Char) : state.read words c ≠ start := by
  cases state with
  | start =>
    simp only [read, opening, spell]
    repeat' split
    all_goals nofun
  | mark m =>
    cases m <;> simp only [read] <;> repeat' split
    all_goals nofun
  | _ =>
    simp only [read, spell]
    repeat' split
    all_goals nofun

/-- The end of the input is accepted between lexemes only. -/
theorem next_finish {words : Trie Kind} {state : State} (h : state ≠ start) : state.next words .finish = dead := by
  cases state with
  | start => exact absurd rfl h
  | _ => rfl

end State

end Cityscape
