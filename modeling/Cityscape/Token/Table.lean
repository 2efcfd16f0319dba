import Cityscape.Token.Automaton

/-!
# The automaton as a table

The states of an automaton can be numbered and laid out in a table, with a row for each of them: the kind it is
complete for, and the number of the state that every input leads to. First come the states that need no keywords.
Keywords are threaded through them letter by letter: where a letter leads to the state of plain identifiers a new
state takes its place, from which all letters and digits fall back to the states of plain identifiers.
-/

namespace Cityscape

/-- A deterministic automaton; transitions that are not defined lead to the dead state. Specification, section 4.1. -/
structure Dfa (σ : Type) where
  start : σ
  dead : σ
  next : σ → Code → σ
  /-- The kind that a state is complete for. -/
  symbol : σ → Option Kind

namespace Dfa

variable {σ : Type} (dfa : Dfa σ)

/-- The state that some inputs lead to. -/
def run (codes : List Code) : σ :=
  codes.foldl dfa.next dfa.start

/-- The state that a text leads to. -/
def reach (text : List Char) : σ :=
  dfa.run (text.map .char)

/-- The kind that the state behind a text is complete for. -/
def classify? (text : List Char) : Option Kind :=
  dfa.symbol (dfa.reach text)

/-- One more input. -/
theorem run_concat (codes : List Code) (code : Code) :
    dfa.run (codes ++ [code]) = dfa.next (dfa.run codes) code := by
  rw [run, List.foldl_append]
  rfl

/-- Nothing read yet. -/
theorem reach_nil : dfa.reach [] = dfa.start := rfl

/-- One more character. -/
theorem reach_concat (text : List Char) (c : Char) :
    dfa.reach (text ++ [c]) = dfa.next (dfa.reach text) (.char c) := by
  rw [reach, List.map_append]
  exact dfa.run_concat _ _

end Dfa

/-- The automaton whose states say what they mean, with these keywords. -/
def State.dfa (words : Trie Kind) : Dfa State :=
  ⟨.start, .dead, State.next words, State.symbol⟩

/-- The number of the state behind a mark. -/
def Mark.number : Mark → Nat
  | openParen => 9
  | closeParen => 10
  | openBracket => 11
  | closeBracket => 12
  | openBrace => 13
  | closeBrace => 14
  | comma => 15
  | plus => 16
  | minus => 17
  | less => 18
  | greater => 19
  | assign => 20
  | equal => 21
  | notEqual => 23

/-- The number of a state; where no keywords are known, their letters are those of plain identifiers. -/
def State.number : State → Nat
  | dead => 0
  | start => 1
  | letters | word .. => 2
  | lettersDigits => 3
  | digits => 4
  | point => 5
  | fraction => 6
  | quote => 7
  | quoted => 8
  | mark m => m.number
  | bang => 22
  | blank => 24
  | finish => 25

/-- One state of a table: the kind that it is complete for, and the state that every input leads to. -/
structure Row where
  symbol : Option Kind
  next : Code → Nat

/-- A state from which nothing leads on. -/
def Row.blank (symbol : Option Kind) : Row :=
  ⟨symbol, fun _ ↦ State.dead.number⟩

/-- The states of an automaton by their numbers. Specification, sections 4.1 and 9. -/
structure Table where
  rows : Array Row

namespace Table

variable (table : Table)

/-- How many states there are; the next one gets this number. -/
def size : Nat :=
  table.rows.size

/-- The row of a state; a number that no state has is as good as dead. -/
def row (state : Nat) : Row :=
  table.rows[state]?.getD (.blank none)

/-- One step. -/
def next (state : Nat) (code : Code) : Nat :=
  (table.row state).next code

/-- The kind that a state is complete for. -/
def symbol (state : Nat) : Option Kind :=
  (table.row state).symbol

/-- The automaton that a table describes. -/
def dfa : Dfa Nat :=
  ⟨State.start.number, State.dead.number, table.next, table.symbol⟩

/-- Adds a state from which nothing leads on. -/
def add (symbol : Option Kind) : Table :=
  ⟨table.rows.push (.blank symbol)⟩

/-- From one state, an input leads to another one from now on. -/
def set (source : Nat) (code : Code) (target : Nat) : Table :=
  ⟨table.rows.modify source fun row ↦
    { row with next := fun other ↦ if other = code then target else row.next other }⟩

/-- From one state, all of these characters lead to another one from now on. -/
def setAll (source : Nat) (chars : List Char) (target : Nat) : Table :=
  chars.foldl (fun table c ↦ table.set source (.char c) target) table

/-- A state is complete for this kind from now on. -/
def complete (state : Nat) (kind : Kind) : Table :=
  ⟨table.rows.modify state fun row ↦ { row with symbol := some kind }⟩

section

variable {table} {source : Nat}

@[simp]
theorem dfa_start : table.dfa.start = State.start.number := rfl

@[simp]
theorem dfa_dead : table.dfa.dead = State.dead.number := rfl

@[simp]
theorem dfa_next : table.dfa.next = table.next := rfl

@[simp]
theorem dfa_symbol : table.dfa.symbol = table.symbol := rfl

@[simp]
theorem size_mk (rows : Array Row) : (mk rows).size = rows.size := rfl

@[simp]
theorem size_add (symbol : Option Kind) : (table.add symbol).size = table.size + 1 :=
  Array.size_push _

@[simp]
theorem size_set (source : Nat) (code : Code) (target : Nat) : (table.set source code target).size = table.size :=
  Array.size_modify

@[simp]
theorem size_setAll (source : Nat) (chars : List Char) (target : Nat) :
    (table.setAll source chars target).size = table.size := by
  induction chars generalizing table with
  | nil => rfl
  | cons c chars ih => rw [setAll, List.foldl_cons, ← setAll, ih, size_set]

@[simp]
theorem size_complete (state : Nat) (kind : Kind) : (table.complete state kind).size = table.size :=
  Array.size_modify

/-- No state has a number from the size on. -/
theorem row_of_le {state : Nat} (h : table.size ≤ state) : table.row state = .blank none := by
  rw [row, Array.getElem?_eq_none h]
  rfl

private theorem row_add (symbol : Option Kind) (state : Nat) :
    (table.add symbol).row state = if state = table.size then .blank symbol else table.row state := by
  by_cases h : state = table.rows.size <;> simp [row, add, size, Array.getElem?_push, h]

/-- The row of a changed state. -/
theorem row_modify (h : source < table.size) (change : Row → Row) (state : Nat) :
    (Table.mk (table.rows.modify source change)).row state =
      if state = source then change (table.row state) else table.row state := by
  simp only [row, Array.getElem?_modify, eq_comm (a := source)]
  split
  · next hs =>
    rw [hs, Array.getElem?_eq_getElem h]
    rfl
  · rfl

/-- A new state leads nowhere, like a number that no state has. -/
@[simp]
theorem next_add (symbol : Option Kind) (state : Nat) (code : Code) :
    (table.add symbol).next state code = table.next state code := by
  rw [next, row_add]
  split
  · next h =>
    rw [next, row_of_le (Nat.le_of_eq h.symm)]
    rfl
  · rfl

@[simp]
theorem symbol_add (symbol : Option Kind) (state : Nat) :
    (table.add symbol).symbol state = if state = table.size then symbol else table.symbol state := by
  rw [Table.symbol, row_add]
  split <;> rfl

@[simp]
theorem next_set (h : source < table.size) (code : Code) (target state : Nat) (other : Code) :
    (table.set source code target).next state other =
      if state = source ∧ other = code then target else table.next state other := by
  rw [next, set, row_modify h]
  by_cases hs : state = source <;> simp [hs, next]

@[simp]
theorem symbol_set (h : source < table.size) (code : Code) (target state : Nat) :
    (table.set source code target).symbol state = table.symbol state := by
  rw [symbol, set, row_modify h]
  split <;> rfl

@[simp]
theorem next_setAll (h : source < table.size) (chars : List Char) (target state : Nat) (other : Code) :
    (table.setAll source chars target).next state other =
      if state = source ∧ other ∈ chars.map .char then target else table.next state other := by
  induction chars generalizing table with
  | nil => simp [setAll]
  | cons c chars ih =>
    rw [setAll, List.foldl_cons, ← setAll, ih (by simpa using h), next_set h]
    by_cases hs : state = source <;> by_cases hc : other = .char c <;> simp [hs, hc]

@[simp]
theorem symbol_setAll (h : source < table.size) (chars : List Char) (target state : Nat) :
    (table.setAll source chars target).symbol state = table.symbol state := by
  induction chars generalizing table with
  | nil => rfl
  | cons c chars ih => rw [setAll, List.foldl_cons, ← setAll, ih (by simpa using h), symbol_set h]

@[simp]
theorem next_complete (h : source < table.size) (kind : Kind) (state : Nat) (code : Code) :
    (table.complete source kind).next state code = table.next state code := by
  rw [next, complete, row_modify h]
  split <;> rfl

@[simp]
theorem symbol_complete (h : source < table.size) (kind : Kind) (state : Nat) :
    (table.complete source kind).symbol state = if state = source then some kind else table.symbol state := by
  rw [symbol, complete, row_modify h]
  split <;> rfl

end

/-- As many characters, of consecutive codes, from the first one on. -/
def span (first : Char) (length : Nat) : List Char :=
  (List.range' first.toNat length).map Char.ofNat

/-- The letters. -/
def alphabet : List Char :=
  span 'a' 26 ++ span 'A' 26

/-- The digits. -/
def numerals : List Char :=
  span '0' 10

/-- What strings hold besides letters and digits. -/
def punctuation : List Char :=
  [' ', '.', ',']

/-- What separates tokens. -/
def blanks : List Char :=
  [' ', '\t', '\r', '\n']

/-- Adds the state behind a mark of one character. -/
def addMark (c : Char) (m : Mark) : Table :=
  (table.add (some (.mark m))).set State.start.number (.char c) table.size

open State in
/-- The table without keywords. -/
def base : Table :=
  Table.mk #[.blank none]
    |>.add none
    -- letters, then digits
    |>.add (some .identifier)
    |>.add (some .identifier)
    |>.setAll start.number alphabet letters.number
    |>.setAll letters.number alphabet letters.number
    |>.setAll letters.number numerals lettersDigits.number
    |>.setAll lettersDigits.number numerals lettersDigits.number
    -- digits, then a point and digits
    |>.add (some .integer)
    |>.add none
    |>.add (some .double)
    |>.setAll start.number numerals digits.number
    |>.setAll digits.number numerals digits.number
    |>.set digits.number (.char '.') point.number
    |>.setAll point.number numerals fraction.number
    |>.setAll fraction.number numerals fraction.number
    -- strings
    |>.add none
    |>.add (some .string)
    |>.set start.number (.char '"') quote.number
    |>.setAll quote.number alphabet quote.number
    |>.setAll quote.number numerals quote.number
    |>.setAll quote.number punctuation quote.number
    |>.set quote.number (.char '"') quoted.number
    -- marks
    |>.addMark '(' .openParen
    |>.addMark ')' .closeParen
    |>.addMark '[' .openBracket
    |>.addMark ']' .closeBracket
    |>.addMark '\x7b' .openBrace
    |>.addMark '\x7d' .closeBrace
    |>.addMark ',' .comma
    |>.addMark '+' .plus
    |>.addMark '-' .minus
    |>.addMark '<' .less
    |>.addMark '>' .greater
    |>.add (some (.mark .assign))
    |>.add (some (.mark .equal))
    |>.set start.number (.char '=') Mark.assign.number
    |>.set Mark.assign.number (.char '=') Mark.equal.number
    |>.add none
    |>.add (some (.mark .notEqual))
    |>.set start.number (.char '!') bang.number
    |>.set bang.number (.char '=') Mark.notEqual.number
    -- blanks and the end
    |>.add (some .blank)
    |>.setAll start.number blanks blank.number
    |>.setAll blank.number blanks blank.number
    |>.add (some .finish)
    |>.set start.number .finish finish.number

/-- Adds a state behind a letter; it is complete for identifiers, and what follows falls back to plain ones. -/
def fork (source : Nat) (c : Char) : Table :=
  table.add (some .identifier)
    |>.setAll table.size alphabet State.letters.number
    |>.setAll table.size numerals State.lettersDigits.number
    |>.set source (.char c) table.size

/-- Follows letters from a state on, where they have no states of their own through new ones, to the last state. -/
def thread (table : Table) (source : Nat) : List Char → Table × Nat
  | [] => (table, source)
  | c :: word =>
    let target := table.next source (.char c)
    if target ≠ State.dead.number ∧ target ≠ State.letters.number then table.thread target word
    else (table.fork source c).thread table.size word

/-- Adds a keyword. -/
def addKeyword (word : List Char) (kind : Kind) : Table :=
  let (threaded, last) := table.thread State.start.number word
  threaded.complete last kind

/-- The table with these keywords, added one after the other. -/
def ofList (words : List (List Char × Kind)) : Table :=
  words.foldl (fun table (word, kind) ↦ table.addKeyword word kind) base

/-- The table with the keywords of city scripts. -/
def keywords : Table :=
  .ofList (Keyword.all.map fun word ↦ (word.spelling.toList, .keyword word))

end Table

end Cityscape
