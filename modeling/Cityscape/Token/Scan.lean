import Cityscape.Token
import Cityscape.Token.Automaton

/-!
# Scanning

A source is a sequence of bytes, seen here as characters below 256. The automaton is run from its start
for as long as it lives, and its last live state decides what was read; the character that killed it is
the first of the next lexeme. A lexeme that is not complete then is a lexical fault.
-/

namespace Cityscape

/-- A source text: one character for each byte. -/
abbrev Source := List Char

/-- The source made of these bytes. -/
def Source.ofBytes (bytes : ByteArray) : Source :=
  bytes.data.toList.map fun byte ↦ Char.ofNat byte.toNat

/-- The source made of the bytes of a text. -/
def Source.ofString (text : String) : Source :=
  (text.toList.flatMap String.utf8EncodeChar).map fun byte ↦ Char.ofNat byte.toNat

/-- The characters an automaton survived, the state it reached and the characters left. -/
structure Munch where
  taken : List Char
  state : State
  rest : List Char

/-- Runs the automaton for as long as it lives. Specification, section 4.1. -/
def munch (words : Trie Kind) (state : State) : List Char → Munch
  | [] => ⟨[], state, []⟩
  | c :: rest =>
    if state.read words c = .dead then ⟨[], state, c :: rest⟩
    else
      let further := munch words (state.read words c) rest
      { further with taken := c :: further.taken }

/-- What was taken and what is left make up the text. -/
theorem taken_append_rest (words : Trie Kind) (state : State) (text : List Char) :
    (munch words state text).taken ++ (munch words state text).rest = text := by
  induction text generalizing state with
  | nil => rfl
  | cons c rest ih =>
    unfold munch
    split
    · rfl
    · simpa using ih (state.read words c)

/-- An incomplete lexeme and what stood behind it; `none` is the end of the input. Specification, section 10.6. -/
structure LexicalFault where
  lexeme : String
  found : Option Char
  position : Position
  deriving DecidableEq, Repr

/-- How a source ends: properly, with a token that says so, or with a fault. -/
inductive Ending where
  | finish (token : Token)
  | fault (fault : LexicalFault)
  deriving DecidableEq, Repr

/-- The tokens of a source and how it ends. -/
structure Scan where
  tokens : List Token
  ending : Ending
  deriving DecidableEq, Repr

/-- The scan with one more token in front. -/
def Scan.push (token : Token) (scan : Scan) : Scan :=
  { scan with tokens := token :: scan.tokens }

/-- Scans a text that begins at a position, with these keywords. Specification, section 4.1. -/
def scanFrom (words : Trie Kind) (here : Position) (text : List Char) : Scan :=
  match text with
  | [] => ⟨[], .finish ⟨.finish, "", here⟩⟩
  | c :: rest =>
    let run := munch words .start (c :: rest)
    let there := here.afterAll run.taken
    if run.taken = [] then ⟨[], .fault ⟨"", some c, here⟩⟩
    else match run.state.symbol with
      | none => ⟨[], .fault ⟨String.ofList run.taken, run.rest.head?, there⟩⟩
      | some .blank => scanFrom words there run.rest
      | some kind => (scanFrom words there run.rest).push ⟨kind, String.ofList run.taken, here⟩
termination_by text.length
decreasing_by
  all_goals
    have split := congrArg List.length (taken_append_rest words .start (c :: rest))
    have := List.length_pos_iff.mpr ‹¬ run.taken = []›
    simp only [List.length_append] at split
    simp only [run] at *
    omega

/-- Scans a source with the keywords of city scripts. -/
def scan (source : Source) : Scan :=
  scanFrom keywords .first source

/-- The tokens of a source, the last one of kind `finish`, or its first lexical fault. -/
def tokenize (source : Source) : Except LexicalFault (List Token) :=
  match scan source with
  | ⟨tokens, .finish last⟩ => .ok (tokens ++ [last])
  | ⟨_, .fault fault⟩ => .error fault

end Cityscape
