import Cityscape.Element
import Cityscape.Fault
import Cityscape.Journal
import Cityscape.Scope

/-!
# A compilation in progress

A script is read token by token, and what it says is done at once: variables are declared, elements are
completed, the journal is kept. A session holds all of that together with the tokens still to come, and
it survives a fault, so that what was done before the fault can still be seen.
-/

namespace Cityscape

/-- The token being looked at, what comes after it, and what has been done so far. Specification, section 5. -/
structure Session where
  current : Token
  ahead : List Token
  /-- What comes behind the last token. -/
  ending : Ending
  scopes : Scopes := .empty
  /-- The elements drawn so far. -/
  elements : List Element := []
  /-- The features emitted so far. -/
  features : List Feature := []
  journal : Journal

/-- The session with one more element drawn and its feature emitted. -/
def Session.complete (session : Session) (element : Element) : Session :=
  { session with
    elements := session.elements ++ [element], features := session.features ++ [element.feature] }

/-- A step of a compilation. -/
abbrev Compile := EStateM Fault Session

namespace Compile

/-- The token being looked at. -/
def current : Compile Token := do
  return (← get).current

/-- The kind of the token being looked at. -/
def peek : Compile Kind := do
  return (← current).kind

/-- The variables declared so far. -/
def scopes : Compile Scopes := do
  return (← get).scopes

/-- Refuses the script because of what was found at a token. -/
def refuse {α : Type} (cause : Cause) (token : Token) : Compile α :=
  throw ⟨cause, token.position⟩

/-- Refuses the token being looked at. -/
def unexpected {α : Type} (expected : Expected) : Compile α := do
  let token ← current
  refuse (.unexpected expected token) token

/--
Goes on to the next token and gives the one left behind. A lexical fault shows as soon as it would be the next
token; the end of the input is never left. Specification, section 5.
-/
def advance : Compile Token := do
  let session ← get
  match session.ahead, session.ending with
  | next :: ahead, _ => set { session with current := next, ahead }
  | [], .finish last => set { session with current := last }
  | [], .fault fault => throw (.ofLexical fault)
  return session.current

/-- Goes past a token of the given kind and gives it. -/
def expect (kind : Kind) : Compile Token := do
  if (← peek) = kind then advance else unexpected (.kind kind)

/-- Goes past a mark. -/
def expectMark (mark : Mark) : Compile Unit := do
  let _ ← expect (.mark mark)

/-- Goes past a keyword and gives its token. -/
def expectWord (word : Keyword) : Compile Token :=
  expect (.keyword word)

/-- Goes past a string literal and gives what its quotes hold. -/
def expectString : Compile String := do
  return (← expect .string).unquoted

/-- Adds a record to the journal. -/
def note (line : Nat) (message : String) : Compile Unit :=
  modify fun session ↦ { session with journal := session.journal.record line message }

/-- Changes the variables. -/
def modifyScopes (change : Scopes → Scopes) : Compile Unit :=
  modify fun session ↦ { session with scopes := change session.scopes }

/-- Repeats a step for as long as it gives something to go on with, `limit` times at most. -/
def iterate {σ : Type} (step : σ → Compile (Option σ)) : Nat → σ → Compile σ
  | 0, state => pure state
  | limit + 1, state => do
    match ← step state with
    | some next => iterate step limit next
    | none => pure state

/--
Repeats a step for as long as it gives something to go on with. Such a step goes past at least one
token, so the tokens left bound the repetitions.
-/
def many {σ : Type} (step : σ → Compile (Option σ)) (state : σ) : Compile σ := do
  iterate step ((← get).ahead.length + 2) state

end Compile

end Cityscape
