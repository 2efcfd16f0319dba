import Cityscape.Compile.Primitive

/-!
# Compiling a city

A city has operations of its own, then at least one street and one institution in any order, then any
number of squares, statues and lakes. Compiling a script gives the city, or the first fault; in both cases
the elements completed until then and the journal are given too.
-/

namespace Cityscape

/-- An accepted city: its name, its elements and features in order and the variables left at the end. -/
structure City where
  name : String
  /-- The elements drawn. -/
  elements : List Element
  /-- The features emitted. -/
  features : List Feature
  scopes : Scopes
  deriving Repr

/-- The document of a city. -/
def City.document (city : City) : Document :=
  ⟨city.features⟩

/-- The city called `name` that a session has read. -/
def Session.city (session : Session) (name : String) : City where
  name
  elements := session.elements
  features := session.features
  scopes := session.scopes

/-- What compiling a script leads to. Specification, section 10.2. -/
structure Compilation where
  result : Except Fault City
  /-- The elements drawn, also when the script is refused. -/
  elements : List Element
  /-- The features emitted, also when the script is refused. -/
  features : List Feature
  journal : Journal

/-- What a session leaves behind, with this result. -/
def Session.compilation (session : Session) (result : Except Fault City) : Compilation where
  result
  elements := session.elements
  features := session.features
  journal := session.journal

namespace Compile

/-- Which of the two mandatory kinds have been met. -/
structure Mandatory where
  street : Bool := false
  institution : Bool := false
  deriving DecidableEq, Repr

/-- A street or an institution, if one comes next. -/
def mandatoryElement (met : Mandatory) : Compile (Option Mandatory) := do
  match ← peek with
  | .keyword .street =>
    element .street street
    return some { met with street := true }
  | .keyword .institution =>
    element .institution institution
    return some { met with institution := true }
  | _ => pure none

/-- The streets and institutions of a city. Specification, section 10.7. -/
def mandatoryElements : Compile Unit := do
  let start ← current
  match ← many mandatoryElement {} with
  | ⟨false, false⟩ => unexpected .mandatoryElement
  | ⟨true, true⟩ => pure ()
  | _ => refuse .incompleteCity start

/-- A square, a statue or a lake, if one comes next. Specification, section 10.7. -/
def optionalElement : Compile (Option Unit) := do
  match ← peek with
  | .keyword .square => some <$> element .square square
  | .keyword .statue => some <$> element .statue statue
  | .keyword .lake => some <$> element .lake lake
  | _ => pure none

/-- A whole script. Specification, section 10.7. -/
def city : Compile City := do
  let _ ← expectWord .city
  let name ← expectString
  expectMark .openBrace
  note (← current).position.line ("city \"" ++ name ++ "\"")
  operations .city deepestNesting true
  mandatoryElements
  many (fun _ ↦ optionalElement) ()
  expectMark .closeBrace
  let _ ← expect .finish
  let session ← get
  return session.city name

end Compile

/-- Compiles a script from its first token on. -/
def compileFrom (current : Token) (ahead : List Token) (ending : Ending) (journal : Journal) :
    Compilation :=
  match Compile.city.run { current, ahead, ending, journal } with
  | .ok city session => session.compilation (.ok city)
  | .error fault session => session.compilation (.error fault)

/-- Compiles a scanned script. -/
def Scan.compile (scan : Scan) (journal : Journal) : Compilation :=
  match scan.tokens, scan.ending with
  | first :: ahead, ending => compileFrom first ahead ending journal
  | [], .finish last => compileFrom last [] (.finish last) journal
  | [], .fault fault => ⟨.error (.ofLexical fault), [], [], journal⟩

/-- Compiles a source, keeping at most `capacity` records in the journal. -/
def compile (capacity : Nat) (source : Source) : Compilation :=
  (scan source).compile (.empty capacity)

end Cityscape
