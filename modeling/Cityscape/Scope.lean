import Cityscape.Coordinate

/-!
# Variables

Variables live on two levels: the city, and the element being read. Each level holds strings, integers,
doubles and coordinates apart, so one name may stand for four values. A look-up tries the element first.
-/

namespace Cityscape

/-- Values by name, each name at most once. -/
abbrev Bindings (α : Type) := List (String × α)

/-- Gives a name a value, in place of any it had. -/
def Bindings.insert {α : Type} (bindings : Bindings α) (name : String) (value : α) : Bindings α :=
  (name, value) :: bindings.filter (·.1 ≠ name)

/-- The value of a name. -/
def Bindings.get? {α : Type} (bindings : Bindings α) (name : String) : Option α :=
  List.lookup name bindings

/-- A name has the value it was given last. -/
@[simp]
theorem Bindings.get?_insert_self {α : Type} (bindings : Bindings α) (name : String) (value : α) :
    (bindings.insert name value).get? name = some value := by
  simp [insert, get?]

/-- Giving one name a value leaves the others alone. -/
theorem Bindings.get?_insert_of_ne {α : Type} (bindings : Bindings α) (value : α) {name other : String}
    (h : other ≠ name) : (bindings.insert name value).get? other = bindings.get? other := by
  simp only [insert, get?, List.lookup_cons, beq_false_of_ne h]
  induction bindings with
  | nil => rfl
  | cons entry rest ih =>
    obtain ⟨first, _⟩ := entry
    by_cases same : first = name
    · subst same
      simpa [List.lookup_cons, beq_false_of_ne h] using ih
    · cases found : other == first <;> simp_all [List.lookup_cons]

/-- The variables of one level. Specification, section 3. -/
structure Scope where
  strings : Bindings String := []
  ints : Bindings Int64 := []
  doubles : Bindings Float := []
  coordinates : Bindings Coordinate := []
  deriving Repr

/-- A level without variables. -/
def Scope.empty : Scope := {}

/-- The number that a name stands for: a double, or else an integer. -/
def Scope.number? (scope : Scope) (name : String) : Option Float :=
  scope.doubles.get? name <|> (scope.ints.get? name).map Int64.toFloat

/-- Where a declaration is made. -/
inductive Level where
  | city
  | element
  deriving DecidableEq, Repr

/-- A value that a declaration stores. -/
inductive Value where
  | string (value : String)
  | int (value : Int64)
  | double (value : Float)
  | coordinate (value : Coordinate)
  deriving Repr

/-- Stores a value under a name. Specification, section 4.2. -/
def Scope.declare (scope : Scope) (name : String) : Value → Scope
  | .string value => { scope with strings := scope.strings.insert name value }
  | .int value => { scope with ints := scope.ints.insert name value }
  | .double value => { scope with doubles := scope.doubles.insert name value }
  | .coordinate value => { scope with coordinates := scope.coordinates.insert name value }

/-- The variables of both levels. Specification, section 3. -/
structure Scopes where
  city : Scope := .empty
  element : Scope := .empty
  deriving Repr

namespace Scopes

/-- No variables. -/
def empty : Scopes := {}

/-- Forgets the variables of the element. Specification, section 4.2. -/
def clearElement (scopes : Scopes) : Scopes :=
  { scopes with element := .empty }

/-- Stores a value at a level. -/
def declare (scopes : Scopes) (level : Level) (name : String) (value : Value) : Scopes :=
  match level with
  | .city => { scopes with city := scopes.city.declare name value }
  | .element => { scopes with element := scopes.element.declare name value }

/-- Looks a name up in the element, then in the city. Specification, section 4.2. -/
def lookup {α : Type} (scopes : Scopes) (get? : Scope → Option α) : Option α :=
  get? scopes.element <|> get? scopes.city

/-- The string of a name. -/
def string? (scopes : Scopes) (name : String) : Option String :=
  scopes.lookup (·.strings.get? name)

/-- The integer of a name. -/
def int? (scopes : Scopes) (name : String) : Option Int64 :=
  scopes.lookup (·.ints.get? name)

/-- The double of a name. -/
def double? (scopes : Scopes) (name : String) : Option Float :=
  scopes.lookup (·.doubles.get? name)

/-- The coordinate of a name. -/
def coordinate? (scopes : Scopes) (name : String) : Option Coordinate :=
  scopes.lookup (·.coordinates.get? name)

/-- The number of a name: an integer of the element hides a double of the city. Specification, section 10.7. -/
def number? (scopes : Scopes) (name : String) : Option Float :=
  scopes.lookup (·.number? name)

end Scopes

end Cityscape
