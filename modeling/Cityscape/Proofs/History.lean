import Mathlib.Data.List.DropRight
import Cityscape.Scope

/-!
# Variables and the history of their declarations

Variables are kept in maps, four for each level. What a look-up finds can be said without maps, from the history
of changes alone: of each level only some changes still stand, and the last of them that gives the name a value
of the right sort decides. An element is asked before the city, and for numbers the level is asked before the sort.
-/

namespace Cityscape

variable {α : Type}

/-- A change of the variables. -/
inductive Change where
  | declare (level : Level) (name : String) (value : Value)
  | clearElement

/-- The variables after a change. -/
def Scopes.change (scopes : Scopes) : Change → Scopes
  | .declare level name value => scopes.declare level name value
  | .clearElement => scopes.clearElement

/-- The variables after a history of changes that began without any. -/
def Scopes.after (history : List Change) : Scopes :=
  history.foldl change .empty

namespace Value

/-- The string that a value is. -/
def string? : Value → Option String
  | string value => some value
  | _ => none

/-- The integer that a value is. -/
def int? : Value → Option Int64
  | int value => some value
  | _ => none

/-- The double that a value is. -/
def double? : Value → Option Float
  | double value => some value
  | _ => none

/-- The coordinate that a value is. -/
def coordinate? : Value → Option Coordinate
  | coordinate value => some value
  | _ => none

end Value

/-- Whether a change forgets the variables of the element. -/
def Change.clears : Change → Bool
  | clearElement => true
  | declare .. => false

/-- The value of a sort that a change gives to a name at a level. -/
def Change.given? (sort? : Value → Option α) (level : Level) (name : String) : Change → Option α
  | declare level' name' value => if level' = level ∧ name' = name then sort? value else none
  | clearElement => none

/-- The changes that still stand at a level: all of them in the city, in the element those after the last clearing. -/
def standing : Level → List Change → List Change
  | .city, history => history
  | .element, history => history.rtakeWhile (!·.clears)

/-- The value of a sort that a name was given last at a level, by a change that still stands. -/
def recalled (sort? : Value → Option α) (level : Level) (name : String) (history : List Change) : Option α :=
  ((standing level history).filterMap (Change.given? sort? level name)).getLast?

private theorem recalled_concat (sort? : Value → Option α) (level : Level) (name : String) (history : List Change)
    (change : Change) :
    recalled sort? level name (history ++ [change]) =
      (change.given? sort? level name <|>
        if change.clears ∧ level = .element then none else recalled sort? level name history) := by
  cases level with
  | city => simp [recalled, standing, List.filterMap_append, List.getLast?_append]
  | element =>
    cases change with
    | declare => simp [recalled, standing, Change.clears, List.filterMap_append, List.getLast?_append]
    | clearElement => simp [recalled, standing, Change.clears, Change.given?]

private theorem Change.given?_declare_eq_none {sort? : Value → Option α} {name other : String} {value : Value}
    (h : other ≠ name ∨ sort? value = none) (level level' : Level) :
    (declare level' other value).given? sort? level name = none := by
  rw [given?]
  split_ifs with hn
  · exact h.resolve_left (absurd hn.2)
  · rfl

private theorem recalled_declare_of_other {sort? : Value → Option α} {name other : String} {value : Value}
    (h : other ≠ name ∨ sort? value = none) (level level' : Level) (before behind : List Change) :
    recalled sort? level name (before ++ .declare level' other value :: behind) =
      recalled sort? level name (before ++ behind) := by
  -- What comes last decides first, so the induction takes the changes behind from their end.
  induction behind using List.reverseRecOn with
  | nil =>
    rw [recalled_concat, Change.given?_declare_eq_none h, List.append_nil]
    rfl
  | append_singleton behind change ih =>
    rw [← List.cons_append, ← List.append_assoc, ← List.append_assoc, recalled_concat, recalled_concat, ih]

/-- The variables of a level. -/
def Scopes.at (scopes : Scopes) : Level → Scope
  | .city => scopes.city
  | .element => scopes.element

/-- A sort of values and the map of a level that holds them. -/
structure Drawer (α : Type) where
  sort? : Value → Option α
  bindings : Scope → Bindings α
  bindings_empty : bindings .empty = []
  bindings_declare (scope : Scope) (name : String) (value : Value) :
    bindings (scope.declare name value) =
      match sort? value with
      | some value => (bindings scope).insert name value
      | none => bindings scope

namespace Drawer

/-- Strings. -/
def strings : Drawer String where
  sort? := Value.string?
  bindings := Scope.strings
  bindings_empty := rfl
  bindings_declare _ _ value := by cases value <;> rfl

/-- Integers. -/
def ints : Drawer Int64 where
  sort? := Value.int?
  bindings := Scope.ints
  bindings_empty := rfl
  bindings_declare _ _ value := by cases value <;> rfl

/-- Doubles. -/
def doubles : Drawer Float where
  sort? := Value.double?
  bindings := Scope.doubles
  bindings_empty := rfl
  bindings_declare _ _ value := by cases value <;> rfl

/-- Coordinates. -/
def coordinates : Drawer Coordinate where
  sort? := Value.coordinate?
  bindings := Scope.coordinates
  bindings_empty := rfl
  bindings_declare _ _ value := by cases value <;> rfl

variable (drawer : Drawer α)

private theorem get?_declare (scope : Scope) (name name' : String) (value : Value) :
    (drawer.bindings (scope.declare name' value)).get? name =
      ((if name' = name then drawer.sort? value else none) <|> (drawer.bindings scope).get? name) := by
  rw [drawer.bindings_declare]
  by_cases h : name' = name
  · subst h
    cases drawer.sort? value <;> simp
  · cases drawer.sort? value with
    | none => simp
    | some value => simp [h, Bindings.get?_insert_of_ne _ _ (Ne.symm h)]

private theorem get?_change (scopes : Scopes) (change : Change) (level : Level) (name : String) :
    (drawer.bindings ((scopes.change change).at level)).get? name =
      (change.given? drawer.sort? level name <|>
        if change.clears ∧ level = .element then none else (drawer.bindings (scopes.at level)).get? name) := by
  cases change with
  | declare level' name' value =>
    cases level <;> cases level' <;>
      simp [Scopes.change, Scopes.declare, Scopes.at, Change.given?, Change.clears, get?_declare]
  | clearElement =>
    cases level with
    | city => simp [Scopes.change, Scopes.clearElement, Scopes.at, Change.given?]
    | element =>
      simp [Scopes.change, Scopes.clearElement, Scopes.at, Change.given?, Change.clears, drawer.bindings_empty,
        Bindings.get?]

private theorem get?_after (history : List Change) (level : Level) (name : String) :
    (drawer.bindings ((Scopes.after history).at level)).get? name = recalled drawer.sort? level name history := by
  induction history using List.reverseRecOn with
  | nil =>
    cases level <;>
      simp [Scopes.after, Scopes.at, Scopes.empty, drawer.bindings_empty, Bindings.get?, recalled, standing]
  | append_singleton history change ih =>
    have ha : Scopes.after (history ++ [change]) = (Scopes.after history).change change := by
      rw [Scopes.after, List.foldl_concat]
      rfl
    rw [ha, get?_change, recalled_concat, ih]

end Drawer

namespace Scopes

/-- What is found under a name is what the history recalls, the element before the city. -/
structure Recalls (scopes : Scopes) (history : List Change) (name : String) : Prop where
  string : scopes.string? name =
    (recalled Value.string? .element name history <|> recalled Value.string? .city name history)
  int : scopes.int? name =
    (recalled Value.int? .element name history <|> recalled Value.int? .city name history)
  double : scopes.double? name =
    (recalled Value.double? .element name history <|> recalled Value.double? .city name history)
  coordinate : scopes.coordinate? name =
    (recalled Value.coordinate? .element name history <|> recalled Value.coordinate? .city name history)
  /-- Within a level a double comes before an integer, which is widened. -/
  number : scopes.number? name =
    (recalled Value.double? .element name history <|>
      (recalled Value.int? .element name history).map Int64.toFloat <|>
      recalled Value.double? .city name history <|>
      (recalled Value.int? .city name history).map Int64.toFloat)

private theorem recalls_after (history : List Change) (name : String) : (after history).Recalls history name := by
  have hlevels {α : Type} (drawer : Drawer α) :
      (after history).lookup (fun scope ↦ (drawer.bindings scope).get? name) =
        (recalled drawer.sort? .element name history <|> recalled drawer.sort? .city name history) := by
    rw [← drawer.get?_after, ← drawer.get?_after]
    rfl
  refine ⟨hlevels .strings, hlevels .ints, hlevels .doubles, hlevels .coordinates, ?_⟩
  have hd (level : Level) :
      ((after history).at level).doubles.get? name = recalled Value.double? level name history :=
    Drawer.doubles.get?_after history level name
  have hi (level : Level) : ((after history).at level).ints.get? name = recalled Value.int? level name history :=
    Drawer.ints.get?_after history level name
  rw [← hd, ← hi, ← hd, ← hi, number?, lookup]
  simp only [Scope.number?, Option.orElse_eq_orElse, Option.orElse_eq_or, Option.or_assoc]
  rfl

/--
Variables refine the history of their declarations. After any history of declarations and clearings a look-up finds
the value of its sort that the name was given last in the element, since the last clearing, or else in the city; for
numbers the level is asked before the sort. So an integer of the element hides a double of the city, and
declarations under other names or of other sorts never make a difference.
-/
theorem lookups_refine_history (history : List Change) (name : String) :
    (after history).Recalls history name ∧
      (∀ inner, recalled Value.int? .element name history = some inner →
        recalled Value.double? .element name history = none →
        (after history).number? name = some inner.toFloat) ∧
      ∀ (before behind : List Change) (level : Level) (other : String) (value : Value),
        history = before ++ .declare level other value :: behind →
        (other ≠ name ∨ value.string? = none →
          (after history).string? name = (after (before ++ behind)).string? name) ∧
        (other ≠ name ∨ value.int? = none →
          (after history).int? name = (after (before ++ behind)).int? name) ∧
        (other ≠ name ∨ value.double? = none →
          (after history).double? name = (after (before ++ behind)).double? name) ∧
        (other ≠ name ∨ value.coordinate? = none →
          (after history).coordinate? name = (after (before ++ behind)).coordinate? name) ∧
        (other ≠ name ∨ value.double? = none ∧ value.int? = none →
          (after history).number? name = (after (before ++ behind)).number? name) := by
  refine ⟨recalls_after history name, fun inner hi hd ↦ ?_, ?_⟩
  · rw [(recalls_after history name).number, hi, hd]
    rfl
  rintro before behind level other value rfl
  have hr := recalls_after (before ++ .declare level other value :: behind) name
  have hr' := recalls_after (before ++ behind) name
  refine ⟨fun h ↦ ?_, fun h ↦ ?_, fun h ↦ ?_, fun h ↦ ?_, fun h ↦ ?_⟩
  · rw [hr.string, hr'.string, recalled_declare_of_other h, recalled_declare_of_other h]
  · rw [hr.int, hr'.int, recalled_declare_of_other h, recalled_declare_of_other h]
  · rw [hr.double, hr'.double, recalled_declare_of_other h, recalled_declare_of_other h]
  · rw [hr.coordinate, hr'.coordinate, recalled_declare_of_other h, recalled_declare_of_other h]
  · have hd : other ≠ name ∨ value.double? = none := h.imp_right And.left
    have hi : other ≠ name ∨ value.int? = none := h.imp_right And.right
    rw [hr.number, hr'.number, recalled_declare_of_other hd, recalled_declare_of_other hd,
      recalled_declare_of_other hi, recalled_declare_of_other hi]

end Scopes

end Cityscape
