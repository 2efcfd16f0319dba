import Cityscape.Proofs.Lexeme
import Cityscape.Proofs.Performing

/-!
# What an evaluation keeps

An evaluation is held to a standard: what strings may be, and what a script may be refused for. Every step keeps to
it if the string literals do. Strings reach a script only between quotes, so all that variables, names and addresses
can hold is made of quotable characters; and a script that has a tree is refused for what it means, never for how it
is written.
-/

namespace Cityscape

open Syntax

variable {α β : Type}

/-! ### Standards -/

/--
What the strings of a script may hold, and what it may be refused for: an undefined variable, an expression that is
too long or a group that is incomplete at least.
-/
structure Standard where
  text : String → Prop
  cause : Cause → Prop
  undefined (sort : VariableSort) (name : String) : cause (.undefined sort name)
  longExpression : cause .longExpression
  incompleteCity : cause .incompleteCity

/-- The strings that a level holds are as `text` says. -/
def Scope.Holds (text : String → Prop) (scope : Scope) : Prop :=
  ∀ entry ∈ scope.strings, text entry.2

/-- The strings that both levels hold are as `text` says. -/
def Scopes.Holds (text : String → Prop) (scopes : Scopes) : Prop :=
  scopes.city.Holds text ∧ scopes.element.Holds text

/-- The texts that properties hold are as `text` says. -/
def Properties.Holds (text : String → Prop) : Properties → Prop
  | institution name address _ => text name ∧ text address
  | street name | square name | statue name | lake name => text name

/-- The variables and the elements of a work hold strings as `text` says. -/
structure Work.Holds (text : String → Prop) (work : Work) : Prop where
  scopes : work.scopes.Holds text
  elements : ∀ element ∈ work.elements, element.properties.Holds text

/-- A value that is no string, or one as `text` says. -/
def Value.Holds (text : String → Prop) : Value → Prop
  | string value => text value
  | _ => True

/-- The name, the elements and the variables of a city hold strings as `text` says. -/
structure City.Holds (text : String → Prop) (city : Cityscape.City) : Prop where
  name : text city.name
  elements : ∀ element ∈ city.elements, element.properties.Holds text
  scopes : city.scopes.Holds text

section

variable {text : String → Prop}

private theorem Scope.Holds.declare {scope : Scope} (h : scope.Holds text) (name : String) {value : Value}
    (hv : value.Holds text) : (scope.declare name value).Holds text := by
  cases value with
  | string value =>
    intro entry he
    rcases List.mem_cons.mp he with rfl | he
    · exact hv
    · exact h entry (List.mem_filter.mp he).1
  | int | double | coordinate => exact h

private theorem Scopes.Holds.declare {scopes : Scopes} (h : scopes.Holds text) (level : Level) (name : String)
    {value : Value} (hv : value.Holds text) : (scopes.declare level name value).Holds text := by
  cases level with
  | city => exact ⟨h.1.declare name hv, h.2⟩
  | element => exact ⟨h.1, h.2.declare name hv⟩

private theorem Scopes.Holds.clearElement {scopes : Scopes} (h : scopes.Holds text) : scopes.clearElement.Holds text :=
  ⟨h.1, fun _ he ↦ nomatch he⟩

private theorem Scope.Holds.get? {scope : Scope} (h : scope.Holds text) {name value : String}
    (hs : scope.strings.get? name = some value) : text value := by
  obtain ⟨front, back, he, _⟩ := List.lookup_eq_some_iff.mp hs
  exact h (name, value) (by rw [he]; exact List.mem_append_right _ List.mem_cons_self)

private theorem Scopes.Holds.string? {scopes : Scopes} (h : scopes.Holds text) {name value : String}
    (hs : scopes.string? name = some value) : text value := by
  rw [Scopes.string?, Scopes.lookup, Option.orElse_eq_orElse, Option.orElse_eq_or,
    Option.or_eq_some_iff] at hs
  rcases hs with hs | ⟨_, hs⟩
  · exact h.2.get? hs
  · exact h.1.get? hs

end

/-! ### Steps -/

/-- A value as `post` says, or a fault with an allowed cause. -/
def Standard.Allows (standard : Standard) (post : α → Prop) : Except Fault α → Prop
  | .ok a => post a
  | .error fault => standard.cause fault.cause

/-- The string literals among some tokens are as the standard says. -/
def Standard.Reads (standard : Standard) (tokens : List Token) : Prop :=
  ∀ token ∈ tokens, token.kind = .string → standard.text token.unquoted

/-- A step that keeps a work to a standard and gives a result as `post` says, or an allowed fault. -/
def Evaluate.Keeps (evaluate : Evaluate α) (standard : Standard) (post : α → Prop) : Prop :=
  ∀ work : Work, work.Holds standard.text → match evaluate.run work with
    | .ok a after => post a ∧ after.Holds standard.text
    | .error fault _ => standard.cause fault.cause

variable {standard : Standard}

/-- A value found from two. -/
theorem Standard.Allows.bind {post : α → Prop} {post' : β → Prop} {of : Except Fault α}
    {next : α → Except Fault β} (h : standard.Allows post of) (h' : ∀ a, post a → standard.Allows post' (next a)) :
    standard.Allows post' (of >>= next) := by
  cases of with
  | ok a => exact h' a h
  | error fault => exact h

namespace Evaluate.Keeps

variable {post : α → Prop} {post' : β → Prop}

/-- Two steps in sequence. -/
theorem bind {evaluate : Evaluate α} {next : α → Evaluate β} (h : evaluate.Keeps standard post)
    (h' : ∀ a, post a → (next a).Keeps standard post') : Evaluate.Keeps (evaluate >>= next) standard post' := by
  intro work hw
  have hs := h work hw
  simp only [EStateM.run, Bind.bind, EStateM.bind] at hs ⊢
  cases he : evaluate work with
  | ok a after =>
    rw [he] at hs
    exact h' a hs.1 after hs.2
  | error fault after =>
    rw [he] at hs
    exact hs

/-- A step that does nothing. -/
theorem pure {a : α} (h : post a) : Evaluate.Keeps (Pure.pure a) standard post :=
  fun _ hw ↦ ⟨h, hw⟩

/-- A value of sound variables. -/
theorem value {of : Scopes → Except Fault α}
    (h : ∀ scopes : Scopes, scopes.Holds standard.text → standard.Allows post (of scopes)) :
    (Evaluate.value of).Keeps standard post := by
  intro work hw
  have hs := h work.scopes hw.scopes
  simp only [EStateM.run, Evaluate.value]
  cases ho : of work.scopes with
  | ok a =>
    rw [ho] at hs
    exact ⟨hs, hw⟩
  | error fault =>
    rw [ho] at hs
    exact hs

/-- A check that depends on nothing. -/
theorem ensure {check : Except Fault Unit} (h : standard.Allows (fun _ ↦ True) check) :
    (Evaluate.ensure check).Keeps standard fun _ ↦ True :=
  value fun _ _ ↦ h

/-- A note. -/
theorem note (line : Nat) (message : String) : (Evaluate.note line message).Keeps standard fun _ ↦ True :=
  fun _ hw ↦ ⟨True.intro, hw.scopes, hw.elements⟩

private theorem declare (level : Level) (name : Token) (message : String) {value : Value}
    (hv : value.Holds standard.text) :
    (Evaluate.declare level name message value).Keeps standard fun _ ↦ True := by
  apply (note _ _).bind
  intro _ _ work hw
  exact ⟨True.intro, hw.scopes.declare level _ hv, hw.elements⟩

/-- Forgetting the variables of an element. -/
theorem clearElement : Evaluate.clearElement.Keeps standard fun _ ↦ True :=
  fun _ hw ↦ ⟨True.intro, hw.scopes.clearElement, hw.elements⟩

/-- A completed element with sound properties. -/
theorem complete {element : Cityscape.Element} (h : element.properties.Holds standard.text) (line : Nat) :
    (Evaluate.complete element line).Keeps standard fun _ ↦ True := by
  intro work hw
  refine note line _ { work with elements := work.elements ++ [element] } ⟨hw.scopes, ?_⟩
  intro other ho
  rcases List.mem_append.mp ho with ho | ho
  · exact hw.elements other ho
  · rw [List.mem_singleton.mp ho]
    exact h

private theorem forM {items : List α} {step : α → Evaluate Unit}
    (h : ∀ item ∈ items, (step item).Keeps standard fun _ ↦ True) : (items.forM step).Keeps standard fun _ ↦ True := by
  induction items with
  | nil => exact pure True.intro
  | cons item items ih =>
    apply (h item List.mem_cons_self).bind
    intro _ _
    exact ih fun other ho ↦ h other (List.mem_cons_of_mem _ ho)

end Evaluate.Keeps

/-! ### Values -/

namespace Syntax

variable {scopes : Scopes}

/-- A variable, or the fault of its absence. -/
theorem allowed_lookup {post : α → Prop} {sort : VariableSort} {name : Token} {value : Option α}
    (h : ∀ a, value = some a → post a) : standard.Allows post (lookup sort name value) := by
  cases value with
  | some a => exact h a rfl
  | none => exact standard.undefined sort name.lexeme

private theorem Text.allowed (text : Text) (ht : standard.Reads text.tokens) (hs : scopes.Holds standard.text) :
    standard.Allows standard.text (text.evaluate scopes) := by
  cases text with
  | literal text => exact ht _ List.mem_cons_self text.2
  | named name => exact allowed_lookup fun _ h ↦ hs.string? h

private theorem Operand.allowed (operand : Operand) :
    standard.Allows (fun _ ↦ True) (operand.evaluate scopes) := by
  cases operand with
  | integer | double => exact True.intro
  | named name => exact allowed_lookup fun _ _ ↦ True.intro

namespace Expression

private theorem allowed_value (expression : Expression) :
    standard.Allows (fun _ ↦ True) (expression.value scopes) := by
  induction expression with
  | last operand => exact operand.allowed
  | chain operand operator sign rest ih =>
    apply operand.allowed.bind
    intro _ _
    exact ih.bind fun _ _ ↦ True.intro

private theorem allowed_operands (operands : List Operand) :
    standard.Allows (fun _ ↦ True) (operands.forM fun operand ↦ do
      let _ ← operand.evaluate scopes) := by
  induction operands with
  | nil => exact True.intro
  | cons operand operands ih =>
    have ho : standard.Allows (fun _ ↦ True) (operand.evaluate scopes >>= fun _ ↦ pure ()) :=
      operand.allowed.bind fun _ _ ↦ True.intro
    exact ho.bind fun _ _ ↦ ih

private theorem allowed_check (expression : Expression) : standard.Allows (fun _ ↦ True) expression.check := by
  unfold check
  split
  · exact standard.longExpression
  · exact True.intro

/-- Expressions. -/
theorem allowed (expression : Expression) :
    standard.Allows (fun _ ↦ True) (expression.evaluate scopes) := by
  unfold evaluate
  split
  · exact (allowed_operands _).bind fun _ _ ↦ standard.longExpression
  · exact expression.allowed_value

end Expression

private theorem Component.allowed (component : Component) :
    standard.Allows (fun _ ↦ True) (component.evaluate scopes) := by
  cases component with
  | first | second => exact (allowed_lookup fun _ _ ↦ True.intro).bind fun _ _ ↦ True.intro
  | expression value => exact value.allowed

private theorem Coordinate.allowed (coordinate : Coordinate) :
    standard.Allows (fun _ ↦ True) (coordinate.evaluate scopes) := by
  cases coordinate with
  | pair opening x comma y closing =>
    apply x.allowed.bind
    intro _ _
    exact y.allowed.bind fun _ _ ↦ True.intro
  | named name => exact allowed_lookup fun _ _ ↦ True.intro

private theorem Component.allowed_check (component : Component) :
    standard.Allows (fun _ ↦ True) component.check := by
  cases component with
  | first | second => exact True.intro
  | expression value => exact value.allowed_check

private theorem Coordinate.allowed_check (coordinate : Coordinate) :
    standard.Allows (fun _ ↦ True) coordinate.check := by
  cases coordinate with
  | pair opening x comma y closing => exact x.allowed_check.bind fun _ _ ↦ y.allowed_check
  | named name => exact True.intro

/-! ### Operations -/

/-- Declarations, performed or checked. -/
theorem Declaration.keeps (active : Bool) (level : Level) (declaration : Declaration)
    (ht : standard.Reads declaration.tokens) : (declaration.act active level).Keeps standard fun _ ↦ True := by
  cases active with
  | true =>
    cases declaration with
    | string head text =>
      apply (Evaluate.Keeps.value fun _ hs ↦ text.allowed
        (fun token h ↦ ht token (List.mem_append_right _ h)) hs).bind
      intro _ hv
      exact .declare _ _ _ hv
    | int head expression whole =>
      apply (Evaluate.Keeps.value fun _ _ ↦ expression.allowed).bind
      intro _ _
      exact .declare _ _ _ True.intro
    | double head expression =>
      apply (Evaluate.Keeps.value fun _ _ ↦ expression.allowed).bind
      intro _ _
      exact .declare _ _ _ True.intro
    | coordinate head place =>
      apply (Evaluate.Keeps.value fun _ _ ↦ place.allowed).bind
      intro _ _
      exact .declare _ _ _ True.intro
  | false =>
    apply Evaluate.Keeps.ensure
    cases declaration with
    | string => exact True.intro
    | int head expression whole => exact expression.allowed_check
    | double head expression => exact expression.allowed_check
    | coordinate head place => exact place.allowed_check

/-- Conditions, decided or checked. -/
theorem Condition.keeps (active : Bool) (condition : Condition) :
    (condition.act active).Keeps standard fun _ ↦ True := by
  cases active with
  | true =>
    have he (scopes : Scopes) : standard.Allows (fun _ ↦ True) (condition.evaluate scopes) := by
      apply condition.left.allowed.bind
      intro _ _
      exact condition.right.allowed.bind fun _ _ ↦ True.intro
    apply (Evaluate.Keeps.value fun scopes _ ↦ he scopes).bind
    intro _ _
    exact (Evaluate.Keeps.note _ _).bind fun _ _ ↦ .pure True.intro
  | false =>
    have hc : standard.Allows (fun _ ↦ True) condition.check :=
      condition.left.allowed_check.bind fun _ _ ↦ condition.right.allowed_check
    exact (Evaluate.Keeps.ensure hc).bind fun _ _ ↦ .pure True.intro

private theorem Condition.allowed_enter (hd : standard.cause .deepConditional) (condition : Condition)
    (enclosing : Nat) :
    standard.Allows (fun _ ↦ True) (condition.enter enclosing) := by
  unfold enter
  split
  · exact hd
  · exact True.intro

private theorem Operations.keeps (hd : standard.cause .deepConditional) (active : Bool) (level : Level)
    (enclosing : Nat)
    (operations : Operations) (ht : standard.Reads operations.tokens) :
    (operations.act active level enclosing).Keeps standard fun _ ↦ True := by
  induction operations generalizing active enclosing with
  | done => cases active <;> exact fun _ hw ↦ ⟨True.intro, hw⟩
  | declare declaration rest ih =>
    obtain ⟨hdecl, hr⟩ := List.forall_mem_append.mp ht
    rw [act_declare]
    exact (declaration.keeps active level hdecl).bind fun _ _ ↦ ih _ _ hr
  | conditional condition opening yes closing rest ihyes ihrest =>
    simp only [Standard.Reads, tokens, braced, List.forall_mem_cons, List.forall_mem_append] at ht
    obtain ⟨_, _, ⟨_, hy, _⟩, hr⟩ := ht
    rw [act_conditional]
    apply (Evaluate.Keeps.ensure (condition.allowed_enter hd enclosing)).bind
    intro _ _
    apply (condition.keeps active).bind
    intro holds _
    exact (ihyes _ _ hy).bind fun _ _ ↦ ihrest _ _ hr
  | alternative condition opening yes closing otherwise opening' no closing' rest ihyes ihno ihrest =>
    simp only [Standard.Reads, tokens, braced, List.forall_mem_cons, List.forall_mem_append] at ht
    obtain ⟨_, _, ⟨_, hy, _⟩, _, ⟨_, hn, _⟩, hr⟩ := ht
    rw [act_alternative]
    apply (Evaluate.Keeps.ensure (condition.allowed_enter hd enclosing)).bind
    intro _ _
    apply (condition.keeps active).bind
    intro holds _
    apply (ihyes _ _ hy).bind
    intro _ _
    exact (ihno _ _ hn).bind fun _ _ ↦ ihrest _ _ hr

/-! ### Elements -/

/-- Coordinates of elements. -/
theorem Coordinate.allowed_place (name : String) (coordinate : Coordinate) :
    standard.Allows (fun _ ↦ True) (coordinate.place name scopes) :=
  coordinate.allowed.bind fun _ _ ↦ True.intro

private theorem Bend.allowed (bend : Bend) : standard.Allows (fun _ ↦ True) (bend.evaluate scopes) := by
  apply (bend.start.allowed_place _).bind
  intro _ _
  apply (bend.finish.allowed_place _).bind
  intro _ _
  exact bend.angle.allowed.bind fun _ _ ↦ True.intro

private theorem Line.allowed (line : Line) : standard.Allows (fun _ ↦ True) (line.evaluate scopes) := by
  apply (line.first.allowed_place _).bind
  intro _ _
  exact (line.second.allowed_place _).bind fun _ _ ↦ True.intro

private theorem Block.allowed (block : Block) : standard.Allows (fun _ ↦ True) (block.evaluate scopes) := by
  apply (block.first.allowed_place _).bind
  intro _ _
  apply (block.second.allowed_place _).bind
  intro _ _
  apply (block.third.allowed_place _).bind
  intro _ _
  exact (block.fourth.allowed_place _).bind fun _ _ ↦ True.intro

private theorem Circle.allowed (circle : Circle) : standard.Allows (fun _ ↦ True) (circle.evaluate scopes) := by
  apply (circle.center.allowed_place _).bind
  intro _ _
  exact circle.radius.allowed.bind fun _ _ ↦ True.intro

/-- What follows the operations of an element. -/
theorem Content.allowed {group : Group} (content : Content group) (ht : standard.Reads content.tokens)
    (hs : scopes.Holds standard.text) {name : String} (hn : standard.text name) :
    standard.Allows (fun element ↦ element.properties.Holds standard.text) (content.evaluate name scopes) := by
  cases content with
  | street bend line =>
    apply bend.allowed.bind
    intro _ _
    exact line.allowed.bind fun _ _ ↦ hn
  | institution address events block =>
    simp only [Standard.Reads, tokens, Address.tokens, List.forall_mem_append, List.forall_mem_cons] at ht
    apply (address.value.allowed ht.1.2.2 hs).bind
    intro _ ha
    apply events.value.allowed.bind
    intro _ _
    exact block.allowed.bind fun _ _ ↦ ⟨hn, ha⟩
  | square block => exact block.allowed.bind fun _ _ ↦ hn
  | statue word place => exact (place.allowed_place _).bind fun _ _ ↦ hn
  | lake circle => exact circle.allowed.bind fun _ _ ↦ hn

private theorem Element.keeps (hd : standard.cause .deepConditional) {group : Group} (element : Element group)
    (ht : standard.Reads element.tokens) :
    element.perform.Keeps standard fun _ ↦ True := by
  simp only [Standard.Reads, tokens, tail, List.forall_mem_append, List.forall_mem_cons] at ht
  obtain ⟨_, hn, _, ho, hc, _⟩ := ht
  apply Evaluate.Keeps.clearElement.bind
  intro _ _
  apply (element.operations.keeps hd true _ _ ho).bind
  intro _ _
  apply (Evaluate.Keeps.value fun _ hs ↦
    element.content.allowed hc hs (hn element.name.2)).bind
  intro _ he
  apply (Evaluate.Keeps.complete he _).bind
  intro _ _
  exact .clearElement

/-! ### Cities -/

/-- Checks of cities. -/
theorem City.allowed_check (city : City) : standard.Allows (fun _ ↦ True) city.check := by
  unfold check
  split
  · exact True.intro
  · exact standard.incompleteCity

private theorem reads_element {group : Group} {elements : List (Element group)}
    (h : standard.Reads (elementTokens elements)) {element : Element group} (he : element ∈ elements) :
    standard.Reads element.tokens :=
  fun token ht ↦ h token (List.mem_flatMap.mpr ⟨element, he, ht⟩)

private theorem City.keeps (hd : standard.cause .deepConditional) (city : City) (ht : standard.Reads city.tokens) :
    city.perform.Keeps standard (Cityscape.City.Holds standard.text) := by
  simp only [Standard.Reads, tokens, body, List.forall_mem_append, List.forall_mem_cons] at ht
  obtain ⟨_, hn, _, ⟨ho, hm, hp⟩, _⟩ := ht
  apply (Evaluate.Keeps.note _ _).bind
  intro _ _
  apply (city.operations.keeps hd true _ _ ho).bind
  intro _ _
  apply (Evaluate.Keeps.forM fun element he ↦ element.keeps hd (reads_element hm he)).bind
  intro _ _
  apply (Evaluate.Keeps.ensure city.allowed_check).bind
  intro _ _
  apply (Evaluate.Keeps.forM fun element he ↦ element.keeps hd (reads_element hp he)).bind
  intro _ _ work hw
  exact ⟨⟨hn city.name.2, hw.elements, hw.scopes⟩, hw⟩

private theorem City.allowed (hd : standard.cause .deepConditional) (city : City) (ht : standard.Reads city.tokens) :
    standard.Allows (Cityscape.City.Holds standard.text) city.evaluation.result := by
  have hs : Scope.Holds standard.text .empty := fun _ h ↦ nomatch h
  have hk := city.keeps hd ht {} ⟨⟨hs, hs⟩, fun _ h ↦ nomatch h⟩
  unfold evaluation
  split at hk
  · next h =>
    rw [h]
    exact hk.1
  · next h =>
    rw [h]
    exact hk

end Syntax

/-! ### Sound cities -/

/-- The strings that a level holds are quotable. -/
def Scope.Sound (scope : Scope) : Prop :=
  scope.Holds fun text ↦ Quotable text.toList

/-- The strings that both levels hold are quotable. -/
def Scopes.Sound (scopes : Scopes) : Prop :=
  scopes.city.Sound ∧ scopes.element.Sound

/-- The texts that properties hold are quotable. -/
def Properties.Sound (properties : Properties) : Prop :=
  properties.Holds fun text ↦ Quotable text.toList

/-- The name, the elements and the variables of a city are sound. -/
structure City.Sound (city : Cityscape.City) : Prop where
  name : Quotable city.name.toList
  elements : ∀ element ∈ city.elements, element.properties.Sound
  scopes : city.scopes.Sound

/-- A value as `post` says, or a fault of what the script means. -/
def Meaningful (post : α → Prop) : Except Fault α → Prop
  | .ok a => post a
  | .error fault => fault.cause.stage = .semantic

/-- Strings are quotable, and a script is refused for what it means only. -/
def Standard.sound : Standard where
  text text := Quotable text.toList
  cause cause := cause.stage = .semantic
  undefined _ _ := rfl
  longExpression := rfl
  incompleteCity := rfl

namespace Syntax

/-- All tokens have lexemes of their kinds. -/
def Spelled (tokens : List Token) : Prop :=
  ∀ token ∈ tokens, token.kind.Class token.lexeme.toList

private theorem Spelled.reads {tokens : List Token} (h : Spelled tokens) : Standard.sound.Reads tokens := by
  intro token ht hk
  have hc := h token ht
  rw [hk] at hc
  obtain ⟨inner, hl, hq⟩ := hc
  change Quotable token.unquoted.toList
  rw [Token.unquoted, String.toList_ofList, hl]
  simpa [unquote] using hq

/-- Evaluating a tree gives a sound city, or refuses what the script means. -/
theorem City.meaningful (city : City) (ht : Spelled city.tokens) :
    Meaningful Cityscape.City.Sound city.evaluation.result := by
  have h := @City.allowed .sound rfl city ht.reads
  cases hr : city.evaluation.result with
  | ok result =>
    rw [hr] at h
    exact ⟨h.name, h.elements, h.scopes⟩
  | error fault =>
    rw [hr] at h
    exact h

end Syntax

end Cityscape
