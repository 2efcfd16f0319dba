import Mathlib.Data.List.Basic
import Cityscape.Proofs.Syntax

/-!
# The trees of derivations

Every token sequence that a symbol derives is the token sequence of a tree. What a tree of a symbol is
differs from symbol to symbol; for each of its alternatives the trees of the parts make up a tree of the
symbol, and one induction over the derivation does the rest.
-/

namespace Cityscape.Syntax

open Compile (Operator Comparison)
open Grammar (Symbol Part Derives rules)

/-- Whether some tree of this symbol has these tokens. -/
def Tree (tokens : List Token) : Symbol → Prop
  | .script => ∃ (city : City) (last : Leaf .finish), tokens = city.tokens ++ [last.1]
  | .city => ∃ city : City, tokens = city.tokens
  | .operations => ∃ operations : Operations, tokens = operations.tokens
  | .operation => ∃ operation : Operations → Operations,
    ∀ rest, (operation rest).tokens = tokens ++ rest.tokens
  | .mandatory => ∃ (first : Element .mandatory) (others : List (Element .mandatory)),
    tokens = elementTokens (first :: others)
  | .optional => ∃ elements : List (Element .optional), tokens = elementTokens elements
  | .street | .institution => ∃ element : Element .mandatory, tokens = element.tokens
  | .square | .statue | .lake => ∃ element : Element .optional, tokens = element.tokens
  | .address => ∃ address : Address, tokens = address.tokens
  | .events => ∃ events : Events, tokens = events.tokens
  | .point => ∃ (word : Word .point) (place : Coordinate), tokens = word.1 :: place.tokens
  | .block => ∃ block : Block, tokens = block.tokens
  | .bend => ∃ bend : Bend, tokens = bend.tokens
  | .line => ∃ line : Line, tokens = line.tokens
  | .circle => ∃ circle : Circle, tokens = circle.tokens
  | .coordinate => ∃ coordinate : Coordinate, tokens = coordinate.tokens
  | .component => ∃ component : Component, tokens = component.tokens
  | .expression => ∃ expression : Expression, tokens = expression.tokens
  | .wholeExpression => ∃ expression : Expression,
    expression.first.token.kind ≠ .double ∧ tokens = expression.tokens
  | .operand => ∃ operand : Operand, tokens = [operand.token]
  | .operator => ∃ (operator : Operator) (sign : Sign operator.mark), tokens = [sign.1]
  | .comparison => ∃ (comparison : Comparison) (sign : Sign comparison.mark), tokens = [sign.1]
  | .string => ∃ text : Text, tokens = text.tokens

/-- Whether the tokens are those of the parts of a rule, each with a tree of its own. -/
def Trees : List Part → List Token → Prop
  | [], tokens => tokens = []
  | .token kind :: parts, tokens => ∃ (leaf : Leaf kind) (rest : List Token),
    tokens = leaf.1 :: rest ∧ Trees parts rest
  | .symbol symbol :: parts, tokens => ∃ front back, tokens = front ++ back ∧ Tree front symbol ∧
    Trees parts back

/-- Whether for each alternative of a symbol the trees of its parts make up a tree of the symbol. -/
def Complete (symbol : Symbol) : Prop :=
  ∀ alternative ∈ rules symbol, ∀ tokens, Trees alternative tokens → Tree tokens symbol

/-- All alternatives of a symbol, one after the other. -/
theorem complete_of_forall {symbol : Symbol}
    (h : (rules symbol).Forall fun parts ↦ ∀ tokens, Trees parts tokens → Tree tokens symbol) :
    Complete symbol :=
  List.forall_iff_forall_mem.mp h

/-- One alternative is enough if a symbol has no other. -/
theorem complete_of_only {symbol : Symbol} {parts : List Part} (hr : rules symbol = [parts])
    (h : ∀ tokens, Trees parts tokens → Tree tokens symbol) : Complete symbol := by
  intro alternative ha
  rw [hr, List.mem_singleton] at ha
  rw [ha]
  exact h

private theorem Leaf.kind_ne {kind other : Kind} (leaf : Leaf kind) (h : kind ≠ other) : leaf.1.kind ≠ other := by
  rw [leaf.2]
  exact h

private theorem complete_string : Complete .string := by
  apply complete_of_forall
  refine ⟨?_, ?_⟩
  · rintro _ ⟨text, _, rfl, rfl⟩
    exact ⟨.literal text, rfl⟩
  · rintro _ ⟨name, _, rfl, rfl⟩
    exact ⟨.named name, rfl⟩

private theorem complete_operand : Complete .operand := by
  apply complete_of_forall
  refine ⟨?_, ?_, ?_⟩
  · rintro _ ⟨numeral, _, rfl, rfl⟩
    exact ⟨.integer numeral, rfl⟩
  · rintro _ ⟨numeral, _, rfl, rfl⟩
    exact ⟨.double numeral, rfl⟩
  · rintro _ ⟨name, _, rfl, rfl⟩
    exact ⟨.named name, rfl⟩

private theorem complete_operator : Complete .operator := by
  apply complete_of_forall
  refine ⟨?_, ?_⟩
  · rintro _ ⟨sign, _, rfl, rfl⟩
    exact ⟨.plus, sign, rfl⟩
  · rintro _ ⟨sign, _, rfl, rfl⟩
    exact ⟨.minus, sign, rfl⟩

private theorem complete_comparison : Complete .comparison := by
  apply complete_of_forall
  refine ⟨?_, ?_, ?_, ?_⟩
  · rintro _ ⟨sign, _, rfl, rfl⟩
    exact ⟨.equal, sign, rfl⟩
  · rintro _ ⟨sign, _, rfl, rfl⟩
    exact ⟨.notEqual, sign, rfl⟩
  · rintro _ ⟨sign, _, rfl, rfl⟩
    exact ⟨.less, sign, rfl⟩
  · rintro _ ⟨sign, _, rfl, rfl⟩
    exact ⟨.greater, sign, rfl⟩

private theorem complete_expression : Complete .expression := by
  apply complete_of_forall
  refine ⟨?_, ?_⟩
  · rintro _ ⟨_, _, rfl, ⟨operand, rfl⟩, rfl⟩
    exact ⟨.last operand, rfl⟩
  · rintro _ ⟨_, _, rfl, ⟨operand, rfl⟩, _, _, rfl, ⟨operator, sign, rfl⟩, _, _, rfl, ⟨rest, rfl⟩, rfl⟩
    exact ⟨.chain operand operator sign rest, by simp [Expression.tokens]⟩

private theorem complete_wholeExpression : Complete .wholeExpression := by
  apply complete_of_forall
  refine ⟨?_, ?_, ?_, ?_⟩
  · rintro _ ⟨numeral, _, rfl, rfl⟩
    exact ⟨.last (.integer numeral), numeral.kind_ne (by decide), rfl⟩
  · rintro _ ⟨name, _, rfl, rfl⟩
    exact ⟨.last (.named name), name.kind_ne (by decide), rfl⟩
  · rintro _ ⟨numeral, _, rfl, _, _, rfl, ⟨operator, sign, rfl⟩, _, _, rfl, ⟨rest, rfl⟩, rfl⟩
    refine ⟨.chain (.integer numeral) operator sign rest, numeral.kind_ne (by decide), ?_⟩
    simp [Expression.tokens, Operand.token]
  · rintro _ ⟨name, _, rfl, _, _, rfl, ⟨operator, sign, rfl⟩, _, _, rfl, ⟨rest, rfl⟩, rfl⟩
    refine ⟨.chain (.named name) operator sign rest, name.kind_ne (by decide), ?_⟩
    simp [Expression.tokens, Operand.token]

private theorem complete_component : Complete .component := by
  apply complete_of_forall
  refine ⟨?_, ?_, ?_⟩
  · rintro _ ⟨word, _, rfl, opening, _, rfl, name, _, rfl, closing, _, rfl, rfl⟩
    exact ⟨.first word opening name closing, rfl⟩
  · rintro _ ⟨word, _, rfl, opening, _, rfl, name, _, rfl, closing, _, rfl, rfl⟩
    exact ⟨.second word opening name closing, rfl⟩
  · rintro _ ⟨_, _, rfl, ⟨value, rfl⟩, rfl⟩
    exact ⟨.expression value, by simp [Component.tokens]⟩

private theorem complete_coordinate : Complete .coordinate := by
  apply complete_of_forall
  refine ⟨?_, ?_⟩
  · rintro _ ⟨opening, _, rfl, _, _, rfl, ⟨x, rfl⟩, comma, _, rfl, _, _, rfl, ⟨y, rfl⟩, closing, _, rfl,
      rfl⟩
    exact ⟨.pair opening x comma y closing, rfl⟩
  · rintro _ ⟨name, _, rfl, rfl⟩
    exact ⟨.named name, rfl⟩

private theorem complete_operation : Complete .operation := by
  apply complete_of_forall
  refine ⟨?_, ?_, ?_, ?_, ?_, ?_⟩
  · rintro _ ⟨word, _, rfl, name, _, rfl, assign, _, rfl, _, _, rfl, ⟨value, rfl⟩, rfl⟩
    exact ⟨.declare (.string ⟨word, name, assign⟩ value), fun rest ↦ by
      simp [Operations.tokens, Declaration.tokens, Head.tokens]⟩
  · rintro _ ⟨word, _, rfl, name, _, rfl, assign, _, rfl, _, _, rfl, ⟨value, whole, rfl⟩, rfl⟩
    exact ⟨.declare (.int ⟨word, name, assign⟩ value whole), fun rest ↦ by
      simp [Operations.tokens, Declaration.tokens, Head.tokens]⟩
  · rintro _ ⟨word, _, rfl, name, _, rfl, assign, _, rfl, _, _, rfl, ⟨value, rfl⟩, rfl⟩
    exact ⟨.declare (.double ⟨word, name, assign⟩ value), fun rest ↦ by
      simp [Operations.tokens, Declaration.tokens, Head.tokens]⟩
  · rintro _ ⟨word, _, rfl, name, _, rfl, assign, _, rfl, _, _, rfl, ⟨value, rfl⟩, rfl⟩
    exact ⟨.declare (.coordinate ⟨word, name, assign⟩ value), fun rest ↦ by
      simp [Operations.tokens, Declaration.tokens, Head.tokens]⟩
  · rintro _ ⟨word, _, rfl, opening, _, rfl, _, _, rfl, ⟨left, rfl⟩, _, _, rfl, ⟨comparison, sign, rfl⟩, _,
      _, rfl, ⟨right, rfl⟩, closing, _, rfl, opening', _, rfl, _, _, rfl, ⟨yes, rfl⟩, closing', _, rfl, rfl⟩
    exact ⟨.conditional ⟨word, opening, left, comparison, sign, right, closing⟩ opening' yes closing',
      fun rest ↦ by simp [Operations.tokens, Condition.tail, braced]⟩
  · rintro _ ⟨word, _, rfl, opening, _, rfl, _, _, rfl, ⟨left, rfl⟩, _, _, rfl, ⟨comparison, sign, rfl⟩, _,
      _, rfl, ⟨right, rfl⟩, closing, _, rfl, opening', _, rfl, _, _, rfl, ⟨yes, rfl⟩, closing', _, rfl,
      otherwise, _, rfl, opening'', _, rfl, _, _, rfl, ⟨no, rfl⟩, closing'', _, rfl, rfl⟩
    exact ⟨.alternative ⟨word, opening, left, comparison, sign, right, closing⟩ opening' yes closing'
      otherwise opening'' no closing'', fun rest ↦ by simp [Operations.tokens, Condition.tail, braced]⟩

private theorem complete_operations : Complete .operations := by
  apply complete_of_forall
  refine ⟨?_, ?_⟩
  · rintro _ rfl
    exact ⟨.done, rfl⟩
  · rintro _ ⟨_, _, rfl, ⟨operation, hc⟩, _, _, rfl, ⟨rest, rfl⟩, rfl⟩
    exact ⟨operation rest, by rw [List.append_nil, hc]⟩

private theorem complete_address : Complete .address := by
  apply complete_of_only rfl
  rintro _ ⟨word, _, rfl, assign, _, rfl, _, _, rfl, ⟨value, rfl⟩, rfl⟩
  exact ⟨⟨word, assign, value⟩, by simp [Address.tokens]⟩

private theorem complete_events : Complete .events := by
  apply complete_of_only rfl
  rintro _ ⟨word, _, rfl, assign, _, rfl, _, _, rfl, ⟨value, rfl⟩, rfl⟩
  exact ⟨⟨word, assign, value⟩, by simp [Events.tokens]⟩

private theorem complete_point : Complete .point := by
  apply complete_of_only rfl
  rintro _ ⟨word, _, rfl, _, _, rfl, ⟨place, rfl⟩, rfl⟩
  exact ⟨word, place, by simp⟩

private theorem complete_block : Complete .block := by
  apply complete_of_only rfl
  rintro _ ⟨word, _, rfl, opening, _, rfl, _, _, rfl, ⟨first, rfl⟩, comma, _, rfl, _, _, rfl,
    ⟨second, rfl⟩, comma', _, rfl, _, _, rfl, ⟨third, rfl⟩, comma'', _, rfl, _, _, rfl, ⟨fourth, rfl⟩,
    closing, _, rfl, rfl⟩
  exact ⟨⟨word, opening, first, comma, second, comma', third, comma'', fourth, closing⟩, rfl⟩

private theorem complete_bend : Complete .bend := by
  apply complete_of_only rfl
  rintro _ ⟨word, _, rfl, opening, _, rfl, _, _, rfl, ⟨start, rfl⟩, comma, _, rfl, _, _, rfl,
    ⟨finish, rfl⟩, comma', _, rfl, _, _, rfl, ⟨angle, rfl⟩, closing, _, rfl, rfl⟩
  exact ⟨⟨word, opening, start, comma, finish, comma', angle, closing⟩, rfl⟩

private theorem complete_line : Complete .line := by
  apply complete_of_only rfl
  rintro _ ⟨word, _, rfl, opening, _, rfl, _, _, rfl, ⟨first, rfl⟩, comma, _, rfl, _, _, rfl,
    ⟨second, rfl⟩, closing, _, rfl, rfl⟩
  exact ⟨⟨word, opening, first, comma, second, closing⟩, rfl⟩

private theorem complete_circle : Complete .circle := by
  apply complete_of_only rfl
  rintro _ ⟨word, _, rfl, opening, _, rfl, _, _, rfl, ⟨center, rfl⟩, comma, _, rfl, _, _, rfl,
    ⟨radius, rfl⟩, closing, _, rfl, rfl⟩
  exact ⟨⟨word, opening, center, comma, radius, closing⟩, rfl⟩

private theorem complete_street : Complete .street := by
  apply complete_of_only rfl
  rintro _ ⟨word, _, rfl, name, _, rfl, opening, _, rfl, _, _, rfl, ⟨operations, rfl⟩, _, _, rfl,
    ⟨bend, rfl⟩, _, _, rfl, ⟨line, rfl⟩, closing, _, rfl, rfl⟩
  exact ⟨⟨.street bend line, word, name, opening, operations, closing⟩, by
    simp [Element.tokens, Element.tail, Content.tokens]⟩

private theorem complete_institution : Complete .institution := by
  apply complete_of_only rfl
  rintro _ ⟨word, _, rfl, name, _, rfl, opening, _, rfl, _, _, rfl, ⟨operations, rfl⟩, _, _, rfl,
    ⟨address, rfl⟩, _, _, rfl, ⟨events, rfl⟩, _, _, rfl, ⟨block, rfl⟩, closing, _, rfl, rfl⟩
  exact ⟨⟨.institution address events block, word, name, opening, operations, closing⟩, by
    simp [Element.tokens, Element.tail, Content.tokens]⟩

private theorem complete_square : Complete .square := by
  apply complete_of_only rfl
  rintro _ ⟨word, _, rfl, name, _, rfl, opening, _, rfl, _, _, rfl, ⟨operations, rfl⟩, _, _, rfl,
    ⟨block, rfl⟩, closing, _, rfl, rfl⟩
  exact ⟨⟨.square block, word, name, opening, operations, closing⟩, rfl⟩

private theorem complete_statue : Complete .statue := by
  apply complete_of_only rfl
  rintro _ ⟨word, _, rfl, name, _, rfl, opening, _, rfl, _, _, rfl, ⟨operations, rfl⟩, _, _, rfl,
    ⟨point, place, rfl⟩, closing, _, rfl, rfl⟩
  exact ⟨⟨.statue point place, word, name, opening, operations, closing⟩, rfl⟩

private theorem complete_lake : Complete .lake := by
  apply complete_of_only rfl
  rintro _ ⟨word, _, rfl, name, _, rfl, opening, _, rfl, _, _, rfl, ⟨operations, rfl⟩, _, _, rfl,
    ⟨circle, rfl⟩, closing, _, rfl, rfl⟩
  exact ⟨⟨.lake circle, word, name, opening, operations, closing⟩, rfl⟩

private theorem complete_mandatory : Complete .mandatory := by
  apply complete_of_forall
  refine ⟨?_, ?_, ?_, ?_⟩
  · rintro _ ⟨_, _, rfl, ⟨element, rfl⟩, rfl⟩
    exact ⟨element, [], rfl⟩
  · rintro _ ⟨_, _, rfl, ⟨element, rfl⟩, rfl⟩
    exact ⟨element, [], rfl⟩
  · rintro _ ⟨_, _, rfl, ⟨element, rfl⟩, _, _, rfl, ⟨first, others, rfl⟩, rfl⟩
    exact ⟨element, first :: others, by simp [elementTokens]⟩
  · rintro _ ⟨_, _, rfl, ⟨element, rfl⟩, _, _, rfl, ⟨first, others, rfl⟩, rfl⟩
    exact ⟨element, first :: others, by simp [elementTokens]⟩

private theorem complete_optional : Complete .optional := by
  apply complete_of_forall
  refine ⟨?_, ?_, ?_, ?_⟩
  · rintro _ rfl
    exact ⟨[], rfl⟩
  · rintro _ ⟨_, _, rfl, ⟨element, rfl⟩, _, _, rfl, ⟨others, rfl⟩, rfl⟩
    exact ⟨element :: others, by simp [elementTokens]⟩
  · rintro _ ⟨_, _, rfl, ⟨element, rfl⟩, _, _, rfl, ⟨others, rfl⟩, rfl⟩
    exact ⟨element :: others, by simp [elementTokens]⟩
  · rintro _ ⟨_, _, rfl, ⟨element, rfl⟩, _, _, rfl, ⟨others, rfl⟩, rfl⟩
    exact ⟨element :: others, by simp [elementTokens]⟩

private theorem complete_city : Complete .city := by
  apply complete_of_only rfl
  rintro _ ⟨word, _, rfl, name, _, rfl, opening, _, rfl, _, _, rfl, ⟨operations, rfl⟩, _, _, rfl,
    ⟨first, mandatory, rfl⟩, _, _, rfl, ⟨optional, rfl⟩, closing, _, rfl, rfl⟩
  exact ⟨⟨word, name, opening, operations, first, mandatory, optional, closing⟩, by
    simp [City.tokens, City.body, City.required]⟩

private theorem complete_script : Complete .script := by
  apply complete_of_only rfl
  rintro _ ⟨_, _, rfl, ⟨city, rfl⟩, last, _, rfl, rfl⟩
  exact ⟨city, last, rfl⟩

private theorem complete_symbol (symbol : Symbol) : Complete symbol := by
  cases symbol with
  | script => exact complete_script
  | city => exact complete_city
  | operations => exact complete_operations
  | operation => exact complete_operation
  | mandatory => exact complete_mandatory
  | optional => exact complete_optional
  | street => exact complete_street
  | institution => exact complete_institution
  | square => exact complete_square
  | statue => exact complete_statue
  | lake => exact complete_lake
  | address => exact complete_address
  | events => exact complete_events
  | point => exact complete_point
  | block => exact complete_block
  | bend => exact complete_bend
  | line => exact complete_line
  | circle => exact complete_circle
  | coordinate => exact complete_coordinate
  | component => exact complete_component
  | expression => exact complete_expression
  | wholeExpression => exact complete_wholeExpression
  | operand => exact complete_operand
  | operator => exact complete_operator
  | comparison => exact complete_comparison
  | string => exact complete_string

private theorem trees_of_derives {parts : List Part} {kinds : List Kind} (h : Derives parts kinds)
    {tokens : List Token} (ht : tokens.map Token.kind = kinds) : Trees parts tokens := by
  induction h generalizing tokens with
  | nil => exact List.map_eq_nil_iff.mp ht
  | token kind tail ih =>
    obtain ⟨token, rest, rfl, hk, hr⟩ := List.map_eq_cons_iff.mp ht
    exact ⟨⟨token, hk⟩, rest, rfl, ih hr⟩
  | symbol symbol rule head tail ihhead ihtail =>
    obtain ⟨front, back, rfl, hf, hb⟩ := List.map_eq_append_iff.mp ht
    exact ⟨front, back, rfl, complete_symbol symbol _ rule front (ihhead hf), ihtail hb⟩

/-- The tokens of an acceptable script are those of a city and then the end of the input. -/
theorem City.exists_of_accepts {tokens : List Token} (h : Grammar.Accepts (tokens.map Token.kind)) :
    ∃ (city : City) (last : Leaf .finish), tokens = city.tokens ++ [last.1] := by
  obtain ⟨front, back, rfl, ht, rfl⟩ := trees_of_derives h rfl
  rw [List.append_nil]
  exact ht

end Cityscape.Syntax
