import Cityscape.Token

/-!
# The grammar of scripts

A context-free grammar over kinds of tokens, given as a table of rules, and the kind sequences it
derives. The grammar knows nothing of values or limits: an expression may have any number of operands,
and conditionals may be nested to any depth.
-/

namespace Cityscape.Grammar

/-- What a part of a script can be. -/
inductive Symbol where
  | script
  | city
  | operations
  | operation
  | mandatory
  | optional
  | street
  | institution
  | square
  | statue
  | lake
  | address
  | events
  | point
  | block
  | bend
  | line
  | circle
  | coordinate
  | component
  | expression
  /-- An expression that does not begin with a decimal number. -/
  | wholeExpression
  | operand
  | operator
  | comparison
  | string
  deriving DecidableEq, Repr

/-- A place in a rule: one token of a kind, or whatever a symbol derives. -/
inductive Part where
  | token (kind : Kind)
  | symbol (symbol : Symbol)
  deriving DecidableEq, Repr

/-- A keyword in a rule. -/
abbrev Part.word (word : Keyword) : Part := .token (.keyword word)

/-- A mark in a rule. -/
abbrev Part.mark (mark : Mark) : Part := .token (.mark mark)

/-- The alternatives of a symbol. -/
def rules : Symbol → List (List Part)
  | .script => [[.symbol .city, .token .finish]]
  | .city =>
    [[.word .city, .token .string, .mark .openBrace, .symbol .operations, .symbol .mandatory,
      .symbol .optional, .mark .closeBrace]]
  | .operations => [[], [.symbol .operation, .symbol .operations]]
  | .operation =>
    [[.word .declareString, .token .identifier, .mark .assign, .symbol .string],
      [.word .declareInt, .token .identifier, .mark .assign, .symbol .wholeExpression],
      [.word .declareDouble, .token .identifier, .mark .assign, .symbol .expression],
      [.word .declareCoordinate, .token .identifier, .mark .assign, .symbol .coordinate],
      [.word .onlyIf, .mark .openParen, .symbol .expression, .symbol .comparison, .symbol .expression,
        .mark .closeParen, .mark .openBrace, .symbol .operations, .mark .closeBrace],
      [.word .onlyIf, .mark .openParen, .symbol .expression, .symbol .comparison, .symbol .expression,
        .mark .closeParen, .mark .openBrace, .symbol .operations, .mark .closeBrace,
        .word .otherwise, .mark .openBrace, .symbol .operations, .mark .closeBrace]]
  | .mandatory =>
    [[.symbol .street], [.symbol .institution], [.symbol .street, .symbol .mandatory],
      [.symbol .institution, .symbol .mandatory]]
  | .optional =>
    [[], [.symbol .square, .symbol .optional], [.symbol .statue, .symbol .optional],
      [.symbol .lake, .symbol .optional]]
  | .street =>
    [[.word .street, .token .string, .mark .openBrace, .symbol .operations, .symbol .bend,
      .symbol .line, .mark .closeBrace]]
  | .institution =>
    [[.word .institution, .token .string, .mark .openBrace, .symbol .operations, .symbol .address,
      .symbol .events, .symbol .block, .mark .closeBrace]]
  | .square =>
    [[.word .square, .token .string, .mark .openBrace, .symbol .operations, .symbol .block,
      .mark .closeBrace]]
  | .statue =>
    [[.word .statue, .token .string, .mark .openBrace, .symbol .operations, .symbol .point,
      .mark .closeBrace]]
  | .lake =>
    [[.word .lake, .token .string, .mark .openBrace, .symbol .operations, .symbol .circle,
      .mark .closeBrace]]
  | .address => [[.word .address, .mark .assign, .symbol .string]]
  | .events => [[.word .events, .mark .assign, .symbol .expression]]
  | .point => [[.word .point, .symbol .coordinate]]
  | .block =>
    [[.word .block, .mark .openParen, .symbol .coordinate, .mark .comma, .symbol .coordinate,
      .mark .comma, .symbol .coordinate, .mark .comma, .symbol .coordinate, .mark .closeParen]]
  | .bend =>
    [[.word .bend, .mark .openParen, .symbol .coordinate, .mark .comma, .symbol .coordinate,
      .mark .comma, .symbol .expression, .mark .closeParen]]
  | .line =>
    [[.word .line, .mark .openParen, .symbol .coordinate, .mark .comma, .symbol .coordinate,
      .mark .closeParen]]
  | .circle =>
    [[.word .circle, .mark .openParen, .symbol .coordinate, .mark .comma, .symbol .expression,
      .mark .closeParen]]
  | .coordinate =>
    [[.mark .openParen, .symbol .component, .mark .comma, .symbol .component, .mark .closeParen],
      [.token .identifier]]
  | .component =>
    [[.word .first, .mark .openParen, .token .identifier, .mark .closeParen],
      [.word .second, .mark .openParen, .token .identifier, .mark .closeParen],
      [.symbol .expression]]
  | .expression => [[.symbol .operand], [.symbol .operand, .symbol .operator, .symbol .expression]]
  | .wholeExpression =>
    [[.token .integer], [.token .identifier],
      [.token .integer, .symbol .operator, .symbol .expression],
      [.token .identifier, .symbol .operator, .symbol .expression]]
  | .operand => [[.token .integer], [.token .double], [.token .identifier]]
  | .operator => [[.mark .plus], [.mark .minus]]
  | .comparison => [[.mark .equal], [.mark .notEqual], [.mark .less], [.mark .greater]]
  | .string => [[.token .string], [.token .identifier]]

/-- The kind sequences of a sequence of parts. -/
inductive Derives : List Part → List Kind → Prop where
  | nil : Derives [] []
  | token {parts : List Part} {kinds : List Kind} (kind : Kind) (tail : Derives parts kinds) :
    Derives (.token kind :: parts) (kind :: kinds)
  | symbol {parts alternative : List Part} {front back : List Kind} (symbol : Symbol)
    (rule : alternative ∈ rules symbol) (head : Derives alternative front)
    (tail : Derives parts back) : Derives (.symbol symbol :: parts) (front ++ back)

/-- The kind sequences of whole scripts: a city and then the end of the input. -/
def Accepts (kinds : List Kind) : Prop := Derives [.symbol .script] kinds

/-- The empty sequence of parts derives nothing but the empty sequence. -/
theorem derives_nil {kinds : List Kind} : Derives [] kinds ↔ kinds = [] := by
  constructor
  · rintro ⟨⟩
    rfl
  · rintro rfl
    exact .nil

/-- What two sequences of parts derive, one after the other. -/
theorem Derives.append {parts parts' : List Part} {front back : List Kind} (h : Derives parts front)
    (h' : Derives parts' back) : Derives (parts ++ parts') (front ++ back) := by
  induction h with
  | nil => exact h'
  | token kind _ ih => exact .token kind ih
  | symbol symbol rule head _ _ ih =>
    rw [List.append_assoc]
    exact .symbol symbol rule head ih

/-- One symbol derives what one of its alternatives derives. -/
theorem derives_rule {symbol : Symbol} {kinds : List Kind} :
    Derives [.symbol symbol] kinds ↔ ∃ alternative ∈ rules symbol, Derives alternative kinds := by
  constructor
  · intro h
    cases h with
    | symbol _ rule head tail =>
      obtain rfl := derives_nil.mp tail
      exact ⟨_, rule, by simpa only [List.append_nil] using head⟩
  · rintro ⟨alternative, rule, head⟩
    simpa only [List.append_nil] using Derives.symbol symbol rule head .nil

private theorem Derives.of_append {parts parts' : List Part} {kinds : List Kind} (h : Derives (parts ++ parts') kinds) :
    ∃ front back, kinds = front ++ back ∧ Derives parts front ∧ Derives parts' back := by
  induction parts generalizing kinds with
  | nil => exact ⟨[], kinds, rfl, .nil, h⟩
  | cons part parts ih =>
    cases h with
    | token kind h =>
      obtain ⟨front, back, rfl, hf, hb⟩ := ih h
      exact ⟨kind :: front, back, rfl, .token kind hf, hb⟩
    | symbol symbol rule head h =>
      obtain ⟨front, back, rfl, hf, hb⟩ := ih h
      exact ⟨_, back, (List.append_assoc ..).symm, .symbol symbol rule head hf, hb⟩

/-- Whether a derivation that goes through so many parts is found by trying one alternative after the other. -/
def derives (parts : List Part) (kinds : List Kind) : Nat → Bool
  | 0 => false
  | bound + 1 =>
    match parts, kinds with
    | [], kinds => kinds.isEmpty
    | .token _ :: _, [] => false
    | .token kind :: parts, kind' :: kinds => kind == kind' && derives parts kinds bound
    | .symbol symbol :: parts, kinds =>
      (rules symbol).any fun alternative ↦ derives (alternative ++ parts) kinds bound

/-- What is found is a derivation. -/
theorem derives_sound {parts : List Part} {kinds : List Kind} {bound : Nat} (h : derives parts kinds bound = true) :
    Derives parts kinds := by
  induction bound generalizing parts kinds with
  | zero => cases h
  | succ bound ih =>
    match parts, kinds with
    | [], [] => exact .nil
    | .token kind :: parts, kind' :: kinds =>
      obtain ⟨hk, ht⟩ := Bool.and_eq_true_iff.mp h
      obtain rfl := beq_iff_eq.mp hk
      exact .token kind (ih ht)
    | .symbol symbol :: parts, kinds =>
      obtain ⟨alternative, hr, ha⟩ := List.any_eq_true.mp h
      obtain ⟨front, back, rfl, hf, hb⟩ := (ih ha).of_append
      exact .symbol symbol hr hf hb

/-- The kind sequences that can be continued to one that some parts derive. -/
def Begins (parts : List Part) (kinds : List Kind) : Prop :=
  ∃ more, Derives parts (kinds ++ more)

/-- The kind sequences that can be continued to the one of a whole script. -/
def Viable (kinds : List Kind) : Prop := Begins [.symbol .script] kinds

/-- How many rules stand one inside the other in the flattest script of a symbol. -/
def Symbol.height : Symbol → Nat
  | .operations | .optional | .wholeExpression | .operand | .operator | .comparison | .string => 1
  | .expression | .address | .coordinate => 2
  | .component | .events | .operation | .point | .block | .bend | .line | .circle => 3
  | .street | .institution | .square | .statue | .lake => 4
  | .mandatory => 5
  | .city => 6
  | .script => 7

/-- How many rules stand one inside the other in the flattest script of a part. -/
def Part.height : Part → Nat
  | token _ => 0
  | symbol inner => inner.height

private theorem exists_flatter (symbol : Symbol) :
    ∃ alternative ∈ rules symbol, ∀ part ∈ alternative, part.height < symbol.height := by
  cases symbol <;> decide

private theorem exists_derives_of_symbols {parts : List Part}
    (h : ∀ symbol, .symbol symbol ∈ parts → ∃ kinds, Derives [.symbol symbol] kinds) :
    ∃ kinds, Derives parts kinds := by
  induction parts with
  | nil => exact ⟨[], .nil⟩
  | cons part parts ih =>
    obtain ⟨back, hb⟩ := ih fun symbol hm ↦ h symbol (List.mem_cons_of_mem _ hm)
    cases part with
    | token kind => exact ⟨kind :: back, .token kind hb⟩
    | symbol symbol =>
      obtain ⟨front, hf⟩ := h symbol List.mem_cons_self
      exact ⟨front ++ back, hf.append hb⟩

private theorem Symbol.exists_derives (symbol : Symbol) : ∃ kinds, Derives [.symbol symbol] kinds := by
  obtain ⟨alternative, hr, hl⟩ := exists_flatter symbol
  obtain ⟨kinds, hd⟩ := exists_derives_of_symbols fun flatter hm ↦
    have : flatter.height < symbol.height := hl _ hm
    flatter.exists_derives
  exact ⟨kinds, derives_rule.mpr ⟨alternative, hr, hd⟩⟩
termination_by symbol.height

/-- All parts derive something. -/
theorem exists_derives (parts : List Part) : ∃ kinds, Derives parts kinds :=
  exists_derives_of_symbols fun symbol _ ↦ symbol.exists_derives

/-- What parts derive can be continued to what more parts derive. -/
theorem Derives.begins_append {parts : List Part} {kinds : List Kind} (h : Derives parts kinds)
    (parts' : List Part) : Begins (parts ++ parts') kinds := by
  obtain ⟨more, hm⟩ := exists_derives parts'
  exact ⟨more, h.append hm⟩

/-- A rule whose alternatives all begin with tokens derives no empty sequence. -/
theorem Derives.ne_nil {symbol : Symbol} {kinds : List Kind} (h : Derives [.symbol symbol] kinds)
    (hr : ∀ alternative ∈ rules symbol, ∃ part ∈ alternative.head?, part.height = 0) : kinds ≠ [] := by
  obtain ⟨alternative, hm, hd⟩ := derives_rule.mp h
  obtain ⟨part, hp, hz⟩ := hr alternative hm
  cases hd with
  | nil => cases hp
  | token => exact List.cons_ne_nil _ _
  | symbol symbol =>
    cases hp
    cases symbol <;> cases hz

end Cityscape.Grammar
