import Cityscape.Proofs.Elements
import Cityscape.Proofs.Layout

/-!
# The headings of a script

A city and each of its elements begin with a heading: a keyword that stands nowhere else, a string literal and an
opening brace. No other literal stands before an opening brace, and no literal but an address stands before a
number of events. So the tokens of an accepted script tell its elements by their keywords.
-/

namespace Cityscape

/-- The kind of element that begins with a token of this kind. -/
def Kind.element? : Kind → Option ElementKind
  | keyword .street => some .street
  | keyword .institution => some .institution
  | keyword .square => some .square
  | keyword .statue => some .statue
  | keyword .lake => some .lake
  | _ => none

/-- Whether a city or an element begins with a token of this kind. -/
def Kind.heads (kind : Kind) : Bool :=
  kind = .keyword .city || kind.element?.isSome

/-- Whether tokens of this kind say nothing about where elements and addresses are. -/
def Kind.isPlain (kind : Kind) : Bool :=
  !kind.heads && kind ≠ .keyword .address && kind ≠ .keyword .events && kind ≠ .mark .openBrace

/-- What a plain kind is not. -/
theorem Kind.isPlain_iff {kind : Kind} : kind.isPlain = true ↔ kind.heads = false ∧
    kind ≠ .keyword .address ∧ kind ≠ .keyword .events ∧ kind ≠ .mark .openBrace := by
  simp [isPlain, and_assoc]

private theorem Kind.element?_of_isPlain {kind : Kind} (h : kind.isPlain = true) : kind.element? = none := by
  have hh := (isPlain_iff.mp h).1
  rw [heads, Bool.or_eq_false_iff] at hh
  exact Option.isNone_iff_eq_none.mp (Option.isSome_eq_false_iff.mp hh.2)

/-- An element begins with the keyword of its kind. -/
theorem Kind.element?_word (kind : ElementKind) : (Kind.keyword kind.word).element? = some kind := by
  cases kind <;> rfl

/-- Only the keyword of its kind begins an element. -/
theorem Kind.eq_of_element? {kind : Kind} {element : ElementKind} (h : kind.element? = some element) :
    kind = .keyword element.word := by
  unfold element? at h
  split at h
  all_goals cases h
  all_goals rfl

/-- Whether a kind may follow three others: before a brace or events, not every literal may. -/
def Fits (third second first kind : Kind) : Prop :=
  first = .string → (kind = .mark .openBrace → second.heads = true) ∧
    (kind = .keyword .events → third = .keyword .address)

/-- Whether all kinds fit what comes before them, the first ones these three. -/
def Coheres : Kind → Kind → Kind → List Kind → Prop
  | _, _, _, [] => True
  | third, second, first, kind :: kinds => Fits third second first kind ∧ Coheres second first kind kinds

/-- Whether all kinds fit what comes before them, whatever comes before the first ones. -/
def Coherent (kinds : List Kind) : Prop :=
  ∀ third second first, Coheres third second first kinds

private theorem Coherent.append {kinds kinds' : List Kind} (h : Coherent kinds) (h' : Coherent kinds') :
    Coherent (kinds ++ kinds') := by
  intro third second first
  have hc := h third second first
  clear h
  induction kinds generalizing third second first with
  | nil => exact h' third second first
  | cons kind kinds ih => exact ⟨hc.1, ih _ _ _ hc.2⟩

section

variable {third second first : Kind} {kinds kinds' : List Kind}

/-- What comes first fits too. -/
theorem Coheres.earlier (h : Coheres third second first (kinds ++ kinds')) :
    Coheres third second first kinds := by
  induction kinds generalizing third second first with
  | nil => exact True.intro
  | cons kind kinds ih => exact ⟨h.1, ih h.2⟩

/-- What comes later fits too. -/
theorem Coheres.later (h : Coheres third second first (kinds ++ kinds')) :
    ∃ third second first, Coheres third second first kinds' := by
  induction kinds generalizing third second first with
  | nil => exact ⟨third, second, first, h⟩
  | cons kind kinds ih => exact ih h.2

/-- A city or an element begins before the last literal if a brace follows it. -/
theorem Coheres.heads_of_brace (h : Coheres third second first (kinds ++ [.string, .mark .openBrace])) :
    ∃ kind ∈ first :: kinds, kind.heads = true := by
  induction kinds generalizing third second first with
  | nil => exact ⟨first, List.mem_cons_self, (h.2.1 rfl).1 rfl⟩
  | cons kind kinds ih =>
    obtain ⟨found, hm, hf⟩ := ih h.2
    exact ⟨found, List.mem_cons_of_mem first hm, hf⟩

/-- There is an address before the last literal if a number of events follows it. -/
theorem Coheres.address_of_events (h : Coheres third second first (kinds ++ [.string, .keyword .events])) :
    .keyword .address ∈ second :: first :: kinds := by
  induction kinds generalizing third second first with
  | nil =>
    rw [(h.2.1 rfl).2 rfl]
    exact List.mem_cons_self
  | cons kind kinds ih => exact List.mem_cons_of_mem second (ih h.2)

end

private theorem coherent_of_isPlain {kinds : List Kind} (h : ∀ kind ∈ kinds, kind.isPlain = true) :
    Coherent kinds := by
  intro third second first
  induction kinds generalizing third second first with
  | nil => exact True.intro
  | cons kind kinds ih =>
    obtain ⟨hk, h⟩ := List.forall_mem_cons.mp h
    obtain ⟨_, _, he, hb⟩ := Kind.isPlain_iff.mp hk
    exact ⟨fun _ ↦ ⟨fun h ↦ absurd h hb, fun h ↦ absurd h he⟩, ih h _ _ _⟩

/-- The kinds of elements that begin, each with the name that follows. -/
def headings : List (Kind × String) → List (ElementKind × String)
  | [] => []
  | (kind, _) :: rest =>
    match kind.element?, rest.head? with
    | some element, some (_, text) => (element, String.ofList (unquote text.toList)) :: headings rest
    | _, _ => headings rest

/-- Where no element begins there is no heading. -/
theorem headings_append {spellings : List (Kind × String)}
    (h : ∀ kind ∈ spellings.map Prod.fst, kind.element? = none) (rest : List (Kind × String)) :
    headings (spellings ++ rest) = headings rest := by
  induction spellings with
  | nil => rfl
  | cons s spellings ih =>
    obtain ⟨hs, h⟩ := List.forall_mem_cons.mp h
    rw [List.cons_append, headings, hs]
    exact ih h

/--
These tokens have these headings. There are this many tokens with which a city or an element begins and this many
addresses among them, and all of them fit what comes before.
-/
structure Outlines (tokens : List Token) (found : List (ElementKind × String)) (heads addresses : Nat) : Prop where
  headings : ∀ rest, headings (tokens.map Token.spelling ++ rest) = found ++ Cityscape.headings rest
  heads : (tokens.map Token.kind).countP Kind.heads = heads
  addresses : (tokens.map Token.kind).count (.keyword .address) = addresses
  coherent : Coherent (tokens.map Token.kind)

namespace Outlines

variable {tokens tokens' : List Token} {found found' : List (ElementKind × String)}
  {heads heads' addresses addresses' : Nat}

/-- One after the other. -/
theorem append (h : Outlines tokens found heads addresses) (h' : Outlines tokens' found' heads' addresses') :
    Outlines (tokens ++ tokens') (found ++ found') (heads + heads') (addresses + addresses') where
  headings rest := by
    rw [List.map_append, List.append_assoc, h.headings, h'.headings, List.append_assoc]
  heads := by rw [List.map_append, List.countP_append, h.heads, h'.heads]
  addresses := by rw [List.map_append, List.count_append, h.addresses, h'.addresses]
  coherent := by
    rw [List.map_append]
    exact h.coherent.append h'.coherent

/-- Tokens with which no element begins. -/
theorem of_kinds {kinds : List Kind} (hk : tokens.map Token.kind = kinds)
    (hn : ∀ kind ∈ kinds, kind.element? = none) (hc : Coherent kinds) :
    Outlines tokens [] (kinds.countP Kind.heads) (kinds.count (.keyword .address)) := by
  subst hk
  refine ⟨headings_append ?_, rfl, rfl, hc⟩
  rw [List.map_map]
  exact hn

/-- Nothing begins among plain tokens. -/
theorem of_isPlain (h : ∀ token ∈ tokens, token.kind.isPlain = true) : Outlines tokens [] 0 0 := by
  have hp : ∀ kind ∈ tokens.map Token.kind, kind.isPlain = true := List.forall_mem_map.mpr h
  have ho := of_kinds rfl (fun kind hk ↦ Kind.element?_of_isPlain (hp kind hk)) (coherent_of_isPlain hp)
  have hh : (tokens.map Token.kind).countP Kind.heads = 0 := by
    rw [List.countP_eq_zero]
    intro kind hk
    rw [(Kind.isPlain_iff.mp (hp kind hk)).1]
    decide
  have ha : (tokens.map Token.kind).count (.keyword .address) = 0 :=
    List.count_eq_zero.mpr fun hm ↦ (Kind.isPlain_iff.mp (hp _ hm)).2.1 rfl
  rwa [hh, ha] at ho

end Outlines

namespace Syntax

/-- A leaf is as plain as its kind. -/
theorem Leaf.isPlain {kind : Kind} (leaf : Leaf kind) (h : kind.isPlain = true) :
    leaf.1.kind.isPlain = true := by
  rw [leaf.2]
  exact h

private theorem Text.isPlain (text : Text) : ∀ token ∈ text.tokens, token.kind.isPlain = true := by
  cases text with
  | literal text => exact List.forall_mem_singleton.mpr (text.isPlain rfl)
  | named name => exact List.forall_mem_singleton.mpr (name.isPlain rfl)

private theorem Operand.isPlain (operand : Operand) : operand.token.kind.isPlain = true := by
  cases operand with
  | integer leaf | double leaf | named leaf => exact leaf.isPlain rfl

/-- Expressions are plain. -/
theorem Expression.isPlain (expression : Expression) :
    ∀ token ∈ expression.tokens, token.kind.isPlain = true := by
  induction expression with
  | last operand => exact List.forall_mem_singleton.mpr operand.isPlain
  | chain operand operator sign rest ih =>
    have hs : sign.1.kind.isPlain = true := sign.isPlain (by cases operator <;> rfl)
    simpa [tokens, operand.isPlain, hs] using ih

private theorem Component.isPlain (component : Component) :
    ∀ token ∈ component.tokens, token.kind.isPlain = true := by
  cases component with
  | first word opening name closing | second word opening name closing =>
    simp [tokens, word.isPlain rfl, opening.isPlain rfl, name.isPlain rfl, closing.isPlain rfl]
  | expression value => exact value.isPlain

/-- Coordinates are plain. -/
theorem Coordinate.isPlain (coordinate : Coordinate) :
    ∀ token ∈ coordinate.tokens, token.kind.isPlain = true := by
  cases coordinate with
  | pair opening x comma y closing =>
    simp only [tokens, List.forall_mem_cons, List.forall_mem_append]
    exact ⟨opening.isPlain rfl, x.isPlain, comma.isPlain rfl, y.isPlain, closing.isPlain rfl, by simp⟩
  | named name => exact List.forall_mem_singleton.mpr (name.isPlain rfl)

private theorem Declaration.isPlain (declaration : Declaration) :
    ∀ token ∈ declaration.tokens, token.kind.isPlain = true := by
  have hh {word : Keyword} (head : Head word) (hw : (Kind.keyword word).isPlain = true) :
      ∀ token ∈ head.tokens, token.kind.isPlain = true := by
    simp [Head.tokens, head.keyword.isPlain hw, head.name.isPlain rfl, head.assign.isPlain rfl]
  cases declaration with
  | string head value => exact List.forall_mem_append.mpr ⟨hh head rfl, value.isPlain⟩
  | int head value => exact List.forall_mem_append.mpr ⟨hh head rfl, value.isPlain⟩
  | double head value => exact List.forall_mem_append.mpr ⟨hh head rfl, value.isPlain⟩
  | coordinate head value => exact List.forall_mem_append.mpr ⟨hh head rfl, value.isPlain⟩

private theorem outlines_braced {kind : Kind} (before : Leaf kind) (hk : kind.isPlain = true) (hs : kind ≠ .string)
    (opening : Sign .openBrace) {inner : List Token} (h : Outlines inner [] 0 0) (closing : Sign .closeBrace) :
    Outlines (before.1 :: braced opening inner closing) [] 0 0 := by
  obtain ⟨hh, ha, he, hb⟩ := Kind.isPlain_iff.mp hk
  have hpair : Outlines [before.1, opening.1] [] 0 0 := by
    have hc : Coherent [kind, .mark .openBrace] := fun _ _ _ ↦
      ⟨fun _ ↦ ⟨fun h ↦ absurd h hb, fun h ↦ absurd h he⟩, fun h ↦ absurd h hs, True.intro⟩
    have ho : Outlines [before.1, opening.1] [] _ _ :=
      .of_kinds (by simp [before.2, opening.2]) (by simpa using ⟨Kind.element?_of_isPlain hk, rfl⟩) hc
    have hm : (Kind.mark .openBrace).heads = false := rfl
    simpa [List.countP_cons, hh, hm, ha] using ho
  exact hpair.append (h.append (.of_isPlain (List.forall_mem_singleton.mpr (closing.isPlain rfl))))

private theorem Operations.outlines (operations : Operations) : Outlines operations.tokens [] 0 0 := by
  have hc (condition : Condition) : Outlines (condition.keyword.1 :: condition.opening.1 ::
      (condition.left.tokens ++ condition.sign.1 :: condition.right.tokens)) [] 0 0 := by
    have hs : condition.sign.1.kind.isPlain = true :=
      condition.sign.isPlain (by cases condition.comparison <;> rfl)
    apply Outlines.of_isPlain
    simp only [List.forall_mem_cons, List.forall_mem_append]
    exact ⟨condition.keyword.isPlain rfl, condition.opening.isPlain rfl, condition.left.isPlain, hs,
      condition.right.isPlain⟩
  induction operations with
  | done => exact .of_isPlain (List.forall_mem_nil _)
  | declare declaration rest ih => exact (Outlines.of_isPlain declaration.isPlain).append ih
  | conditional condition opening yes closing rest ihy ih =>
    have hy := outlines_braced condition.closing rfl (by decide) opening ihy closing
    have ho := (hc condition).append (hy.append ih)
    simpa [tokens, Condition.tail] using ho
  | alternative condition opening yes closing otherwise opening' no closing' rest ihy ihn ih =>
    have hy := outlines_braced condition.closing rfl (by decide) opening ihy closing
    have hn := outlines_braced otherwise rfl (by decide) opening' ihn closing'
    have ho := (hc condition).append (hy.append (hn.append ih))
    simpa [tokens, Condition.tail] using ho

private theorem Bend.isPlain (bend : Bend) : ∀ token ∈ bend.tokens, token.kind.isPlain = true := by
  simp only [tokens, List.forall_mem_cons, List.forall_mem_append]
  exact ⟨bend.word.isPlain rfl, bend.opening.isPlain rfl, bend.start.isPlain, bend.comma.isPlain rfl,
    bend.finish.isPlain, bend.comma'.isPlain rfl, bend.angle.isPlain, bend.closing.isPlain rfl, by simp⟩

private theorem Line.isPlain (line : Line) : ∀ token ∈ line.tokens, token.kind.isPlain = true := by
  simp only [tokens, List.forall_mem_cons, List.forall_mem_append]
  exact ⟨line.word.isPlain rfl, line.opening.isPlain rfl, line.first.isPlain, line.comma.isPlain rfl,
    line.second.isPlain, line.closing.isPlain rfl, by simp⟩

private theorem Block.isPlain (block : Block) : ∀ token ∈ block.tokens, token.kind.isPlain = true := by
  simp only [tokens, List.forall_mem_cons, List.forall_mem_append]
  exact ⟨block.word.isPlain rfl, block.opening.isPlain rfl, block.first.isPlain, block.comma.isPlain rfl,
    block.second.isPlain, block.comma'.isPlain rfl, block.third.isPlain, block.comma''.isPlain rfl,
    block.fourth.isPlain, block.closing.isPlain rfl, by simp⟩

private theorem Circle.isPlain (circle : Circle) : ∀ token ∈ circle.tokens, token.kind.isPlain = true := by
  simp only [tokens, List.forall_mem_cons, List.forall_mem_append]
  exact ⟨circle.word.isPlain rfl, circle.opening.isPlain rfl, circle.center.isPlain, circle.comma.isPlain rfl,
    circle.radius.isPlain, circle.closing.isPlain rfl, by simp⟩

private theorem Address.outlines (address : Address) (events : Word .events) :
    Outlines (address.tokens ++ [events.1]) [] 0 1 := by
  obtain ⟨word, assign, value⟩ := address
  cases value with
  | literal text =>
    have hk : (tokens ⟨word, assign, .literal text⟩ ++ [events.1]).map Token.kind =
        [.keyword .address, .mark .assign, .string, .keyword .events] := by
      simp [tokens, Text.tokens, word.2, assign.2, text.2, events.2]
    exact .of_kinds hk (by decide) fun _ _ _ ↦ by simp [Coheres, Fits]
  | named name =>
    have hk : (tokens ⟨word, assign, .named name⟩ ++ [events.1]).map Token.kind =
        [.keyword .address, .mark .assign, .identifier, .keyword .events] := by
      simp [tokens, Text.tokens, word.2, assign.2, name.2, events.2]
    exact .of_kinds hk (by decide) fun _ _ _ ↦ by simp [Coheres, Fits]

private theorem Content.outlines {group : Group} (content : Content group) :
    Outlines content.tokens [] 0 (if content.keyword = .institution then 1 else 0) := by
  cases content with
  | street bend line => exact .of_isPlain (List.forall_mem_append.mpr ⟨bend.isPlain, line.isPlain⟩)
  | institution address events block =>
    have hr : Outlines (events.assign.1 :: events.value.tokens ++ block.tokens) [] 0 0 := by
      apply Outlines.of_isPlain
      simp only [List.cons_append, List.forall_mem_cons, List.forall_mem_append]
      exact ⟨events.assign.isPlain rfl, events.value.isPlain, block.isPlain⟩
    simpa [tokens, Events.tokens, keyword] using (address.outlines events.word).append hr
  | square block => exact .of_isPlain block.isPlain
  | statue word place => exact .of_isPlain (List.forall_mem_cons.mpr ⟨word.isPlain rfl, place.isPlain⟩)
  | lake circle => exact .of_isPlain circle.isPlain

private theorem Content.name_of_evaluate {group : Group} {content : Content group} {name : String} {scopes : Scopes}
    {element : Cityscape.Element} (h : content.evaluate name scopes = .ok element) : element.name = name := by
  cases content with
  | street bend line =>
    obtain ⟨_, _, h⟩ := exists_of_bind_eq_ok h
    obtain ⟨_, _, h⟩ := exists_of_bind_eq_ok h
    cases h
    rfl
  | institution address events block =>
    obtain ⟨_, _, h⟩ := exists_of_bind_eq_ok h
    obtain ⟨_, _, h⟩ := exists_of_bind_eq_ok h
    obtain ⟨_, _, h⟩ := exists_of_bind_eq_ok h
    cases h
    rfl
  | square | statue | lake =>
    obtain ⟨_, _, h⟩ := exists_of_bind_eq_ok h
    cases h
    rfl

private theorem outlines_heading {kind : ElementKind} {keyword name opening : Token}
    (hk : keyword.kind = .keyword kind.word) (hn : name.kind = .string) (ho : opening.kind = .mark .openBrace) :
    Outlines [keyword, name, opening] [(kind, name.unquoted)] 1 0 where
  headings rest := by
    have hs : Kind.string.element? = none := rfl
    have hm : (Kind.mark .openBrace).element? = none := rfl
    simp [Token.spelling, Token.unquoted, headings, hk, hn, ho, Kind.element?_word, hs, hm]
  heads := by
    simp only [List.map_cons, List.map_nil, hk, hn, ho]
    cases kind <;> rfl
  addresses := by
    simp only [List.map_cons, List.map_nil, hk, hn, ho]
    cases kind <;> rfl
  coherent third second first := by
    simp only [List.map_cons, List.map_nil, hk, hn, ho]
    cases kind <;> simp [Coheres, Fits, ElementKind.word, Kind.heads, Kind.element?]

private theorem Element.outlines {group : Group} {tree : Element group} {element : Cityscape.Element} {city : Scope}
    (h : tree.Builds city element) :
    Outlines tree.tokens [(element.kind, element.name)] 1 (if element.kind = .institution then 1 else 0) := by
  obtain ⟨scopes, he⟩ := h.described
  obtain ⟨_, hw, _⟩ := Content.fits he
  have hh := outlines_heading (by rw [tree.keyword.2, hw]) tree.name.2 tree.opening.2
  have hc := tree.content.outlines
  have hb : Outlines [tree.closing.1] [] 0 0 :=
    .of_isPlain (List.forall_mem_singleton.mpr (tree.closing.isPlain rfl))
  have hi : (tree.content.keyword = .institution) = (element.kind = .institution) := by
    rw [← hw]
    cases element.kind <;> simp [ElementKind.word]
  simp only [hi] at hc
  rw [Content.name_of_evaluate he, Element.tokens, Element.tail]
  simpa using hh.append (tree.operations.outlines.append (hc.append hb))

private theorem outlines_elements {group : Group} {trees : List (Element group)} {elements : List Cityscape.Element}
    {city : Scope} (h : List.Forall₂ (Element.Builds city) trees elements) :
    Outlines (elementTokens trees) (elements.map fun element ↦ (element.kind, element.name)) elements.length
      (elements.countP (·.kind = .institution)) := by
  induction h with
  | nil => exact .of_isPlain (List.forall_mem_nil _)
  | cons h _ ih =>
    have ho := (Element.outlines h).append ih
    simpa [elementTokens, List.countP_cons, Nat.add_comm] using ho

/-- The headings of an accepted script are those of its elements. -/
theorem City.outlines {tree : City} {result : Cityscape.City} (h : tree.evaluation.result = .ok result) :
    Outlines tree.tokens (result.elements.map fun element ↦ (element.kind, element.name))
      (result.elements.length + 1) (result.elements.countP (·.kind = .institution)) := by
  obtain ⟨city, mandatory, optional, hb, rfl⟩ := builds_of_evaluation h
  have hk : [tree.keyword.1, tree.name.1, tree.opening.1].map Token.kind =
      [.keyword .city, .string, .mark .openBrace] := by
    simp [tree.keyword.2, tree.name.2, tree.opening.2]
  have hh : Outlines [tree.keyword.1, tree.name.1, tree.opening.1] [] 1 0 :=
    .of_kinds hk (by decide) fun _ _ _ ↦ by simp [Coheres, Fits, Kind.heads]
  have hc : Outlines [tree.closing.1] [] 0 0 :=
    .of_isPlain (List.forall_mem_singleton.mpr (tree.closing.isPlain rfl))
  have ho := hh.append ((tree.operations.outlines.append
    ((outlines_elements hb.mandatory).append (outlines_elements hb.optional))).append hc)
  rw [Nat.add_comm 1] at ho
  simpa [City.tokens, City.body, Cityscape.City.ofElements] using ho

end Syntax

end Cityscape
