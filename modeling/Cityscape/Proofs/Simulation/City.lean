import Cityscape.Proofs.Simulation.Operation

/-!
# Reading elements and cities

What an element asks for behind its operations is read in branches that are taken only, so its readers
have the very values of the evaluation. Elements are read until another kind of token comes, and the
tokens of a whole script up to the last one.
-/

namespace Cityscape

open Evaluate (value ensure reading note clearElement complete)
open Syntax (Bend Line Circle Address Events Group Content)

variable {α β γ δ : Type} {capacity : Nat} {last : Token} {rest tokens tokens' : List Token}

namespace Follows

variable {agree : α → β → Prop} {agree' : γ → δ → Prop}

/-- Two readers in sequence follow the evaluation of two values. -/
theorem value_bind {read : Compile α} {read' : α → Compile γ} {of : Scopes → Except Fault β}
    {of' : β → Scopes → Except Fault δ}
    (h : Follows capacity last agree read tokens (tokens' ++ rest) (value of))
    (h' : ∀ a b, agree a b → Follows capacity last agree' (read' a) tokens' rest (value (of' b))) :
    Follows capacity last agree' (read >>= read') (tokens ++ tokens') rest
      (value fun scopes ↦ of scopes >>= fun b ↦ of' b scopes) := by
  rw [Evaluate.value_bind]
  exact h.bind h'

private theorem required {read : Compile (Option α)} {of : Scopes → Except Fault α} {check : Except Fault Unit}
    (wanted : Wanted) (h : Follows capacity last (AgreeIf true) read tokens rest (reading true of check)) :
    Follows capacity last Eq (read >>= Compile.required wanted) tokens rest (value of) := by
  have hv : value of = reading true of check >>= fun b ↦
      b.elim (throw ⟨.unevaluated wanted, .first⟩) Pure.pure := by
    rw [reading, if_pos rfl, bind_map_left]
    exact (bind_pure (value of)).symm
  rw [hv, ← List.append_nil tokens]
  apply h.bind
  intro a b hab
  cases hab with
  | taken a => exact .pure rfl

end Follows

/-- A coordinate of an element. -/
theorem place_follows (name : String) (coordinate : Syntax.Coordinate) :
    Follows capacity last Eq (Compile.place name) coordinate.tokens rest
      (value (coordinate.place name)) := by
  have hm : Follows capacity last Eq
      ((·.renamed name) <$> (Compile.coordinate true >>= Compile.required .coordinate))
      coordinate.tokens rest ((·.renamed name) <$> value coordinate.evaluate) :=
    ((coordinate_follows true coordinate).required .coordinate).map fun _ _ h ↦ congrArg (·.renamed name) h
  rw [← Evaluate.value_map, map_eq_pure_bind, bind_assoc] at hm
  exact hm

private theorem quantity_follows (expression : Syntax.Expression)
    (h : Compile.Operator.ofKind? (ahead last rest) = none) :
    Follows capacity last Eq Compile.quantity expression.tokens rest (value expression.evaluate) :=
  (number_follows true expression h).required .number

private theorem not_operator_sign {mark : Mark} (sign : Syntax.Sign mark)
    (h : Compile.Operator.ofKind? (.mark mark) = none) :
    Compile.Operator.ofKind? (ahead last (sign.1 :: rest)) = none := by
  rw [ahead, List.headD_cons, sign.2, h]

private theorem bend_follows (bend : Bend) :
    Follows capacity last Eq Compile.bend bend.tokens rest (value bend.evaluate) := by
  apply Follows.leaf bend.word
  apply Follows.sign bend.opening
  apply (place_follows _ bend.start).value_bind
  rintro start _ rfl
  apply Follows.sign bend.comma
  apply (place_follows _ bend.finish).value_bind
  rintro finish _ rfl
  apply Follows.sign bend.comma'
  apply (quantity_follows bend.angle (not_operator_sign bend.closing rfl)).value_bind
  rintro degrees _ rfl
  exact .sign bend.closing (.pure rfl)

private theorem line_follows (line : Line) :
    Follows capacity last Eq Compile.segment line.tokens rest (value line.evaluate) := by
  apply Follows.leaf line.word
  apply Follows.sign line.opening
  apply (place_follows _ line.first).value_bind
  rintro first _ rfl
  apply Follows.sign line.comma
  apply (place_follows _ line.second).value_bind
  rintro second _ rfl
  exact .sign line.closing (.pure rfl)

private theorem block_follows (block : Syntax.Block) :
    Follows capacity last Eq Compile.block block.tokens rest (value block.evaluate) := by
  apply Follows.leaf block.word
  apply Follows.sign block.opening
  apply (place_follows _ block.first).value_bind
  rintro first _ rfl
  apply Follows.sign block.comma
  apply (place_follows _ block.second).value_bind
  rintro second _ rfl
  apply Follows.sign block.comma'
  apply (place_follows _ block.third).value_bind
  rintro third _ rfl
  apply Follows.sign block.comma''
  apply (place_follows _ block.fourth).value_bind
  rintro fourth _ rfl
  exact .sign block.closing (.pure rfl)

private theorem circle_follows (circle : Syntax.Circle) :
    Follows capacity last Eq Compile.circle circle.tokens rest (value circle.evaluate) := by
  apply Follows.leaf circle.word
  apply Follows.sign circle.opening
  apply (place_follows _ circle.center).value_bind
  rintro center _ rfl
  apply Follows.sign circle.comma
  apply (quantity_follows circle.radius (not_operator_sign circle.closing rfl)).value_bind
  rintro radius _ rfl
  exact .sign circle.closing (.pure rfl)

private theorem address_follows (address : Address) :
    Follows capacity last Eq Compile.address address.tokens rest (value address.value.evaluate) := by
  apply Follows.leaf address.word
  apply Follows.sign address.assign
  exact (string_follows true address.value).required .address

private theorem events_follows (events : Events) (h : Compile.Operator.ofKind? (ahead last rest) = none) :
    Follows capacity last Eq Compile.events events.tokens rest (value events.value.evaluate) := by
  apply Follows.leaf events.word
  apply Follows.sign events.assign
  exact quantity_follows events.value h

variable {group : Group}

/-- The reader of what follows the operations of an element. -/
def Syntax.Content.read : Content group → String → Compile Cityscape.Element
  | street .. => Compile.street
  | institution .. => Compile.institution
  | square .. => Compile.square
  | statue .. => Compile.statue
  | lake .. => Compile.lake

private theorem content_follows (content : Content group) (name : String) :
    Follows capacity last Eq (content.read name) content.tokens rest
      (value (content.evaluate name)) := by
  cases content with
  | street bend line =>
    apply (bend_follows bend).value_bind
    rintro curve _ rfl
    rw [← List.append_nil line.tokens]
    apply (line_follows line).value_bind
    rintro segment _ rfl
    exact .pure rfl
  | institution address events block =>
    apply (address_follows address).value_bind
    rintro text _ rfl
    apply (events_follows events ?_).value_bind
    · rintro number _ rfl
      rw [← List.append_nil block.tokens]
      apply (block_follows block).value_bind
      rintro corners _ rfl
      exact .pure rfl
    · rw [ahead, Syntax.Block.tokens, List.cons_append, List.headD_cons, block.word.2]
      rfl
  | square block =>
    change Follows _ _ _ _ block.tokens _ _
    rw [← List.append_nil block.tokens]
    apply (block_follows block).value_bind
    rintro corners _ rfl
    exact .pure rfl
  | statue word place =>
    apply Follows.leaf word
    rw [← List.append_nil place.tokens]
    apply (place_follows _ place).value_bind
    rintro point _ rfl
    exact .pure rfl
  | lake circle =>
    change Follows _ _ _ _ circle.tokens _ _
    rw [← List.append_nil circle.tokens]
    apply (circle_follows circle).value_bind
    rintro center _ rfl
    exact .pure rfl

private theorem endsOperations_content (content : Content group) :
    (ahead last (content.tokens ++ rest)).endsOperations = true := by
  cases content with
  | street bend =>
    change (bend.word.1).kind.endsOperations = true
    rw [bend.word.2]
    rfl
  | institution address =>
    change (address.word.1).kind.endsOperations = true
    rw [address.word.2]
    rfl
  | square block =>
    change (block.word.1).kind.endsOperations = true
    rw [block.word.2]
    rfl
  | statue word =>
    change (word.1).kind.endsOperations = true
    rw [word.2]
    rfl
  | lake circle =>
    change (circle.word.1).kind.endsOperations = true
    rw [circle.word.2]
    rfl

/-- Strokes and features stay in step when an element is completed. -/
private theorem session_complete (element : Element) (work : Work) (tokens : List Token) :
    (work.session capacity last tokens).complete element =
      Work.session { work with elements := work.elements ++ [element] } capacity last tokens := by
  simp only [Session.complete, Work.session, List.map_append, List.map_singleton]
  rfl

private theorem complete_follows (element : Element) (line : Nat) :
    Follows capacity last Ignored (Compile.complete element line) [] rest (complete element line) := by
  intro legible work
  let drawn : Work := { work with elements := work.elements ++ [element] }
  let message := element.kind.name ++ " \"" ++ element.name ++ "\" emitted as feature " ++
    toString drawn.elements.length
  have hn : Follows capacity last Ignored (Compile.note line message) [] rest (note line message) :=
    .note line message
  -- The message counts the features, which are as many as the elements.
  have hc : (Compile.complete element line).run (work.session capacity last rest) =
      (Compile.note line message).run (drawn.session capacity last rest) := by
    change (Compile.note line (element.kind.name ++ " \"" ++ element.name ++ "\" emitted as feature " ++
      toString ((work.session capacity last rest).complete element).features.length)).run
        ((work.session capacity last rest).complete element) = _
    rw [session_complete, Work.session, List.length_map]
  obtain ⟨_, hi, hr⟩ := hn legible drawn
  exact ⟨(), hi, hc.trans hr⟩

private theorem element_follows (element : Syntax.Element group) :
    Follows capacity last Ignored (Compile.element element.content.keyword element.content.read)
      element.tokens rest element.perform := by
  apply Follows.leaf element.keyword
  rw [Compile.expectString, Syntax.Element.tail]
  simp only [bind_assoc, pure_bind]
  apply Follows.leaf element.name
  apply Follows.sign element.opening
  apply Follows.bind (Follows.modifyScopes Scopes.clearElement)
  intro _ _ _
  apply (operations_follows true .element element.operations rfl ?_).bind
  · intro _ _ _
    apply (content_follows element.content _).bind
    rintro completed _ rfl
    apply Follows.sign element.closing
    apply (complete_follows completed _).bind
    intro _ _ _
    exact .modifyScopes Scopes.clearElement
  · rw [List.append_assoc]
    exact endsOperations_content element.content

private theorem Syntax.Element.kind_headD (element : Syntax.Element group) (rest : List Token) (last : Token) :
    ((element.tokens ++ rest).headD last).kind = .keyword element.content.keyword :=
  element.keyword.2

/-- Which kinds have been met after some more elements. -/
def Compile.Mandatory.meet (met : Compile.Mandatory) (elements : List (Syntax.Element .mandatory)) :
    Compile.Mandatory where
  street := met.street || elements.any fun element ↦ element.content.keyword = .street
  institution := met.institution || elements.any fun element ↦ element.content.keyword = .institution

private theorem mandatoryElement_follows (met : Compile.Mandatory) (element : Syntax.Element .mandatory) :
    Follows capacity last (fun a _ ↦ a = some (met.meet [element])) (Compile.mandatoryElement met)
      element.tokens rest element.perform := by
  have he : Follows capacity last (fun a _ ↦ a = some (met.meet [element]))
      (Compile.element element.content.keyword element.content.read >>= fun _ ↦
        pure (some (met.meet [element]))) (element.tokens ++ []) rest
      (element.perform >>= fun _ ↦ pure ()) :=
    (element_follows element).bind fun _ _ _ ↦ .pure rfl
  rw [bind_pure_unit, List.append_nil] at he
  apply Follows.peek
  rw [element.kind_headD]
  cases hc : element.content with
  | street =>
    have hm : met.meet [element] = { met with street := true } := by
      simp [Compile.Mandatory.meet, hc, Content.keyword]
    rw [hm]
    rw [hc, hm] at he
    exact he
  | institution =>
    have hm : met.meet [element] = { met with institution := true } := by
      simp [Compile.Mandatory.meet, hc, Content.keyword]
    rw [hm]
    rw [hc, hm] at he
    exact he

private theorem iterate_mandatory (elements : List (Syntax.Element .mandatory)) (met : Compile.Mandatory)
    {limit : Nat} (hl : (Syntax.elementTokens elements).length < limit)
    (hs : ahead last rest ≠ .keyword .street) (hi : ahead last rest ≠ .keyword .institution) :
    Follows capacity last (fun a _ ↦ a = met.meet elements)
      (Compile.iterate Compile.mandatoryElement limit met) (Syntax.elementTokens elements) rest
      (elements.forM Syntax.Element.perform) := by
  induction elements generalizing met limit with
  | nil =>
    obtain ⟨limit, rfl⟩ : ∃ n, limit = n + 1 := ⟨limit - 1, by omega⟩
    have hm : met = met.meet [] := by simp [Compile.Mandatory.meet]
    apply iterate_stop hm
    apply Follows.peek
    split
    · next h => exact absurd h hs
    · next h => exact absurd h hi
    · exact .pure rfl
  | cons element elements ih =>
    have hp : 0 < element.tokens.length := Nat.succ_pos _
    rw [Syntax.elementTokens, List.flatMap_cons, List.length_append] at hl
    obtain ⟨limit, rfl⟩ : ∃ n, limit = n + 1 := ⟨limit - 1, by omega⟩
    have hm : (met.meet [element]).meet elements = met.meet (element :: elements) := by
      simp [Compile.Mandatory.meet, Bool.or_assoc]
    have ht := ih (met.meet [element])
      (show (Syntax.elementTokens elements).length < limit by rw [Syntax.elementTokens]; omega)
    rw [hm] at ht
    exact iterate_next met (mandatoryElement_follows met element) ht

private theorem mandatoryElements_follows (city : Syntax.City) (hs : ahead last rest ≠ .keyword .street)
    (hi : ahead last rest ≠ .keyword .institution) :
    Follows capacity last Ignored Compile.mandatoryElements (Syntax.elementTokens city.required) rest
      (do
        city.required.forM Syntax.Element.perform
        ensure city.check) := by
  apply Follows.current
  have hf : (Syntax.elementTokens city.required ++ rest).headD last = city.first.keyword := rfl
  rw [hf, ← List.append_nil (Syntax.elementTokens city.required)]
  apply (many_follows fun limit hl ↦ iterate_mandatory city.required {} hl hs hi).bind
  rintro met _ rfl
  have hk : city.has .street = true ∨ city.has .institution = true := by
    rw [Syntax.City.has, Syntax.City.has, Syntax.City.required, List.any_cons, List.any_cons]
    cases city.first.content with
    | street => exact .inl rfl
    | institution => exact .inr rfl
  have hm : Compile.Mandatory.meet {} city.required = ⟨city.has .street, city.has .institution⟩ := rfl
  rw [hm, Syntax.City.check]
  cases hs : city.has .street with
  | true =>
    cases hi : city.has .institution with
    | true => exact .pure True.intro
    | false => exact .refuse
  | false =>
    cases hi : city.has .institution with
    | true => exact .refuse
    | false =>
      rw [hs, hi] at hk
      simp at hk

private theorem optionalElement_follows (element : Syntax.Element .optional) :
    Follows capacity last (fun a _ ↦ a = some ()) Compile.optionalElement element.tokens rest
      element.perform := by
  have he : Follows capacity last (fun a _ ↦ a = some ())
      (some <$> Compile.element element.content.keyword element.content.read) element.tokens rest
      (id <$> element.perform) :=
    (element_follows element).map fun _ _ _ ↦ rfl
  rw [id_map] at he
  apply Follows.peek
  rw [element.kind_headD]
  cases hc : element.content with
  | square | statue | lake =>
    rw [hc] at he
    exact he

private theorem iterate_optional (elements : List (Syntax.Element .optional)) {limit : Nat}
    (hl : (Syntax.elementTokens elements).length < limit) (hr : ahead last rest = .mark .closeBrace) :
    Follows capacity last Ignored (Compile.iterate (fun _ ↦ Compile.optionalElement) limit ())
      (Syntax.elementTokens elements) rest (elements.forM Syntax.Element.perform) := by
  induction elements generalizing limit with
  | nil =>
    obtain ⟨limit, rfl⟩ : ∃ n, limit = n + 1 := ⟨limit - 1, by omega⟩
    apply iterate_stop True.intro
    apply Follows.peek
    have hk : (([] ++ rest).headD last).kind = ahead last rest := rfl
    rw [hk, hr]
    exact .pure rfl
  | cons element elements ih =>
    have hp : 0 < element.tokens.length := Nat.succ_pos _
    rw [Syntax.elementTokens, List.flatMap_cons, List.length_append] at hl
    obtain ⟨limit, rfl⟩ : ∃ n, limit = n + 1 := ⟨limit - 1, by omega⟩
    exact iterate_next () (optionalElement_follows element)
      (ih (show (Syntax.elementTokens elements).length < limit by rw [Syntax.elementTokens]; omega))

private theorem ahead_optional (elements : List (Syntax.Element .optional)) (closing : Syntax.Sign .closeBrace)
    {word : Keyword} (h : word = .street ∨ word = .institution) :
    ahead last (Syntax.elementTokens elements ++ [closing.1]) ≠ .keyword word := by
  cases elements with
  | nil =>
    rw [ahead, Syntax.elementTokens, List.flatMap_nil, List.nil_append, List.headD_cons, closing.2]
    exact Kind.noConfusion
  | cons element elements =>
    rw [ahead, Syntax.elementTokens, List.flatMap_cons, List.append_assoc, element.kind_headD]
    rcases h with rfl | rfl <;> cases element.content <;> exact of_decide_eq_true rfl

private theorem finish_follows (name : String) (hf : last.kind = .finish) :
    Follows capacity last Eq (do
        let _ ← Compile.expect .finish
        let session ← get
        return session.city name) [] [] (do
        let work ← get
        return City.ofElements name work.elements work.scopes) := by
  intro _ work
  have he : (Compile.expect .finish).run (work.session capacity last []) =
      .ok last (work.session capacity last []) := by
    change (if last.kind = .finish then Compile.advance else Compile.unexpected (.kind .finish)).run
      (work.session capacity last []) = _
    rw [if_pos hf]
    rfl
  refine ⟨.ofElements name work.elements work.scopes, rfl, ?_⟩
  simp only [EStateM.run, Bind.bind, EStateM.bind, List.append_nil] at he ⊢
  rw [he]
  rfl

/-- A whole script. -/
theorem city_follows (city : Syntax.City) (hf : last.kind = .finish) :
    Follows capacity last Eq Compile.city city.tokens [] city.perform := by
  apply Follows.leaf city.keyword
  rw [Compile.expectString]
  simp only [bind_assoc, pure_bind]
  apply Follows.leaf city.name
  apply Follows.sign city.opening
  apply Follows.current
  have hl : ((city.body ++ [city.closing.1] ++ []).headD last) = city.body.headD city.closing := by
    cases city.body <;> rfl
  have ht : city.body ++ [city.closing.1] = [] ++ (city.operations.tokens ++
      (Syntax.elementTokens city.required ++ (Syntax.elementTokens city.optional ++
        [city.closing.1]))) := by
    simp only [Syntax.City.body, List.append_assoc, List.nil_append]
  have he : (city.required.forM Syntax.Element.perform >>= fun _ ↦ ensure city.check >>= fun _ ↦
      city.optional.forM Syntax.Element.perform >>= fun _ ↦ get >>= fun work ↦
        pure (City.ofElements city.name.1.unquoted work.elements work.scopes)) =
      ((city.required.forM Syntax.Element.perform >>= fun _ ↦ ensure city.check) >>= fun _ ↦
        city.optional.forM Syntax.Element.perform >>= fun _ ↦ get >>= fun work ↦
          pure (City.ofElements city.name.1.unquoted work.elements work.scopes)) :=
    (bind_assoc ..).symm
  rw [hl, ht, Syntax.City.perform]
  apply (Follows.note _ _).bind
  intro _ _ _
  apply (operations_follows true .city city.operations rfl ?_).bind
  · intro _ _ _
    rw [he]
    apply (mandatoryElements_follows city ?_ ?_).bind
    · intro _ _ _
      have hc : ahead last [city.closing.1] = .mark .closeBrace := city.closing.2
      apply (many_follows fun limit hl ↦ iterate_optional city.optional hl hc).bind
      intro _ _ _
      exact .sign city.closing (finish_follows _ hf)
    · rw [List.append_nil]
      exact ahead_optional city.optional city.closing (.inl rfl)
    · rw [List.append_nil]
      exact ahead_optional city.optional city.closing (.inr rfl)
  · change (city.first.keyword.1).kind.endsOperations = true
    rw [city.first.keyword.2]
    cases city.first.content <;> rfl

end Cityscape
