import Cityscape.Proofs.Elements
import Cityscape.Proofs.Traversal.Operation

/-!
# Elements and cities side by side

What an element asks for behind its operations is always evaluated, so the readers of elements keep two
compilations alike if these agree on their variables and may declare more of them. Elements give their coordinates
names of their own, so they come out the same. If both compilations also have as many features, and completing an
element in both keeps them alike, then whole cities are read alike and come from corresponding progress.
-/

namespace Cityscape

open Grammar (Part Derives rules)

variable {α β : Type} {alike : Likeness}

/-- Coordinates of elements. -/
theorem place_walks (hs : alike.sighted) (name : String) :
    Walks alike (Rule [.symbol .coordinate]) Eq (Compile.place name) (Compile.place name) := by
  apply (coordinate_walks fun _ ↦ hs).followed
  intro _ _ hv
  apply (required_walks hv).followed
  rintro place place' ⟨hx, hy⟩
  refine .pure .nil ?_
  rw [Coordinate.renamed, Coordinate.renamed, hx, hy]

private theorem quantity_walks (hs : alike.sighted) :
    Walks alike (Rule [.symbol .expression]) Eq Compile.quantity Compile.quantity :=
  (number_walks fun _ ↦ hs).followed fun _ _ hv ↦ required_walks hv

private theorem bend_walks (hs : alike.sighted) : Walks alike (Rule [.symbol .bend]) Eq Compile.bend Compile.bend := by
  apply Walks.rule [.word .bend, .mark .openParen, .symbol .coordinate, .mark .comma,
    .symbol .coordinate, .mark .comma, .symbol .expression, .mark .closeParen] (by decide)
  apply (Walks.word _).cons
  intro _ _ _
  apply (Walks.mark _).cons
  intro _ _ _
  apply (place_walks hs _).cons
  rintro start _ rfl
  apply (Walks.mark _).cons
  intro _ _ _
  apply (place_walks hs _).cons
  rintro finish _ rfl
  apply (Walks.mark _).cons
  intro _ _ _
  apply (quantity_walks hs).cons
  rintro degrees _ rfl
  exact (Walks.mark _).followed fun _ _ _ ↦ .pure .nil rfl

private theorem segment_walks (hs : alike.sighted) :
    Walks alike (Rule [.symbol .line]) Eq Compile.segment Compile.segment := by
  apply Walks.rule [.word .line, .mark .openParen, .symbol .coordinate, .mark .comma,
    .symbol .coordinate, .mark .closeParen] (by decide)
  apply (Walks.word _).cons
  intro _ _ _
  apply (Walks.mark _).cons
  intro _ _ _
  apply (place_walks hs _).cons
  rintro first _ rfl
  apply (Walks.mark _).cons
  intro _ _ _
  apply (place_walks hs _).cons
  rintro second _ rfl
  exact (Walks.mark _).followed fun _ _ _ ↦ .pure .nil rfl

private theorem block_walks (hs : alike.sighted) :
    Walks alike (Rule [.symbol .block]) Eq Compile.block Compile.block := by
  apply Walks.rule [.word .block, .mark .openParen, .symbol .coordinate, .mark .comma,
    .symbol .coordinate, .mark .comma, .symbol .coordinate, .mark .comma, .symbol .coordinate,
    .mark .closeParen] (by decide)
  apply (Walks.word _).cons
  intro _ _ _
  apply (Walks.mark _).cons
  intro _ _ _
  apply (place_walks hs _).cons
  rintro first _ rfl
  apply (Walks.mark _).cons
  intro _ _ _
  apply (place_walks hs _).cons
  rintro second _ rfl
  apply (Walks.mark _).cons
  intro _ _ _
  apply (place_walks hs _).cons
  rintro third _ rfl
  apply (Walks.mark _).cons
  intro _ _ _
  apply (place_walks hs _).cons
  rintro fourth _ rfl
  exact (Walks.mark _).followed fun _ _ _ ↦ .pure .nil rfl

private theorem circle_walks (hs : alike.sighted) :
    Walks alike (Rule [.symbol .circle]) Eq Compile.circle Compile.circle := by
  apply Walks.rule [.word .circle, .mark .openParen, .symbol .coordinate, .mark .comma,
    .symbol .expression, .mark .closeParen] (by decide)
  apply (Walks.word _).cons
  intro _ _ _
  apply (Walks.mark _).cons
  intro _ _ _
  apply (place_walks hs _).cons
  rintro center _ rfl
  apply (Walks.mark _).cons
  intro _ _ _
  apply (quantity_walks hs).cons
  rintro radius _ rfl
  exact (Walks.mark _).followed fun _ _ _ ↦ .pure .nil rfl

private theorem address_walks (hs : alike.sighted) :
    Walks alike (Rule [.symbol .address]) Eq Compile.address Compile.address := by
  apply Walks.rule [.word .address, .mark .assign, .symbol .string] (by decide)
  apply (Walks.word _).cons
  intro _ _ _
  apply (Walks.mark _).cons
  intro _ _ _
  exact (string_walks fun _ ↦ hs).followed fun _ _ hv ↦ required_walks hv

private theorem events_walks (hs : alike.sighted) :
    Walks alike (Rule [.symbol .events]) Eq Compile.events Compile.events := by
  apply Walks.rule [.word .events, .mark .assign, .symbol .expression] (by decide)
  apply (Walks.word _).cons
  intro _ _ _
  apply (Walks.mark _).cons
  intro _ _ _
  exact quantity_walks hs

/-- What follows the operations in an element of a kind. -/
def ElementKind.content : ElementKind → String → Compile Element
  | street => Compile.street
  | institution => Compile.institution
  | square => Compile.square
  | statue => Compile.statue
  | lake => Compile.lake

/-- The symbol of elements of a kind. -/
def ElementKind.symbol : ElementKind → Grammar.Symbol
  | street => .street
  | institution => .institution
  | square => .square
  | statue => .statue
  | lake => .lake

/-- The parts behind the operations in an element of a kind. -/
def ElementKind.parts : ElementKind → List Part
  | street => [.symbol .bend, .symbol .line]
  | institution => [.symbol .address, .symbol .events, .symbol .block]
  | square => [.symbol .block]
  | statue => [.symbol .point]
  | lake => [.symbol .circle]

private theorem ElementKind.rules_symbol (kind : ElementKind) :
    rules kind.symbol = [[.word kind.word, .token .string, .mark .openBrace, .symbol .operations] ++
      (kind.parts ++ [.mark .closeBrace])] := by
  cases kind <;> rfl

private theorem content_walks (hs : alike.sighted) (kind : ElementKind) (name : String) :
    Walks alike (Rule kind.parts) Eq (kind.content name) (kind.content name) := by
  cases kind with
  | street =>
    apply (bend_walks hs).cons
    rintro bend _ rfl
    apply (segment_walks hs).followed
    rintro line _ rfl
    exact .pure .nil rfl
  | institution =>
    apply (address_walks hs).cons
    rintro address _ rfl
    apply (events_walks hs).cons
    rintro events _ rfl
    apply (block_walks hs).followed
    rintro block _ rfl
    exact .pure .nil rfl
  | square =>
    apply (block_walks hs).followed
    rintro block _ rfl
    exact .pure .nil rfl
  | statue =>
    apply Walks.rule [.word .point, .symbol .coordinate] (by decide)
    apply (Walks.word _).cons
    intro _ _ _
    apply (place_walks hs _).followed
    rintro point _ rfl
    exact .pure .nil rfl
  | lake =>
    apply (circle_walks hs).followed
    rintro circle _ rfl
    exact .pure .nil rfl

/-- One more element is drawn and its feature emitted. -/
def Progress.complete (progress : Progress) (element : Element) : Progress :=
  { progress with
    elements := progress.elements ++ [element], features := progress.features ++ [element.feature] }

/-- A likeness of compilations that agree on variables and have as many features, which completing one keeps. -/
structure Likeness.Twins (alike : Likeness) : Prop where
  declares (level : Level) : alike.Declares level
  clears : alike.changes Scopes.clearElement Scopes.clearElement
  features_eq {p p' : Progress} : alike.progress p p' → p.features = p'.features
  complete {p p' : Progress} (element : Element) : alike.progress p p' →
    alike.progress (p.complete element) (p'.complete element)

private theorem Likeness.Twins.sighted (h : alike.Twins) : alike.sighted :=
  (h.declares .city).sighted

private theorem complete_recognizes (element : Element) (line : Nat) :
    Recognizes (Compile.complete element line) (Rule []) :=
  fun _ _ tokens _ _ hs _ ↦
    ⟨[], tokens, rfl, .ok .nil ⟨hs.current, hs.ahead, hs.ending⟩ fun _ _ _ _ ↦ rfl⟩

private theorem complete_alike (h : alike.Twins) (element : Element) {t t' : Token} (ht : alike.token t t') :
    Alike alike Ignored (Compile.complete element t.position.line)
      (Compile.complete element t'.position.line) := by
  intro s s' hs
  have hc : alike.Sessions (s.complete element) (s'.complete element) :=
    ⟨hs.current, hs.ahead, hs.ending, h.complete element hs.progress⟩
  have hl : (s.complete element).features.length = (s'.complete element).features.length :=
    congrArg (fun features ↦ (features ++ [element.feature]).length) (h.features_eq hs.progress)
  have hn := Alike.note (h.declares .city).noted ht (alike.naming.message_refl (element.kind.name ++ " \"" ++
    element.name ++ "\" emitted as feature " ++ toString (s'.complete element).features.length)) _ _ hc
  change alike.Outcomes Ignored ((Compile.note t.position.line (element.kind.name ++ " \"" ++ element.name ++
    "\" emitted as feature " ++ toString (s.complete element).features.length)).run (s.complete element)) _
  rw [hl]
  exact hn

private theorem complete_walks (h : alike.Twins) (element : Element) {t t' : Token} (ht : alike.token t t') :
    Walks alike (Rule []) Ignored (Compile.complete element t.position.line)
      (Compile.complete element t'.position.line) :=
  fun kind ↦ ⟨fun _ ↦ complete_recognizes element _ kind, (complete_alike h element ht).at kind⟩

/-- A whole element of a kind. -/
def ElementKind.read (kind : ElementKind) : Compile Unit :=
  Compile.element kind.word kind.content

/-- An element of a kind from its keyword to its closing brace, with the keyword. -/
def ElementKind.whole (kind : ElementKind) : Compile (Element × Token) := do
  let keyword ← Compile.expectWord kind.word
  let name ← Compile.expectString
  Compile.expectMark .openBrace
  Compile.modifyScopes Scopes.clearElement
  Compile.operations .element deepestNesting true
  let element ← kind.content name
  Compile.expectMark .closeBrace
  return (element, keyword)

/-- An element is read to its closing brace and then completed. -/
theorem ElementKind.read_eq (kind : ElementKind) : kind.read = (do
    let (element, keyword) ← kind.whole
    Compile.complete element keyword.position.line
    Compile.modifyScopes Scopes.clearElement) := by
  simp only [read, whole, Compile.element, bind_assoc, pure_bind]

/-- Elements up to their closing braces. -/
theorem whole_walks (hd : alike.Declares .element)
    (hc : alike.changes Scopes.clearElement Scopes.clearElement) (kind : ElementKind) :
    Walks alike (Rule [.symbol kind.symbol]) (fun a b ↦ a.1 = b.1 ∧ alike.token a.2 b.2) kind.whole kind.whole := by
  apply Walks.rule _ (by rw [kind.rules_symbol]; exact List.mem_singleton_self _)
  apply (Walks.word _).cons
  intro t t' ht
  apply Walks.string.cons
  rintro name _ rfl
  apply (Walks.mark _).cons
  intro _ _ _
  apply (Walks.modifyScopes hc).silent
  intro _ _ _
  apply (operations_walks _ fun _ ↦ hd).cons
  intro _ _ _
  apply (content_walks hd.sighted kind name).append
  rintro element _ rfl
  exact (Walks.mark _).followed fun _ _ _ ↦ .pure .nil ⟨rfl, ht.1⟩

/-- Whole elements. -/
theorem element_walks (h : alike.Twins) (kind : ElementKind) :
    Walks alike (Rule [.symbol kind.symbol]) Ignored kind.read kind.read := by
  rw [ElementKind.read_eq]
  apply (whole_walks (h.declares .element) h.clears kind).followed
  rintro ⟨element, t⟩ ⟨_, t'⟩ ⟨rfl, ht⟩
  apply (complete_walks h element ht).followed
  intro _ _ _
  exact .modifyScopes h.clears

/-- Nothing was met since `met`, or at least one mandatory element was. -/
def Met (met : Compile.Mandatory) : Language Compile.Mandatory where
  whole after kinds := (after = met ∧ kinds = []) ∨ Derives [.symbol .mandatory] kinds
  begun := Begun (Derives [.symbol .mandatory])

/-- One mandatory element, or nothing. -/
def MandatoryItem : Language (Option Compile.Mandatory) where
  whole result kinds := (result = none ∧ kinds = []) ∨
    ∃ item ∈ [Grammar.Symbol.street, .institution], Derives [.symbol item] kinds
  begun := Begun (Derives [.symbol .mandatory])

private theorem mandatory_rules {item : Grammar.Symbol} (h : item ∈ [Grammar.Symbol.street, .institution]) :
    [.symbol item] ∈ rules .mandatory ∧ [.symbol item, .symbol .mandatory] ∈ rules .mandatory ∧
      ∀ alternative ∈ rules item, ∃ part ∈ alternative.head?, part.height = 0 := by
  rcases List.mem_cons.mp h with rfl | h
  · decide
  · rw [List.mem_singleton.mp h]
    decide

private theorem Walks.mandatory {item : Grammar.Symbol} (hi : item ∈ [Grammar.Symbol.street, .institution])
    {read read' : Compile Unit} (h : Walks alike (Rule [.symbol item]) Ignored read read')
    (met : Compile.Mandatory) :
    Walks alike MandatoryItem Eq (read >>= fun _ ↦ Pure.pure (some met))
      (read' >>= fun _ ↦ Pure.pure (some met)) := by
  intro kind
  refine (h.followed (fun _ _ _ ↦ .pure .nil rfl) kind).weaken (fun _ _ hd ↦ .inr ⟨item, hi, hd⟩) fun _ hb ↦
    hb.mono fun kinds hd ↦ ⟨[], ?_⟩
  rw [List.append_nil]
  exact Grammar.derives_rule.mpr ⟨_, (mandatory_rules hi).1, hd⟩

private theorem mandatoryElement_walks (h : alike.Twins) (met : Compile.Mandatory) :
    Walks alike MandatoryItem Eq (Compile.mandatoryElement met) (Compile.mandatoryElement met) := by
  apply Walks.peek
  intro kind
  split
  · exact (element_walks h .street).mandatory (by decide) _ _
  · exact (element_walks h .institution).mandatory (by decide) _ _
  · have hn : MandatoryItem.whole none [] := .inl ⟨rfl, rfl⟩
    exact Walks.pure hn rfl kind

private theorem mandatory_repeats : Repeats (fun _ ↦ MandatoryItem) Met := by
  have hone {item : Grammar.Symbol} (hi : item ∈ [Grammar.Symbol.street, .institution]) {front : List Kind}
      (hf : Derives [.symbol item] front) : Derives [.symbol .mandatory] front :=
    Grammar.derives_rule.mpr ⟨_, (mandatory_rules hi).1, hf⟩
  have hmore {item : Grammar.Symbol} (hi : item ∈ [Grammar.Symbol.street, .institution]) {front : List Kind}
      (hf : Derives [.symbol item] front) (back : List Kind) (hb : Derives [.symbol .mandatory] back) :
      Derives [.symbol .mandatory] (front ++ back) :=
    Grammar.derives_rule.mpr ⟨_, (mandatory_rules hi).2.1, hf.append hb⟩
  constructor
  case forward =>
    rintro _ _ _ (⟨⟨⟩, _⟩ | ⟨item, hi, hf⟩)
    exact hf.ne_nil (mandatory_rules hi).2.2
  case stop =>
    rintro met _ (⟨_, rfl⟩ | ⟨item, hi, hf⟩)
    · exact .inl ⟨rfl, rfl⟩
    · exact .inr (hone hi hf)
  case step =>
    rintro _ _ _ _ back (⟨⟨⟩, _⟩ | ⟨item, hi, hf⟩) (⟨_, rfl⟩ | hb)
    · rw [List.append_nil]
      exact .inr (hone hi hf)
    · exact .inr (hmore hi hf back hb)
  case begin_item => exact fun hb ↦ hb
  case begin_next =>
    rintro _ _ _ _ (⟨⟨⟩, _⟩ | ⟨item, hi, hf⟩) hb
    exact hb.append ⟨[], by rw [List.append_nil]; exact hone hi hf⟩ (hmore hi hf)

private theorem mandatoryElements_walks (h : alike.Twins) :
    Walks alike (Rule [.symbol .mandatory]) Ignored Compile.mandatoryElements Compile.mandatoryElements := by
  apply Walks.current
  intro start start' ht kind
  refine (mandatory_repeats.walks (mandatoryElement_walks h) {} kind).bind (fun _ hb ↦ hb) ?_ ?_
  · rintro met _ front rfl (⟨rfl, rfl⟩ | hd) _
    · exact .refuseToken (Or.inl rfl)
    · have hd : Derives [.symbol .mandatory] (front ++ []) := by rwa [List.append_nil]
      split
      · exact .refuseToken (Or.inr ⟨[], by rwa [List.append_nil]⟩)
      · exact .pure hd
      · exact .refuse rfl
  · rintro met _ rfl
    split
    · exact .unexpected
    · exact .pure True.intro
    · exact fun _ _ hs ↦ .error (.incomplete h.sighted ht) hs

private theorem optionalElement_walks (h : alike.Twins) :
    Walks alike (Item .optional) Eq Compile.optionalElement Compile.optionalElement := by
  apply Walks.peek
  intro kind
  split
  · exact (element_walks h .square).item (by decide) (by decide) _
  · exact (element_walks h .statue).item (by decide) (by decide) _
  · exact (element_walks h .lake).item (by decide) (by decide) _
  · exact Walks.noItem kind

/-- A script up to its first element. -/
def Compile.opening : Compile String := do
  let _ ← expectWord .city
  let name ← expectString
  expectMark .openBrace
  note (← current).position.line ("city \"" ++ name ++ "\"")
  operations .city deepestNesting true
  return name

/-- What follows the last element of a script. -/
def Compile.closing : Compile Unit := do
  expectMark .closeBrace
  let _ ← expect .finish

/-- A script is its opening, its elements and its closing. -/
theorem Compile.city_parts : Compile.city = Compile.opening >>= fun name ↦ do
    mandatoryElements
    many (fun _ ↦ optionalElement) ()
    closing
    let session ← get
    return session.city name := by
  simp only [city, opening, closing, bind_assoc, pure_bind]

/-- Openings. -/
theorem opening_walks (hd : alike.Declares .city) :
    Walks alike (Rule [.word .city, .token .string, .mark .openBrace, .symbol .operations]) Eq Compile.opening
      Compile.opening := by
  apply (Walks.word _).cons
  intro _ _ _
  apply Walks.string.cons
  rintro name _ rfl
  apply (Walks.mark _).cons
  intro _ _ _
  apply Walks.current
  intro t t' ht
  apply (Walks.note hd.noted ht (alike.naming.message_refl _)).silent
  intro _ _ _
  exact (operations_walks _ fun _ ↦ hd).followed fun _ _ _ ↦ .pure .nil rfl

/-- A script up to the brace that closes the city. -/
def Compile.upToFinish : Compile String := do
  let name ← opening
  mandatoryElements
  many (fun _ ↦ optionalElement) ()
  expectMark .closeBrace
  return name

/-- A script is read up to that brace, and then its end. -/
theorem Compile.city_eq : Compile.city = Compile.upToFinish >>= fun name ↦ do
    let _ ← expect .finish
    let session ← get
    return session.city name := by
  simp only [city, opening, upToFinish, bind_assoc, pure_bind]

/-- Scripts up to that brace. -/
theorem upToFinish_walks (h : alike.Twins) :
    Walks alike (Rule [.symbol .city]) Eq Compile.upToFinish Compile.upToFinish := by
  apply Walks.rule [.word .city, .token .string, .mark .openBrace, .symbol .operations,
    .symbol .mandatory, .symbol .optional, .mark .closeBrace] (by decide)
  apply (opening_walks (h.declares .city)).append
  rintro name _ rfl
  apply (mandatoryElements_walks h).cons
  intro _ _ _
  apply (items_walks (by decide) (optionalElement_walks h)).cons
  intro _ _ _
  exact (Walks.mark _).followed fun _ _ _ ↦ .pure .nil rfl

/-- Closings. -/
theorem closing_alike : Alike alike Ignored Compile.closing Compile.closing := by
  apply (Alike.mark _).bind
  intro _ _ _
  exact (Alike.expect _).bind fun _ _ _ ↦ .pure True.intro

/-- Cities with one name that come from corresponding progress. -/
def Likeness.Cities (alike : Likeness) (city city' : City) : Prop :=
  city.name = city'.name ∧ ∃ journal journal',
    alike.progress ⟨city.scopes, city.elements, city.features, journal⟩
      ⟨city'.scopes, city'.elements, city'.features, journal'⟩

/-- Whole scripts: both give corresponding cities, or both are refused alike. -/
theorem city_alike (h : alike.Twins) : Alike alike alike.Cities Compile.city Compile.city := by
  rw [Compile.city_eq]
  apply (upToFinish_walks h).keeps.bind
  rintro name _ rfl
  apply (Alike.expect _).bind
  intro _ _ _ s s' hs
  exact .ok ⟨rfl, s.journal, s'.journal, hs.progress⟩ hs

/-- A compilation beside itself. -/
def Likeness.itself : Likeness where
  token := Eq
  progress := Eq
  fault _ := True
  sighted := True
  noted := True
  naming := .same
  changes := Eq
  kind_eq h := congrArg Token.kind h
  lexeme_eq h _ := congrArg Token.lexeme h
  name_of h _ := congrArg Token.lexeme h
  agree _ h := h ▸ Scopes.agree_self _
  change hc h := by rw [hc, h]
  note _ ht hm h := by rw [ht, hm, h]

/-- Every compilation is beside itself. -/
theorem Likeness.itself_reflexive : itself.Reflexive :=
  fun _ ↦ ⟨rfl, List.forall₂_same.mpr fun _ _ ↦ rfl, .refl (fun _ ↦ rfl) (fun _ ↦ True.intro) _, rfl⟩

/-- A compilation does the same as itself. -/
theorem Likeness.itself_twins : itself.Twins where
  declares level := ⟨True.intro, True.intro, fun h value ↦
    congrArg (fun name (scopes : Scopes) ↦ scopes.declare level name (value.named name)) h⟩
  clears := rfl
  features_eq h := congrArg Progress.features h
  complete element h := congrArg (fun progress : Progress ↦ progress.complete element) h

end Cityscape
