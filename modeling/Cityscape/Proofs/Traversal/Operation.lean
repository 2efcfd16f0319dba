import Cityscape.Proofs.Traversal.Value

/-!
# Operations side by side

Operations go past one operation after the other. Declarations store what they find under names that correspond, if
the branch is taken and the likeness lets variables be declared at the level. Whatever a condition is in a branch
that is not taken, no other branch is taken inside.
-/

namespace Cityscape

open Grammar (Derives rules)

variable {α β : Type} {alike : Likeness} {active : Bool} {level : Level}

/-- What is stored and noted of values that agree, under names that correspond, corresponds. -/
def Likeness.Announces (alike : Likeness) (agree : α → α → Prop) (toValue : Token → α → Value)
    (text : Token → α → String) : Prop :=
  ∀ t t' a a', alike.naming.name t.lexeme t'.lexeme → agree a a' →
    (∃ stored : Value, toValue t a = stored.named t.lexeme ∧ toValue t' a' = stored.named t'.lexeme) ∧
      alike.naming.message (text t a) (text t' a')

private theorem Likeness.announces_same {toValue : α → Value} (hc : ∀ name a, toValue a = (toValue a).named name)
    {front : String} {back : α → String} {text : Token → α → String}
    (ht : ∀ t a, text t a = front ++ t.lexeme ++ back a) : alike.Announces Eq (fun _ ↦ toValue) text := by
  rintro t t' a _ hn rfl
  refine ⟨⟨toValue a, hc _ a, hc _ a⟩, ?_⟩
  rw [ht, ht]
  exact alike.naming.message_name front (back a) hn

private theorem store_walks (hd : active = true → alike.Declares level) {agree : α → α → Prop}
    {toValue : Token → α → Value}
    {text : Token → α → String} (ha : alike.Announces agree toValue text) {t t' : Token}
    (ht : alike.Of .identifier t t') {value value' : Option α} (hv : PresentIf active agree value value') :
    Walks alike (Rule []) Ignored (Compile.store level active t value (toValue t) (text t))
      (Compile.store level active t' value' (toValue t') (text t')) := by
  cases active with
  | true =>
    obtain ⟨a, a', rfl, rfl, h⟩ := hv rfl
    have hn : alike.naming.name t.lexeme t'.lexeme := alike.name_of ht.1 ht.2
    obtain ⟨⟨stored, hs, hs'⟩, hm⟩ := ha t t' a a' hn h
    apply (Walks.note (hd rfl).noted ht.1 hm).followed
    intro _ _ _
    rw [hs, hs']
    exact .modifyScopes ((hd rfl).changes hn stored)
  | false => exact .pure .nil True.intro

/-- The tokens before the value of a declaration. -/
theorem declarationHead_walks (word : Keyword) :
    Walks alike (Rule [.word word, .token .identifier, .mark .assign]) (alike.Of .identifier)
      (Compile.declarationHead word) (Compile.declarationHead word) := by
  apply (Walks.word word).cons
  intro _ _ _
  apply (Walks.expect Kind.noConfusion).cons
  intro t t' ht
  exact (Walks.mark _).followed fun _ _ _ ↦ .pure .nil ht

/-- A declaration whose value, of this symbol, is found by `find`. -/
theorem declaration_walks {word : Keyword} (symbol : Grammar.Symbol)
    (hr : [.word word, .token .identifier, .mark .assign, .symbol symbol] ∈ rules .operation)
    (hd : active = true → alike.Declares level) {find : Compile (Option α)} {agree : α → α → Prop}
    (hf : Walks alike (Rule [.symbol symbol]) (PresentIf active agree) find find) {toValue : Token → α → Value}
    {text : Token → α → String} (ha : alike.Announces agree toValue text) :
    Walks alike (Rule [.symbol .operation]) Ignored
      (Compile.declarationHead word >>= fun name ↦ find >>= fun value ↦
        Compile.store level active name value (toValue name) (text name))
      (Compile.declarationHead word >>= fun name ↦ find >>= fun value ↦
        Compile.store level active name value (toValue name) (text name)) := by
  apply Walks.rule _ hr
  apply (declarationHead_walks word).append
  intro t t' ht
  exact hf.followed fun _ _ hv ↦ store_walks hd ha ht hv

private theorem declareString_walks (hd : active = true → alike.Declares level) :
    Walks alike (Rule [.symbol .operation]) Ignored (Compile.declareString level active)
      (Compile.declareString level active) :=
  declaration_walks .string (by decide) hd (string_walks fun ha ↦ (hd ha).sighted)
    (Likeness.announces_same (fun _ _ ↦ rfl) fun _ _ ↦ by rw [String.append_assoc, String.append_assoc])

/-- Integer variables are declared like the others. -/
theorem Compile.declareInt_eq (level : Level) (active : Bool) :
    declareInt level active = (do
      let name ← declarationHead .declareInt
      let value ← integerExpression active
      store level active name value .int fun value ↦
        "int " ++ name.lexeme ++ " = " ++ toString value.toInt) := by
  simp only [declareInt, integerExpression, bind_assoc]
  refine bind_congr fun name ↦ bind_congr fun kind ↦ ?_
  split <;> simp only [bind_assoc, pure_bind]

private theorem declareInt_walks (hd : active = true → alike.Declares level) :
    Walks alike (Rule [.symbol .operation]) Ignored (Compile.declareInt level active)
      (Compile.declareInt level active) := by
  rw [Compile.declareInt_eq]
  exact declaration_walks .wholeExpression (by decide) hd (integerExpression_walks fun ha ↦ (hd ha).sighted)
    (Likeness.announces_same (fun _ _ ↦ rfl) fun _ _ ↦ by rw [String.append_assoc])

private theorem declareDouble_walks (hd : active = true → alike.Declares level) :
    Walks alike (Rule [.symbol .operation]) Ignored (Compile.declareDouble level active)
      (Compile.declareDouble level active) :=
  declaration_walks .expression (by decide) hd (number_walks fun ha ↦ (hd ha).sighted)
    (Likeness.announces_same (fun _ _ ↦ rfl) fun _ _ ↦ by rw [String.append_assoc])

private theorem declareCoordinate_walks (hd : active = true → alike.Declares level) :
    Walks alike (Rule [.symbol .operation]) Ignored (Compile.declareCoordinate level active)
      (Compile.declareCoordinate level active) := by
  refine declaration_walks .coordinate (by decide) hd (coordinate_walks fun ha ↦ (hd ha).sighted) ?_
  rintro t t' place place' hn ⟨hx, hy⟩
  refine ⟨⟨.coordinate place, rfl, ?_⟩, ?_⟩
  · change Value.coordinate (place'.renamed t'.lexeme) = .coordinate (place.renamed t'.lexeme)
    rw [Coordinate.renamed, Coordinate.renamed, hx, hy]
  · simp only [hx, hy, String.append_assoc]
    simpa only [String.append_assoc] using alike.naming.message_name "coordinate " _ hn

private theorem condition_walks (hd : active = true → alike.Declares level) {t t' : Token} (ht : alike.token t t') :
    Walks alike (Rule [.mark .openParen, .symbol .expression, .symbol .comparison, .symbol .expression,
      .mark .closeParen]) (AgreeBranch active) (Compile.condition active t) (Compile.condition active t') := by
  have hs : active = true → alike.sighted := fun ha ↦ (hd ha).sighted
  apply (Walks.mark _).cons
  intro _ _ _
  apply (number_walks hs).cons
  intro left left' hl
  apply comparison_walks.cons
  rintro comparison _ rfl
  apply (number_walks hs).cons
  intro right right' hr
  apply (Walks.mark _).followed
  intro _ _ _
  cases active with
  | true =>
    obtain ⟨_, _, rfl, rfl, rfl⟩ := hl rfl
    obtain ⟨_, _, rfl, rfl, rfl⟩ := hr rfl
    exact (Walks.note (hd rfl).noted ht (alike.naming.message_refl _)).followed fun _ _ _ ↦ .pure .nil fun _ ↦ rfl
  | false => exact .pure .nil nofun

private theorem branch_walks {body body' : Compile Unit}
    (h : Walks alike (Rule [.symbol .operations]) Ignored body body') :
    Walks alike (Rule [.mark .openBrace, .symbol .operations, .mark .closeBrace]) Ignored (Compile.branch body)
      (Compile.branch body') := by
  apply (Walks.mark _).cons
  intro _ _ _
  apply h.cons
  intro _ _ _
  exact .mark _

/-- What may follow the condition of a conditional: one branch or two. -/
def Branches (kinds : List Kind) : Prop :=
  Derives [.mark .openBrace, .symbol .operations, .mark .closeBrace] kinds ∨
    Derives [.mark .openBrace, .symbol .operations, .mark .closeBrace, .word .otherwise,
      .mark .openBrace, .symbol .operations, .mark .closeBrace] kinds

private theorem branches_walks {body : Bool → Compile Unit}
    (hb : ∀ taken, (taken = true → alike.Declares level) →
      Walks alike (Rule [.symbol .operations]) Ignored (body taken) (body taken))
    (hd : active = true → alike.Declares level) {holds holds' : Bool} (hh : AgreeBranch active holds holds') :
    Walks alike (.ofKinds Branches) Ignored (Compile.branches active body holds)
      (Compile.branches active body holds') := by
  have hbranch (way : Bool → Bool) :
      Walks alike (Rule [.mark .openBrace, .symbol .operations, .mark .closeBrace]) Ignored
        (Compile.branch (body (active && way holds))) (Compile.branch (body (active && way holds'))) := by
    apply branch_walks
    cases active with
    | true =>
      rw [hh rfl]
      exact hb _ fun _ ↦ hd rfl
    | false => exact hb false nofun
  -- Behind the first branch there is another one or nothing.
  have hs (front back : List Kind) (hf : Derives [.mark .openBrace, .symbol .operations, .mark .closeBrace] front)
      (h : back = [] ∨ Derives [.word .otherwise, .mark .openBrace, .symbol .operations, .mark .closeBrace] back) :
      Branches (front ++ back) := by
    rcases h with rfl | h
    · exact .inl (by rwa [List.append_nil])
    · exact .inr (hf.append h)
  intro kind
  refine (hbranch id kind).sequence ⟨[], .inl rfl⟩ hs fun _ _ _ ↦ ?_
  apply Walks.peek
  intro kind
  split
  · next hk =>
    subst hk
    exact (WalksAt.advance Kind.noConfusion fun _ _ _ ↦ hbranch not).mono fun _ ↦ .inr
  · exact Walks.pure (Or.inl rfl) True.intro kind

private theorem conditional_walks (hd : active = true → alike.Declares level) {body : Bool → Compile Unit}
    (hb : ∀ taken, (taken = true → alike.Declares level) →
      Walks alike (Rule [.symbol .operations]) Ignored (body taken) (body taken)) :
    Walks alike (Rule [.symbol .operation]) Ignored
      (Compile.expectWord .onlyIf >>= Compile.conditional active body)
      (Compile.expectWord .onlyIf >>= Compile.conditional active body) := by
  rw [funext (Compile.conditional_eq active body), ← bind_assoc]
  have hc := (Walks.word .onlyIf).cons fun _ _ ht ↦ condition_walks hd ht.1
  intro kind
  refine (hc kind).sequence ?_ ?_ fun _ _ hh ↦ branches_walks hb hd hh
  · obtain ⟨back, hd⟩ := Grammar.exists_derives [.mark .openBrace, .symbol .operations, .mark .closeBrace]
    exact ⟨back, .inl hd⟩
  · rintro front back hf (h | h)
    · exact Grammar.derives_rule.mpr ⟨_, by decide, hf.append h⟩
    · exact Grammar.derives_rule.mpr ⟨_, by decide, hf.append h⟩

/-- One of the items that a symbol repeats, or nothing. -/
def Item (symbol : Grammar.Symbol) : Language (Option Unit) where
  whole
    | none, kinds => kinds = []
    | some _, kinds =>
      kinds ≠ [] ∧ ∃ item, [.symbol item, .symbol symbol] ∈ rules symbol ∧ Derives [.symbol item] kinds
  begun := Begun (Derives [.symbol symbol])

/-- Readers of one item. -/
theorem Walks.item {item symbol : Grammar.Symbol} {read read' : Compile Unit}
    (hr : [.symbol item, .symbol symbol] ∈ rules symbol)
    (hn : ∀ alternative ∈ rules item, ∃ part ∈ alternative.head?, part.height = 0)
    (h : Walks alike (Rule [.symbol item]) Ignored read read') :
    Walks alike (Item symbol) Eq (some <$> read) (some <$> read') := by
  refine h.map (fun _ _ hd ↦ ⟨hd.ne_nil hn, item, hr, hd⟩) (fun _ hb ↦ hb.mono fun kinds hd ↦ ?_) fun _ _ _ ↦ rfl
  obtain ⟨more, hm⟩ := hd.begins_append [.symbol symbol]
  exact ⟨more, Grammar.derives_rule.mpr ⟨_, hr, hm⟩⟩

/-- Nothing, where no item comes next. -/
theorem Walks.noItem {symbol : Grammar.Symbol} : Walks alike (Item symbol) Eq (Pure.pure none) (Pure.pure none) := by
  have hn : (Item symbol).whole none [] := rfl
  exact .pure hn rfl

private theorem item_repeats {symbol : Grammar.Symbol} (hr : [] ∈ rules symbol) :
    Repeats (fun _ : Unit ↦ Item symbol) fun _ ↦ Rule [.symbol symbol] := by
  have hn : Derives [.symbol symbol] [] := Grammar.derives_rule.mpr ⟨[], hr, .nil⟩
  have hs {item : Grammar.Symbol} (hi : [.symbol item, .symbol symbol] ∈ rules symbol) {front : List Kind}
      (hf : Derives [.symbol item] front) (back : List Kind) (hb : Derives [.symbol symbol] back) :
      Derives [.symbol symbol] (front ++ back) := by
    exact Grammar.derives_rule.mpr ⟨[.symbol item, .symbol symbol], hi, hf.append hb⟩
  constructor
  case forward =>
    rintro _ _ _ ⟨hne, _⟩
    exact hne
  case stop =>
    rintro _ _ rfl
    exact hn
  case step =>
    rintro _ _ _ _ back ⟨_, item, hi, hf⟩ hb
    exact hs hi hf back hb
  case begin_item => exact fun hb ↦ hb
  case begin_next =>
    rintro _ _ _ _ ⟨_, item, hi, hf⟩ hb
    exact hb.append ⟨[], hs hi hf [] hn⟩ (hs hi hf)

/-- Items of a symbol that may be nothing, one after the other. -/
theorem items_walks {symbol : Grammar.Symbol} (hr : [] ∈ rules symbol) {step step' : Compile (Option Unit)}
    (h : Walks alike (Item symbol) Eq step step') :
    Walks alike (Rule [.symbol symbol]) Eq (Compile.many (fun _ ↦ step) ()) (Compile.many (fun _ ↦ step') ()) :=
  (item_repeats hr).walks (fun _ ↦ h) ()

private theorem operation_walks (hd : active = true → alike.Declares level) {onConditional : Token → Compile Unit}
    (hc : Walks alike (Rule [.symbol .operation]) Ignored (Compile.expectWord .onlyIf >>= onConditional)
      (Compile.expectWord .onlyIf >>= onConditional)) :
    Walks alike (Item .operations) Eq (Compile.operation level active onConditional)
      (Compile.operation level active onConditional) := by
  apply Walks.peek
  intro kind
  split
  · exact (declareString_walks hd).item (by decide) (by decide) _
  · exact (declareInt_walks hd).item (by decide) (by decide) _
  · exact (declareDouble_walks hd).item (by decide) (by decide) _
  · exact (declareCoordinate_walks hd).item (by decide) (by decide) _
  · exact hc.item (by decide) (by decide) _
  · exact Walks.noItem kind

/-- Operations, with any room for nested conditionals. -/
theorem operations_walks (depth : Nat) (hd : active = true → alike.Declares level) :
    Walks alike (Rule [.symbol .operations]) Ignored (Compile.operations level depth active)
      (Compile.operations level depth active) := by
  induction depth generalizing active with
  | zero =>
    refine (items_walks (by decide) (operation_walks hd ?_)).ignored
    apply Walks.rule [.word .onlyIf, .mark .openParen, .symbol .expression, .symbol .comparison,
      .symbol .expression, .mark .closeParen, .mark .openBrace, .symbol .operations, .mark .closeBrace]
      (by decide)
    exact (Walks.word _).cons fun _ _ ht ↦ .refuse .deepConditional rfl ht.1
  | succ depth ih =>
    exact (items_walks (by decide) (operation_walks hd (conditional_walks hd fun _ ↦ ih))).ignored

end Cityscape
