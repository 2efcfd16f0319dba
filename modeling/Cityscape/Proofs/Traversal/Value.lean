import Cityscape.Proofs.Grouping
import Cityscape.Proofs.Simulation.Operation
import Cityscape.Proofs.Traversal

/-!
# Values side by side

Strings, numbers and coordinates go past what their symbols derive. Where the branch is taken two compilations that
agree on their variables find values, and find the same ones; in a branch that is not taken nothing is asked of the
variables at all.
-/

namespace Cityscape

open Grammar (Part Derives rules)
open Compile (Operator Comparison)

variable {α β γ δ : Type} {alike : Likeness} {active : Bool}

/-- Two values that are there and are as `agree` says, if the branch is taken. -/
def PresentIf (active : Bool) (agree : α → β → Prop) (value : Option α) (value' : Option β) : Prop :=
  active = true → ∃ a b, value = some a ∧ value' = some b ∧ agree a b

private theorem PresentIf.map {agree : α → β → Prop} {agree' : γ → δ → Prop} {value : Option α} {value' : Option β}
    {f : α → γ} {g : β → δ} (h : PresentIf active agree value value') (hf : ∀ a b, agree a b → agree' (f a) (g b)) :
    PresentIf active agree' (value.map f) (value'.map g) := by
  intro ha
  obtain ⟨a, b, rfl, rfl, hab⟩ := h ha
  exact ⟨f a, g b, rfl, rfl, hf a b hab⟩

private theorem PresentIf.both {agree : β → β → Prop} {left left' right right' : Option α} {f : α → α → β}
    (hl : PresentIf active Eq left left') (hr : PresentIf active Eq right right') (hf : ∀ a b, agree (f a b) (f a b)) :
    PresentIf active agree (do return f (← left) (← right)) (do return f (← left') (← right')) := by
  intro ha
  obtain ⟨a, _, rfl, rfl, rfl⟩ := hl ha
  obtain ⟨b, _, rfl, rfl, rfl⟩ := hr ha
  exact ⟨f a b, f a b, rfl, rfl, hf a b⟩

private theorem resolve_recognizes (sort : VariableSort) (name : Token) (value : Option α) :
    Recognizes (Compile.resolve active sort name value) (Rule []) := by
  cases value with
  | some value => exact .pure .nil
  | none =>
    cases active with
    | true => exact .refuse rfl
    | false => exact .pure .nil

private theorem resolve_alike (hs : active = true → alike.sighted) (sort : VariableSort) {t t' : Token}
    (ht : alike.Of .identifier t t') {agree : α → β → Prop} {value : Option α} {value' : Option β}
    (hv : active = true → Option.Rel agree value value') :
    Alike alike (PresentIf active agree) (Compile.resolve active sort t value)
      (Compile.resolve active sort t' value') := by
  cases active with
  | true =>
    cases hv rfl with
    | some h => exact .pure fun _ ↦ ⟨_, _, rfl, rfl, h⟩
    | none => exact fun _ _ h ↦ .error (.undefined sort (hs rfl) ht.1 (alike.name_of ht.1 ht.2)) h
  | false =>
    -- What the variables hold, if anything, makes no difference to what is done.
    cases value <;> cases value' <;> exact .pure nofun

private theorem lookup_walks (hs : active = true → alike.sighted) (sort : VariableSort) {t t' : Token}
    (ht : alike.Of .identifier t t') {agree : α → α → Prop} {get? : Scopes → String → Option α}
    (hg : ∀ {scopes scopes' : Scopes} {n n' : String}, scopes.Agree alike.naming scopes' →
      alike.naming.name n n' → Option.Rel agree (get? scopes n) (get? scopes' n')) :
    Walks alike (Rule []) (PresentIf active agree)
      (Compile.scopes >>= fun scopes ↦ Compile.resolve active sort t (get? scopes t.lexeme))
      (Compile.scopes >>= fun scopes ↦ Compile.resolve active sort t' (get? scopes t'.lexeme)) := by
  refine fun kind ↦ ⟨fun _ ↦ Recognizes.scopes.silent (fun _ ↦ resolve_recognizes _ _ _) kind, ?_⟩
  intro s s' h _
  refine resolve_alike hs sort ht (fun ha ↦ ?_) s s' h
  exact hg (alike.agree (hs ha) h.progress) (alike.name_of ht.1 ht.2)

private theorem rel_of_eq {value value' : Option α} (h : value = value') : Option.Rel Eq value value' := by
  subst h
  cases value with
  | none => exact .none
  | some a => exact .some rfl

/-- Strings. -/
theorem string_walks (hs : active = true → alike.sighted) :
    Walks alike (Rule [.symbol .string]) (PresentIf active Eq) (Compile.string active) (Compile.string active) := by
  apply Walks.peek
  intro kind
  split
  · apply WalksAt.rule [.token .string] (by decide)
    apply WalksAt.advance Kind.noConfusion
    intro t t' ht
    exact .pure .nil fun _ ↦ ⟨_, _, rfl, rfl, alike.unquoted_eq ht⟩
  · apply WalksAt.rule [.token .identifier] (by decide)
    apply WalksAt.advance Kind.noConfusion
    intro t t' ht
    exact lookup_walks hs .string ht fun hg hn ↦ rel_of_eq (hg.string hn)
  · exact Walks.unexpected _

private theorem Compile.advance_bind (next : Token → Compile α) :
    (advance >>= next) = (current >>= fun token ↦ advance >>= fun _ ↦ next token) := by
  funext ⟨current, ahead, ending, scopes, elements, features, journal⟩
  cases ahead with
  | nil => cases ending <;> rfl
  | cons => rfl

-- One that is no number is illegible.
private theorem literal_recognizesAt {kind : Kind} (hk : kind = .integer ∨ kind = .double) :
    RecognizesAt kind (Compile.advance >>= fun literal ↦ match Decimal.read? literal.lexeme with
      | some value => pure (some value)
      | none => Compile.refuse (.invalidNumber literal.lexeme) literal) (Rule [.token kind]) := by
  have hf : kind ≠ .finish := by rcases hk with rfl | rfl <;> exact Kind.noConfusion
  rw [Compile.advance_bind]
  rintro ending tokens session hp hs rfl
  change Settles (Compile.advance >>= fun _ ↦ match Decimal.read? session.current.lexeme with
      | some value => pure (some value)
      | none => Compile.refuse (.invalidNumber session.current.lexeme) session.current) _ ending tokens session
  cases hv : Decimal.read? session.current.lexeme with
  | some value => exact RecognizesAt.advance hf (fun _ ↦ .pure .nil) ending tokens session hp hs rfl
  | none =>
    obtain ⟨rest, rfl⟩ := hs.exists_cons hp hf
    have hl : ¬ session.current.Legible := fun h ↦ nomatch hv.symm.trans (h hk)
    cases ha : Compile.advance.run session with
    | ok literal after => exact .of_illegible List.mem_cons_self hl (run_bind_of_ok ha)
    | error fault after => exact .of_illegible List.mem_cons_self hl (run_bind_of_error ha)

private theorem literal_walksAt {kind : Kind} (hk : kind = .integer ∨ kind = .double) :
    WalksAt alike kind (Rule [.token kind]) (PresentIf active Eq)
      (Compile.advance >>= fun literal ↦ match Decimal.read? literal.lexeme with
        | some value => pure (some value)
        | none => Compile.refuse (.invalidNumber literal.lexeme) literal)
      (Compile.advance >>= fun literal ↦ match Decimal.read? literal.lexeme with
        | some value => pure (some value)
        | none => Compile.refuse (.invalidNumber literal.lexeme) literal) := by
  refine ⟨fun _ ↦ literal_recognizesAt hk, AlikeAt.advance.bind fun t t' ht ↦ ?_⟩
  rw [alike.lexeme_eq ht.1 (by rcases hk with rfl | rfl <;> simp [ht.2])]
  split
  · exact .pure fun _ ↦ ⟨_, _, rfl, rfl, rfl⟩
  · exact .refuse (.invalidNumber _) ht.1

/-- Operands: the token ahead is one. -/
theorem operand_walks (hs : active = true → alike.sighted) (kind : Kind) :
    WalksAt alike kind (.ofKinds fun kinds ↦ [.token kind] ∈ rules .operand ∧ kinds = [kind])
      (PresentIf active Eq) (Compile.operand active) (Compile.operand active) := by
  have ho (kind : Kind) (hk : [.token kind] ∈ rules .operand) (kinds : List Kind)
      (h : Derives [.token kind] kinds) : [.token kind] ∈ rules .operand ∧ kinds = [kind] := by
    cases h with
    | token _ tail => exact ⟨hk, by rw [Grammar.derives_nil.mp tail]⟩
  apply WalksAt.peek
  split
  · exact (literal_walksAt (.inl rfl)).mono (ho _ (by decide))
  · exact (literal_walksAt (.inr rfl)).mono (ho _ (by decide))
  · refine (WalksAt.advance Kind.noConfusion fun t t' ht ↦ ?_).mono (ho _ (by decide))
    exact lookup_walks hs .number ht fun hg hn ↦ rel_of_eq (hg.number hn)
  · exact Walks.unexpected _

/-- What may follow an operand in an expression. -/
def Tail (kinds : List Kind) : Prop :=
  kinds = [] ∨ Derives [.symbol .operator, .symbol .expression] kinds

/-- An operand of this kind and what may follow it. -/
def Chain (kind : Kind) (kinds : List Kind) : Prop :=
  [.token kind] ∈ rules .operand ∧ ∃ tail, kinds = kind :: tail ∧ Tail tail

private theorem Chain.expression {kind : Kind} {kinds : List Kind} (h : Chain kind kinds) :
    Derives [.symbol .expression] kinds := by
  obtain ⟨hk, tail, rfl, ht⟩ := h
  have ho : Derives [.symbol .operand] [kind] :=
    Grammar.derives_rule.mpr ⟨_, hk, .token kind .nil⟩
  rw [Grammar.derives_rule]
  rcases ht with rfl | ht
  · exact ⟨[.symbol .operand], by decide, ho⟩
  · exact ⟨[.symbol .operand, .symbol .operator, .symbol .expression], by decide, ho.append ht⟩

private theorem Chain.wholeExpression {kind : Kind} {kinds : List Kind} (h : Chain kind kinds)
    (hd : kind ≠ .double) : Derives [.symbol .wholeExpression] kinds := by
  obtain ⟨hk, tail, rfl, ht⟩ := h
  have ho : kind = .integer ∨ kind = .identifier := by
    simp only [rules, List.mem_cons, List.cons.injEq, Part.token.injEq, and_true, List.not_mem_nil,
      or_false] at hk
    exact hk.imp_right fun h ↦ h.resolve_left hd
  rw [Grammar.derives_rule]
  rcases ht with rfl | ht <;> rcases ho with rfl | rfl
  · exact ⟨[.token .integer], by decide, .token _ .nil⟩
  · exact ⟨[.token .identifier], by decide, .token _ .nil⟩
  · exact ⟨[.token .integer, .symbol .operator, .symbol .expression], by decide, .token _ ht⟩
  · exact ⟨[.token .identifier, .symbol .operator, .symbol .expression], by decide, .token _ ht⟩

private theorem operator_walks {kind : Kind} {operator : Operator} (h : Operator.ofKind? kind = some operator) :
    WalksAt alike kind (Rule [.symbol .operator]) (alike.Of kind) Compile.advance Compile.advance := by
  unfold Operator.ofKind? at h
  split at h
  · exact .rule [.mark .plus] (by decide) (.token Kind.noConfusion)
  · exact .rule [.mark .minus] (by decide) (.token Kind.noConfusion)
  · cases h

private theorem chain_walks {kind : Kind} {agree : β → γ → Prop} {next : Option Float → Compile β}
    {next' : Option Float → Compile γ} (hs : active = true → alike.sighted)
    (h : ∀ value value', PresentIf active Eq value value' →
      Walks alike (.ofKinds Tail) agree (next value) (next' value')) :
    WalksAt alike kind (.ofKinds (Chain kind)) agree (Compile.operand active >>= next)
      (Compile.operand active >>= next') := by
  refine (operand_walks hs kind).sequence ⟨[], .inl rfl⟩ ?_ h
  rintro _ tail ⟨hk, rfl⟩ ht
  exact ⟨hk, tail, rfl, ht⟩

private theorem terms_walks {apply : Operator → Float → Float → Float} (hs : active = true → alike.sighted)
    {first first' : Token} (hf : alike.token first first') (kind : Kind) (further : Nat) :
    WalksAt alike kind (.ofKinds (Chain kind)) (PresentIf active Eq) (Compile.terms apply active first further)
      (Compile.terms apply active first' further) := by
  induction further generalizing kind with
  | zero =>
    rw [Compile.terms_zero, Compile.terms_zero]
    apply chain_walks hs
    intro value value' hv
    apply Walks.peek
    intro kind
    split
    · exact Walks.pure (Or.inl rfl) hv kind
    · exact Walks.refuse .longExpression rfl hf kind
  | succ further ih =>
    rw [Compile.terms_succ, Compile.terms_succ]
    apply chain_walks hs
    intro value value' hv
    apply Walks.peek
    intro kind
    split
    · exact Walks.pure (Or.inl rfl) hv kind
    · next operator ho =>
      refine WalksAt.mono ((operator_walks ho).append fun _ _ _ ↦ ?_) fun _ h ↦ .inr h
      have he : Walks alike (Rule [.symbol .expression]) (PresentIf active Eq)
          (Compile.terms apply active first further) (Compile.terms apply active first' further) :=
        fun kind ↦ (ih kind).mono fun _ h ↦ h.expression
      exact he.followed fun _ _ hr ↦ .pure .nil (hv.both hr fun _ _ ↦ rfl)

private theorem expression_walks (apply : Operator → Float → Float → Float) (hs : active = true → alike.sighted)
    (kind : Kind) :
    WalksAt alike kind (.ofKinds (Chain kind)) (PresentIf active Eq) (Compile.expression apply active)
      (Compile.expression apply active) := by
  rw [Compile.expression_eq]
  exact .current fun _ _ hf ↦ terms_walks hs hf kind _

/-- Expressions. -/
theorem number_walks (hs : active = true → alike.sighted) :
    Walks alike (Rule [.symbol .expression]) (PresentIf active Eq) (Compile.number active)
      (Compile.number active) :=
  fun kind ↦ (expression_walks _ hs kind).mono fun _ h ↦ h.expression

/-- The expression of an integer. -/
def Compile.integerExpression (active : Bool) : Compile (Option Int64) := do
  if (← peek) = .double then unexpected .integerExpression
  return (← number active).map Float.toInt64

/-- The expression of an integer does not begin with a decimal number. -/
theorem integerExpression_walks (hs : active = true → alike.sighted) :
    Walks alike (Rule [.symbol .wholeExpression]) (PresentIf active Eq) (Compile.integerExpression active)
      (Compile.integerExpression active) := by
  apply Walks.peek
  intro kind
  split
  · exact Walks.unexpected_bind kind
  · next hd =>
    have hn : WalksAt alike kind (Rule [.symbol .wholeExpression]) (PresentIf active Eq) (Compile.number active)
        (Compile.number active) := (expression_walks _ hs kind).mono fun _ h ↦ h.wholeExpression hd
    exact hn.followed fun _ _ hv ↦ .pure .nil (hv.map fun _ _ ↦ congrArg Float.toInt64)

private theorem resolveCoordinate_walks (hs : active = true → alike.sighted) {t t' : Token}
    (ht : alike.Of .identifier t t') :
    Walks alike (Rule []) (PresentIf active Coordinate.SamePlace) (Compile.resolveCoordinate active t)
      (Compile.resolveCoordinate active t') :=
  lookup_walks hs .coordinate ht fun hg hn ↦ hg.coordinate hn

private theorem projected_walks (hs : active = true → alike.sighted) {word : Keyword} :
    WalksAt alike (.keyword word) (Rule [.word word, .mark .openParen, .token .identifier, .mark .closeParen])
      (PresentIf active Coordinate.SamePlace) (Compile.component.projected active)
      (Compile.component.projected active) := by
  apply WalksAt.advance Kind.noConfusion
  intro _ _ _
  apply (Walks.mark _).cons
  intro _ _ _
  apply (Walks.expect Kind.noConfusion).cons
  intro t t' ht
  apply (Walks.mark _).cons
  intro _ _ _
  exact resolveCoordinate_walks hs ht

/-- Components. -/
theorem component_walks (hs : active = true → alike.sighted) :
    Walks alike (Rule [.symbol .component]) (PresentIf active Eq) (Compile.component active)
      (Compile.component active) := by
  apply Walks.peek
  intro kind
  split
  · exact .rule _ (by decide) ((projected_walks hs).followed fun _ _ hp ↦ .pure .nil (hp.map fun _ _ ↦ And.left))
  · exact .rule _ (by decide) ((projected_walks hs).followed fun _ _ hp ↦ .pure .nil (hp.map fun _ _ ↦ And.right))
  · exact (number_walks hs).rule [.symbol .expression] (by decide) kind

/-- Coordinates. -/
theorem coordinate_walks (hs : active = true → alike.sighted) :
    Walks alike (Rule [.symbol .coordinate]) (PresentIf active Coordinate.SamePlace) (Compile.coordinate active)
      (Compile.coordinate active) := by
  apply Walks.peek
  intro kind
  split
  · apply WalksAt.rule [.mark .openParen, .symbol .component, .mark .comma, .symbol .component,
      .mark .closeParen] (by decide)
    apply WalksAt.advance Kind.noConfusion
    intro _ _ _
    apply (component_walks hs).cons
    intro x x' hx
    apply (Walks.mark _).cons
    intro _ _ _
    apply (component_walks hs).cons
    intro y y' hy
    apply (Walks.mark _).cons
    intro _ _ _
    exact .pure .nil (hx.both hy fun _ _ ↦ ⟨rfl, rfl⟩)
  · apply WalksAt.rule [.token .identifier] (by decide)
    exact WalksAt.advance Kind.noConfusion fun _ _ ht ↦ resolveCoordinate_walks hs ht
  · exact Walks.unexpected _

/-- Comparisons. -/
theorem comparison_walks :
    Walks alike (Rule [.symbol .comparison]) Eq Compile.comparison Compile.comparison := by
  apply Walks.peek
  intro kind
  split
  · next comparison hc =>
    unfold Comparison.ofKind? at hc
    split at hc
    · exact .rule [.mark .equal] (by decide) (.advance Kind.noConfusion fun _ _ _ ↦ .pure .nil rfl)
    · exact .rule [.mark .notEqual] (by decide) (.advance Kind.noConfusion fun _ _ _ ↦ .pure .nil rfl)
    · exact .rule [.mark .less] (by decide) (.advance Kind.noConfusion fun _ _ _ ↦ .pure .nil rfl)
    · exact .rule [.mark .greater] (by decide) (.advance Kind.noConfusion fun _ _ _ ↦ .pure .nil rfl)
    · cases hc
  · exact Walks.unexpected _

/-- Values that have to be there. -/
theorem required_walks {wanted : Wanted} {agree : α → β → Prop} {value : Option α} {value' : Option β}
    (hv : PresentIf true agree value value') :
    Walks alike (Rule []) agree (Compile.required wanted value) (Compile.required wanted value') := by
  obtain ⟨a, b, rfl, rfl, h⟩ := hv rfl
  exact .pure .nil h

end Cityscape
