import Cityscape.Proofs.Grouping
import Cityscape.Proofs.Performing
import Cityscape.Proofs.Simulation

/-!
# Reading values

Each reader of a value follows the evaluation of its tree when the branch is taken, and only its check
when it is not. An expression ends where no operator comes next; that is all its reader needs to know of
the tokens behind it.
-/

namespace Cityscape

open Evaluate (value ensure)
open Compile (Operator Comparison)

variable {α β γ δ : Type} {capacity : Nat} {last : Token} {rest tokens tokens' : List Token}

/-- The kind of the token behind what is being read. -/
def ahead (last : Token) (rest : List Token) : Kind := (rest.headD last).kind

namespace Evaluate

/-- Values in sequence are a sequence of values. -/
theorem value_bind (of : Scopes → Except Fault β) (of' : β → Scopes → Except Fault δ) :
    (value fun scopes ↦ of scopes >>= fun b ↦ of' b scopes) = value of >>= fun b ↦ value (of' b) := by
  funext work
  simp only [value, Bind.bind, EStateM.bind, Except.bind]
  cases of work.scopes <;> rfl

/-- What is made of a value. -/
theorem value_map (of : Scopes → Except Fault β) (f : β → γ) :
    (value fun scopes ↦ do return f (← of scopes)) = f <$> value of := by
  funext work
  simp only [value, Functor.map, EStateM.map, Bind.bind, Except.bind]
  cases of work.scopes <;> rfl

/-- A value where the branch is taken; where it is not, only its check. -/
def reading (active : Bool) (of : Scopes → Except Fault β) (check : Except Fault Unit) :
    Evaluate (Option β) :=
  if active then some <$> value of else (fun _ ↦ none) <$> ensure check

/-- Two values in sequence, with what is made of them where both are there. -/
theorem reading_bind (active : Bool) (of : Scopes → Except Fault β) (of' : Scopes → Except Fault δ)
    (check check' : Except Fault Unit) (f : β → δ → γ) :
    reading active (fun scopes ↦ do return f (← of scopes) (← of' scopes)) (do check; check') =
      (do
        let x ← reading active of check
        let y ← reading active of' check'
        return do f (← x) (← y)) := by
  funext work
  cases active with
  | true =>
    simp only [reading, if_true, value, Functor.map, EStateM.map, Bind.bind, EStateM.bind, Except.bind]
    cases of work.scopes with
    | error => rfl
    | ok =>
      cases h : of' work.scopes with
      | error => simp only [h]
      | ok =>
        simp only [h]
        rfl
  | false =>
    cases check with
    | error => rfl
    | ok => cases check' <;> rfl

/-- One value with what is made of it where it is there. -/
theorem reading_map (active : Bool) (of : Scopes → Except Fault β) (check : Except Fault Unit)
    (f : β → γ) :
    reading active (fun scopes ↦ do return f (← of scopes)) check =
      Option.map f <$> reading active of check := by
  cases active with
  | true => rw [reading, if_pos rfl, reading, if_pos rfl, value_map, Functor.map_map, Functor.map_map]; rfl
  | false => cases check <;> rfl

private theorem reading_throw (active : Bool) (of : Scopes → Except Fault β) (fault : Fault) :
    reading active (fun scopes ↦ do let _ ← of scopes; throw fault) (.error fault) =
      (do
        let _ ← reading active of (.ok ())
        throw fault : Evaluate (Option γ)) := by
  funext work
  cases active with
  | true =>
    simp only [reading, if_true, value, Functor.map, EStateM.map, Bind.bind, EStateM.bind, Except.bind]
    cases of work.scopes <;> rfl
  | false => rfl

end Evaluate

open Evaluate (reading)

/-- Where the branch is taken both have the same value; where it is not, the evaluation has none. -/
inductive AgreeIf : Bool → Option α → Option α → Prop where
  | taken (a : α) : AgreeIf true (some a) (some a)
  | skipped (a : Option α) : AgreeIf false a none

/-- Values made in the same way of a value that agrees agree. -/
theorem AgreeIf.map {active : Bool} {a b : Option α} (f : α → β) (h : AgreeIf active a b) :
    AgreeIf active (a.map f) (b.map f) := by
  cases h with
  | taken a => exact .taken (f a)
  | skipped a => exact .skipped (a.map f)

private theorem AgreeIf.bind {active : Bool} {a b : Option α} {a' b' : Option β} {f : α → β → γ}
    (h : AgreeIf active a b) (h' : AgreeIf active a' b') :
    AgreeIf active (do some (f (← a) (← a'))) (do some (f (← b) (← b'))) := by
  cases h with
  | taken a =>
    cases h' with
    | taken a' => exact .taken (f a a')
  | skipped => exact .skipped _

variable (active : Bool)

/-- A variable has its value, or is refused, or need not have one. -/
theorem resolve_follows (sort : VariableSort) (name : Token) (get? : Scopes → Option α) :
    Follows capacity last (AgreeIf active)
      (Compile.scopes >>= fun scopes ↦ Compile.resolve active sort name (get? scopes)) [] rest
      (reading active (fun scopes ↦ Syntax.lookup sort name (get? scopes)) (.ok ())) := by
  intro _ work
  have hs : ∀ read : Scopes → Compile (Option α),
      (Compile.scopes >>= read).run (work.session capacity last ([] ++ rest)) =
        (read work.scopes).run (work.session capacity last rest) := fun _ ↦ rfl
  rw [hs]
  cases active with
  | true =>
    simp only [reading, if_true, value, EStateM.run, Functor.map, EStateM.map]
    cases get? work.scopes with
    | some a => exact ⟨some a, .taken a, rfl⟩
    | none => exact ⟨_, rfl, rfl, rfl, rfl⟩
  | false =>
    cases get? work.scopes with
    | some a => exact ⟨some a, .skipped _, rfl⟩
    | none => exact ⟨none, .skipped _, rfl⟩

/-- A string. -/
theorem string_follows (text : Syntax.Text) :
    Follows capacity last (AgreeIf active) (Compile.string active) text.tokens rest
      (reading active text.evaluate (.ok ())) := by
  apply Follows.peek
  cases text with
  | literal text =>
    simp only [Syntax.Text.tokens, List.cons_append, List.headD_cons, text.2]
    apply Follows.advance text.1
    cases active with
    | true => exact .pure (.taken _)
    | false => exact .pure (.skipped _)
  | named name =>
    simp only [Syntax.Text.tokens, List.cons_append, List.headD_cons, name.2]
    exact .advance name.1
      (resolve_follows active .string name.1 fun scopes ↦ scopes.string? name.1.lexeme)

private theorem literal_follows {literal : Token}
    (legible : Decimal.read? literal.lexeme = some (Syntax.numeral literal.lexeme)) :
    Follows capacity last (AgreeIf active) (Compile.advance >>= fun literal ↦
      match Decimal.read? literal.lexeme with
      | some value => Pure.pure (some value)
      | none => Compile.refuse (.invalidNumber literal.lexeme) literal) [literal] rest
      (reading active (fun _ ↦ .ok (Syntax.numeral literal.lexeme)) (.ok ())) := by
  apply Follows.advance literal
  simp only [legible]
  cases active with
  | true => exact .pure (.taken _)
  | false => exact .pure (.skipped _)

private theorem operand_follows (operand : Syntax.Operand) :
    Follows capacity last (AgreeIf active) (Compile.operand active) [operand.token] rest
      (reading active operand.evaluate (.ok ())) := by
  apply Follows.legible
  intro legible
  apply Follows.peek
  cases operand with
  | integer literal =>
    simp only [Syntax.Operand.token, List.cons_append, List.headD_cons, literal.2] at legible ⊢
    exact literal_follows active (legible (.inl literal.2))
  | double literal =>
    simp only [Syntax.Operand.token, List.cons_append, List.headD_cons, literal.2] at legible ⊢
    exact literal_follows active (legible (.inr literal.2))
  | named name =>
    simp only [Syntax.Operand.token, List.cons_append, List.headD_cons, name.2]
    exact .advance name.1
      (resolve_follows active .number name.1 fun scopes ↦ scopes.number? name.1.lexeme)

namespace Syntax.Expression

/-- The value of an expression that may have `limit` operands; a longer one is refused at `start`. -/
def bounded (start : Token) (limit : Nat) (scopes : Scopes) (expression : Expression) :
    Except Fault Float :=
  if limit < expression.operands.length then do
    (expression.operands.take limit).forM fun operand ↦ do
      let _ ← operand.evaluate scopes
    throw ⟨.longExpression, start.position⟩
  else expression.value scopes

/-- The check of an expression that may have `limit` operands. -/
def boundedCheck (start : Token) (limit : Nat) (expression : Expression) : Except Fault Unit :=
  if limit < expression.operands.length then .error ⟨.longExpression, start.position⟩ else .ok ()

private theorem operands_length_pos (expression : Expression) : 0 < expression.operands.length := by
  cases expression <;> exact Nat.succ_pos _

/-- An expression begins with the token of its first operand. -/
theorem headD_tokens (expression : Expression) (rest : List Token) (last : Token) :
    (expression.tokens ++ rest).headD last = expression.first.token := by
  cases expression <;> rfl

private theorem bounded_one (start : Token) (scopes : Scopes) (operand : Operand) (operator : Operator)
    (sign : Sign operator.mark) (rest : Expression) :
    (chain operand operator sign rest).bounded start 1 scopes =
      (do let _ ← operand.evaluate scopes; throw ⟨.longExpression, start.position⟩) := by
  have hl : 1 < (chain operand operator sign rest).operands.length :=
    Nat.succ_lt_succ rest.operands_length_pos
  rw [bounded, if_pos hl]
  simp only [operands, List.take_succ_cons, List.take_zero, List.forM]
  cases operand.evaluate scopes <;> rfl

private theorem bounded_succ (start : Token) (limit : Nat) (scopes : Scopes) (operand : Operand)
    (operator : Operator) (sign : Sign operator.mark) (rest : Expression) :
    (chain operand operator sign rest).bounded start (limit + 1) scopes =
      (do return operator.apply (← operand.evaluate scopes) (← rest.bounded start limit scopes)) := by
  simp only [bounded, operands, List.length_cons, Nat.add_lt_add_iff_right]
  split
  · simp only [List.take_succ_cons, List.forM]
    cases operand.evaluate scopes with
    | error => rfl
    | ok a =>
      generalize ((rest.operands.take limit).forM fun operand ↦ do
        let _ ← operand.evaluate scopes : Except Fault PUnit) = found
      cases found <;> rfl
  · rfl

private theorem boundedCheck_succ (start : Token) (limit : Nat) (operand : Operand) (operator : Operator)
    (sign : Sign operator.mark) (rest : Expression) :
    (chain operand operator sign rest).boundedCheck start (limit + 1) =
      (do .ok (); rest.boundedCheck start limit) := by
  simp only [boundedCheck, operands, List.length_cons, Nat.add_lt_add_iff_right]
  rfl

end Syntax.Expression

/-- An operand that is the last one. -/
private theorem terms_last (start : Token) (operand : Syntax.Operand) (further : Nat)
    (h : Operator.ofKind? (ahead last rest) = none) :
    Follows capacity last (AgreeIf active) (Compile.terms Operator.apply active start further) [operand.token] rest
      (reading active operand.evaluate (.ok ())) := by
  have hb : Follows capacity last (AgreeIf active) (Compile.terms Operator.apply active start further)
      ([operand.token] ++ []) rest (reading active operand.evaluate (.ok ()) >>= Pure.pure) := by
    apply (operand_follows active operand).bind
    intro a b hab
    change Operator.ofKind? ((([] : List Token) ++ rest).headD last).kind = none at h
    cases further with
    | zero =>
      apply Follows.peek
      simp only [h]
      exact .pure hab
    | succ further =>
      apply Follows.peek
      simp only [h]
      exact .pure hab
  rwa [bind_pure, List.append_nil] at hb

private theorem terms_follows (start : Token) (expression : Syntax.Expression) (further : Nat)
    (h : Operator.ofKind? (ahead last rest) = none) :
    Follows capacity last (AgreeIf active) (Compile.terms Operator.apply active start further) expression.tokens rest
      (reading active (expression.bounded start (further + 1))
        (expression.boundedCheck start (further + 1))) := by
  induction expression generalizing further with
  | last operand => exact terms_last active start operand further h
  | chain operand operator sign rest' ih =>
    have ho : Operator.ofKind? ((sign.1 :: rest'.tokens ++ rest).headD last).kind = some operator := by
      rw [List.cons_append, List.headD_cons, sign.2, Operator.ofKind?_mark]
    change Follows capacity last (AgreeIf active) (Compile.terms Operator.apply active start further)
      ([operand.token] ++ sign.1 :: rest'.tokens) rest _
    cases further with
    | zero =>
      have hl : 1 < (Syntax.Expression.chain operand operator sign rest').operands.length :=
        Nat.succ_lt_succ rest'.operands_length_pos
      have hc : (Syntax.Expression.chain operand operator sign rest').boundedCheck start 1 =
          .error ⟨.longExpression, start.position⟩ := if_pos hl
      rw [funext fun scopes ↦ Syntax.Expression.bounded_one start scopes operand operator sign rest', hc,
        Evaluate.reading_throw, Compile.terms_zero]
      apply (operand_follows active operand).bind
      intro a b _
      apply Follows.peek
      simp only [ho]
      exact .refuse
    | succ further =>
      rw [funext fun scopes ↦ Syntax.Expression.bounded_succ start (further + 1) scopes operand operator
        sign rest', Syntax.Expression.boundedCheck_succ, Evaluate.reading_bind, Compile.terms_succ]
      apply (operand_follows active operand).bind
      intro a b hab
      apply Follows.peek
      simp only [ho]
      apply Follows.advance sign.1
      rw [← List.append_nil rest'.tokens]
      apply (ih further).bind
      intro a' b' hab'
      exact .pure (hab.bind hab')

/-- A whole expression. -/
theorem number_follows (expression : Syntax.Expression)
    (h : Operator.ofKind? (ahead last rest) = none) :
    Follows capacity last (AgreeIf active) (Compile.number active) expression.tokens rest
      (reading active expression.evaluate expression.check) := by
  rw [Compile.number_eq]
  apply Follows.current
  rw [Syntax.Expression.headD_tokens]
  exact terms_follows active expression.first.token expression (longestExpression - 1) h

private theorem projected_follows (word : Token) (opening : Syntax.Sign .openParen)
    (name : Syntax.Leaf .identifier) (closing : Syntax.Sign .closeParen) :
    Follows capacity last (AgreeIf active) (Compile.component.projected active)
      [word, opening.1, name.1, closing.1] rest
      (reading active
        (fun scopes ↦ Syntax.lookup .coordinate name.1 (scopes.coordinate? name.1.lexeme)) (.ok ())) := by
  apply Follows.advance word
  apply Follows.sign opening
  apply Follows.leaf name
  apply Follows.sign closing
  exact resolve_follows active .coordinate name.1 fun scopes ↦ scopes.coordinate? name.1.lexeme

/-- The value of a projection, from that of its coordinate. -/
private theorem projection_follows (f : Coordinate → Float) {of : Scopes → Except Fault Coordinate}
    (h : Follows capacity last (AgreeIf active) (Compile.component.projected active) tokens rest
      (reading active of (.ok ()))) :
    Follows capacity last (AgreeIf active)
      (Compile.component.projected active >>= fun place ↦ Pure.pure (place.map f)) tokens rest
      (reading active (fun scopes ↦ do return f (← of scopes)) (.ok ())) := by
  rw [Evaluate.reading_map, bind_pure_comp]
  exact h.map fun _ _ hab ↦ hab.map f

private theorem component_follows (component : Syntax.Component)
    (h : Operator.ofKind? (ahead last rest) = none) :
    Follows capacity last (AgreeIf active) (Compile.component active) component.tokens rest
      (reading active component.evaluate component.check) := by
  apply Follows.peek
  cases component with
  | first word opening name closing =>
    simp only [Syntax.Component.tokens, List.cons_append, List.headD_cons, word.2]
    exact projection_follows active Coordinate.x (projected_follows active word.1 opening name closing)
  | second word opening name closing =>
    simp only [Syntax.Component.tokens, List.cons_append, List.headD_cons, word.2]
    exact projection_follows active Coordinate.y (projected_follows active word.1 opening name closing)
  | expression expression =>
    simp only [Syntax.Component.tokens, Syntax.Expression.headD_tokens]
    cases expression.first with
    | integer literal =>
      simp only [Syntax.Operand.token, literal.2]
      exact number_follows active expression h
    | double literal =>
      simp only [Syntax.Operand.token, literal.2]
      exact number_follows active expression h
    | named name =>
      simp only [Syntax.Operand.token, name.2]
      exact number_follows active expression h

/-- A coordinate. -/
theorem coordinate_follows (coordinate : Syntax.Coordinate) :
    Follows capacity last (AgreeIf active) (Compile.coordinate active) coordinate.tokens rest
      (reading active coordinate.evaluate coordinate.check) := by
  apply Follows.peek
  cases coordinate with
  | pair opening x comma y closing =>
    simp only [Syntax.Coordinate.tokens, List.cons_append, List.headD_cons, opening.2]
    have hr : reading active (Syntax.Coordinate.pair opening x comma y closing).evaluate
        (Syntax.Coordinate.pair opening x comma y closing).check =
          (do
            let x ← reading active x.evaluate x.check
            let y ← reading active y.evaluate y.check
            return do Coordinate.anonymous (← x) (← y)) :=
      Evaluate.reading_bind active x.evaluate y.evaluate x.check y.check Coordinate.anonymous
    rw [hr]
    apply Follows.advance opening.1
    apply (component_follows active x ?_).bind
    · intro a b hab
      apply Follows.sign comma
      apply (component_follows active y ?_).bind
      · intro a' b' hab'
        apply Follows.sign closing
        exact .pure (hab.bind hab')
      · simp only [ahead, List.cons_append, List.headD_cons, closing.2]
        rfl
    · simp only [ahead, List.cons_append, List.headD_cons, comma.2]
      rfl
  | named name =>
    simp only [Syntax.Coordinate.tokens, List.cons_append, List.headD_cons, name.2]
    exact .advance name.1
      (resolve_follows active .coordinate name.1 fun scopes ↦ scopes.coordinate? name.1.lexeme)

end Cityscape
