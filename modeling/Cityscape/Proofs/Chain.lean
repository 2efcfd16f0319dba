import Cityscape.Proofs.Grouping
import Cityscape.Proofs.Reading

/-!
# Chains of operands

What an expression comes to, told from its tree alone and with any arithmetic: the first operand and what the
rest comes to. The reader of expressions finds just that, and it stops at the token behind the last operand. An
expression that is too long is refused at its first token, before anything is read behind the last operand that
it may have.
-/

namespace Cityscape

open Compile (Operator)

namespace Syntax

/-- What an operand comes to: a number, nothing where it need not have a value, or a fault. -/
def Operand.outcome (active : Bool) (scopes : Scopes) : Operand → Except Fault (Option Float)
  | integer ⟨literal, _⟩ | double ⟨literal, _⟩ =>
    match Decimal.read? literal.lexeme with
    | some value => .ok (some value)
    | none => .error ⟨.invalidNumber literal.lexeme, literal.position⟩
  | named ⟨name, _⟩ =>
    match scopes.number? name.lexeme with
    | some value => .ok (some value)
    | none => if active then .error ⟨.undefined .number name.lexeme, name.position⟩ else .ok none

namespace Expression

variable (apply : Operator → Float → Float → Float) (active : Bool) (scopes : Scopes)

/-- What an expression comes to: its first operand is the left one of what the rest comes to. -/
def grouped : Expression → Except Fault (Option Float)
  | last operand => operand.outcome active scopes
  | chain operand operator _ rest => do
    let left ← operand.outcome active scopes
    let right ← rest.grouped
    return do apply operator (← left) (← right)

private theorem grouped_chain_cases (operand : Operand) (operator : Operator) (sign : Sign operator.mark)
    (rest : Expression) :
    (∃ fault, operand.outcome active scopes = .error fault ∧
      (chain operand operator sign rest).grouped apply active scopes = .error fault) ∨
    (∃ left fault, operand.outcome active scopes = .ok left ∧ rest.grouped apply active scopes = .error fault ∧
      (chain operand operator sign rest).grouped apply active scopes = .error fault) ∨
    ∃ left right, operand.outcome active scopes = .ok left ∧ rest.grouped apply active scopes = .ok right ∧
      (chain operand operator sign rest).grouped apply active scopes =
        .ok (do apply operator (← left) (← right)) := by
  rw [grouped]
  cases operand.outcome active scopes with
  | error fault => exact .inl ⟨fault, rfl, rfl⟩
  | ok left =>
    cases rest.grouped apply active scopes with
    | error fault => exact .inr (.inl ⟨left, fault, rfl, rfl, rfl⟩)
    | ok right => exact .inr (.inr ⟨left, right, rfl, rfl, rfl⟩)

variable {apply active scopes} {expression : Expression}

private theorem grouped_eq_none_iff {value : Option Float} (h : expression.grouped apply active scopes = .ok value) :
    value = none ↔ ∃ operand ∈ expression.operands, operand.outcome active scopes = .ok none := by
  induction expression generalizing value with
  | last operand =>
    rw [grouped] at h
    simp [operands, h]
  | chain operand operator sign rest ih =>
    obtain ⟨_, _, hg⟩ | ⟨_, _, _, _, hg⟩ | ⟨left, right, hl, hr, hg⟩ :=
      grouped_chain_cases apply active scopes operand operator sign rest
    · cases hg.symm.trans h
    · cases hg.symm.trans h
    · cases hg.symm.trans h
      have hv : (do apply operator (← left) (← right) : Option Float) = none ↔ left = none ∨ right = none := by
        cases left <;> cases right <;> simp
      rw [hv, ih hr]
      simp [operands, hl]

private theorem exists_of_grouped_eq_error {fault : Fault} (h : expression.grouped apply active scopes = .error fault) :
    ∃ operand ∈ expression.operands, operand.outcome active scopes = .error fault := by
  induction expression with
  | last operand => exact ⟨operand, List.mem_singleton_self _, h⟩
  | chain operand operator sign rest ih =>
    obtain ⟨_, hl, hg⟩ | ⟨_, _, _, hr, hg⟩ | ⟨_, _, _, _, hg⟩ :=
      grouped_chain_cases apply active scopes operand operator sign rest
    · cases hg.symm.trans h
      exact ⟨operand, List.mem_cons_self, hl⟩
    · cases hg.symm.trans h
      obtain ⟨operand', hm, ho⟩ := ih hr
      exact ⟨operand', List.mem_cons_of_mem _ hm, ho⟩
    · cases hg.symm.trans h

end Expression

end Syntax

/-- The session at other tokens, of which `next` is the first. -/
def Session.past (session : Session) (next : Token) (tokens : List Token) : Session :=
  { session with current := next, ahead := tokens.tail }

namespace Compile

variable {apply : Operator → Float → Float → Float} {active : Bool} {session : Session} {ending : Ending}
  {back : List Token} {next : Token}

/-- The session behind a token is at those that follow it. -/
theorem at_past {tokens : List Token} (hs : session.At ending tokens) (hn : ending.Shows back next) :
    (session.past next back).At ending back :=
  ⟨hn, rfl, hs.ending⟩

/-- Going past a token. -/
theorem run_advance_past {token : Token} (hs : session.At ending (token :: back)) (hn : ending.Shows back next) :
    advance.run session = .ok token (session.past next back) := by
  have hc : token = session.current := Option.some.inj hs.current
  subst hc
  have ha : advance.run (session.facing ending (session.current :: back)) = _ := Session.run_advance hn
  rw [hs.facing_eq] at ha
  rw [ha, Session.past, ← hs.ending]
  rfl

private theorem run_operand (active : Bool) (operand : Syntax.Operand) (hs : session.At ending (operand.token :: back))
    (hn : ending.Shows back next) :
    (Compile.operand active).run session =
      match operand.outcome active session.scopes with
      | .ok value => .ok value (session.past next back)
      | .error fault => .error fault (session.past next back) := by
  have hk : session.current.kind = operand.token.kind :=
    congrArg Token.kind (Option.some.inj hs.current).symm
  rw [Compile.operand, run_peek_bind, hk]
  cases operand with
  | integer literal =>
    obtain ⟨literal, hl⟩ := literal
    simp only [Syntax.Operand.token, hl] at hs ⊢
    rw [run_bind_of_ok (run_advance_past hs hn)]
    simp only [Syntax.Operand.outcome]
    cases Decimal.read? literal.lexeme <;> rfl
  | double literal =>
    obtain ⟨literal, hl⟩ := literal
    simp only [Syntax.Operand.token, hl] at hs ⊢
    rw [run_bind_of_ok (run_advance_past hs hn)]
    simp only [Syntax.Operand.outcome]
    cases Decimal.read? literal.lexeme <;> rfl
  | named name =>
    obtain ⟨name, hl⟩ := name
    simp only [Syntax.Operand.token, hl] at hs ⊢
    rw [run_bind_of_ok (run_advance_past hs hn)]
    change (resolve active .number name (session.scopes.number? name.lexeme)).run _ = _
    simp only [Syntax.Operand.outcome]
    cases session.scopes.number? name.lexeme with
    | some value => rfl
    | none => cases active <;> rfl

/-- An expression shows the token of its first operand. -/
theorem shows_tokens (ending : Ending) (expression : Syntax.Expression) (back : List Token) :
    ending.Shows (expression.tokens ++ back) expression.first.token := by
  cases expression <;> rfl

section

variable {first : Token} {operand : Syntax.Operand} {operator : Operator}
  {sign : Syntax.Sign operator.mark} {rest : Syntax.Expression} {left : Option Float}

private theorem run_operand_chain {β : Type} {read : Option Float → Kind → Compile β}
    (hs : session.At ending ((Syntax.Expression.chain operand operator sign rest).tokens ++ back))
    (ho : operand.outcome active session.scopes = .ok left) :
    (Compile.operand active >>= fun value ↦ peek >>= read value).run session =
      (read left (.mark operator.mark)).run (session.past sign.1 (sign.1 :: (rest.tokens ++ back))) := by
  have hr := run_operand active operand hs rfl
  rw [ho] at hr
  rw [run_bind_of_ok hr, run_peek_bind]
  exact congrArg (fun kind ↦ (read left kind).run _) sign.2

private theorem run_terms_chain {further : Nat}
    (hs : session.At ending ((Syntax.Expression.chain operand operator sign rest).tokens ++ back))
    (ho : operand.outcome active session.scopes = .ok left) :
    (terms apply active first (further + 1)).run session =
      (terms apply active first further >>= fun right ↦ pure (do apply operator (← left) (← right))).run
        (session.past rest.first.token (rest.tokens ++ back)) := by
  rw [terms_succ, run_operand_chain hs ho]
  simp only [Operator.ofKind?_mark]
  have hat : (session.past sign.1 (sign.1 :: (rest.tokens ++ back))).At ending
      (sign.1 :: (rest.tokens ++ back)) := at_past hs rfl
  rw [run_bind_of_ok (run_advance_past hat (shows_tokens ending rest back))]
  rfl

private theorem run_terms_of_error {further : Nat} {expression : Syntax.Expression} {fault : Fault}
    (hs : session.At ending (expression.tokens ++ back)) (hn : ending.Shows back next)
    (ho : expression.first.outcome active session.scopes = .error fault) :
    ∃ after, (terms apply active first further).run session = .error fault after := by
  have hr : ∃ after, (Compile.operand active).run session = .error fault after := by
    cases expression with
    | last operand =>
      have hr := run_operand active operand hs hn
      rw [show operand.outcome active session.scopes = .error fault from ho] at hr
      exact ⟨_, hr⟩
    | chain operand operator sign rest =>
      have hr := run_operand active operand hs rfl
      rw [show operand.outcome active session.scopes = .error fault from ho] at hr
      exact ⟨_, hr⟩
  obtain ⟨after, hr⟩ := hr
  exact ⟨after, run_bind_of_error hr⟩

end

/-- A chain with room for all its operands. -/
theorem run_terms {further : Nat} {first : Token} {expression : Syntax.Expression}
    (hl : expression.operands.length ≤ further + 1) (hs : session.At ending (expression.tokens ++ back))
    (hn : ending.Shows back next) (ho : Operator.ofKind? next.kind = none) :
    match expression.grouped apply active session.scopes with
    | .ok value => (terms apply active first further).run session = .ok value (session.past next back)
    | .error fault => ∃ after, (terms apply active first further).run session = .error fault after := by
  induction expression generalizing session further with
  | last operand =>
    rw [Syntax.Expression.grouped]
    cases hv : operand.outcome active session.scopes with
    | error fault => exact run_terms_of_error hs hn hv
    | ok value =>
      have hr := run_operand active operand hs hn
      rw [hv] at hr
      rw [terms, run_bind_of_ok hr]
      exact run_following_of_none apply first ho
  | chain operand operator sign rest ih =>
    have hp : 0 < rest.operands.length := by cases rest <;> exact Nat.succ_pos _
    rw [Syntax.Expression.operands, List.length_cons] at hl
    obtain ⟨further, rfl⟩ : ∃ n, further = n + 1 := ⟨further - 1, by omega⟩
    have hat : (session.past rest.first.token (rest.tokens ++ back)).At ending (rest.tokens ++ back) :=
      at_past hs (shows_tokens ending rest back)
    have hs' : (session.past rest.first.token (rest.tokens ++ back)).scopes = session.scopes := rfl
    obtain ⟨fault, hv, hg⟩ | ⟨left, fault, hv, hr, hg⟩ | ⟨left, right, hv, hr, hg⟩ :=
      Syntax.Expression.grouped_chain_cases apply active session.scopes operand operator sign rest
    · rw [hg]
      exact run_terms_of_error hs hn hv
    · have hi := ih (show rest.operands.length ≤ further + 1 by omega) hat
      rw [hs', hr] at hi
      obtain ⟨after, hi⟩ := hi
      rw [hg]
      exact ⟨after, (run_terms_chain hs hv).trans (run_bind_of_error hi)⟩
    · have hi := ih (show rest.operands.length ≤ further + 1 by omega) hat
      rw [hs', hr] at hi
      rw [hg]
      exact (run_terms_chain hs hv).trans (run_bind_of_ok hi)

private theorem run_terms_long {further : Nat} {first : Token} {expression : Syntax.Expression}
    (hl : further + 1 < expression.operands.length) (hs : session.At ending (expression.tokens ++ back))
    (hv : ∀ operand ∈ expression.operands.take (further + 1),
      ∃ value, operand.outcome active session.scopes = .ok value) :
    ∃ sign rest, (expression.tokens ++ back).drop (2 * further + 1) = sign :: rest ∧
      (terms apply active first further).run session =
        .error ⟨.longExpression, first.position⟩ (session.past sign (sign :: rest)) := by
  induction further generalizing session expression with
  | zero =>
    cases expression with
    | last operand => exact absurd hl (Nat.lt_irrefl 1)
    | chain operand operator sign rest =>
      obtain ⟨left, ho⟩ := hv operand (List.mem_cons_self ..)
      refine ⟨sign.1, rest.tokens ++ back, rfl, ?_⟩
      rw [terms_zero, run_operand_chain hs ho, Operator.ofKind?_mark]
      rfl
  | succ further ih =>
    cases expression with
    | last operand => exact absurd hl (by simp [Syntax.Expression.operands])
    | chain operand operator sign rest =>
      obtain ⟨left, ho⟩ := hv operand (List.mem_cons_self ..)
      rw [Syntax.Expression.operands, List.length_cons] at hl
      obtain ⟨sign', rest', hd, hr⟩ := ih (show further + 1 < rest.operands.length by omega)
        (at_past hs (shows_tokens ending rest back)) fun operand' hm ↦ hv operand' (List.mem_cons_of_mem _ hm)
      refine ⟨sign', rest', hd, ?_⟩
      rw [run_terms_chain hs ho, run_bind_of_error hr]
      rfl

/-- An expression is read from its first token on, with room for as many operands as there may be. -/
theorem run_expression_eq (apply : Operator → Float → Float → Float) (active : Bool)
    {expression : Syntax.Expression} (hs : session.At ending (expression.tokens ++ back)) :
    (Compile.expression apply active).run session =
      (terms apply active expression.first.token (longestExpression - 1)).run session := by
  have hc : session.current = expression.first.token :=
    Option.some.inj (hs.current.symm.trans (shows_tokens ending expression back))
  rw [expression_eq, run_current_bind, hc]

/--
An expression with any arithmetic comes to what its tree groups to, and the token behind it is left; its value is
missing exactly if that of an operand is, and a fault is that of an operand. One with too many operands is refused
at its first token if those that it may have are without a fault; what is left then begins with the operator behind
them.
-/
theorem run_expression (apply : Operator → Float → Float → Float) (active : Bool)
    (expression : Syntax.Expression) (hs : session.At ending (expression.tokens ++ back)) :
    (expression.operands.length ≤ longestExpression →
      ∀ next, ending.Shows back next → Operator.ofKind? next.kind = none →
        match expression.grouped apply active session.scopes with
        | .ok value =>
          (Compile.expression apply active).run session = .ok value (session.past next back) ∧
            (value = none ↔
              ∃ operand ∈ expression.operands, operand.outcome active session.scopes = .ok none)
        | .error fault =>
          (∃ after, (Compile.expression apply active).run session = .error fault after) ∧
            ∃ operand ∈ expression.operands, operand.outcome active session.scopes = .error fault) ∧
    (longestExpression < expression.operands.length →
      (∀ operand ∈ expression.operands.take longestExpression,
        ∃ value, operand.outcome active session.scopes = .ok value) →
      ∃ sign rest, (expression.tokens ++ back).drop (2 * longestExpression - 1) = sign :: rest ∧
        (Compile.expression apply active).run session =
          .error ⟨.longExpression, expression.first.token.position⟩ (session.past sign (sign :: rest))) := by
  rw [run_expression_eq apply active hs]
  obtain ⟨further, hf⟩ : ∃ further, longestExpression = further + 1 := ⟨longestExpression - 1, rfl⟩
  have hd : 2 * (further + 1) - 1 = 2 * further + 1 := by omega
  rw [hf, hd, Nat.add_sub_cancel]
  refine ⟨fun hl next hn ho ↦ ?_, fun hl hv ↦ run_terms_long hl hs hv⟩
  have hr : match expression.grouped apply active session.scopes with
      | .ok value => (terms apply active expression.first.token further).run session =
        .ok value (session.past next back)
      | .error fault => ∃ after,
        (terms apply active expression.first.token further).run session = .error fault after :=
    run_terms hl hs hn ho
  cases hg : expression.grouped apply active session.scopes with
  | ok value =>
    rw [hg] at hr
    exact ⟨hr, Syntax.Expression.grouped_eq_none_iff hg⟩
  | error fault =>
    rw [hg] at hr
    exact ⟨hr, Syntax.Expression.exists_of_grouped_eq_error hg⟩

/-- A variable as an operand. -/
def variableOperand (name : String) : Syntax.Operand :=
  .named ⟨⟨.identifier, name, .first⟩, rfl⟩

/-- A sign between operands. -/
def minusSign : Syntax.Sign Operator.minus.mark :=
  ⟨⟨.mark .minus, "-", .first⟩, rfl⟩

/-- The variable `a` with itself subtracted this often. -/
def differences : Nat → Syntax.Expression
  | 0 => .last (variableOperand "a")
  | more + 1 => .chain (variableOperand "a") .minus minusSign (differences more)

/-- All operands are the same variable. -/
private theorem operands_differences (more : Nat) :
    (differences more).operands = List.replicate (more + 1) (variableOperand "a") := by
  induction more with
  | zero => rfl
  | succ more ih => rw [differences, Syntax.Expression.operands, ih, ← List.replicate_succ]

/-- A closing parenthesis. -/
def closingToken : Token :=
  ⟨.mark .closeParen, ")", .first⟩

/-- A session in front of an expression in parentheses, where `a` is 5 and `b` is 3. -/
def chainSession (expression : Syntax.Expression) : Session where
  current := expression.first.token
  ahead := (expression.tokens ++ [closingToken]).tail
  ending := .finish ⟨.finish, "", .first⟩
  scopes := (Scopes.empty.declare .city "a" (.double 5)).declare .city "b" (.double 3)
  journal := .empty 4

/-- The session is in front of the expression. -/
private theorem chainSession_at (expression : Syntax.Expression) :
    (chainSession expression).At (chainSession expression).ending (expression.tokens ++ [closingToken]) := by
  refine ⟨?_, rfl, rfl⟩
  cases expression <;> rfl

/-- Three operands group to the right, and one operand too many is refused. -/
theorem run_expression_differences :
    (∃ after, (number true).run (chainSession (.chain (variableOperand "a") .minus minusSign
      (.chain (variableOperand "b") .minus minusSign (.last (variableOperand "a"))))) =
        .ok (some (5 - (3 - 5))) after) ∧
    ∃ after, (number true).run (chainSession (differences longestExpression)) =
      .error ⟨.longExpression, .first⟩ after := by
  constructor
  · have hr := (run_expression Operator.apply true (.chain (variableOperand "a") .minus minusSign
      (.chain (variableOperand "b") .minus minusSign (.last (variableOperand "a")))) (chainSession_at _)).1
      (by decide) closingToken rfl rfl
    exact ⟨_, hr.1⟩
  · have hl := operands_differences longestExpression
    have hm : longestExpression < (differences longestExpression).operands.length := by
      rw [hl, List.length_replicate]
      exact Nat.lt_succ_self _
    obtain ⟨_, _, _, hr⟩ := (run_expression Operator.apply true _ (chainSession_at _)).2 hm fun operand hm ↦ by
      rw [hl] at hm
      rw [List.eq_of_mem_replicate (List.mem_of_mem_take hm)]
      exact ⟨_, rfl⟩
    exact ⟨_, hr⟩

end Compile

end Cityscape
