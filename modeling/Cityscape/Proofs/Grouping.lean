import Cityscape.Proofs.Evaluation

/-!
# Expressions group to the right

An expression is read operand by operand into a series, which is evaluated from its end. The same is done by a
reader that keeps nothing: it reads an operand, and behind an operator it reads the rest of the expression in the
same way before it computes anything. This is what grouping to the right means.
-/

namespace Cityscape.Compile

variable {α : Type}

/-- The value of operands, the last ones first, in front of what has been computed already. -/
def Series.close (apply : Operator → α → α → α) (before : List (Option α)) (operators : List Operator)
    (right : Option α) : Option α :=
  (before.zip operators).foldl (fun right (left, operator) ↦ do apply operator (← left) (← right)) right

private theorem Series.close_cons (apply : Operator → α → α → α) (left : Option α) (before : List (Option α))
    (operator : Operator) (operators : List Operator) (right : Option α) :
    close apply (left :: before) (operator :: operators) right =
      close apply before operators (do apply operator (← left) (← right)) :=
  rfl

variable (apply : Operator → Float → Float → Float) (active : Bool) (first : Token)

/-- What follows an operand with this value, with room for `further` more operands. -/
def following : Nat → Option Float → Compile (Option Float)
  | 0, value => do
    match Operator.ofKind? (← peek) with
    | none => pure value
    | some _ => refuse .longExpression first
  | further + 1, value => do
    match Operator.ofKind? (← peek) with
    | none => pure value
    | some operator =>
      let _ ← advance
      let rest ← operand active >>= following further
      return do apply operator (← value) (← rest)

/-- An operand and what follows it, with room for `further` more operands. -/
def terms (further : Nat) : Compile (Option Float) :=
  operand active >>= following apply active first further

/-- An operand alone, where there is no room for another one. -/
theorem terms_zero :
    terms apply active first 0 = (do
      let value ← operand active
      match Operator.ofKind? (← peek) with
      | none => pure value
      | some _ => refuse .longExpression first) :=
  rfl

/-- An operand, and behind an operator the rest of the expression. -/
theorem terms_succ (further : Nat) :
    terms apply active first (further + 1) = (do
      let value ← operand active
      match Operator.ofKind? (← peek) with
      | none => pure value
      | some operator =>
        let _ ← advance
        let rest ← terms apply active first further
        return do apply operator (← value) (← rest)) :=
  rfl

variable {active} {session after : Session}

private theorem ahead_of_advance {token : Token} (h : advance.run session = .ok token after) :
    after.ahead = session.ahead.tail ∧ after.ending = session.ending ∧
      (session.ahead = [] → session.ending = .finish after.current) := by
  obtain ⟨current, ahead, ending, scopes, elements, features, journal⟩ := session
  cases ahead with
  | cons =>
    cases h
    exact ⟨rfl, rfl, nofun⟩
  | nil =>
    cases ending with
    | finish =>
      cases h
      exact ⟨rfl, rfl, fun _ ↦ rfl⟩
    | fault => cases h

private theorem session_of_resolve {sort : VariableSort} {name : Token} {value result : Option α}
    (h : (resolve active sort name value).run session = .ok result after) : after = session := by
  cases value with
  | some =>
    cases h
    rfl
  | none =>
    cases active with
    | true => cases h
    | false =>
      cases h
      rfl

/-- The current token is seen without a change. -/
theorem run_current_bind {β : Type} (next : Token → Compile β) :
    (current >>= next).run session = (next session.current).run session :=
  rfl

/-- The kind of the current token is seen without a change. -/
theorem run_peek_bind {β : Type} (next : Kind → Compile β) :
    (peek >>= next).run session = (next session.current.kind).run session :=
  rfl

private theorem advance_of_operand {value : Option Float} (h : (operand active).run session = .ok value after) :
    Operator.ofKind? session.current.kind = none ∧ ∃ token, advance.run session = .ok token after := by
  rw [operand, run_peek_bind] at h
  generalize session.current.kind = kind at h ⊢
  split at h
  case h_1 | h_2 =>
    obtain ⟨literal, between, ha, h⟩ := exists_of_run_bind h
    split at h
    · cases h
      exact ⟨rfl, literal, ha⟩
    · cases h
  case h_3 =>
    obtain ⟨name, between, ha, h⟩ := exists_of_run_bind h
    obtain ⟨_, _, hs, h⟩ := exists_of_run_bind h
    cases hs
    rw [session_of_resolve h]
    exact ⟨rfl, name, ha⟩
  case h_4 => cases h

/-- Whether an expression is read to its end with this many repetitions. -/
def Suffices (limit : Nat) (session : Session) : Prop :=
  session.ahead.length + 2 ≤ limit ∨ 0 < limit ∧ Operator.ofKind? session.current.kind = none

private theorem Suffices.next {limit : Nat} (hl : Suffices (limit + 1) session) {operator : Operator}
    (ho : Operator.ofKind? session.current.kind = some operator) {token : Token} {between : Session}
    (ha : advance.run session = .ok token between) {value : Option Float}
    (h : (operand active).run between = .ok value after) : Suffices limit after := by
  obtain ⟨hk, _, ha'⟩ := advance_of_operand h
  obtain ⟨hahead, hending, hlast⟩ := ahead_of_advance ha
  obtain ⟨hahead', _, hlast'⟩ := ahead_of_advance ha'
  rcases hl with hl | ⟨_, hn⟩
  · by_cases he : session.ahead = []
    · -- only the last token is left, which is the operand, so no operator comes next
      have hcurrent : between.current = after.current := by
        have hb := hlast he
        have hb' := hlast' (by rw [hahead, he]; rfl)
        rw [hending, hb] at hb'
        exact Ending.finish.inj hb'
      refine .inr ⟨by omega, ?_⟩
      rwa [← hcurrent]
    · have hpos := List.length_pos_iff.mpr he
      have hlength : after.ahead.length = session.ahead.length - 1 - 1 := by
        rw [hahead', hahead, List.length_tail, List.length_tail]
      exact .inl (by omega)
  · rw [ho] at hn
    cases hn

/-- What follows an operand is nothing if no operator comes. -/
theorem run_following_of_none {further : Nat} {value : Option Float}
    (h : Operator.ofKind? session.current.kind = none) :
    (following apply active first further value).run session = .ok value session := by
  cases further with
  | zero =>
    rw [following, run_peek_bind, h]
    rfl
  | succ further =>
    rw [following, run_peek_bind, h]
    rfl

/--
Reading operands into a series and evaluating it is reading the rest first: what the series holds so far closes
what is computed of the rest. By induction on the repetitions that are left.
-/
private theorem run_iterate_furtherOperand {limit further : Nat} {before : List (Option Float)}
    {operators : List Operator} {value : Option Float} (hl : Suffices limit session)
    (hf : before.length + 1 + further = longestExpression) :
    (iterate (furtherOperand active first) limit ⟨value :: before, operators⟩ >>= fun series ↦
      pure (series.value apply)).run session =
      (following apply active first further value >>= fun right ↦
        pure (Series.close apply before operators right)).run session := by
  induction limit generalizing session further before operators value with
  | zero =>
    rcases hl with hl | ⟨hl, _⟩ <;> omega
  | succ limit ih =>
    rw [iterate, bind_assoc, furtherOperand, bind_assoc, run_peek_bind]
    cases ho : Operator.ofKind? session.current.kind with
    | none =>
      rw [run_bind_of_ok (run_following_of_none apply first ho)]
      rfl
    | some operator =>
      cases further with
      | zero =>
        rw [following, bind_assoc, run_peek_bind, ho]
        simp only [List.length_cons]
        rw [if_pos (by omega)]
        rfl
      | succ further =>
        rw [following, bind_assoc, run_peek_bind, ho]
        simp only [List.length_cons]
        rw [if_neg (by omega)]
        simp only [bind_assoc, pure_bind]
        refine run_bind_congr fun token between ha ↦ run_bind_congr fun right after hv ↦ ?_
        simp only [Series.push, ← Series.close_cons]
        exact ih (hl.next ho ha hv) (by simp only [List.length_cons]; omega)

/-- An expression is read like its first operand and the rest behind it. -/
theorem expression_eq (active : Bool) :
    expression apply active = current >>= fun first ↦ terms apply active first (longestExpression - 1) := by
  funext session
  change (expression apply active).run session = EStateM.run _ session
  rw [expression]
  refine run_bind_congr fun first before hf ↦ ?_
  rw [terms]
  refine run_bind_congr fun value after hv ↦ ?_
  have hs : Suffices (after.ahead.length + 2) after := .inl (Nat.le_refl _)
  have hf : ([] : List (Option Float)).length + 1 + (longestExpression - 1) = longestExpression := rfl
  exact (run_iterate_furtherOperand apply first hs hf).trans (congrArg (EStateM.run · after) (bind_pure _))

/-- A number is read like its first operand and the rest behind it. -/
theorem number_eq (active : Bool) :
    number active = current >>= fun first ↦
      terms Operator.apply active first (longestExpression - 1) :=
  expression_eq Operator.apply active

end Cityscape.Compile
