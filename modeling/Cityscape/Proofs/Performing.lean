import Cityscape.Proofs.Evaluation

/-!
# Performing or checking

Operations are performed where their branch is taken and checked where it is not. Told which of both it is, one
recursion over their tree does either.
-/

namespace Cityscape

open Evaluate (ensure)

private theorem Evaluate.ensure_bind (check check' : Except Fault Unit) :
    ensure (do check; check') = (do ensure check; ensure check') := by
  cases check <;> rfl

namespace Syntax

/-- A declaration is performed, or only checked. -/
def Declaration.act (active : Bool) (level : Level) (declaration : Declaration) : Evaluate Unit :=
  if active then declaration.perform level else ensure declaration.check

/-- A condition is decided, or only checked; then it holds neither way. -/
def Condition.act (active : Bool) (condition : Condition) : Evaluate Bool :=
  if active then condition.decide else (fun _ ↦ false) <$> ensure condition.check

/-- Operations are performed, or only checked. -/
def Operations.act (active : Bool) (level : Level) (enclosing : Nat) (operations : Operations) :
    Evaluate Unit :=
  if active then operations.perform level enclosing else ensure (operations.check enclosing)

namespace Operations

variable (active : Bool) (level : Level) (enclosing : Nat)

/-- A declaration and then the rest. -/
theorem act_declare (declaration : Declaration) (rest : Operations) :
    (declare declaration rest).act active level enclosing =
      (do
        declaration.act active level
        rest.act active level enclosing) := by
  cases active with
  | true => rfl
  | false => exact Evaluate.ensure_bind _ _

/-- The condition, the branch behind it, and then the rest. -/
theorem act_conditional (condition : Condition) (opening : Sign .openBrace) (yes : Operations)
    (closing : Sign .closeBrace) (rest : Operations) :
    (conditional condition opening yes closing rest).act active level enclosing =
      (do
        ensure (condition.enter enclosing)
        let holds ← condition.act active
        yes.act (active && holds) level (enclosing + 1)
        rest.act active level enclosing) := by
  cases active with
  | true =>
    apply bind_congr
    intro _
    apply bind_congr
    intro holds
    cases holds <;> rfl
  | false =>
    change ensure (do
      condition.enter enclosing
      condition.check
      yes.check (enclosing + 1)
      rest.check enclosing) = _
    rw [Evaluate.ensure_bind, Evaluate.ensure_bind, Evaluate.ensure_bind]
    apply bind_congr
    intro _
    rw [Condition.act, if_neg Bool.false_ne_true, bind_map_left]
    rfl

/-- The condition, the branch behind it, the other branch, and then the rest. -/
theorem act_alternative (condition : Condition) (opening : Sign .openBrace) (yes : Operations)
    (closing : Sign .closeBrace) (otherwise : Word .otherwise) (opening' : Sign .openBrace)
    (no : Operations) (closing' : Sign .closeBrace) (rest : Operations) :
    (alternative condition opening yes closing otherwise opening' no closing' rest).act active level
        enclosing =
      (do
        ensure (condition.enter enclosing)
        let holds ← condition.act active
        yes.act (active && holds) level (enclosing + 1)
        no.act (active && !holds) level (enclosing + 1)
        rest.act active level enclosing) := by
  cases active with
  | true =>
    apply bind_congr
    intro _
    apply bind_congr
    intro holds
    cases holds <;> rfl
  | false =>
    change ensure (do
      condition.enter enclosing
      condition.check
      yes.check (enclosing + 1)
      no.check (enclosing + 1)
      rest.check enclosing) = _
    rw [Evaluate.ensure_bind, Evaluate.ensure_bind, Evaluate.ensure_bind, Evaluate.ensure_bind]
    apply bind_congr
    intro _
    rw [Condition.act, if_neg Bool.false_ne_true, bind_map_left]
    rfl

end Operations

end Syntax

end Cityscape
