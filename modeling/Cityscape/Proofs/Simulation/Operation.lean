import Cityscape.Proofs.Simulation.Value

/-!
# Reading operations

Reading operations with the flag set follows performing their tree, and reading them without it follows
checking the tree. The induction is on the tree; the room that is left for nested conditionals and the
number of conditionals that enclose the operations always make up the deepest nesting.
-/

namespace Cityscape

open Evaluate (value ensure reading note declare)
open Compile (Operator Comparison)
open Syntax (Head Declaration Condition Operations)

variable {α β γ δ : Type} {capacity : Nat} {last : Token} {rest tokens tokens' : List Token}

/-- The kinds of tokens that stand behind operations. -/
def Kind.endsOperations : Kind → Bool
  | .mark .closeBrace | .keyword .street | .keyword .institution | .keyword .bend
  | .keyword .address | .keyword .block | .keyword .point | .keyword .circle => true
  | _ => false

private theorem Kind.not_operator_of_endsOperations {kind : Kind} (h : kind.endsOperations = true) :
    Operator.ofKind? kind = none := by
  unfold endsOperations at h
  split at h
  all_goals first | rfl | cases h

private theorem Kind.ne_otherwise_of_endsOperations {kind : Kind} (h : kind.endsOperations = true) :
    kind ≠ .keyword .otherwise := by
  rintro rfl
  cases h

variable (active : Bool) (level : Level)

private theorem Evaluate.reading_then (of : Scopes → Except Fault β) (check : Except Fault Unit)
    (act : β → Evaluate γ) (absent : γ) :
    (if active then value of >>= act else (fun _ ↦ absent) <$> ensure check) =
      reading active of check >>= fun b ↦ match b with
        | some b => act b
        | none => pure absent := by
  cases active with
  | true => rw [reading, if_pos rfl, if_pos rfl, bind_map_left]
  | false =>
    rw [reading, if_neg Bool.false_ne_true, if_neg Bool.false_ne_true, bind_map_left, map_eq_pure_bind]

private theorem store_follows {read : Compile (Option α)} {of : Scopes → Except Fault α}
    {check : Except Fault Unit} (name : Token) (toValue : α → Value) (text : α → String)
    (h : Follows capacity last (AgreeIf active) read tokens rest (reading active of check)) :
    Follows capacity last Ignored
      (read >>= fun a ↦ Compile.store level active name a toValue text) tokens rest
      (if active then value of >>= fun b ↦ declare level name (text b) (toValue b)
        else ensure check) := by
  rw [← id_map (ensure check), ← List.append_nil tokens]
  change Follows capacity last Ignored _ _ _ (if active then _ else (fun _ ↦ ()) <$> ensure check)
  rw [Evaluate.reading_then]
  apply h.bind
  intro a b hab
  cases hab with
  | taken a =>
    exact (Follows.note _ _).bind fun _ _ _ ↦
      .modifyScopes fun scopes ↦ scopes.declare level name.lexeme (toValue a)
  | skipped => exact .pure True.intro

private theorem Follows.head {agree : γ → δ → Prop} {word : Keyword} {read : Token → Compile γ}
    {evaluate : Evaluate δ} (head : Head word)
    (h : Follows capacity last agree (read head.name) tokens rest evaluate) :
    Follows capacity last agree (Compile.declarationHead word >>= read) (head.tokens ++ tokens) rest
      evaluate := by
  rw [Compile.declarationHead]
  simp only [bind_assoc, pure_bind]
  apply Follows.leaf head.keyword
  apply Follows.leaf head.name
  exact h.sign head.assign

/-- The keyword of a declaration. -/
def Syntax.Declaration.keyword : Declaration → Keyword
  | string .. => .declareString
  | int .. => .declareInt
  | double .. => .declareDouble
  | coordinate .. => .declareCoordinate

private theorem Syntax.Declaration.kind_headD (declaration : Declaration) (rest : List Token) (last : Token) :
    ((declaration.tokens ++ rest).headD last).kind = .keyword declaration.keyword := by
  cases declaration with
  | string head => exact head.keyword.2
  | int head => exact head.keyword.2
  | double head => exact head.keyword.2
  | coordinate head => exact head.keyword.2

/-- The reader of a declaration. -/
def Syntax.Declaration.read : Declaration → Compile Unit
  | string .. => Compile.declareString level active
  | int .. => Compile.declareInt level active
  | double .. => Compile.declareDouble level active
  | coordinate .. => Compile.declareCoordinate level active

private theorem declaration_follows (declaration : Declaration)
    (h : Operator.ofKind? (ahead last rest) = none) :
    Follows capacity last Ignored (declaration.read active level) declaration.tokens rest
      (declaration.act active level) := by
  cases declaration with
  | string head text =>
    apply Follows.head head
    exact store_follows active level head.name _ _ (string_follows active text)
  | int head expression whole =>
    have hn : Follows capacity last (AgreeIf active) (Option.map Float.toInt64 <$> Compile.number active)
        expression.tokens rest
        (reading active (fun scopes ↦ do return (← expression.evaluate scopes).toInt64)
          expression.check) := by
      rw [Evaluate.reading_map]
      exact (number_follows active expression h).map fun _ _ hab ↦ hab.map Float.toInt64
    have hs := store_follows active level head.name .int (fun whole ↦
      "int " ++ head.name.1.lexeme ++ " = " ++ toString whole.toInt) hn
    rw [bind_map_left, Evaluate.value_map, bind_map_left] at hs
    apply Follows.head head
    apply Follows.peek
    rw [Syntax.Expression.headD_tokens, if_neg whole]
    exact hs
  | double head expression =>
    apply Follows.head head
    exact store_follows active level head.name _ _ (number_follows active expression h)
  | coordinate head place =>
    apply Follows.head head
    exact store_follows active level head.name _ _ (coordinate_follows active place)

private theorem comparison_follows {agree : γ → δ → Prop} {read : Comparison → Compile γ}
    {evaluate : Evaluate δ} (comparison : Comparison) (sign : Syntax.Sign comparison.mark)
    (h : Follows capacity last agree (read comparison) tokens rest evaluate) :
    Follows capacity last agree (Compile.comparison >>= read) (sign.1 :: tokens) rest evaluate := by
  rw [Compile.comparison, bind_assoc]
  apply Follows.peek
  rw [List.cons_append, List.headD_cons, sign.2]
  simp only [Comparison.ofKind?_mark, bind_assoc, pure_bind]
  exact h.advance sign.1

/-- The part of a conditional before its branches. -/
def Compile.condition (keyword : Token) : Compile Bool := do
  expectMark .openParen
  let left ← number active
  let comparison ← comparison
  let right ← number active
  expectMark .closeParen
  let holds := match left, right with
    | some left, some right => comparison.holds left right
    | _, _ => false
  if active then
    note keyword.position.line
      (if holds then "if: taking then branch" else "if: taking else branch")
  return holds

/-- The branches of a conditional whose condition holds or not. -/
def Compile.branches (body : Bool → Compile Unit) (holds : Bool) : Compile Unit := do
  branch (body (active && holds))
  if (← peek) = .keyword .otherwise then
    let _ ← advance
    branch (body (active && !holds))

/-- A conditional is its condition and then its branches. -/
theorem Compile.conditional_eq (body : Bool → Compile Unit) (keyword : Token) :
    conditional active body keyword = condition active keyword >>= branches active body := by
  simp only [conditional, condition, bind_assoc]
  cases active <;> simp only [Bool.false_eq_true, if_false, if_true, bind_assoc, pure_bind] <;> rfl

/-- Where the branch is taken a condition is decided in the same way. -/
def AgreeBranch (a b : Bool) : Prop := active = true → a = b

private theorem condition_follows (condition : Condition) :
    Follows capacity last (AgreeBranch active) (Compile.condition active condition.keyword)
      condition.tail rest (condition.act active) := by
  have hc : condition.act active = (do
      let left ← reading active condition.left.evaluate condition.left.check
      let right ← reading active condition.right.evaluate condition.right.check
      match (do some (condition.comparison.holds (← left) (← right)) : Option Bool) with
      | some holds => do
        note condition.keyword.1.position.line
          (if holds then "if: taking then branch" else "if: taking else branch")
        return holds
      | none => pure false) := by
    change (if active then value condition.evaluate >>= _ else _ <$> ensure condition.check) = _
    rw [Evaluate.reading_then]
    change reading active (fun scopes ↦ do
      return condition.comparison.holds (← condition.left.evaluate scopes)
        (← condition.right.evaluate scopes)) (do condition.left.check; condition.right.check) >>= _ = _
    rw [Evaluate.reading_bind, bind_assoc]
    apply bind_congr
    intro left
    rw [bind_assoc]
    apply bind_congr
    intro right
    rw [pure_bind]
    cases left <;> cases right <;> rfl
  rw [hc]
  apply Follows.sign condition.opening
  apply (number_follows active condition.left ?_).bind
  · intro a b hab
    apply comparison_follows condition.comparison condition.sign
    apply (number_follows active condition.right ?_).bind
    · intro a' b' hab'
      apply Follows.sign condition.closing
      cases hab with
      | taken a =>
        cases hab' with
        | taken a' =>
          apply (Follows.note _ _).bind
          intro _ _ _
          exact .pure fun _ ↦ rfl
      | skipped => exact .pure nofun
    · simp only [ahead, List.cons_append, List.headD_cons, condition.closing.2]
      rfl
  · simp only [ahead, List.cons_append, List.headD_cons, condition.sign.2]
    cases condition.comparison <;> rfl

private theorem branch_follows {body : Compile Unit} {evaluate : Evaluate Unit} (opening : Syntax.Sign .openBrace)
    (closing : Syntax.Sign .closeBrace)
    (h : Follows capacity last Ignored body tokens (closing.1 :: rest) evaluate) :
    Follows capacity last Ignored (Compile.branch body) (Syntax.braced opening tokens closing) rest
      evaluate := by
  apply Follows.sign opening
  have hb : Follows capacity last Ignored (body >>= fun _ ↦ Compile.expectMark .closeBrace)
      (tokens ++ [closing.1]) rest (evaluate >>= fun _ ↦ pure ()) :=
    h.bind fun _ _ _ ↦ .closing closing
  rwa [bind_pure_unit] at hb

/-- A repetition follows an evaluation if it does so with any limit above the number of tokens. -/
theorem many_follows {σ : Type} {agree : σ → δ → Prop} {step : σ → Compile (Option σ)} {state : σ}
    {evaluate : Evaluate δ}
    (h : ∀ limit, tokens.length < limit →
      Follows capacity last agree (Compile.iterate step limit state) tokens rest evaluate) :
    Follows capacity last agree (Compile.many step state) tokens rest evaluate := by
  intro legible work
  have hl : tokens.length < (tokens ++ rest).tail.length + 2 := by
    rw [List.length_tail, List.length_append]
    omega
  exact h _ hl legible work

/-- The reader of a conditional behind its keyword, with room for `room` nested ones. -/
def Compile.nested : Nat → Token → Compile Unit
  | 0 => refuse .deepConditional
  | room + 1 => conditional active (operations level room)

/-- Operations are a repetition, whatever the room for conditionals is. -/
theorem Compile.operations_eq (room : Nat) :
    operations level room active =
      many (fun _ ↦ operation level active (nested active level room)) () := by
  cases room <;> rfl

/-- A repetition whose step gives something to go on with. -/
theorem iterate_next {σ : Type} {agree : σ → δ → Prop} {step : σ → Compile (Option σ)}
    {next : σ} {evaluate : Evaluate Unit} {evaluate' : Evaluate δ} {limit : Nat} (state : σ)
    (h : Follows capacity last (fun a _ ↦ a = some next) (step state) tokens (tokens' ++ rest) evaluate)
    (h' : Follows capacity last agree (Compile.iterate step limit next) tokens' rest evaluate') :
    Follows capacity last agree (Compile.iterate step (limit + 1) state) (tokens ++ tokens') rest
      (do evaluate; evaluate') := by
  rw [Compile.iterate]
  apply h.bind
  rintro _ _ rfl
  exact h'

/-- A repetition whose step gives nothing to go on with. -/
theorem iterate_stop {σ : Type} {agree : σ → δ → Prop} {step : σ → Compile (Option σ)} {state : σ}
    {b : δ} {limit : Nat} (hb : agree state b)
    (h : Follows capacity last (fun a (_ : Unit) ↦ a = none) (step state) [] rest (pure ())) :
    Follows capacity last agree (Compile.iterate step (limit + 1) state) [] rest (pure b) := by
  rw [Compile.iterate]
  have hs : Follows capacity last agree (step state >>= fun next ↦ match next with
      | some next => Compile.iterate step limit next
      | none => pure state) ([] ++ []) rest (pure () >>= fun _ ↦ pure b) := by
    apply h.bind
    rintro _ _ rfl
    exact .pure hb
  exact hs

private theorem operation_declare {onConditional : Token → Compile Unit} (declaration : Declaration)
    (h : Operator.ofKind? (ahead last rest) = none) :
    Follows capacity last (fun a _ ↦ a = some ()) (Compile.operation level active onConditional)
      declaration.tokens rest (declaration.act active level) := by
  have hd : Follows capacity last (fun a _ ↦ a = some ()) (some <$> declaration.read active level)
      declaration.tokens rest (id <$> declaration.act active level) :=
    (declaration_follows active level declaration h).map fun _ _ _ ↦ rfl
  rw [id_map] at hd
  apply Follows.peek
  rw [declaration.kind_headD]
  cases declaration <;> exact hd

private theorem operation_conditional {onConditional : Token → Compile Unit} {evaluate : Evaluate Unit}
    (keyword : Syntax.Word .onlyIf)
    (h : Follows capacity last Ignored (onConditional keyword) tokens rest evaluate) :
    Follows capacity last (fun a _ ↦ a = some ()) (Compile.operation level active onConditional)
      (keyword.1 :: tokens) rest evaluate := by
  have hd : Follows capacity last (fun a _ ↦ a = some ())
      (some <$> (Compile.expectWord .onlyIf >>= onConditional)) (keyword.1 :: tokens) rest
      (id <$> evaluate) :=
    (h.leaf keyword).map fun _ _ _ ↦ rfl
  rw [id_map] at hd
  apply Follows.peek
  simpa only [List.cons_append, List.headD_cons, keyword.2] using hd

private theorem operation_none {onConditional : Token → Compile Unit}
    (h : (ahead last rest).endsOperations = true) :
    Follows capacity last (fun a (_ : Unit) ↦ a = none)
      (Compile.operation level active onConditional) [] rest (pure ()) := by
  apply Follows.peek
  have hk : (([] ++ rest).headD last).kind = ahead last rest := rfl
  rw [hk]
  generalize ahead last rest = kind at h ⊢
  unfold Kind.endsOperations at h
  split at h
  case h_9 => cases h
  all_goals exact .pure rfl

private theorem branches_conditional {body : Bool → Compile Unit} {evaluate : Evaluate Unit} {holds : Bool}
    (opening : Syntax.Sign .openBrace) (closing : Syntax.Sign .closeBrace)
    (hr : ahead last rest ≠ .keyword .otherwise)
    (h : Follows capacity last Ignored (body (active && holds)) tokens (closing.1 :: rest) evaluate) :
    Follows capacity last Ignored (Compile.branches active body holds)
      (Syntax.braced opening tokens closing) rest evaluate := by
  rw [← bind_pure_unit (x := evaluate), ← List.append_nil (Syntax.braced opening tokens closing)]
  apply (branch_follows opening closing h).bind
  intro _ _ _
  apply Follows.peek
  change ((([] : List Token) ++ rest).headD last).kind ≠ .keyword .otherwise at hr
  rw [if_neg hr]
  exact .pure True.intro

private theorem branches_alternative {body : Bool → Compile Unit} {evaluate evaluate' : Evaluate Unit}
    {holds : Bool} (opening : Syntax.Sign .openBrace) (closing : Syntax.Sign .closeBrace)
    (otherwise : Syntax.Word .otherwise) (opening' : Syntax.Sign .openBrace)
    (closing' : Syntax.Sign .closeBrace)
    (h : Follows capacity last Ignored (body (active && holds)) tokens
      (closing.1 :: otherwise.1 :: (Syntax.braced opening' tokens' closing' ++ rest)) evaluate)
    (h' : Follows capacity last Ignored (body (active && !holds)) tokens' (closing'.1 :: rest)
      evaluate') :
    Follows capacity last Ignored (Compile.branches active body holds)
      (Syntax.braced opening tokens closing ++ otherwise.1 :: Syntax.braced opening' tokens' closing')
      rest (do evaluate; evaluate') := by
  apply (branch_follows opening closing h).bind
  intro _ _ _
  apply Follows.peek
  rw [List.cons_append, List.headD_cons, if_pos otherwise.2]
  exact (branch_follows opening' closing' h').advance otherwise.1

private theorem nested_follows {evaluate : Bool → Evaluate Unit} {room enclosing : Nat} (condition : Condition)
    (hr : room + enclosing = deepestNesting)
    (h : ∀ room', room' + (enclosing + 1) = deepestNesting → ∀ a b, AgreeBranch active a b →
      Follows capacity last Ignored (Compile.branches active (Compile.operations level room') a) tokens
        rest (evaluate b)) :
    Follows capacity last Ignored (Compile.nested active level room condition.keyword)
      (condition.tail ++ tokens) rest
      (do
        ensure (condition.enter enclosing)
        let holds ← condition.act active
        evaluate holds) := by
  cases room with
  | zero =>
    have hf : condition.enter enclosing = .error ⟨.deepConditional, condition.keyword.1.position⟩ :=
      if_pos (by omega)
    rw [hf]
    exact .refuse
  | succ room =>
    have hf : condition.enter enclosing = .ok () := if_neg (by omega)
    rw [hf]
    change Follows _ _ _ (Compile.conditional active (Compile.operations level room) condition.keyword)
      _ _ (condition.act active >>= evaluate)
    rw [Compile.conditional_eq]
    exact (condition_follows active condition).bind (h room (by omega))

private theorem ahead_operations (operations : Operations) (h : (ahead last rest).endsOperations = true) :
    Operator.ofKind? (ahead last (operations.tokens ++ rest)) = none ∧
      ahead last (operations.tokens ++ rest) ≠ .keyword .otherwise := by
  cases operations with
  | done => exact ⟨Kind.not_operator_of_endsOperations h, Kind.ne_otherwise_of_endsOperations h⟩
  | declare declaration rest' =>
    rw [ahead, Operations.tokens, List.append_assoc, declaration.kind_headD]
    cases declaration <;> exact ⟨rfl, of_decide_eq_true rfl⟩
  | conditional condition =>
    rw [ahead, Operations.tokens, List.cons_append, List.headD_cons, condition.keyword.2]
    exact ⟨rfl, by decide⟩
  | alternative condition =>
    rw [ahead, Operations.tokens, List.cons_append, List.headD_cons, condition.keyword.2]
    exact ⟨rfl, by decide⟩

private theorem AgreeBranch.and_eq {active a b : Bool} (h : AgreeBranch active a b) :
    (active && a) = (active && b) ∧ (active && !a) = (active && !b) := by
  cases active with
  | false => exact ⟨rfl, rfl⟩
  | true => rw [h rfl]; exact ⟨rfl, rfl⟩

private theorem endsOperations_closing (closing : Syntax.Sign .closeBrace) :
    (ahead last (closing.1 :: rest)).endsOperations = true := by
  rw [ahead, List.headD_cons, closing.2]
  rfl

private theorem nested_conditional {room enclosing : Nat} (condition : Condition)
    (opening : Syntax.Sign .openBrace) {yes : Operations} (closing : Syntax.Sign .closeBrace)
    (hr : room + enclosing = deepestNesting) (ho : ahead last rest ≠ .keyword .otherwise)
    (hy : ∀ room' taken, room' + (enclosing + 1) = deepestNesting →
      Follows capacity last Ignored (Compile.operations level room' taken) yes.tokens
        (closing.1 :: rest) (yes.act taken level (enclosing + 1))) :
    Follows capacity last Ignored (Compile.nested active level room condition.keyword)
      (condition.tail ++ Syntax.braced opening yes.tokens closing) rest
      (do
        ensure (condition.enter enclosing)
        let holds ← condition.act active
        yes.act (active && holds) level (enclosing + 1)) := by
  apply nested_follows active level condition hr
  intro room' hr' a b hab
  rw [← hab.and_eq.1]
  exact branches_conditional active opening closing ho (hy room' _ hr')

private theorem nested_alternative {room enclosing : Nat} (condition : Condition)
    (opening : Syntax.Sign .openBrace) {yes : Operations} (closing : Syntax.Sign .closeBrace)
    (otherwise : Syntax.Word .otherwise) (opening' : Syntax.Sign .openBrace) {no : Operations}
    (closing' : Syntax.Sign .closeBrace) (hr : room + enclosing = deepestNesting)
    (hy : ∀ room' taken, room' + (enclosing + 1) = deepestNesting →
      Follows capacity last Ignored (Compile.operations level room' taken) yes.tokens
        (closing.1 :: otherwise.1 :: (Syntax.braced opening' no.tokens closing' ++ rest))
        (yes.act taken level (enclosing + 1)))
    (hn : ∀ room' taken, room' + (enclosing + 1) = deepestNesting →
      Follows capacity last Ignored (Compile.operations level room' taken) no.tokens
        (closing'.1 :: rest) (no.act taken level (enclosing + 1))) :
    Follows capacity last Ignored (Compile.nested active level room condition.keyword)
      (condition.tail ++ (Syntax.braced opening yes.tokens closing ++
        otherwise.1 :: Syntax.braced opening' no.tokens closing')) rest
      (do
        ensure (condition.enter enclosing)
        let holds ← condition.act active
        yes.act (active && holds) level (enclosing + 1)
        no.act (active && !holds) level (enclosing + 1)) := by
  apply nested_follows active level condition hr
  intro room' hr' a b hab
  rw [← hab.and_eq.1, ← hab.and_eq.2]
  exact branches_alternative active opening closing otherwise opening' closing' (hy room' _ hr')
    (hn room' _ hr')

private theorem operations_of_iterate {room : Nat} {evaluate : Evaluate Unit}
    (h : ∀ limit, tokens.length < limit → Follows capacity last Ignored
      (Compile.iterate (fun _ ↦ Compile.operation level active (Compile.nested active level room)) limit ())
      tokens rest evaluate) :
    Follows capacity last Ignored (Compile.operations level room active) tokens rest evaluate := by
  rw [Compile.operations_eq]
  exact many_follows h

/-- Operations, read one after the other with any limit above the number of their tokens. -/
private theorem iterate_operations (operations : Operations) {active : Bool} {level : Level}
    {room enclosing limit : Nat} (hr : room + enclosing = deepestNesting)
    (hl : operations.tokens.length < limit) (he : (ahead last rest).endsOperations = true) :
    Follows capacity last Ignored
      (Compile.iterate (fun _ ↦ Compile.operation level active (Compile.nested active level room))
        limit ())
      operations.tokens rest (operations.act active level enclosing) := by
  induction operations generalizing active room enclosing limit rest with
  | done =>
    obtain ⟨limit, rfl⟩ : ∃ n, limit = n + 1 := ⟨limit - 1, by omega⟩
    have hd : Operations.done.act active level enclosing = pure () := by
      cases active <;> rfl
    rw [hd]
    exact iterate_stop True.intro (operation_none active level he)
  | declare declaration rest' ih =>
    have hp : 0 < declaration.tokens.length := by cases declaration <;> exact Nat.succ_pos _
    rw [Operations.tokens, List.length_append] at hl
    obtain ⟨limit, rfl⟩ : ∃ n, limit = n + 1 := ⟨limit - 1, by omega⟩
    rw [Operations.act_declare]
    exact iterate_next ()
      (operation_declare active level declaration (ahead_operations rest' he).1)
      (ih hr (by omega) he)
  | conditional condition opening yes closing rest' ihyes ih =>
    rw [Operations.tokens, List.length_cons, List.length_append, List.length_append] at hl
    obtain ⟨limit, rfl⟩ : ∃ n, limit = n + 1 := ⟨limit - 1, by omega⟩
    have hn := nested_conditional active level condition opening closing hr
      (ahead_operations rest' he).2 fun _ taken hr' ↦ operations_of_iterate taken level fun _ hl ↦
        ihyes hr' hl (endsOperations_closing closing)
    have hi := iterate_next () (operation_conditional active level condition.keyword hn)
      (ih hr (show rest'.tokens.length < limit by omega) he)
    rw [Operations.act_conditional, Operations.tokens]
    simpa only [bind_assoc, List.cons_append, List.append_assoc] using hi
  | alternative condition opening yes closing otherwise opening' no closing' rest' ihyes ihno ih =>
    rw [Operations.tokens, List.length_cons, List.length_append, List.length_append,
      List.length_cons, List.length_append] at hl
    obtain ⟨limit, rfl⟩ : ∃ n, limit = n + 1 := ⟨limit - 1, by omega⟩
    have hn : Follows capacity last Ignored _ _ (rest'.tokens ++ rest) _ :=
      nested_alternative active level condition opening closing otherwise opening' closing' hr
        (fun _ taken hr' ↦ operations_of_iterate taken level fun _ hl ↦
          ihyes hr' hl (endsOperations_closing closing))
        (fun _ taken hr' ↦ operations_of_iterate taken level fun _ hl ↦
          ihno hr' hl (endsOperations_closing closing'))
    have hi := iterate_next () (operation_conditional active level condition.keyword hn)
      (ih hr (show rest'.tokens.length < limit by omega) he)
    rw [Operations.act_alternative, Operations.tokens]
    simpa only [bind_assoc, List.cons_append, List.append_assoc] using hi

/-- Operations. -/
theorem operations_follows (operations : Operations) {room enclosing : Nat}
    (hr : room + enclosing = deepestNesting) (he : (ahead last rest).endsOperations = true) :
    Follows capacity last Ignored (Compile.operations level room active) operations.tokens rest
      (operations.act active level enclosing) :=
  operations_of_iterate active level fun _ hl ↦ iterate_operations operations hr hl he

end Cityscape
