import Cityscape.Proofs.ViablePrefix

/-!
# Values that are always there

In a branch that is taken a variable without a value is a fault. So what is read there has a value: nothing is
ever refused because a value is missing, each declaration stores a value and notes it, and each condition is
decided by its comparison. All this is what a compilation has in common with itself.
-/

namespace Cityscape

variable {α β : Type}

/-- A reader that, where it succeeds, gives a value and changes nothing but its place among the tokens. -/
def Yields (read : Compile (Option α)) : Prop :=
  ∀ session value after, read.run session = .ok value after →
    (∃ a, value = some a) ∧ after.progress = session.progress

/-- Readers that find values side by side, and can do so while nothing changes, yield them. -/
theorem yields_of_alike {agree : α → α → Prop} {read : Compile (Option α)}
    (h : ∀ alike : Likeness, alike.sighted → Alike alike (PresentIf true agree) read read) : Yields read := by
  intro session value after hr
  have hs : (Likeness.idle session.progress session.progress True fun _ ↦ Scopes.agree_self _).Sessions session
      session :=
    ⟨rfl, List.forall₂_same.mpr fun _ _ ↦ rfl, .refl (fun _ ↦ rfl) (fun _ ↦ True.intro) _, rfl, rfl⟩
  have ho := h _ True.intro session session hs
  rw [hr] at ho
  obtain ⟨_, _, _, hv, ha⟩ := ho.of_ok
  obtain ⟨a, _, hv, _⟩ := hv rfl
  exact ⟨⟨a, hv⟩, ha.progress.1⟩

private theorem Yields.ne_none {read : Compile (Option α)} (h : Yields read) (session after : Session) :
    read.run session ≠ .ok none after := by
  intro hr
  obtain ⟨⟨_, hv⟩, _⟩ := h session none after hr
  cases hv

private theorem string_yields : Yields (Compile.string true) :=
  yields_of_alike fun _ hs ↦ (string_walks fun _ ↦ hs).keeps

private theorem operand_yields : Yields (Compile.operand true) :=
  yields_of_alike fun _ hs s s' h ↦ (operand_walks (fun _ ↦ hs) s.current.kind).keeps s s' h rfl

private theorem number_yields : Yields (Compile.number true) :=
  yields_of_alike fun _ hs ↦ (number_walks fun _ ↦ hs).keeps

private theorem integerExpression_yields : Yields (Compile.integerExpression true) :=
  yields_of_alike fun _ hs ↦ (integerExpression_walks fun _ ↦ hs).keeps

private theorem component_yields : Yields (Compile.component true) :=
  yields_of_alike fun _ hs ↦ (component_walks fun _ ↦ hs).keeps

private theorem coordinate_yields : Yields (Compile.coordinate true) :=
  yields_of_alike fun _ hs ↦ (coordinate_walks fun _ ↦ hs).keeps

private theorem progress_of_declarationHead {word : Keyword} {session after : Session} {name : Token}
    (h : (Compile.declarationHead word).run session = .ok name after) : after.progress = session.progress := by
  have hy : Yields (some <$> Compile.declarationHead word) := by
    refine @yields_of_alike _ (fun _ _ ↦ True) _ fun _ _ ↦ ?_
    exact (declarationHead_walks word).keeps.map fun t t' _ _ ↦ ⟨t, t', rfl, rfl, True.intro⟩
  refine (hy session (some name) after ?_).2
  rw [map_eq_pure_bind, run_bind_of_ok h]
  rfl

private theorem Likeness.Faults.evaluated {alike : Likeness} {fault fault' : Fault} (h : alike.Faults fault fault')
    (wanted : Wanted) : fault.cause ≠ .unevaluated wanted := by
  cases h with
  | refused hc => cases hc <;> exact Cause.noConfusion
  | lexical | unexpected | incomplete | undefined => exact Cause.noConfusion

private theorem evaluated_of_compile {source : Source} {capacity : Nat} {fault : Fault}
    (h : (compile capacity source).result = .error fault) (wanted : Wanted) :
    fault.cause ≠ .unevaluated wanted := by
  rw [compile] at h
  cases hb : (scan source).begins (.empty capacity) with
  | error fault' =>
    rw [Scan.compile_of_begins_error hb] at h
    cases h
    obtain ⟨lexical, _, rfl⟩ := Scan.lexical_of_begins_error hb
    exact Cause.noConfusion
  | ok first =>
    rw [Scan.compile_of_begins hb] at h
    split at h
    · cases h
    next fault' after hr =>
    cases h
    have hc := city_alike Likeness.itself_twins first first (Likeness.itself_reflexive first)
    rw [hr] at hc
    obtain ⟨_, _, _, hf, _⟩ := hc.of_error
    exact hf.evaluated wanted

/-- How a value that was stored under a name reads in the journal. -/
def Value.announcement (name : String) : Value → String
  | string text => "string " ++ name ++ " = \"" ++ text ++ "\""
  | int whole => "int " ++ name ++ " = " ++ toString whole.toInt
  | double number => "double " ++ name ++ " = " ++ Script.numeral.write number
  | coordinate place => "coordinate " ++ name ++ " = (" ++ Script.numeral.write place.x ++ ", "
      ++ Script.numeral.write place.y ++ ")"

/-- The session with a value stored under a name and noted at its line. -/
def Session.storing (session : Session) (level : Level) (name : Token) (value : Value) : Session :=
  { session with
    scopes := session.scopes.declare level name.lexeme value
    journal := session.journal.record name.position.line (value.announcement name.lexeme) }

/--
A declaration that goes past its head and the value that `find` gives, which change nothing, and then stores this
value and notes it.
-/
def Stores (level : Level) (word : Keyword) (find : Token → Compile (Option Value)) (declare : Compile Unit) :
    Prop :=
  ∀ session after, declare.run session = .ok () after → ∃ name value between behind,
    (Compile.declarationHead word).run session = .ok name between ∧
      (find name).run between = .ok (some value) behind ∧
      behind.progress = session.progress ∧ after = behind.storing level name value

private theorem stores_of_yields {word : Keyword} {find : Compile (Option α)} {toValue : Token → α → Value}
    {text : Token → α → String} (h : Yields find)
    (ht : ∀ name value, text name value = (toValue name value).announcement name.lexeme) :
    Stores level word (fun name ↦ Option.map (toValue name) <$> find)
      (Compile.declarationHead word >>= fun name ↦ find >>= fun value ↦
        Compile.store level true name value (toValue name) (text name)) := by
  intro session after hr
  obtain ⟨name, between, hh, hr⟩ := exists_of_run_bind hr
  obtain ⟨value, behind, hf, hr⟩ := exists_of_run_bind hr
  obtain ⟨⟨value, rfl⟩, hp⟩ := h _ _ _ hf
  refine ⟨name, toValue name value, between, behind, hh, ?_, ?_, ?_⟩
  · change (Option.map (toValue name) <$> find).run between = _
    rw [map_eq_pure_bind, run_bind_of_ok hf]
    rfl
  · exact hp.trans (progress_of_declarationHead hh)
  · rw [Compile.store, ht] at hr
    cases hr
    rfl

private theorem Compile.number_bind_eq (next : Option Float → Compile β) :
    number true >>= next = quantity >>= fun value ↦ next (some value) := by
  funext session
  change (number true >>= next).run session = EStateM.run _ session
  rw [quantity, bind_assoc]
  refine run_bind_congr fun value after hr ↦ ?_
  obtain ⟨⟨number, rfl⟩, _⟩ := number_yields _ _ _ hr
  rfl

/--
Where the branch is taken every value that is read is there. So no script is refused because a value is missing;
a declaration that succeeds has stored the value that it found and noted it, once, and has changed nothing else;
and a conditional is the same as one that compares two numbers that have to be there.
-/
theorem taken_values_present :
    (∀ session after, (Compile.string true).run session ≠ .ok none after) ∧
    (∀ session after, (Compile.coordinate true).run session ≠ .ok none after) ∧
    (∀ session after, (Compile.component true).run session ≠ .ok none after) ∧
    (∀ session after, (Compile.number true).run session ≠ .ok none after) ∧
    (∀ session after, (Compile.operand true).run session ≠ .ok none after) ∧
    (∀ capacity source fault wanted, (compile capacity source).result = .error fault →
      fault.cause ≠ .unevaluated wanted) ∧
    (∀ level,
      Stores level .declareString (fun _ ↦ Option.map .string <$> Compile.string true)
        (Compile.declareString level true) ∧
      Stores level .declareInt (fun _ ↦ Option.map .int <$> Compile.integerExpression true)
        (Compile.declareInt level true) ∧
      Stores level .declareDouble (fun _ ↦ Option.map .double <$> Compile.number true)
        (Compile.declareDouble level true) ∧
      Stores level .declareCoordinate
        (fun name ↦ Option.map (fun place ↦ .coordinate (place.renamed name.lexeme)) <$> Compile.coordinate true)
        (Compile.declareCoordinate level true)) ∧
    ∀ body keyword, Compile.conditional true body keyword = (do
      Compile.expectMark .openParen
      let left ← Compile.quantity
      let comparison ← Compile.comparison
      let right ← Compile.quantity
      Compile.expectMark .closeParen
      let holds := comparison.holds left right
      Compile.note keyword.position.line
        (if holds then "if: taking then branch" else "if: taking else branch")
      Compile.branch (body holds)
      if (← Compile.peek) = .keyword .otherwise then
        let _ ← Compile.advance
        Compile.branch (body !holds)) := by
  refine ⟨string_yields.ne_none, coordinate_yields.ne_none, component_yields.ne_none, number_yields.ne_none,
    operand_yields.ne_none, fun _ _ _ wanted h ↦ evaluated_of_compile h wanted, fun level ↦ ⟨?_, ?_, ?_, ?_⟩,
    fun body keyword ↦ ?_⟩
  · exact stores_of_yields string_yields fun _ _ ↦ rfl
  · rw [Compile.declareInt_eq]
    exact stores_of_yields integerExpression_yields fun _ _ ↦ rfl
  · exact stores_of_yields number_yields fun _ _ ↦ rfl
  · exact stores_of_yields coordinate_yields fun _ _ ↦ rfl
  · simp only [Compile.conditional, Compile.number_bind_eq, Bool.true_and, if_true]

end Cityscape
