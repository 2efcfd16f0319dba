import Mathlib.Data.List.Forall2
import Cityscape.Proofs.Evaluation

/-!
# How cities are built

Operations leave the variables of the other level alone, and what they come to does not depend on the
elements and records so far. So the operations of a city settle its variables once and for all, and these
alone decide whether an element can be performed and what it comes to: no element knows of another.
-/

namespace Cityscape

variable {α β : Type}

private theorem Evaluate.of_run_value {of : Scopes → Except Fault α} {work after : Work} {a : α}
    (h : (Evaluate.value of).run work = .ok a after) : of work.scopes = .ok a ∧ after = work := by
  simp only [EStateM.run, Evaluate.value] at h
  split at h
  · next ho =>
    cases h
    exact ⟨ho, rfl⟩
  · cases h

/-- The variables that declarations at a level leave alone. -/
def Scopes.other (scopes : Scopes) : Level → Scope
  | .city => scopes.element
  | .element => scopes.city

/-- Declarations leave the variables of the other level alone. -/
@[simp]
theorem Scopes.other_declare (scopes : Scopes) (level : Level) (name : String) (value : Value) :
    (scopes.declare level name value).other level = scopes.other level := by
  cases level <;> rfl

/--
A step that leaves the other level and all elements alone and that, where it succeeds, does so in the same
way whatever elements and records there are.
-/
def Evaluate.Steady (level : Level) (step : Evaluate α) : Prop :=
  ∀ work a after, step.run work = .ok a after →
    after.scopes.other level = work.scopes.other level ∧
    ∀ elements records, ∃ records',
      step.run ⟨work.scopes, elements, records⟩ = .ok a ⟨after.scopes, elements, records'⟩

namespace Evaluate.Steady

variable {level : Level}

private theorem bind {step : Evaluate α} {next : α → Evaluate β} (h : step.Steady level)
    (h' : ∀ a, (next a).Steady level) : Evaluate.Steady level (step >>= next) := by
  intro work b last hr
  obtain ⟨a, after, hs, hr⟩ := exists_of_run_bind hr
  obtain ⟨ho, hall⟩ := h work a after hs
  obtain ⟨ho', hall'⟩ := h' a after b last hr
  refine ⟨ho'.trans ho, fun elements records ↦ ?_⟩
  obtain ⟨between, he⟩ := hall elements records
  obtain ⟨records', he'⟩ := hall' elements between
  exact ⟨records', by rw [run_bind_of_ok he, he']⟩

private theorem pure (a : α) : Evaluate.Steady level (Pure.pure a) := by
  intro work b after hr
  cases hr
  exact ⟨rfl, fun _ records ↦ ⟨records, rfl⟩⟩

/-- A value of the variables. -/
theorem value (of : Scopes → Except Fault α) : (Evaluate.value of).Steady level := by
  intro work a after hr
  obtain ⟨ho, rfl⟩ := Evaluate.of_run_value hr
  refine ⟨rfl, fun elements records ↦ ⟨records, ?_⟩⟩
  simp only [EStateM.run, Evaluate.value, ho]

/-- A note. -/
theorem note (line : Nat) (message : String) : (Evaluate.note line message).Steady level := by
  intro work a after hr
  cases hr
  exact ⟨rfl, fun _ _ ↦ ⟨_, rfl⟩⟩

private theorem declare (name : Token) (message : String) (value : Value) :
    (Evaluate.declare level name message value).Steady level := by
  intro work a after hr
  cases hr
  exact ⟨Scopes.other_declare _ _ _ _, fun _ _ ↦ ⟨_, rfl⟩⟩

end Evaluate.Steady

namespace Syntax

open Evaluate (Steady)

private theorem Declaration.steady (level : Level) (declaration : Declaration) :
    (declaration.perform level).Steady level := by
  cases declaration with
  | string head value | int head value _ | double head value | coordinate head value =>
    exact (Steady.value _).bind fun _ ↦ .declare _ _ _

private theorem Operations.steady (level : Level) (enclosing : Nat) (operations : Operations) :
    (operations.perform level enclosing).Steady level := by
  have hd (condition : Condition) : condition.decide.Steady level :=
    (Steady.value _).bind fun _ ↦ (Steady.note _ _).bind fun _ ↦ .pure _
  induction operations generalizing enclosing with
  | done => exact .pure ()
  | declare declaration rest ih => exact (declaration.steady level).bind fun _ ↦ ih enclosing
  | conditional condition _ yes _ rest ihy ih =>
    refine (Steady.value _).bind fun _ ↦ (hd condition).bind fun holds ↦ ?_
    cases holds with
    | true => exact (ihy _).bind fun _ ↦ ih enclosing
    | false => exact (Steady.value _).bind fun _ ↦ ih enclosing
  | alternative condition _ yes _ _ _ no _ rest ihy ihn ih =>
    refine (Steady.value _).bind fun _ ↦ (hd condition).bind fun holds ↦ ?_
    cases holds with
    | true => exact (ihy _).bind fun _ ↦ (Steady.value _).bind fun _ ↦ ih enclosing
    | false => exact (Steady.value _).bind fun _ ↦ (ihn _).bind fun _ ↦ ih enclosing

variable {group : Group}

/--
In a city with these variables the tree can be performed whatever elements and records there are. It leaves
the variables as they are and comes to this element, which is what its content describes.
-/
structure Element.Builds (city : Scope) (tree : Element group) (element : Cityscape.Element) : Prop where
  described : ∃ scopes, tree.content.evaluate tree.name.1.unquoted scopes = .ok element
  performed : ∀ elements records, ∃ records',
    tree.perform.run ⟨⟨city, .empty⟩, elements, records⟩ =
      .ok () ⟨⟨city, .empty⟩, elements ++ [element], records'⟩

private theorem Element.run_perform {tree : Element group} {scopes ready : Scopes}
    {elements : List Cityscape.Element} {records between : List Record} {element : Cityscape.Element}
    (ho : (tree.operations.perform .element 0).run ⟨scopes.clearElement, elements, records⟩ =
      .ok () ⟨ready, elements, between⟩)
    (he : tree.content.evaluate tree.name.1.unquoted ready = .ok element) :
    ∃ records', tree.perform.run ⟨scopes, elements, records⟩ =
      .ok () ⟨ready.clearElement, elements ++ [element], records'⟩ := by
  have hc : Evaluate.clearElement.run ⟨scopes, elements, records⟩ =
      .ok () ⟨scopes.clearElement, elements, records⟩ := rfl
  have hv : (Evaluate.value (tree.content.evaluate tree.name.1.unquoted)).run ⟨ready, elements, between⟩ =
      .ok element ⟨ready, elements, between⟩ := by
    simp only [EStateM.run, Evaluate.value, he]
  unfold Element.perform
  rw [run_bind_of_ok hc, run_bind_of_ok ho, run_bind_of_ok hv]
  exact ⟨_, rfl⟩

private theorem Element.builds_of_perform {tree : Element group} {city : Scope} {elements : List Cityscape.Element}
    {records : List Record} {after : Work}
    (h : tree.perform.run ⟨⟨city, .empty⟩, elements, records⟩ = .ok () after) :
    ∃ element, tree.Builds city element := by
  obtain ⟨_, cleared, hc, h⟩ := exists_of_run_bind h
  cases hc
  obtain ⟨_, ready, ho, h⟩ := exists_of_run_bind h
  obtain ⟨element, _, hv, h⟩ := exists_of_run_bind h
  obtain ⟨hother, hall⟩ := tree.operations.steady .element 0 _ _ _ ho
  obtain ⟨he, _⟩ := Evaluate.of_run_value hv
  refine ⟨element, ⟨ready.scopes, he⟩, fun elements records ↦ ?_⟩
  obtain ⟨between, hr⟩ := hall elements records
  have hp : ∃ records', tree.perform.run ⟨⟨city, .empty⟩, elements, records⟩ =
      .ok () ⟨ready.scopes.clearElement, elements ++ [element], records'⟩ := Element.run_perform hr he
  rw [Scopes.clearElement, show ready.scopes.city = city from hother] at hp
  exact hp

private theorem run_forM_of_builds {city : Scope} {trees : List (Element group)} {built : List Cityscape.Element}
    (h : List.Forall₂ (Element.Builds city) trees built) (elements : List Cityscape.Element)
    (records : List Record) :
    ∃ records', (trees.forM Element.perform).run ⟨⟨city, .empty⟩, elements, records⟩ =
      .ok () ⟨⟨city, .empty⟩, elements ++ built, records'⟩ := by
  induction h generalizing elements records with
  | nil => exact ⟨records, by rw [List.append_nil]; rfl⟩
  | @cons tree element trees built hb _ ih =>
    obtain ⟨between, hp⟩ := hb.performed elements records
    obtain ⟨records', hr⟩ := ih (elements ++ [element]) between
    rw [List.append_assoc] at hr
    exact ⟨records', by rw [List.forM_eq_forM, List.forM_cons, run_bind_of_ok hp]; exact hr⟩

private theorem builds_of_run_forM {city : Scope} {trees : List (Element group)} {elements : List Cityscape.Element}
    {records : List Record} {after : Work}
    (h : (trees.forM Element.perform).run ⟨⟨city, .empty⟩, elements, records⟩ = .ok () after) :
    ∃ built, List.Forall₂ (Element.Builds city) trees built ∧
      after.scopes = ⟨city, .empty⟩ ∧ after.elements = elements ++ built := by
  induction trees generalizing elements records with
  | nil =>
    cases h
    exact ⟨[], .nil, rfl, (List.append_nil _).symm⟩
  | cons tree trees ih =>
    obtain ⟨_, between, hp, h⟩ := exists_of_run_bind h
    obtain ⟨element, hb⟩ := Element.builds_of_perform hp
    obtain ⟨records', hp'⟩ := hb.performed elements records
    cases hp.symm.trans hp'
    obtain ⟨built, hbs, hs, he⟩ := ih h
    refine ⟨element :: built, .cons hb hbs, hs, ?_⟩
    rw [he, List.append_assoc]
    rfl

/-- A city is complete if it has streets and institutions. -/
theorem City.check_eq_ok {tree : City} :
    tree.check = .ok () ↔ tree.has .street = true ∧ tree.has .institution = true := by
  rw [check, ← Bool.and_eq_true]
  split
  · next hh => exact iff_of_true rfl hh
  · next hh => exact iff_of_false nofun hh

/--
The operations of the tree leave these variables of the city, and in their presence its elements come to
these, whatever records there are. The mandatory elements are complete.
-/
structure City.Builds (tree : City) (city : Scope) (mandatory optional : List Cityscape.Element) : Prop where
  settled : ∀ records, ∃ records', (tree.operations.perform .city 0).run ⟨.empty, [], records⟩ =
    .ok () ⟨⟨city, .empty⟩, [], records'⟩
  complete : tree.check = .ok ()
  mandatory : List.Forall₂ (Element.Builds city) tree.required mandatory
  optional : List.Forall₂ (Element.Builds city) tree.optional optional

/-- A tree that builds elements is accepted with them. -/
theorem City.Builds.evaluation_eq {tree : City} {city : Scope} {mandatory optional : List Cityscape.Element}
    (h : tree.Builds city mandatory optional) :
    tree.evaluation.result = .ok (.ofElements tree.name.1.unquoted (mandatory ++ optional) ⟨city, .empty⟩) := by
  have hn : (Evaluate.note (tree.body.headD tree.closing).position.line
      ("city \"" ++ tree.name.1.unquoted ++ "\"")).run {} =
        .ok () ⟨.empty, [], [⟨(tree.body.headD tree.closing).position.line,
          "city \"" ++ tree.name.1.unquoted ++ "\""⟩]⟩ := rfl
  obtain ⟨records, ho⟩ := h.settled _
  obtain ⟨records', hm⟩ := run_forM_of_builds h.mandatory [] records
  obtain ⟨records'', hl⟩ := run_forM_of_builds h.optional mandatory records'
  have hc : (Evaluate.ensure tree.check).run ⟨⟨city, .empty⟩, mandatory, records'⟩ =
      .ok () ⟨⟨city, .empty⟩, mandatory, records'⟩ := by
    rw [h.complete]
    rfl
  rw [evaluation, perform, run_bind_of_ok hn, run_bind_of_ok ho, run_bind_of_ok hm,
    List.nil_append, run_bind_of_ok hc, run_bind_of_ok hl]
  rfl

/-- A tree that is accepted builds all elements of its city. -/
theorem City.builds_of_evaluation {tree : City} {result : Cityscape.City}
    (h : tree.evaluation.result = .ok result) :
    ∃ city mandatory optional, tree.Builds city mandatory optional ∧
      result = .ofElements tree.name.1.unquoted (mandatory ++ optional) ⟨city, .empty⟩ := by
  rw [evaluation] at h
  cases hp : tree.perform.run {} with
  | error fault work =>
    rw [hp] at h
    cases h
  | ok found work =>
    rw [hp] at h
    cases h
    obtain ⟨_, ⟨scopes, elements, records⟩, hn, hp⟩ := exists_of_run_bind hp
    obtain ⟨rfl, rfl⟩ : scopes = .empty ∧ elements = [] := by
      cases hn
      exact ⟨rfl, rfl⟩
    obtain ⟨_, ⟨⟨city, element⟩, _, _⟩, ho, hp⟩ := exists_of_run_bind hp
    obtain ⟨_, ⟨_, mandatory, _⟩, hm, hp⟩ := exists_of_run_bind hp
    obtain ⟨_, _, hc, hp⟩ := exists_of_run_bind hp
    obtain ⟨_, ⟨_, _, _⟩, hl, hp⟩ := exists_of_run_bind hp
    obtain ⟨hother, hall⟩ := tree.operations.steady .city 0 _ _ _ ho
    obtain rfl : element = .empty := hother
    obtain ⟨_, hr⟩ := hall [] records
    cases ho.symm.trans hr
    obtain ⟨_, hbm, rfl, rfl⟩ := builds_of_run_forM hm
    obtain ⟨hk, rfl⟩ := Evaluate.of_run_value hc
    obtain ⟨optional, hbo, rfl, rfl⟩ := builds_of_run_forM hl
    cases hp
    exact ⟨city, mandatory, optional, ⟨hall [], hk, hbm, hbo⟩, rfl⟩

end Syntax

end Cityscape
