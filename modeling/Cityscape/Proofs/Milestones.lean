import Mathlib.Logic.Relation
import Cityscape.Proofs.Recognition

/-!
# How far a compilation comes

A script is its opening, then one element after the other, first those of the mandatory group and then those
of the optional one, and its closing. An element is completed when it has been read to its closing brace, and
nothing else completes elements. Each element is a milestone; one follows the other in one way only, and a
script that is refused stops at one of them. So the elements that are there have been read to their ends, and
the one that was being read is not among them.
-/

namespace Cityscape

open Syntax (Group)

variable {α β : Type}

/-! ### What readers keep -/

/-- The session that a reader leaves, whether it succeeds or not. -/
def Compile.left (read : Compile α) (session : Session) : Session :=
  match read.run session with
  | .ok _ after | .error _ after => after

/-- What is left where a reader succeeds. -/
theorem Compile.left_of_ok {read : Compile α} {session after : Session} {a : α}
    (h : read.run session = .ok a after) : read.left session = after := by
  rw [left, h]

/-- What is left where a reader fails. -/
theorem Compile.left_of_error {read : Compile α} {session after : Session} {fault : Fault}
    (h : read.run session = .error fault after) : read.left session = after := by
  rw [left, h]

/-- A reader that leaves variables, elements and features as `holds` says, if they were so before. -/
def Keeps (holds : Scopes → List Element → List Feature → Prop) (read : Compile α) : Prop :=
  ∀ session, holds session.scopes session.elements session.features →
    holds (read.left session).scopes (read.left session).elements (read.left session).features

section

variable {holds : Scopes → List Element → List Feature → Prop}

/-- A compilation beside itself, as long as its variables, elements and features are as `holds` says. -/
def Likeness.kept (holds : Scopes → List Element → List Feature → Prop) : Likeness where
  token := Eq
  progress p p' := p = p' ∧ holds p.scopes p.elements p.features
  fault _ := True
  sighted := True
  noted := True
  naming := .same
  changes change change' :=
    change = change' ∧ ∀ scopes elements features, holds scopes elements features →
      holds (change scopes) elements features
  kind_eq h := congrArg Token.kind h
  lexeme_eq h _ := congrArg Token.lexeme h
  name_of h _ := congrArg Token.lexeme h
  agree _ h := h.1 ▸ Scopes.agree_self _
  change hc h := ⟨by rw [hc.1, h.1], hc.2 _ _ _ h.2⟩
  note _ ht hm h := ⟨by rw [ht, hm, h.1], h.2⟩

/-- Declarations at a level are such changes if they keep what holds. -/
theorem Likeness.kept_declares {level : Level}
    (h : ∀ name value scopes elements features, holds scopes elements features →
      holds (scopes.declare level name (Value.named name value)) elements features) :
    (kept holds).Declares level where
  sighted := True.intro
  noted := True.intro
  changes := by
    rintro name _ rfl value
    exact ⟨rfl, h name value⟩

/-- A reader that keeps a compilation like itself keeps what holds of it. -/
theorem keeps_of_alike {read : Compile α} (h : Alike (.kept holds) Ignored read read) : Keeps holds read := by
  intro session hs
  have ho := h session session
    ⟨rfl, List.forall₂_same.mpr fun _ _ ↦ rfl, .refl (fun _ ↦ rfl) (fun _ ↦ True.intro) _, rfl, hs⟩
  rw [Compile.left]
  generalize read.run session = outcome at ho
  cases ho with
  | ok _ ha => exact ha.progress.2
  | error _ ha => exact ha.progress.2

end

/-- A reader that completes no element, whether it succeeds or not. -/
def Quiet (read : Compile α) : Prop :=
  ∀ session, (read.left session).elements = session.elements

private theorem quiet_of_alike {read : Compile α}
    (h : ∀ elements, Alike (.kept fun _ found _ ↦ found = elements) Ignored read read) : Quiet read :=
  fun session ↦ keeps_of_alike (h session.elements) session rfl

private theorem Quiet.of_ok {read : Compile α} (h : Quiet read) {session after : Session} {a : α}
    (hr : read.run session = .ok a after) : after.elements = session.elements := by
  rw [← h session, Compile.left_of_ok hr]

private theorem Quiet.of_error {read : Compile α} (h : Quiet read) {session after : Session} {fault : Fault}
    (hr : read.run session = .error fault after) : after.elements = session.elements := by
  rw [← h session, Compile.left_of_error hr]

/--
Whatever becomes of a script, the features that have been emitted are those of the elements that have been drawn,
in the same order.
-/
theorem city_inStep : Keeps (fun _ elements features ↦ features = elements.map Element.feature) Compile.city := by
  apply keeps_of_alike
  refine Alike.ignored (city_alike ⟨fun _ ↦ Likeness.kept_declares fun _ _ _ _ _ ↦ id, ⟨rfl, fun _ _ _ ↦ id⟩,
    fun h ↦ congrArg Progress.features h.1, fun element h ↦ ⟨by rw [h.1], ?_⟩⟩)
  obtain ⟨rfl, hf⟩ := h
  simp only [Progress.complete, hf, List.map_append, List.map_singleton]

/-! ### The parts of a script -/

private theorem opening_quiet : Quiet Compile.opening :=
  quiet_of_alike fun _ ↦ (opening_walks (Likeness.kept_declares fun _ _ _ _ _ ↦ id)).keeps.ignored

private theorem closing_quiet : Quiet Compile.closing :=
  quiet_of_alike fun _ ↦ closing_alike

private theorem ElementKind.whole_quiet (kind : ElementKind) : Quiet kind.whole :=
  quiet_of_alike fun _ ↦
    (whole_walks (Likeness.kept_declares fun _ _ _ _ _ ↦ id) ⟨rfl, fun _ _ _ ↦ id⟩ kind).keeps.ignored

private theorem ElementKind.read_of_whole {kind : ElementKind} {session closed : Session} {element : Element}
    {keyword : Token} (h : kind.whole.run session = .ok (element, keyword) closed) :
    ∃ after, kind.read.run session = .ok () after ∧ after.elements = session.elements ++ [element] := by
  rw [read_eq, run_bind_of_ok h, ← kind.whole_quiet.of_ok h]
  exact ⟨_, rfl, rfl⟩

private theorem ElementKind.read_of_not_whole {kind : ElementKind} {session after : Session} {fault : Fault}
    (h : kind.whole.run session = .error fault after) : kind.read.run session = .error fault after := by
  rw [read_eq]
  exact run_bind_of_error h

private theorem ElementKind.kind_of_content {kind : ElementKind} {name : String} {session after : Session}
    {element : Element} (h : (kind.content name).run session = .ok element after) : element.kind = kind := by
  cases kind with
  | street | statue =>
    obtain ⟨_, _, _, h⟩ := exists_of_run_bind h
    obtain ⟨_, _, _, h⟩ := exists_of_run_bind h
    cases h
    rfl
  | institution =>
    obtain ⟨_, _, _, h⟩ := exists_of_run_bind h
    obtain ⟨_, _, _, h⟩ := exists_of_run_bind h
    obtain ⟨_, _, _, h⟩ := exists_of_run_bind h
    cases h
    rfl
  | square | lake =>
    obtain ⟨_, _, _, h⟩ := exists_of_run_bind h
    cases h
    rfl

private theorem ElementKind.kind_of_whole {kind : ElementKind} {session closed : Session} {element : Element}
    {keyword : Token} (h : kind.whole.run session = .ok (element, keyword) closed) : element.kind = kind := by
  obtain ⟨_, _, _, h⟩ := exists_of_run_bind h
  obtain ⟨_, _, _, h⟩ := exists_of_run_bind h
  obtain ⟨_, _, _, h⟩ := exists_of_run_bind h
  obtain ⟨_, _, _, h⟩ := exists_of_run_bind h
  obtain ⟨_, _, _, h⟩ := exists_of_run_bind h
  obtain ⟨_, _, hc, h⟩ := exists_of_run_bind h
  obtain ⟨_, _, _, h⟩ := exists_of_run_bind h
  cases h
  exact kind_of_content hc

private theorem ElementKind.read_recognizes (kind : ElementKind) : Recognizes kind.read (.ofKinds (· ≠ [])) := by
  have hr : Recognizes kind.read (Rule [.symbol kind.symbol]) :=
    (element_walks Likeness.itself_twins kind).recognizes Likeness.itself_reflexive
  have hn : ∀ alternative ∈ Grammar.rules kind.symbol, ∃ part ∈ alternative.head?, part.height = 0 := by
    cases kind <;> decide
  exact fun found ↦ (hr found).mono fun _ h ↦ h.ne_nil hn

/-! ### Elements of a group -/

/-- The element of the group that begins with a token of this kind. -/
def Syntax.Group.element? : Group → Kind → Option ElementKind
  | .mandatory, .keyword .street => some .street
  | .mandatory, .keyword .institution => some .institution
  | .optional, .keyword .square => some .square
  | .optional, .keyword .statue => some .statue
  | .optional, .keyword .lake => some .lake
  | _, _ => none

/-- An element of the group, if one comes next. -/
def Compile.groupElement {σ : Type} (group : Group) (next : ElementKind → σ → σ) (state : σ) :
    Compile (Option σ) := do
  match group.element? (← peek) with
  | some kind =>
    kind.read
    return some (next kind state)
  | none => return none

private theorem Compile.run_groupElement {σ : Type} (group : Group) (next : ElementKind → σ → σ) (state : σ)
    (session : Session) : (Compile.groupElement group next state).run session =
      match group.element? session.current.kind with
      | some kind => (kind.read >>= fun _ ↦ pure (some (next kind state))).run session
      | none => .ok none session := by
  change EStateM.run (match group.element? session.current.kind with
    | some kind => kind.read >>= fun _ ↦ pure (some (next kind state))
    | none => pure none) session = _
  split <;> rfl

/-- What has been met after an element of this kind. -/
def Compile.Mandatory.seeing : ElementKind → Compile.Mandatory → Compile.Mandatory
  | .street, met => { met with street := true }
  | .institution, met => { met with institution := true }
  | _, met => met

/-- Mandatory elements are read as those of their group. -/
theorem Compile.mandatoryElement_eq (met : Compile.Mandatory) :
    Compile.mandatoryElement met = Compile.groupElement .mandatory Compile.Mandatory.seeing met := by
  unfold mandatoryElement groupElement
  congr 1
  funext kind
  cases kind with
  | keyword word => cases word <;> rfl
  | _ => rfl

/-- Optional elements are read as those of their group. -/
theorem Compile.optionalElement_eq :
    Compile.optionalElement = Compile.groupElement .optional (fun _ _ ↦ ()) () := by
  unfold optionalElement groupElement
  simp only [map_eq_pure_bind]
  congr 1
  funext kind
  cases kind with
  | keyword word => cases word <;> rfl
  | _ => rfl

/-! ### Milestones -/

/--
How far a script has been read: the elements that have been read to their closing braces, the group whose
elements may come next, and the session in which they may.
-/
structure Milestone where
  group : Group
  elements : List Element
  session : Session

/-- Whether a street and an institution are among the elements. -/
def Sufficient (elements : List Element) : Prop :=
  (∃ element ∈ elements, element.kind = .street) ∧ ∃ element ∈ elements, element.kind = .institution

namespace Milestone

/-- One milestone after another. -/
inductive Step : Milestone → Milestone → Prop where
  /-- One more element of the group is read to its closing brace. -/
  | element {group : Group} {elements : List Element} {before closed after : Session} {kind : ElementKind}
    {element : Element} {keyword : Token} (hk : group.element? before.current.kind = some kind)
    (hw : kind.whole.run before = .ok (element, keyword) closed) (hr : kind.read.run before = .ok () after) :
    Step ⟨group, elements, before⟩ ⟨group, elements ++ [element], after⟩
  /-- No mandatory element comes next, and none is missing. -/
  | further {elements : List Element} {session : Session}
    (hn : Group.mandatory.element? session.current.kind = none) (hc : Sufficient elements) :
    Step ⟨.mandatory, elements, session⟩ ⟨.optional, elements, session⟩

/-- The milestones at which a script is refused with this fault. -/
inductive Stops (fault : Fault) : Milestone → Prop where
  /-- The fault is in an element, which is cut short. -/
  | element {group : Group} {elements : List Element} {before after : Session} {kind : ElementKind}
    (hk : group.element? before.current.kind = some kind) (hw : kind.whole.run before = .error fault after) :
    Stops fault ⟨group, elements, before⟩
  /-- Mandatory elements are missing. -/
  | incomplete {elements : List Element} {session : Session}
    (hn : Group.mandatory.element? session.current.kind = none) (hc : ¬ Sufficient elements)
    (hf : fault.cause = .incompleteCity ∨ fault.cause = .unexpected .mandatoryElement session.current) :
    Stops fault ⟨.mandatory, elements, session⟩
  /-- The fault is behind the last element. -/
  | closing {elements : List Element} {session after : Session}
    (hn : Group.optional.element? session.current.kind = none)
    (hr : Compile.closing.run session = .error fault after) : Stops fault ⟨.optional, elements, session⟩

private theorem step_rightUnique : Relator.RightUnique Step := by
  intro milestone next next' h h'
  cases h with
  | element hk hw hr =>
    cases h' with
    | element hk' hw' hr' =>
      cases hk.symm.trans hk'
      cases hw.symm.trans hw'
      cases hr.symm.trans hr'
      rfl
    | further hn => cases hk.symm.trans hn
  | further hn =>
    cases h' with
    | element hk' => cases hn.symm.trans hk'
    | further => rfl

private theorem Stops.not_step {fault : Fault} {milestone next : Milestone} (h : milestone.Stops fault) :
    ¬ Step milestone next := by
  intro hs
  cases h with
  | element hk hw =>
    cases hs with
    | element hk' hw' =>
      cases hk.symm.trans hk'
      cases hw.symm.trans hw'
    | further hn => cases hk.symm.trans hn
  | incomplete hn hc =>
    cases hs with
    | element hk' => cases hn.symm.trans hk'
    | further _ hc' => exact hc hc'
  | closing hn =>
    cases hs with
    | element hk' => cases hn.symm.trans hk'

private theorem Step.elements_eq {milestone next : Milestone} (h : Step milestone next)
    (he : milestone.session.elements = milestone.elements) : next.session.elements = next.elements := by
  cases h with
  | element _ hw hr =>
    obtain ⟨_, hr', he'⟩ := ElementKind.read_of_whole hw
    cases hr.symm.trans hr'
    exact he'.trans (congrArg (· ++ _) he)
  | further => exact he

end Milestone

/-- The milestones of a script from its first element on. -/
def Reaches (first : Session) (milestone : Milestone) : Prop :=
  ∃ name start, Compile.opening.run first = .ok name start ∧
    Relation.ReflTransGen Milestone.Step ⟨.mandatory, [], start⟩ milestone

namespace Reaches

variable {first : Session} {milestone milestone' : Milestone}

private theorem step (h : Reaches first milestone) (hs : milestone.Step milestone') : Reaches first milestone' := by
  obtain ⟨name, start, ho, hr⟩ := h
  exact ⟨name, start, ho, hr.tail hs⟩

private theorem elements_eq (h : Reaches first milestone) (hf : first.elements = []) :
    milestone.session.elements = milestone.elements := by
  obtain ⟨name, start, ho, hr⟩ := h
  induction hr with
  | refl => exact (opening_quiet.of_ok ho).trans hf
  | tail _ hs ih => exact hs.elements_eq ih

private theorem eq_of_stops (h : Reaches first milestone) (h' : Reaches first milestone') {fault fault' : Fault}
    (hs : milestone.Stops fault) (hs' : milestone'.Stops fault') : milestone = milestone' := by
  obtain ⟨name, start, ho, hr⟩ := h
  obtain ⟨name', start', ho', hr'⟩ := h'
  cases ho.symm.trans ho'
  rcases Relation.ReflTransGen.total_of_right_unique Milestone.step_rightUnique hr hr' with hr | hr
  · rcases hr.cases_head with rfl | ⟨_, hn, _⟩
    · rfl
    · exact absurd hn hs.not_step
  · rcases hr.cases_head with rfl | ⟨_, hn, _⟩
    · rfl
    · exact absurd hn hs'.not_step

end Reaches

/-- A script is refused with this fault, after these elements have been read to their closing braces. -/
inductive Interrupted (first : Session) (fault : Fault) : List Element → Prop where
  /-- The fault is before the first element. -/
  | opening {after : Session} (h : Compile.opening.run first = .error fault after) : Interrupted first fault []
  /-- The fault is behind a milestone. -/
  | stops {milestone : Milestone} (h : Reaches first milestone) (hs : milestone.Stops fault) :
    Interrupted first fault milestone.elements

/-- Which elements a script is refused after is certain. -/
theorem Interrupted.unique {first : Session} {fault fault' : Fault} {elements elements' : List Element}
    (h : Interrupted first fault elements) (h' : Interrupted first fault' elements') : elements = elements' := by
  cases h with
  | opening ho =>
    cases h' with
    | opening => rfl
    | stops hr =>
      obtain ⟨_, _, ho', _⟩ := hr
      cases ho.symm.trans ho'
  | stops hr hs =>
    cases h' with
    | opening ho =>
      obtain ⟨_, _, ho', _⟩ := hr
      cases ho.symm.trans ho'
    | stops hr' hs' => rw [hr.eq_of_stops hr' hs hs']

/-- A script is refused with this fault in this session. -/
inductive Breaks (first : Session) (fault : Fault) : Session → Prop where
  /-- The fault is before the first element. -/
  | opening {after : Session} (h : Compile.opening.run first = .error fault after) : Breaks first fault after
  /-- The fault is in an element. -/
  | element {milestone : Milestone} {kind : ElementKind} {after : Session} (h : Reaches first milestone)
    (hk : milestone.group.element? milestone.session.current.kind = some kind)
    (hw : kind.whole.run milestone.session = .error fault after) : Breaks first fault after
  /-- Mandatory elements are missing. -/
  | incomplete {elements : List Element} {after : Session} (h : Reaches first ⟨.mandatory, elements, after⟩)
    (hn : Group.mandatory.element? after.current.kind = none) (hc : ¬ Sufficient elements)
    (hf : fault.cause = .incompleteCity ∨ fault.cause = .unexpected .mandatoryElement after.current) :
    Breaks first fault after
  /-- The fault is behind the last element. -/
  | closing {elements : List Element} {last after : Session} (h : Reaches first ⟨.optional, elements, last⟩)
    (hn : Group.optional.element? last.current.kind = none)
    (hr : Compile.closing.run last = .error fault after) : Breaks first fault after

/-- The elements of a script that is refused are those read to their ends until then. -/
theorem Breaks.interrupted {first after : Session} {fault : Fault} (h : Breaks first fault after)
    (hf : first.elements = []) : Interrupted first fault after.elements := by
  cases h with
  | opening h =>
    rw [opening_quiet.of_error h, hf]
    exact .opening h
  | @element _ kind _ h hk hw =>
    rw [kind.whole_quiet.of_error hw, h.elements_eq hf]
    exact .stops h (.element hk hw)
  | incomplete h hn hc hfault =>
    rw [h.elements_eq hf]
    exact .stops h (.incomplete hn hc hfault)
  | closing h hn hr =>
    rw [closing_quiet.of_error hr, h.elements_eq hf]
    exact .stops h (.closing hn hr)

/-! ### Reading all elements -/

section

variable {σ : Type} {first : Session} {ending : Ending} {group : Group} {next : ElementKind → σ → σ}
  {good : σ → List Element → Prop}

/--
Where reading elements of a group ends: before something else, with the elements as `good` says, or in one of
them, which is cut short.
-/
def Exhausts (first : Session) (ending : Ending) (group : Group) (good : σ → List Element → Prop) :
    EStateM.Result Fault Session σ → Prop
  | .ok state after => ∃ elements rest, Reaches first ⟨group, elements, after⟩ ∧ after.At ending rest ∧
      group.element? after.current.kind = none ∧ good state elements
  | .error fault after => Breaks first fault after

/--
Every element goes past a token, so the repetitions that are left outnumber the elements, and reading ends
before they do.
-/
private theorem iterate_exhausts (hp : ending.Proper)
    (hgood : ∀ state elements element,
      good state elements → good (next element.kind state) (elements ++ [element]))
    (limit : Nat) {session : Session} {tokens : List Token} (hs : session.At ending tokens)
    (hl : tokens.length < limit) {elements : List Element} (h : Reaches first ⟨group, elements, session⟩)
    {state : σ} (hg : good state elements) :
    Exhausts first ending group good
      ((Compile.iterate (Compile.groupElement group next) limit state).run session) := by
  induction limit generalizing session tokens elements state with
  | zero => exact absurd hl (Nat.not_lt_zero _)
  | succ limit ih =>
    rw [Compile.iterate]
    have hstep := Compile.run_groupElement group next state session
    cases hk : group.element? session.current.kind with
    | none =>
      rw [hk] at hstep
      rw [run_bind_of_ok hstep]
      exact ⟨elements, tokens, h, hs, hk, hg⟩
    | some kind =>
      rw [hk] at hstep
      dsimp only at hstep
      cases hw : kind.whole.run session with
      | error fault after =>
        rw [run_bind_of_error (ElementKind.read_of_not_whole hw)] at hstep
        rw [run_bind_of_error hstep]
        exact .element h hk hw
      | ok found closed =>
        obtain ⟨element, keyword⟩ := found
        obtain ⟨between, hr, _⟩ := ElementKind.read_of_whole hw
        obtain ⟨front, back, rfl, hn, hb⟩ := (kind.read_recognizes _).of_ok hp hs rfl hr
        have hlength : back.length < limit := by
          have : 0 < front.length := List.length_pos_iff.mpr fun he ↦ hn (by rw [he]; rfl)
          rw [List.length_append] at hl
          omega
        have hgood' := hgood state elements element hg
        rw [ElementKind.kind_of_whole hw] at hgood'
        rw [run_bind_of_ok hr] at hstep
        rw [run_bind_of_ok hstep]
        exact ih hb hlength (h.step (.element hk hw hr)) hgood'

private theorem many_exhausts (hp : ending.Proper)
    (hgood : ∀ state elements element,
      good state elements → good (next element.kind state) (elements ++ [element]))
    {session : Session} {tokens : List Token} (hs : session.At ending tokens) {elements : List Element}
    (h : Reaches first ⟨group, elements, session⟩) {state : σ} (hg : good state elements) :
    Exhausts first ending group good
      ((Compile.many (Compile.groupElement group next) state).run session) := by
  refine iterate_exhausts hp hgood (session.ahead.length + 2) hs ?_ h hg
  rw [hs.ahead, List.length_tail]
  omega

end

/-- What has been met is among the elements. -/
def Compile.Mandatory.Tells (met : Compile.Mandatory) (elements : List Element) : Prop :=
  (met.street = true ↔ ∃ element ∈ elements, element.kind = .street) ∧
    (met.institution = true ↔ ∃ element ∈ elements, element.kind = .institution)

private theorem Compile.Mandatory.Tells.seeing {met : Compile.Mandatory} {elements : List Element}
    (h : met.Tells elements) (element : Element) :
    (Compile.Mandatory.seeing element.kind met).Tells (elements ++ [element]) := by
  simp only [Tells, List.mem_append, List.mem_singleton, or_and_right, exists_or, exists_eq_left, ← h.1, ← h.2]
  cases element.kind <;> simp [Compile.Mandatory.seeing]

private theorem mandatoryElements_reaches {first start : Session} {ending : Ending} (hp : ending.Proper)
    {tokens : List Token} (hs : start.At ending tokens) (h : Reaches first ⟨.mandatory, [], start⟩) :
    match Compile.mandatoryElements.run start with
    | .ok _ after => ∃ elements rest, Reaches first ⟨.optional, elements, after⟩ ∧ after.At ending rest
    | .error fault after => Breaks first fault after := by
  have hm : Exhausts first ending .mandatory Compile.Mandatory.Tells
      ((Compile.many (Compile.groupElement .mandatory Compile.Mandatory.seeing) {}).run start) :=
    many_exhausts hp (fun _ _ element ht ↦ ht.seeing element) hs h ⟨by simp, by simp⟩
  rw [← funext Compile.mandatoryElement_eq] at hm
  have hc : Compile.current.run start = .ok start.current start := rfl
  rw [Compile.mandatoryElements, run_bind_of_ok hc]
  cases hr : (Compile.many Compile.mandatoryElement {}).run start with
  | error fault after =>
    rw [hr] at hm
    rw [run_bind_of_error hr]
    exact hm
  | ok met after =>
    rw [hr] at hm
    obtain ⟨elements, rest, hreach, hat, hn, ht⟩ := hm
    rw [run_bind_of_ok hr]
    obtain ⟨street, institution⟩ := met
    by_cases hc : Sufficient elements
    · obtain rfl : street = true := ht.1.mpr hc.1
      obtain rfl : institution = true := ht.2.mpr hc.2
      exact ⟨elements, rest, hreach.step (.further hn hc), hat⟩
    · have hi (fault : Fault)
          (hfault : fault.cause = .incompleteCity ∨ fault.cause = .unexpected .mandatoryElement after.current) :
          Breaks first fault after := .incomplete hreach hn hc hfault
      cases street with
      | false =>
        cases institution with
        | false => exact hi _ (.inr rfl)
        | true => exact hi _ (.inl rfl)
      | true =>
        cases institution with
        | false => exact hi _ (.inl rfl)
        | true => exact absurd ⟨ht.1.mp rfl, ht.2.mp rfl⟩ hc

private theorem opening_recognizes : Recognizes Compile.opening
    (Rule [.word .city, .token .string, .mark .openBrace, .symbol .operations]) :=
  (opening_walks (Likeness.itself_twins.declares .city)).recognizes Likeness.itself_reflexive

/-- Compiling ends behind the closing of the script, or breaks with a fault. -/
theorem city_ends {first : Session} {ending : Ending} (hp : ending.Proper) {tokens : List Token}
    (hs : first.At ending tokens) :
    match Compile.city.run first with
    | .ok city after => ∃ elements last, Reaches first ⟨.optional, elements, last⟩ ∧
        Group.optional.element? last.current.kind = none ∧ Compile.closing.run last = .ok () after ∧
        city.scopes = after.scopes
    | .error fault after => Breaks first fault after := by
  rw [Compile.city_parts]
  cases ho : Compile.opening.run first with
  | error fault after =>
    rw [run_bind_of_error ho]
    exact .opening ho
  | ok name start =>
    obtain ⟨_, _, _, _, hat⟩ := (opening_recognizes _).of_ok hp hs rfl ho
    have hm := mandatoryElements_reaches hp hat ⟨name, start, ho, .refl⟩
    rw [run_bind_of_ok ho]
    cases hr : Compile.mandatoryElements.run start with
    | error fault after =>
      rw [hr] at hm
      rw [run_bind_of_error hr]
      exact hm
    | ok _ middle =>
      rw [hr] at hm
      obtain ⟨mandatory, _, hreach, hat⟩ := hm
      have hl : Exhausts first ending .optional (fun _ _ ↦ True)
          ((Compile.many (Compile.groupElement .optional fun _ _ ↦ ()) ()).run middle) :=
        many_exhausts hp (fun _ _ _ _ ↦ True.intro) hat hreach True.intro
      rw [show (Compile.groupElement .optional fun _ _ ↦ ()) = fun _ ↦ Compile.optionalElement from
        funext fun _ ↦ Compile.optionalElement_eq.symm] at hl
      rw [run_bind_of_ok hr]
      cases hr : (Compile.many (fun _ ↦ Compile.optionalElement) ()).run middle with
      | error fault after =>
        rw [hr] at hl
        rw [run_bind_of_error hr]
        exact hl
      | ok _ last =>
        rw [hr] at hl
        obtain ⟨elements, _, hreach, _, hn, _⟩ := hl
        rw [run_bind_of_ok hr]
        cases hr : Compile.closing.run last with
        | error fault after =>
          rw [run_bind_of_error hr]
          exact .closing hreach hn hr
        | ok _ after =>
          rw [run_bind_of_ok hr]
          exact ⟨elements, last, hreach, hn, hr, rfl⟩

end Cityscape
