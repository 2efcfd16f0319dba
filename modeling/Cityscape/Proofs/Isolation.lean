import Cityscape.Proofs.Drawing

/-!
# Variables of cities and of elements

Variables of an element are seen while the element is read, and nowhere else. Before its first element a script
declares variables of the city only; from then on those of the city stay as they are, and those of an element
are forgotten when it begins and when it ends. So an element starts from what the city declared, and of all
variables only these are left in the end. Coordinates are stored under the names that they carry.
-/

namespace Cityscape

open Syntax (Group)

variable {α : Type}

/-- Every coordinate of the level is stored under the name that it carries. -/
def Scope.Named (scope : Scope) : Prop :=
  ∀ entry ∈ scope.coordinates, entry.2.name = entry.1

/-- Every coordinate of both levels is stored under the name that it carries. -/
def Scopes.Named (scopes : Scopes) : Prop :=
  scopes.city.Named ∧ scopes.element.Named

/-- There are no coordinates. -/
theorem Scope.named_empty : Scope.empty.Named :=
  List.forall_mem_nil _

private theorem Scope.Named.declare {scope : Scope} (h : scope.Named) (name : String) (value : Value) :
    (scope.declare name (value.named name)).Named := by
  cases value with
  | string | int | double => exact h
  | coordinate place =>
    refine List.forall_mem_cons.mpr ⟨rfl, fun entry he ↦ ?_⟩
    exact h entry (List.mem_of_mem_filter he)

private theorem Scopes.Named.declare {scopes : Scopes} (h : scopes.Named) (level : Level) (name : String)
    (value : Value) : (scopes.declare level name (value.named name)).Named := by
  cases level with
  | city => exact ⟨h.1.declare name value, h.2⟩
  | element => exact ⟨h.1, h.2.declare name value⟩

private theorem opening_keeps :
    Keeps (fun scopes _ _ ↦ scopes.element = .empty ∧ scopes.Named) Compile.opening := by
  refine keeps_of_alike (opening_walks (Likeness.kept_declares fun name value scopes _ _ h ↦ ?_)).keeps.ignored
  exact ⟨h.1, h.2.declare .city name value⟩

private theorem ElementKind.whole_keeps (kind : ElementKind) (settled : Scope) :
    Keeps (fun scopes _ _ ↦ scopes.city = settled ∧ scopes.Named) kind.whole := by
  refine keeps_of_alike (whole_walks (Likeness.kept_declares fun name value scopes _ _ h ↦ ?_)
    ⟨rfl, fun scopes _ _ h ↦ ?_⟩ kind).keeps.ignored
  · exact ⟨h.1, h.2.declare .element name value⟩
  · exact ⟨h.1, h.2.1, Scope.named_empty⟩

private theorem closing_keeps (holds : Scopes → List Element → List Feature → Prop) : Keeps holds Compile.closing :=
  keeps_of_alike closing_alike

/-- An element up to its operations: its keyword, its name and its brace. -/
def ElementKind.heading (kind : ElementKind) : Compile (Token × String) := do
  let keyword ← Compile.expectWord kind.word
  let name ← Compile.expectString
  Compile.expectMark .openBrace
  Compile.modifyScopes Scopes.clearElement
  return (keyword, name)

/-- An element begins with its heading. -/
theorem ElementKind.whole_eq (kind : ElementKind) : kind.whole = kind.heading >>= fun (keyword, name) ↦ do
    Compile.operations .element deepestNesting true
    let element ← kind.content name
    Compile.expectMark .closeBrace
    return (element, keyword) := by
  simp only [whole, heading, bind_assoc, pure_bind]

private theorem ElementKind.heading_keeps (kind : ElementKind) (settled : Scope) :
    Keeps (fun scopes _ _ ↦ scopes.city = settled ∧ scopes.Named) kind.heading := by
  apply keeps_of_alike
  apply (Alike.expect _).bind
  intro _ _ _
  apply Alike.string.bind
  intro _ _ _
  apply (Alike.mark _).bind
  intro _ _ _
  refine Alike.bind (Alike.modifyScopes ?_) fun _ _ _ ↦ .pure True.intro
  exact ⟨rfl, fun _ _ _ h ↦ ⟨h.1, h.2.1, Scope.named_empty⟩⟩

private theorem ElementKind.element_of_heading {kind : ElementKind} {session after : Session} {found : Token × String}
    (h : kind.heading.run session = .ok found after) : after.scopes.element = .empty := by
  obtain ⟨_, _, _, h⟩ := exists_of_run_bind h
  obtain ⟨_, _, _, h⟩ := exists_of_run_bind h
  obtain ⟨_, _, _, h⟩ := exists_of_run_bind h
  cases h
  rfl

private theorem ElementKind.scopes_of_read {kind : ElementKind} {session closed after : Session}
    {found : Element × Token} (hw : kind.whole.run session = .ok found closed)
    (hr : kind.read.run session = .ok () after) : after.scopes = closed.scopes.clearElement := by
  rw [read_eq, run_bind_of_ok hw] at hr
  cases hr
  rfl

private theorem Milestone.Step.scopes_eq {milestone next : Milestone} (h : Step milestone next) {settled : Scope}
    (hn : settled.Named) (hs : milestone.session.scopes = ⟨settled, .empty⟩) :
    next.session.scopes = ⟨settled, .empty⟩ := by
  cases h with
  | @element _ _ before closed after kind _ _ _ hw hr =>
    have hk := kind.whole_keeps settled before (by rw [hs]; exact ⟨rfl, hn, Scope.named_empty⟩)
    rw [Compile.left_of_ok hw] at hk
    rw [ElementKind.scopes_of_read hw hr, Scopes.clearElement, hk.1]
  | further => exact hs

private theorem Reaches.scopes_eq {first : Session} {milestone : Milestone} (h : Reaches first milestone)
    (hf : first.scopes = .empty) : ∃ name start, Compile.opening.run first = .ok name start ∧
      start.scopes.city.Named ∧ milestone.session.scopes = ⟨start.scopes.city, .empty⟩ := by
  obtain ⟨name, start, ho, hr⟩ := h
  have hk := opening_keeps first (by rw [hf]; exact ⟨rfl, Scope.named_empty, Scope.named_empty⟩)
  rw [Compile.left_of_ok ho] at hk
  obtain ⟨he, hn⟩ := hk
  refine ⟨name, start, ho, hn.1, ?_⟩
  induction hr with
  | refl => rw [← he]
  | tail _ hs ih => exact hs.scopes_eq hn.1 ih

/-- The session as it would be if the source broke off behind some of the tokens ahead. -/
def Session.brokenOff (session : Session) (count : Nat) (fault : LexicalFault) : Session :=
  { session with ahead := session.ahead.take count, ending := .fault fault }

/--
The variables that there are while something is read. A reader that asks for a token behind the place where
the source breaks off stops there, and leaves what it has done until it asked. So these are the variables at
every moment in which a token is asked for, and in the end.
-/
inductive Passes (read : Compile α) (session : Session) : Scopes → Prop where
  | asking (count : Nat) (fault : LexicalFault) :
    Passes read session (read.left (session.brokenOff count fault)).scopes
  | ending : Passes read session (read.left session).scopes

private theorem Keeps.passes {holds : Scopes → Prop} {read : Compile α} (h : Keeps (fun scopes _ _ ↦ holds scopes) read)
    {session : Session} (hs : holds session.scopes) {scopes : Scopes} (hp : Passes read session scopes) :
    holds scopes := by
  cases hp with
  | asking count fault => exact h (session.brokenOff count fault) hs
  | ending => exact h session hs

/-- Where in a script a compilation can be. -/
inductive Stretch where
  /-- Before the first element, where the city makes its declarations. -/
  | opening
  /-- Before an element, or behind the last one. -/
  | between
  /-- Where the operations of an element begin. -/
  | beginning
  /-- In an element, from its keyword to its closing brace. -/
  | element
  deriving DecidableEq, Repr

/-- The moments of a compilation: where it is, and which variables there are. -/
inductive Moment (first : Session) : Stretch → Scopes → Prop where
  | opening {scopes : Scopes} (h : Passes Compile.opening first scopes) : Moment first .opening scopes
  | between {milestone : Milestone} (h : Reaches first milestone) :
    Moment first .between milestone.session.scopes
  | beginning {milestone : Milestone} {kind : ElementKind} {found : Token × String} {after : Session}
    (h : Reaches first milestone) (hk : milestone.group.element? milestone.session.current.kind = some kind)
    (hr : kind.heading.run milestone.session = .ok found after) : Moment first .beginning after.scopes
  | element {milestone : Milestone} {kind : ElementKind} {scopes : Scopes} (h : Reaches first milestone)
    (hk : milestone.group.element? milestone.session.current.kind = some kind)
    (hp : Passes kind.whole milestone.session scopes) : Moment first .element scopes
  | closing {elements : List Element} {last : Session} {scopes : Scopes}
    (h : Reaches first ⟨.optional, elements, last⟩)
    (hn : Group.optional.element? last.current.kind = none) (hp : Passes Compile.closing last scopes) :
    Moment first .between scopes

private theorem Breaks.moment {first after : Session} {fault : Fault} (h : Breaks first fault after) :
    ∃ stretch, Moment first stretch after.scopes := by
  cases h with
  | opening h =>
    rw [← Compile.left_of_error h]
    exact ⟨.opening, .opening .ending⟩
  | element h hk hw =>
    rw [← Compile.left_of_error hw]
    exact ⟨.element, .element h hk .ending⟩
  | incomplete h => exact ⟨.between, .between h⟩
  | closing h hn hr =>
    rw [← Compile.left_of_error hr]
    exact ⟨.between, .closing h hn .ending⟩

namespace Moment

variable {first : Session} {stretch : Stretch} {scopes : Scopes}

private theorem opening_isolated (h : Moment first .opening scopes) (hf : first.scopes = .empty) :
    scopes.element = .empty ∧ scopes.Named := by
  cases h with
  | opening hp =>
    refine opening_keeps.passes ?_ hp
    rw [hf]
    exact ⟨rfl, Scope.named_empty, Scope.named_empty⟩

private theorem later_isolated (h : Moment first stretch scopes) (hs : stretch ≠ .opening)
    (hf : first.scopes = .empty) : ∃ name start, Compile.opening.run first = .ok name start ∧
      scopes.city = start.scopes.city ∧ scopes.Named ∧ (stretch ≠ .element → scopes.element = .empty) := by
  cases h with
  | opening => exact absurd rfl hs
  | between h =>
    obtain ⟨name, start, ho, hn, he⟩ := h.scopes_eq hf
    rw [he]
    exact ⟨name, start, ho, rfl, ⟨hn, Scope.named_empty⟩, fun _ ↦ rfl⟩
  | @beginning milestone kind _ _ h hk hr =>
    obtain ⟨name, start, ho, hn, he⟩ := h.scopes_eq hf
    have hkeep := kind.heading_keeps start.scopes.city milestone.session
      (by rw [he]; exact ⟨rfl, hn, Scope.named_empty⟩)
    rw [Compile.left_of_ok hr] at hkeep
    exact ⟨name, start, ho, hkeep.1, hkeep.2, fun _ ↦ ElementKind.element_of_heading hr⟩
  | @element _ kind _ h hk hp =>
    obtain ⟨name, start, ho, hn, he⟩ := h.scopes_eq hf
    obtain ⟨hc, hnamed⟩ := (kind.whole_keeps start.scopes.city).passes
      (by rw [he]; exact ⟨rfl, hn, Scope.named_empty⟩) hp
    exact ⟨name, start, ho, hc, hnamed, fun h ↦ absurd rfl h⟩
  | closing h _ hp =>
    obtain ⟨name, start, ho, hn, he⟩ := h.scopes_eq hf
    have hkeep := (closing_keeps fun scopes _ _ ↦ scopes = ⟨start.scopes.city, .empty⟩).passes he hp
    rw [hkeep]
    exact ⟨name, start, ho, rfl, ⟨hn, Scope.named_empty⟩, fun _ ↦ rfl⟩

end Moment

/--
Whatever a script declares, at every moment of its compilation coordinates are stored under the names that they
carry, and variables of elements are there in elements only, not yet where the operations of an element begin.
From the first element on the variables of the city never change. A script is refused at one of these moments,
and one that is accepted ends with the variables of the city as its opening left them.
-/
theorem compile_isolates {source : Source} {capacity : Nat} {first : Session}
    (hb : (scan source).begins (.empty capacity) = .ok first) :
    (∀ stretch scopes, Moment first stretch scopes →
      scopes.Named ∧ (stretch ≠ .element → scopes.element = .empty)) ∧
    (∀ name start, Compile.opening.run first = .ok name start →
      ∀ stretch scopes, Moment first stretch scopes → stretch ≠ .opening →
        scopes.city = start.scopes.city) ∧
    (∀ fault, (compile capacity source).result = .error fault →
      ∃ stretch after, Compile.city.run first = .error fault after ∧ Moment first stretch after.scopes) ∧
    ∀ city, (compile capacity source).result = .ok city →
      ∃ name start, Compile.opening.run first = .ok name start ∧
        city.scopes = ⟨start.scopes.city, .empty⟩ := by
  have hp : (scan source).ending.Proper := fun _ he ↦ scanFrom_ending he
  obtain ⟨hat, _, hf⟩ := Scan.at_of_begins hb
  have hends := city_ends hp hat
  refine ⟨fun stretch scopes h ↦ ?_, fun name start ho stretch scopes h hs ↦ ?_, fun fault h ↦ ?_,
    fun city h ↦ ?_⟩
  · by_cases hs : stretch = .opening
    · subst hs
      obtain ⟨he, hn⟩ := h.opening_isolated hf
      exact ⟨hn, fun _ ↦ he⟩
    · obtain ⟨_, _, _, _, hn, he⟩ := h.later_isolated hs hf
      exact ⟨hn, he⟩
  · obtain ⟨_, _, ho', hc, _⟩ := h.later_isolated hs hf
    cases ho.symm.trans ho'
    exact hc
  · rw [compile, Scan.compile_of_begins hb] at h
    split at h
    · cases h
    · next after hr =>
      cases h
      rw [hr] at hends
      obtain ⟨stretch, hm⟩ := Breaks.moment hends
      exact ⟨stretch, after, hr, hm⟩
  · rw [compile, Scan.compile_of_begins hb] at h
    split at h
    · next after hr =>
      cases h
      rw [hr] at hends
      obtain ⟨elements, last, hreach, hn, hclose, hscopes⟩ := hends
      obtain ⟨name, start, ho, _, he⟩ := hreach.scopes_eq hf
      refine ⟨name, start, ho, ?_⟩
      rw [hscopes, ← Compile.left_of_ok hclose]
      exact closing_keeps (fun scopes _ _ ↦ scopes = ⟨start.scopes.city, .empty⟩) last he
    · cases h

/-- A script whose street hides a variable of the city and declares one of its own. -/
def hidingScript : Source :=
  ("city \"A\"\x7bint a=1 coordinate p=(a,2)street \"S\"\x7bint a=5 double b=a bend(p,p,b)line(p,p)\x7d"
    ++ "institution \"I\"\x7baddress=\"B\"events=a block(p,p,p,p)\x7d\x7d").toList

/-- Nothing is left of the variables of the street. -/
theorem compile_isolates_hidingScript :
    ∃ first city name start, (scan hidingScript).begins (.empty 4) = .ok first ∧
      (compile 4 hidingScript).result = .ok city ∧ Compile.opening.run first = .ok name start ∧
      city.scopes = ⟨start.scopes.city, .empty⟩ := by
  have h : (((scan hidingScript).begins (.empty 4)).isOk && (compile 4 hidingScript).result.isOk) = true := by
    decide +kernel
  obtain ⟨hb, hr⟩ := Bool.and_eq_true_iff.mp h
  cases hfirst : (scan hidingScript).begins (.empty 4) with
  | error fault =>
    rw [hfirst] at hb
    cases hb
  | ok first =>
    cases hcity : (compile 4 hidingScript).result with
    | error fault =>
      rw [hcity] at hr
      cases hr
    | ok city =>
      obtain ⟨name, start, ho, hs⟩ := (compile_isolates hfirst).2.2.2 city hcity
      exact ⟨first, city, name, start, rfl, rfl, ho, hs⟩

end Cityscape
