import Mathlib.Data.List.Forall2
import Cityscape.Proofs.Simulation.Operation

/-!
# Two compilations side by side

Two compilations are alike if their tokens correspond to each other, one by one, and what they have done
corresponds too. Readers keep them so: from sessions that are alike either both succeed or both meet the
same fault, at corresponding tokens, and the sessions are alike afterwards. Variables may have other names in the
other compilation. Readers that look at them do so only if both compilations find the same under names that
correspond; in a branch that is not taken nothing is asked of the variables at all.
-/

namespace Cityscape

open Compile (Operator Comparison)

variable {α β γ δ : Type}

/-- What a compilation has done so far. -/
structure Progress where
  scopes : Scopes
  elements : List Element
  features : List Feature
  journal : Journal

/-- What was done in a session. -/
def Session.progress (session : Session) : Progress :=
  ⟨session.scopes, session.elements, session.features, session.journal⟩

/-- A cause that a script is refused for whatever its variables hold. -/
inductive Cause.Blind : Cause → Prop where
  | invalidNumber (lexeme : String) : Blind (.invalidNumber lexeme)
  | longExpression : Blind .longExpression
  | deepConditional : Blind .deepConditional

/-- The value under this name; only coordinates carry one. -/
def Value.named (name : String) : Value → Value
  | coordinate place => coordinate (place.renamed name)
  | value => value

/-- Coordinates that differ in their names only. -/
def Coordinate.SamePlace (place place' : Coordinate) : Prop :=
  place.x = place'.x ∧ place.y = place'.y

/-- Which names of variables correspond to each other, and which messages; those about corresponding names do. -/
structure Naming where
  name : String → String → Prop
  message : String → String → Prop
  message_refl (text : String) : message text text
  message_name {name₁ name₂ : String} (front back : String) : name name₁ name₂ →
    message (front ++ name₁ ++ back) (front ++ name₂ ++ back)

/-- Names and messages that correspond to themselves only. -/
def Naming.same : Naming where
  name := Eq
  message := Eq
  message_refl _ := rfl
  message_name _ _ h := by rw [h]

/-- Variables that are the same under corresponding names, up to the names that coordinates carry. -/
structure Scopes.Agree (naming : Naming) (scopes scopes' : Scopes) : Prop where
  string {n n' : String} (h : naming.name n n') : scopes.string? n = scopes'.string? n'
  number {n n' : String} (h : naming.name n n') : scopes.number? n = scopes'.number? n'
  coordinate {n n' : String} (h : naming.name n n') :
    Option.Rel Coordinate.SamePlace (scopes.coordinate? n) (scopes'.coordinate? n')

private theorem Coordinate.SamePlace.rel_self (place : Option Coordinate) : Option.Rel SamePlace place place := by
  cases place with
  | none => exact .none
  | some place => exact .some ⟨rfl, rfl⟩

/-- The same variables agree. -/
theorem Scopes.agree_self (scopes : Scopes) : scopes.Agree .same scopes where
  string h := by rw [h]
  number h := by rw [h]
  coordinate h := by
    rw [h]
    exact Coordinate.SamePlace.rel_self _

/--
What two compilations have in common: which tokens correspond to each other, which progress does, and which
lexical faults both may meet. Identifiers correspond as `naming` says, all other lexemes are the same. If `sighted`
holds their variables agree. Their progress stays alike when both make `changes` of their variables that correspond
and, if `noted` holds, when both note messages that do.
-/
structure Likeness where
  token : Token → Token → Prop
  progress : Progress → Progress → Prop
  fault : LexicalFault → Prop
  sighted : Prop
  noted : Prop
  naming : Naming
  changes : (Scopes → Scopes) → (Scopes → Scopes) → Prop
  kind_eq {t t' : Token} : token t t' → t.kind = t'.kind
  lexeme_eq {t t' : Token} : token t t' → t.kind ≠ .identifier → t.lexeme = t'.lexeme
  name_of {t t' : Token} : token t t' → t.kind = .identifier → naming.name t.lexeme t'.lexeme
  agree {p p' : Progress} : sighted → progress p p' → p.scopes.Agree naming p'.scopes
  change {p p' : Progress} {change change' : Scopes → Scopes} : changes change change' → progress p p' →
    progress { p with scopes := change p.scopes } { p' with scopes := change' p'.scopes }
  note {p p' : Progress} {t t' : Token} {message message' : String} : noted → token t t' →
    naming.message message message' → progress p p' →
    progress { p with journal := p.journal.record t.position.line message }
      { p' with journal := p'.journal.record t'.position.line message' }

namespace Likeness

/--
Two compilations at the same tokens, each with a progress of its own that never changes. They may look at their
variables if these agree.
-/
def idle (progress progress' : Progress) (sighted : Prop)
    (agree : sighted → progress.scopes.Agree .same progress'.scopes) :
    Likeness where
  token := Eq
  progress p p' := p = progress ∧ p' = progress'
  fault _ := True
  sighted := sighted
  noted := False
  naming := .same
  changes _ _ := False
  kind_eq h := congrArg Token.kind h
  lexeme_eq h _ := congrArg Token.lexeme h
  name_of h _ := congrArg Token.lexeme h
  agree hs h := by
    obtain ⟨rfl, rfl⟩ := h
    exact agree hs
  change := False.elim
  note := False.elim

/-- Endings that correspond. -/
inductive Endings (alike : Likeness) : Ending → Ending → Prop where
  | finish {t t' : Token} (h : alike.token t t') : alike.Endings (.finish t) (.finish t')
  | fault {fault : LexicalFault} (h : alike.fault fault) : alike.Endings (.fault fault) (.fault fault)

/-- Tokens of this kind that correspond. -/
def Of (alike : Likeness) (kind : Kind) (t t' : Token) : Prop :=
  alike.token t t' ∧ t.kind = kind

/--
Faults that correspond: they have one cause, up to the token found and the names of variables, and corresponding
positions.
-/
inductive Faults (alike : Likeness) : Fault → Fault → Prop where
  | lexical {fault : LexicalFault} (h : alike.fault fault) :
    alike.Faults (.ofLexical fault) (.ofLexical fault)
  | unexpected (expected : Expected) {t t' : Token} (h : alike.token t t') :
    alike.Faults ⟨.unexpected expected t, t.position⟩ ⟨.unexpected expected t', t'.position⟩
  | refused {cause : Cause} (hc : cause.Blind) {t t' : Token} (h : alike.token t t') :
    alike.Faults ⟨cause, t.position⟩ ⟨cause, t'.position⟩
  | incomplete (hs : alike.sighted) {t t' : Token} (h : alike.token t t') :
    alike.Faults ⟨.incompleteCity, t.position⟩ ⟨.incompleteCity, t'.position⟩
  | undefined (sort : VariableSort) (hs : alike.sighted) {t t' : Token} (h : alike.token t t')
    (hn : alike.naming.name t.lexeme t'.lexeme) :
    alike.Faults ⟨.undefined sort t.lexeme, t.position⟩ ⟨.undefined sort t'.lexeme, t'.position⟩

/-- Sessions that correspond. -/
structure Sessions (alike : Likeness) (s s' : Session) : Prop where
  current : alike.token s.current s'.current
  ahead : List.Forall₂ alike.token s.ahead s'.ahead
  ending : alike.Endings s.ending s'.ending
  progress : alike.progress s.progress s'.progress

/-- Outcomes that correspond: results as `agree` says, or corresponding faults. -/
inductive Outcomes (alike : Likeness) (agree : α → β → Prop) :
    EStateM.Result Fault Session α → EStateM.Result Fault Session β → Prop where
  | ok {a : α} {b : β} {s s' : Session} (h : agree a b) (hs : alike.Sessions s s') :
    alike.Outcomes agree (.ok a s) (.ok b s')
  | error {f f' : Fault} {s s' : Session} (h : alike.Faults f f') (hs : alike.Sessions s s') :
    alike.Outcomes agree (.error f s) (.error f' s')

/-- Corresponding string literals hold the same. -/
theorem unquoted_eq (alike : Likeness) {t t' : Token} (h : alike.Of .string t t') : t.unquoted = t'.unquoted := by
  rw [Token.unquoted, Token.unquoted, alike.lexeme_eq h.1 (by simp [h.2])]

/-- An ending corresponds to itself if every token does and every lexical fault may be met. -/
theorem Endings.refl {alike : Likeness} (h : ∀ t, alike.token t t) (hf : ∀ fault, alike.fault fault)
    (ending : Ending) : alike.Endings ending ending := by
  cases ending with
  | finish last => exact .finish (h last)
  | fault fault => exact .fault (hf fault)

/-- At a level both compilations may declare variables, which they then have in common. -/
structure Declares (alike : Likeness) (level : Level) : Prop where
  sighted : alike.sighted
  noted : alike.noted
  changes {n n' : String} (h : alike.naming.name n n') (value : Value) :
    alike.changes (·.declare level n (value.named n)) (·.declare level n' (value.named n'))

section

variable {alike : Likeness} {agree agree' : α → β → Prop}
  {outcome : EStateM.Result Fault Session α} {outcome' : EStateM.Result Fault Session β}

private theorem Outcomes.mono (h : alike.Outcomes agree outcome outcome') (ha : ∀ a b, agree a b → agree' a b) :
    alike.Outcomes agree' outcome outcome' := by
  cases h with
  | ok hab hs => exact .ok (ha _ _ hab) hs
  | error hf hs => exact .error hf hs

/-- Where one succeeds the other does. -/
theorem Outcomes.of_ok {a : α} {s : Session} (h : alike.Outcomes agree (.ok a s) outcome') :
    ∃ b s', outcome' = .ok b s' ∧ agree a b ∧ alike.Sessions s s' := by
  cases h with
  | ok hab hs => exact ⟨_, _, rfl, hab, hs⟩

/-- Where one fails the other does. -/
theorem Outcomes.of_error {f : Fault} {s : Session} (h : alike.Outcomes agree (.error f s) outcome') :
    ∃ f' s', outcome' = .error f' s' ∧ alike.Faults f f' ∧ alike.Sessions s s' := by
  cases h with
  | error hf hs => exact ⟨_, _, rfl, hf, hs⟩

end

end Likeness

/-- From sessions that are alike both readers succeed, with results as `agree` says, or both fail alike. -/
def Alike (alike : Likeness) (agree : α → β → Prop) (read : Compile α) (read' : Compile β) : Prop :=
  ∀ s s', alike.Sessions s s' → alike.Outcomes agree (read.run s) (read'.run s')

/-- As `Alike`, from sessions that look at tokens of this kind. -/
def AlikeAt (alike : Likeness) (kind : Kind) (agree : α → β → Prop) (read : Compile α) (read' : Compile β) : Prop :=
  ∀ s s', alike.Sessions s s' → s.current.kind = kind → alike.Outcomes agree (read.run s) (read'.run s')

variable {alike : Likeness}

/-- Readers that do so at every token. -/
theorem Alike.at {agree : α → β → Prop} {read : Compile α} {read' : Compile β}
    (h : Alike alike agree read read') (kind : Kind) : AlikeAt alike kind agree read read' :=
  fun s s' hs _ ↦ h s s' hs

namespace AlikeAt

variable {agree : α → β → Prop} {agree' : γ → δ → Prop} {kind : Kind}

/-- Readers in sequence. -/
theorem bind {read : Compile α} {read' : Compile β} {next : α → Compile γ} {next' : β → Compile δ}
    (h : AlikeAt alike kind agree read read') (h' : ∀ a b, agree a b → Alike alike agree' (next a) (next' b)) :
    AlikeAt alike kind agree' (read >>= next) (read' >>= next') := by
  intro s s' hs hk
  have hr := h s s' hs hk
  simp only [EStateM.run, Bind.bind, EStateM.bind] at hr ⊢
  generalize read s = outcome, read' s' = outcome' at hr
  cases hr with
  | ok hab ht => exact h' _ _ hab _ _ ht
  | error hf ht => exact .error hf ht

/-- Going past a token. -/
theorem advance : AlikeAt alike kind (alike.Of kind) Compile.advance Compile.advance := by
  rintro ⟨current, ahead, ending, _, _, _⟩ ⟨current', ahead', ending', _, _, _⟩ ⟨hc, ha, he, hp⟩ hk
  dsimp only at hc ha he hk
  cases ha with
  | cons hn ha => exact .ok ⟨hc, hk⟩ ⟨hn, ha, he, hp⟩
  | nil =>
    cases he with
    | finish hl => exact .ok ⟨hc, hk⟩ ⟨hl, .nil, .finish hl, hp⟩
    | fault hf => exact .error (.lexical hf) ⟨hc, .nil, .fault hf, hp⟩

/-- Looking at the kind of the token ahead. -/
theorem peek {next : Kind → Compile γ} {next' : Kind → Compile δ}
    (h : AlikeAt alike kind agree' (next kind) (next' kind)) :
    AlikeAt alike kind agree' (Compile.peek >>= next) (Compile.peek >>= next') := by
  rintro s s' hs rfl
  change alike.Outcomes agree' ((next s.current.kind).run s) ((next' s'.current.kind).run s')
  rw [← alike.kind_eq hs.current]
  exact h s s' hs rfl

end AlikeAt

namespace Alike

variable {agree : α → β → Prop} {agree' : γ → δ → Prop}

/-- Readers in sequence. -/
theorem bind {read : Compile α} {read' : Compile β} {next : α → Compile γ} {next' : β → Compile δ}
    (h : Alike alike agree read read') (h' : ∀ a b, agree a b → Alike alike agree' (next a) (next' b)) :
    Alike alike agree' (read >>= next) (read' >>= next') :=
  fun s s' hs ↦ (h.at _).bind h' s s' hs rfl

/-- Nothing is read. -/
theorem pure {a : α} {b : β} (h : agree a b) : Alike alike agree (Pure.pure a) (Pure.pure b) :=
  fun _ _ hs ↦ .ok h hs

/-- Results may be changed. -/
theorem map {read : Compile α} {read' : Compile β} {f : α → γ} {g : β → δ}
    (h : Alike alike agree read read') (hf : ∀ a b, agree a b → agree' (f a) (g b)) :
    Alike alike agree' (f <$> read) (g <$> read') := by
  rw [map_eq_pure_bind, map_eq_pure_bind]
  exact h.bind fun a b hab ↦ .pure (hf a b hab)

/-- Results that nobody looks at. -/
theorem ignored {read : Compile α} {read' : Compile β} (h : Alike alike agree read read') :
    Alike alike Ignored read read' :=
  fun s s' hs ↦ (h s s' hs).mono fun _ _ _ ↦ True.intro

/-- A script refused at corresponding tokens. -/
theorem refuse {cause : Cause} (hc : cause.Blind) {t t' : Token} (h : alike.token t t') :
    Alike alike agree (Compile.refuse cause t) (Compile.refuse cause t') :=
  fun _ _ hs ↦ .error (.refused hc h) hs

/-- A token that is not allowed. -/
theorem unexpected {expected : Expected} :
    Alike alike agree (Compile.unexpected expected) (Compile.unexpected expected) :=
  fun _ _ hs ↦ .error (.unexpected expected hs.current) hs

private theorem peek {next : Kind → Compile γ} {next' : Kind → Compile δ}
    (h : ∀ kind, AlikeAt alike kind agree' (next kind) (next' kind)) :
    Alike alike agree' (Compile.peek >>= next) (Compile.peek >>= next') :=
  fun s s' hs ↦ (h s.current.kind).peek s s' hs rfl

/-- Going past a token of a kind. -/
theorem expect (kind : Kind) : Alike alike (alike.Of kind) (Compile.expect kind) (Compile.expect kind) := by
  apply peek
  intro found
  split_ifs with h
  · subst h
    exact .advance
  · exact unexpected.at found

/-- Going past a mark. -/
theorem mark (mark : Mark) : Alike alike Ignored (Compile.expectMark mark) (Compile.expectMark mark) :=
  (expect _).bind fun _ _ _ ↦ .pure True.intro

/-- Going past a string literal. -/
theorem string : Alike alike Eq Compile.expectString Compile.expectString := by
  apply (expect _).bind
  exact fun _ _ ht ↦ pure (alike.unquoted_eq ht)

/-- Corresponding notes about corresponding tokens. -/
theorem note (hn : alike.noted) {t t' : Token} (ht : alike.token t t') {message message' : String}
    (hm : alike.naming.message message message') :
    Alike alike Ignored (Compile.note t.position.line message)
      (Compile.note t'.position.line message') :=
  fun _ _ h ↦ .ok True.intro ⟨h.current, h.ahead, h.ending, alike.note hn ht hm h.progress⟩

/-- Corresponding changes of variables. -/
theorem modifyScopes {change change' : Scopes → Scopes} (hc : alike.changes change change') :
    Alike alike Ignored (Compile.modifyScopes change) (Compile.modifyScopes change') :=
  fun _ _ h ↦ .ok True.intro ⟨h.current, h.ahead, h.ending, alike.change hc h.progress⟩

private theorem iterate {σ : Type} {step step' : σ → Compile (Option σ)}
    (h : ∀ state, Alike alike Eq (step state) (step' state)) (limit : Nat) (state : σ) :
    Alike alike Eq (Compile.iterate step limit state) (Compile.iterate step' limit state) := by
  induction limit generalizing state with
  | zero => exact .pure rfl
  | succ limit ih =>
    rw [Compile.iterate, Compile.iterate]
    apply (h state).bind
    rintro next _ rfl
    cases next with
    | none => exact .pure rfl
    | some next => exact ih next

/-- A repetition of steps for as long as tokens are left. -/
theorem many {σ : Type} {step step' : σ → Compile (Option σ)}
    (h : ∀ state, Alike alike Eq (step state) (step' state)) (state : σ) :
    Alike alike Eq (Compile.many step state) (Compile.many step' state) := by
  intro s s' hs
  have hi := iterate h (s.ahead.length + 2) state s s' hs
  change alike.Outcomes Eq ((Compile.iterate step (s.ahead.length + 2) state).run s)
    ((Compile.iterate step' (s'.ahead.length + 2) state).run s')
  rw [← hs.ahead.length_eq]
  exact hi

end Alike

end Cityscape
