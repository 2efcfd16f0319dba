import Cityscape.Proofs.Watch

/-!
# Branches that are not taken

Operations in a branch that is not taken are only recognized. Two compilations that look at the same tokens
read them alike whatever each of them has done before, and neither does anything: this is a likeness under
which nothing is said about variables and all progress stays as it is.
-/

namespace Cityscape

namespace Likeness

variable {progress progress' : Progress}

private theorem eq_of_idle_faults {fault fault' : Fault}
    (h : (idle progress progress' False False.elim).Faults fault fault') :
    fault = fault' ∧ (fault.cause.stage = .semantic →
      fault.cause = .longExpression ∨ fault.cause = .deepConditional) := by
  cases h with
  | lexical => exact ⟨rfl, nofun⟩
  | unexpected expected ht =>
    obtain rfl : _ = _ := ht
    exact ⟨rfl, nofun⟩
  | refused hc ht =>
    obtain rfl : _ = _ := ht
    refine ⟨rfl, fun hs ↦ ?_⟩
    cases hc with
    | invalidNumber lexeme => cases hs
    | longExpression => exact .inl rfl
    | deepConditional => exact .inr rfl
  | incomplete hs | undefined _ hs => exact hs.elim

private theorem eq_of_idle_sessions {session session' : Session}
    (h : (idle progress progress' False False.elim).Sessions session session') :
    session' = { session with
      scopes := progress'.scopes, elements := progress'.elements, features := progress'.features,
      journal := progress'.journal } := by
  obtain ⟨current, ahead, ending, scopes, elements, features, journal⟩ := session
  obtain ⟨current', ahead', ending', scopes', elements', features', journal'⟩ := session'
  obtain ⟨hc, ha, he, _, rfl⟩ := h
  obtain rfl : current = current' := hc
  obtain rfl : ahead = ahead' := List.forall₂_eq_eq_eq ▸ ha
  have he : ending = ending' := by
    cases he with
    | finish ht => exact congrArg Ending.finish ht
    | fault => rfl
  rw [he]
  rfl

private theorem idle_sessions (session : Session) (scopes : Scopes) (elements : List Element)
    (features : List Feature) (journal : Journal) :
    (idle session.progress ⟨scopes, elements, features, journal⟩ False False.elim).Sessions session
      { session with scopes, elements, features, journal } where
  current := rfl
  ahead := List.forall₂_same.mpr fun _ _ ↦ rfl
  ending := .refl (fun _ ↦ rfl) (fun _ ↦ True.intro) session.ending
  progress := ⟨rfl, rfl⟩

end Likeness

/-- A result together with the state that it leaves. -/
def leaving {σ α : Type} (state : σ) : Except Fault α → EStateM.Result Fault σ α
  | .ok a => .ok a state
  | .error fault => .error fault state

private theorem Watches.exists_leaving {inside depth blocks blocks' : Nat} {watched : Watched Unit}
    {read : Compile Unit}
    (h : Watches inside depth blocks blocks' watched read) {session after : Session} {result : Except Fault Unit}
    (hr : read.run session = leaving after result) (events : List Event) :
    ∃ more, watched.run (session, ⟨depth, events⟩) = leaving (after, ⟨depth, events ++ more⟩) result := by
  obtain ⟨more, hm⟩ := h session events
  rw [hr] at hm
  cases result with
  | ok _ => exact ⟨more, hm.2⟩
  | error _ => exact ⟨more, hm.2⟩

/--
Operations in a branch that is not taken come to the same whatever variables, elements, features and journal there
are, and these stay as they are.
-/
private theorem exists_operations_idle (level : Level) (depth : Nat) (session : Session) :
    ∃ (result : Except Fault Unit) (after : Session),
      (∀ fault, result = .error fault → fault.cause.stage = .semantic →
        fault.cause = .longExpression ∨ fault.cause = .deepConditional) ∧
      ∀ (scopes : Scopes) (elements : List Element) (features : List Feature) (journal : Journal),
        (Compile.operations level depth false).run { session with scopes, elements, features, journal } =
          leaving { after with scopes, elements, features, journal } result := by
  have hall (scopes : Scopes) (elements : List Element) (features : List Feature) (journal : Journal) :
      (Likeness.idle session.progress ⟨scopes, elements, features, journal⟩ False False.elim).Outcomes Ignored
        ((Compile.operations level depth false).run session)
        ((Compile.operations level depth false).run { session with scopes, elements, features, journal }) :=
    (operations_walks depth Bool.false_ne_true.elim).keeps _ _ (Likeness.idle_sessions session _ _ _ _)
  generalize (Compile.operations level depth false).run session = outcome at hall
  cases outcome with
  | ok _ after =>
    refine ⟨.ok (), after, ?_, fun scopes elements features journal ↦ ?_⟩
    · rintro _ ⟨⟩
    · obtain ⟨_, _, he, _, hs⟩ := (hall scopes elements features journal).of_ok
      rw [he, Likeness.eq_of_idle_sessions hs]
      rfl
  | error fault after =>
    refine ⟨.error fault, after, ?_, fun scopes elements features journal ↦ ?_⟩
    · rintro _ ⟨⟩
      obtain ⟨_, _, _, hf, _⟩ := (hall session.scopes session.elements session.features session.journal).of_error
      exact (Likeness.eq_of_idle_faults hf).2
    · obtain ⟨_, _, he, hf, hs⟩ := (hall scopes elements features journal).of_error
      rw [he, Likeness.eq_of_idle_sessions hs, ← (Likeness.eq_of_idle_faults hf).1]
      rfl

/--
Reading operations in a branch that is not taken comes to a result and to a place among the tokens that
are the same whatever variables, elements, features and journal the session has, and leaves all of these as they are,
also if the operations are refused. For what they mean they are refused only because an expression is too long
or a conditional too deep. Watched with the counter that bounds the nesting, they come to the same, and the
counter is left where it stood, with a result and with a fault.
-/
theorem operations_untaken (level : Level) (depth : Nat) (session : Session) :
    ∃ (result : Except Fault Unit) (after : Session),
      (∀ fault, result = .error fault → fault.cause.stage = .semantic →
        fault.cause = .longExpression ∨ fault.cause = .deepConditional) ∧
      ∀ (scopes : Scopes) (elements : List Element) (features : List Feature) (journal : Journal),
        (Compile.operations level depth false).run { session with scopes, elements, features, journal } =
          leaving { after with scopes, elements, features, journal } result ∧
        ∀ (beyond : Level → Bool → Watched Unit) (bound counter : Nat) (events : List Event),
          depth + counter = deepestNesting → deepestNesting < bound + counter → ∃ more,
            (Watched.operations beyond level bound false).run
                ({ session with scopes, elements, features, journal }, ⟨counter, events⟩) =
              leaving ({ after with scopes, elements, features, journal }, ⟨counter, events ++ more⟩) result := by
  obtain ⟨result, after, hf, hrun⟩ := exists_operations_idle level depth session
  refine ⟨result, after, hf, fun scopes elements features journal ↦ ⟨hrun scopes elements features journal, ?_⟩⟩
  intro beyond bound counter events hd hb
  obtain rfl : depth = deepestNesting - counter := by omega
  exact (operations_watches (by omega) hb).exists_leaving (hrun scopes elements features journal) events

/-- A conditional inside of another one, as they stand in a script. -/
def nestedTokens : List Token :=
  match tokenize "if(1<2)\x7bif(2<1)\x7b\x7d\x7d".toList with
  | .ok tokens => tokens
  | .error _ => []

/-- A session that looks at these tokens. -/
def nestedSession : Session where
  current := nestedTokens.headD ⟨.finish, "", .first⟩
  ahead := nestedTokens.tail
  ending := .finish ⟨.finish, "", .first⟩
  journal := .empty 0

/-- Why a run was refused, if it was. -/
def cause? {σ α : Type} : EStateM.Result Fault σ α → Option Cause
  | .ok _ _ => none
  | .error fault _ => some fault.cause

/-- With room for one more conditional the inner one is too deep, and the counter is left as it was. -/
theorem operations_untaken_nestedSession :
    255 < deepestNesting ∧ ∃ fault after events,
      (Watched.operations (fun _ _ ↦ pure ()) .city 2 false).run (nestedSession, ⟨255, []⟩) =
        .error fault (after, ⟨255, events⟩) ∧ fault.cause = .deepConditional := by
  obtain ⟨result, after, -, h⟩ := operations_untaken .city 1 nestedSession
  obtain ⟨hr, hw⟩ := h .empty [] [] (.empty 0)
  obtain ⟨more, hm⟩ := hw (fun _ _ ↦ pure ()) 2 255 [] rfl (by decide)
  have hc : cause? ((Compile.operations .city 1 false).run nestedSession) = some .deepConditional := by
    decide +kernel
  rw [show (Compile.operations .city 1 false).run nestedSession = _ from hr] at hc
  cases result with
  | ok _ => cases hc
  | error fault => exact ⟨by decide, fault, _, more, hm, Option.some_inj.mp hc⟩

end Cityscape
