import Cityscape.Proofs.Traversal.City

/-!
# What compiling goes past

A script is read up to the brace that closes the city as its symbol says, whatever the variables hold and whichever
branches are taken, and then the end of the source is met. So scripts that compile are acceptable, and scripts that
are refused are the beginning of an acceptable one up to the token that is refused.
-/

namespace Cityscape

open Grammar (Derives)

private theorem upToFinish_recognizes : Recognizes Compile.upToFinish (Rule [.symbol .city]) :=
  (upToFinish_walks Likeness.itself_twins).recognizes Likeness.itself_reflexive

private theorem Compile.run_expect (kind : Kind) (session : Session) : (Compile.expect kind).run session =
    (if session.current.kind = kind then Compile.advance else Compile.unexpected (.kind kind)).run session :=
  rfl

private theorem Compile.kind_of_expect {kind : Kind} {token : Token} {session after : Session}
    (h : (Compile.expect kind).run session = .ok token after) : session.current.kind = kind := by
  rw [run_expect] at h
  split at h
  · next hk => exact hk
  · cases h

/-- Scripts that compile end properly and are acceptable. -/
theorem accepts_of_city {ending : Ending} {tokens : List Token} {session after : Session} {city : City}
    (hf : ending.Proper) (hn : ∀ token ∈ tokens, token.kind ≠ .finish) (hs : session.At ending tokens)
    (hr : Compile.city.run session = .ok city after) :
    ∃ last, ending = .finish last ∧ Grammar.Accepts ((tokens ++ [last]).map Token.kind) := by
  rw [Compile.city_eq] at hr
  obtain ⟨name, between, hr, hr'⟩ := exists_of_run_bind hr
  obtain ⟨front, back, rfl, hd, hb⟩ := (upToFinish_recognizes _).of_ok hf hs rfl hr
  -- What is left is no token but the last one.
  have hk : between.current.kind = .finish := by
    obtain ⟨_, _, hr', _⟩ := exists_of_run_bind hr'
    exact Compile.kind_of_expect hr'
  have hc := hb.current
  cases back with
  | cons token back =>
    cases hc
    exact absurd hk (hn _ (List.mem_append_right _ List.mem_cons_self))
  | nil =>
    cases ending with
    | fault fault => cases hc
    | finish last =>
      cases hc
      refine ⟨_, rfl, ?_⟩
      rw [List.append_nil, List.map_append, List.map_singleton, hk]
      exact Grammar.derives_rule.mpr ⟨[.symbol .city, .token .finish], by decide,
        hd.append (.token .finish .nil)⟩

private theorem Compile.lexical_of_advance {session after : Session} {fault : Fault}
    (h : Compile.advance.run session = .error fault after) :
    ∃ lexical, session.ending = .fault lexical ∧ fault = .ofLexical lexical := by
  obtain ⟨current, ahead, ending, scopes, elements, features, journal⟩ := session
  cases ahead with
  | nil =>
    cases ending with
    | finish last => cases h
    | fault lexical =>
      cases h
      exact ⟨lexical, rfl, rfl⟩
  | cons => cases h

/-- Scripts that are refused are the beginning of an acceptable one up to the token that is refused. -/
theorem city_settles {ending : Ending} {tokens : List Token} {session after : Session} {fault : Fault}
    (hp : ending.Proper) (hs : session.At ending tokens)
    (hr : Compile.city.run session = .error fault after) :
    Settles Compile.city (.ofKinds Grammar.Accepts) ending tokens session := by
  have hc (kinds : List Kind) (hd : Derives [.symbol .city] kinds) : Grammar.Accepts (kinds ++ [.finish]) :=
    Grammar.derives_rule.mpr ⟨[.symbol .city, .token .finish], by decide, hd.append (.token .finish .nil)⟩
  rw [Compile.city_eq] at hr ⊢
  apply (upToFinish_recognizes _ ending tokens session hp hs rfl).bind
  · exact fun _ hb ↦ Begun.mono hb fun kinds hd ↦ ⟨_, hc kinds hd⟩
  intro name front rest between he hd hat hn
  rw [run_bind_of_ok hn] at hr
  by_cases hk : between.current.kind = .finish
  · -- The end of the source is there, and all that can be found behind it is a lexical fault.
    have hadvance : (Compile.expect .finish).run between = Compile.advance.run between := by
      rw [Compile.run_expect, if_pos hk]
    cases ha : Compile.advance.run between with
    | ok token last =>
      rw [run_bind_of_ok (hadvance.trans ha)] at hr
      cases hr
    | error fault' last =>
      obtain ⟨lexical, hf, rfl⟩ := Compile.lexical_of_advance ha
      refine ⟨[], rest, rfl, ?_⟩
      rw [run_bind_of_error (hadvance.trans ha)]
      exact .lexical (hat.ending.symm.trans hf)
  · have hunexpected (session : Session) (h : session.current.kind ≠ .finish) :
        (Compile.expect .finish).run session =
          .error ⟨.unexpected (.kind .finish) session.current, session.current.position⟩ session := by
      rw [Compile.run_expect, if_neg h]
      rfl
    refine ⟨[], rest, rfl, ?_⟩
    rw [run_bind_of_error (hunexpected between hk)]
    refine .unexpected ?_ hat.current fun ending' back' _ _ ↦ ⟨_, run_bind_of_error (hunexpected _ hk)⟩
    change Begun Grammar.Accepts (front.map Token.kind ++ [])
    rw [List.append_nil]
    exact .inr ⟨[.finish], hc _ hd⟩

end Cityscape
