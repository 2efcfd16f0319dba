import Cityscape.Proofs.Classes

/-!
# The lexemes of tokens

A source without lexical faults has tokens with lexemes of their kinds, and one more that says that it ends.
-/

namespace Cityscape

/-- Every token that is scanned has a lexeme of its kind. -/
theorem scanFrom_class (here : Position) (text : List Char) :
    ∀ token ∈ (scanFrom keywords here text).tokens, token.kind.Class token.lexeme.toList := by
  fun_induction scanFrom keywords here text with
  | case1 | case2 | case3 => exact fun _ h ↦ nomatch h
  | case4 _ _ _ _ _ _ _ ih => exact ih
  | case5 here c rest run there _ kind hk hs ih =>
    refine List.forall_mem_cons.mpr ⟨?_, ih⟩
    rw [State.munch_state] at hs
    rw [String.toList_ofList]
    exact State.symbol_afterAll_iff.mp hs

/-- The token behind the last lexeme is the end of the input. -/
theorem scanFrom_ending {words : Trie Kind} {here : Position} {text : List Char} {last : Token}
    (h : (scanFrom words here text).ending = .finish last) : last.kind = .finish := by
  fun_induction scanFrom words here text with
  | case1 =>
    cases h
    rfl
  | case2 | case3 => cases h
  | case4 _ _ _ _ _ _ _ ih => exact ih h
  | case5 _ _ _ _ _ _ _ _ _ ih => exact ih h

/-- A source without lexical faults has tokens with lexemes of their kinds and then the last one. -/
theorem tokenize_eq_ok {source : Source} {tokens : List Token} (h : tokenize source = .ok tokens) :
    ∃ front last, tokens = front ++ [last] ∧ scan source = ⟨front, .finish last⟩ ∧
      last.kind = .finish ∧ ∀ token ∈ front, token.kind.Class token.lexeme.toList := by
  have hl := scanFrom_class .first source
  have he := @scanFrom_ending keywords .first source
  rw [tokenize] at h
  rw [← scan] at hl he
  generalize scan source = scanned at h hl he
  obtain ⟨front, ending⟩ := scanned
  cases ending with
  | finish last => exact ⟨front, last, (Except.ok.inj h).symm, rfl, he rfl, hl⟩
  | fault fault => cases h

end Cityscape
