import Mathlib.Data.List.TakeWhile
import Cityscape.Proofs.Json.Lexeme
import Cityscape.Proofs.Outcome

/-!
# Literals without their values

Where a literal is read, it takes something of the text, and the same is taken by a reader that does not ask for
its value: what faults of unfinished texts are called does not matter then, and neither does what escapes stand for.
-/

namespace Cityscape.Json

/-- A string ends behind where it begins. -/
theorem length_stringBody {escape : List Char → Except Fault (Char × Nat)} {text body rest : List Char}
    (h : stringBody escape text = .ok (body, rest)) : rest.length < text.length := by
  fun_induction stringBody escape text generalizing body with
  | case1 | case4 => cases h
  | case2 =>
    cases h
    exact Nat.lt_succ_self _
  | case3 text ih =>
    obtain ⟨⟨c, length⟩, _, h⟩ := exists_of_bind_eq_ok h
    obtain ⟨⟨body, rest⟩, hb, h⟩ := exists_of_bind_eq_ok h
    cases h
    have hl := ih length hb
    rw [List.length_drop] at hl
    rw [List.length_cons]
    omega
  | case5 c text _ _ _ ih =>
    obtain ⟨⟨body, rest⟩, hb, h⟩ := exists_of_bind_eq_ok h
    cases h
    exact (ih hb).trans (Nat.lt_succ_self _)

/-- A word takes as many characters as it has. -/
theorem length_literal {word text rest : List Char} (h : literal word text = .ok rest) :
    text.length = word.length + rest.length := by
  fun_induction literal word text with
  | case1 =>
    cases h
    simp
  | case2 | case4 => cases h
  | case3 a word text ih =>
    rw [List.length_cons, List.length_cons, ih h]
    omega

private theorem someDigits_ok {ended : Fault} {text digits rest : List Char}
    (h : someDigits ended text = .ok (digits, rest)) :
    rest.length < text.length ∧ ∀ ended', someDigits ended' text = .ok (digits, rest) := by
  unfold someDigits at h ⊢
  split at h
  · cases h
  · next c text =>
    refine ⟨?_, fun _ ↦ h⟩
    split_ifs at h with hc
    rw [List.span_eq_takeWhile_dropWhile] at h
    cases h
    rw [List.dropWhile_cons_of_pos hc]
    exact Nat.lt_succ_of_le (List.length_dropWhile_le ..)

private theorem wholeDigits_ok {ended : Fault} {text digits rest : List Char}
    (h : wholeDigits ended text = .ok (digits, rest)) :
    rest.length < text.length ∧ ∀ ended', wholeDigits ended' text = .ok (digits, rest) := by
  unfold wholeDigits at h ⊢
  split at h
  · cases h
  · refine ⟨?_, fun _ ↦ h⟩
    split_ifs at h
    cases h
    exact Nat.lt_succ_self _
  · next c tail _ =>
    have h : someDigits ended (c :: tail) = .ok (digits, rest) := h
    exact someDigits_ok h

/-- The fraction of a number, if there is one. -/
def fractionAhead (ended : Fault) : List Char → Except Fault (Option (List Char) × List Char)
  | '.' :: rest => do
    let (digits, rest) ← someDigits ended rest
    return (some digits, rest)
  | rest => .ok (none, rest)

/-- The exponent of a number, if there is one. -/
def exponentAhead (ended : Fault) (text : List Char) : Except Fault (Option Int × List Char) :=
  match text with
  | mark :: after =>
    if mark = 'e' ∨ mark = 'E' then do
      let (digits, rest) ← someDigits ended (Decimal.splitSign after).2
      let size : Int := Decimal.ofDigits digits
      return (some (if (Decimal.splitSign after).1 then -size else size), rest)
    else .ok (none, text)
  | [] => .ok (none, text)

private theorem numberParts_eq (ended : Fault) (text : List Char) :
    numberParts ended text = do
      let (whole, rest) ← wholeDigits ended text
      let (fraction, rest) ← fractionAhead ended rest
      let (exponent, rest) ← exponentAhead ended rest
      return (⟨whole, fraction, exponent⟩, rest) := by
  unfold numberParts
  cases wholeDigits ended text with
  | error fault => rfl
  | ok read =>
    obtain ⟨whole, rest⟩ := read
    simp only [fractionAhead, exponentAhead, Bind.bind, Except.bind, Pure.pure, Except.pure]
    grind

private theorem fractionAhead_ok {ended : Fault} {text rest : List Char} {fraction : Option (List Char)}
    (h : fractionAhead ended text = .ok (fraction, rest)) :
    rest.length ≤ text.length ∧ ∀ ended', fractionAhead ended' text = .ok (fraction, rest) := by
  unfold fractionAhead at h ⊢
  split at h
  · obtain ⟨⟨digits, _⟩, hd, h⟩ := exists_of_bind_eq_ok h
    cases h
    obtain ⟨hl, hd⟩ := someDigits_ok hd
    exact ⟨hl.le.trans (Nat.le_succ _), fun ended' ↦ by rw [hd ended']; rfl⟩
  · cases h
    exact ⟨Nat.le_refl _, fun _ ↦ rfl⟩

private theorem length_splitSign (text : List Char) : (Decimal.splitSign text).2.length ≤ text.length := by
  unfold Decimal.splitSign
  split
  · exact Nat.le_succ _
  · exact Nat.le_succ _
  · exact Nat.le_refl _

private theorem exponentAhead_ok {ended : Fault} {text rest : List Char} {exponent : Option Int}
    (h : exponentAhead ended text = .ok (exponent, rest)) :
    rest.length ≤ text.length ∧ ∀ ended', exponentAhead ended' text = .ok (exponent, rest) := by
  unfold exponentAhead at h ⊢
  split at h
  · next mark after =>
    dsimp only
    split at h
    · next hm =>
      obtain ⟨⟨digits, _⟩, hd, h⟩ := exists_of_bind_eq_ok h
      cases h
      obtain ⟨hl, hd⟩ := someDigits_ok hd
      have hs := length_splitSign after
      refine ⟨?_, fun ended' ↦ by rw [if_pos hm, hd ended']; rfl⟩
      rw [List.length_cons]
      omega
    · next hm =>
      cases h
      exact ⟨Nat.le_refl _, fun _ ↦ if_neg hm⟩
  · cases h
    exact ⟨Nat.le_refl _, fun _ ↦ rfl⟩

/-- The same for a whole number. -/
theorem numberParts_ok {ended : Fault} {text rest : List Char} {parts : NumberParts}
    (h : numberParts ended text = .ok (parts, rest)) :
    rest.length < text.length ∧ ∀ ended', numberParts ended' text = .ok (parts, rest) := by
  rw [numberParts_eq] at h
  obtain ⟨⟨whole, behind⟩, hw, h⟩ := exists_of_bind_eq_ok h
  obtain ⟨⟨fraction, behind'⟩, hf, h⟩ := exists_of_bind_eq_ok h
  obtain ⟨⟨exponent, behind''⟩, he, h⟩ := exists_of_bind_eq_ok h
  cases h
  obtain ⟨hl, hw⟩ := wholeDigits_ok hw
  obtain ⟨hl', hf⟩ := fractionAhead_ok hf
  obtain ⟨hl'', he⟩ := exponentAhead_ok he
  refine ⟨by omega, fun ended' ↦ ?_⟩
  simp only [numberParts_eq, hw ended', hf ended', he ended', Bind.bind, Except.bind, Pure.pure, Except.pure]

private theorem looseEscapeAhead_unicode {text : List Char} {unit : Nat} (h : hexQuad text = .ok unit) :
    looseEscapeAhead ('u' :: text) = .ok ('u', 5) := by
  rw [looseEscapeAhead, h]
  rfl

private theorem escapeAhead_loose {text : List Char} {c : Char} {length : Nat}
    (h : escapeAhead text = .ok (c, length)) :
    (∃ d count, looseEscapeAhead text = .ok (d, count) ∧ text.drop count = text.drop length) ∨
      ∃ d d' rest, looseEscapeAhead text = .ok (d, 5) ∧ text.drop 5 = '\\' :: rest ∧
        looseEscapeAhead rest = .ok (d', 5) ∧ rest.drop 5 = text.drop length := by
  cases text with
  | nil => cases h
  | cons mark text =>
    by_cases hm : mark = 'u'
    · subst hm
      rw [escapeAhead] at h
      obtain ⟨⟨d, count⟩, hu, h⟩ := exists_of_bind_eq_ok h
      cases h
      unfold unicodeEscape at hu
      obtain ⟨unit, hq, hu⟩ := exists_of_bind_eq_ok hu
      have hfirst := looseEscapeAhead_unicode hq
      split at hu
      · cases hu
      split at hu
      · split at hu
        · cases hu
        · cases hu
        · next rest hd =>
          obtain ⟨second, hq', hu⟩ := exists_of_bind_eq_ok hu
          split at hu
          · obtain ⟨_, rfl⟩ := Prod.mk.inj (Except.ok.inj hu)
            refine .inr ⟨'u', 'u', 'u' :: rest, hfirst, hd, looseEscapeAhead_unicode hq', ?_⟩
            have he := congrArg (List.drop 6) hd
            rw [List.drop_drop] at he
            exact he.symm
          · cases hu
        · cases hu
      · cases hu
        exact .inl ⟨'u', 5, hfirst, rfl⟩
    · refine .inl ⟨c, length, ?_, rfl⟩
      rwa [looseEscapeAhead]
      exact fun _ he ↦ hm (List.cons.inj he).1

/-- A string is read up to the same quote when its value does not matter. -/
theorem stringBody_loose {text body rest : List Char} (h : stringBody escapeAhead text = .ok (body, rest)) :
    ∃ body', stringBody looseEscapeAhead text = .ok (body', rest) := by
  fun_induction stringBody escapeAhead text generalizing body with
  | case1 | case4 => cases h
  | case2 text =>
    cases h
    exact ⟨[], by rw [stringBody]⟩
  | case3 text ih =>
    obtain ⟨⟨c, length⟩, he, h⟩ := exists_of_bind_eq_ok h
    obtain ⟨⟨body, rest⟩, hb, h⟩ := exists_of_bind_eq_ok h
    cases h
    obtain ⟨body', hl⟩ := ih length hb
    rcases escapeAhead_loose he with ⟨d, count, hd, ht⟩ | ⟨d, d', behind, hd, ht, hd', ht'⟩
    · refine ⟨d :: body', ?_⟩
      rw [stringBody_escape hd, ht, hl]
      rfl
    · refine ⟨d :: d' :: body', ?_⟩
      rw [stringBody_escape hd, ht, stringBody_escape hd', ht', hl]
      rfl
  | case5 c text hq hb hc ih =>
    obtain ⟨⟨body, rest⟩, hr, h⟩ := exists_of_bind_eq_ok h
    cases h
    obtain ⟨body', hl⟩ := ih hr
    refine ⟨c :: body', ?_⟩
    rw [stringBody, if_neg hc, hl]
    · rfl
    · exact hq
    · exact hb

end Cityscape.Json
