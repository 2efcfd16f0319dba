import Cityscape.Token.Scanner
import Cityscape.Proofs.LongestMatch
import Cityscape.Proofs.Drawing

/-!
# Asking for tokens one by one

A compilation asks the scanner for a token whenever it goes on to the next one. It need not: the tokens and the
fault that the scanner gives when asked for one after the other are those found by scanning the whole source first.
-/

namespace Cityscape

namespace Scanner

private theorem next_nil (words : Trie Kind) {scanner : Scanner} (h : scanner.text = []) :
    scanner.next words = .ok (⟨.finish, "", scanner.here⟩, { input := [], here := scanner.here }) := by
  rw [next, feed_start_nil words h]
  rfl

private theorem next_of_ne_nil (words : Trie Kind) {scanner : Scanner} (h : scanner.text ≠ []) :
    scanner.next words =
      let run := munch words .start scanner.text
      let after := before run.rest (scanner.here.afterAll run.taken)
      match run.state.symbol with
      | none => .error ⟨String.ofList run.taken, run.rest.head?, scanner.here.afterAll run.taken⟩
      | some .blank => after.next words
      | some kind => .ok (⟨kind, String.ofList run.taken, scanner.here⟩, after) := by
  rw [next, feed_eq words (.inr h)]
  dsimp only
  split
  next hs =>
    rw [hs]
    cases (munch words .start scanner.text).rest <;> rfl
  next hs => rw [hs]
  next kind hk hs =>
    rw [hs]
    split
    next he => cases he
    next he => exact absurd (Option.some.inj he) hk
    next he =>
      cases he
      rfl

private theorem scanFrom_text (scanner : Scanner) : scanFrom keywords scanner.here scanner.text =
    match scanner.next keywords with
    | .error fault => ⟨[], .fault fault⟩
    | .ok (token, after) =>
      if token.kind = .finish then ⟨[], .finish token⟩ else (scanFrom keywords after.here after.text).push token := by
  generalize hh : scanner.here = here, ht : scanner.text = text
  fun_induction scanFrom keywords here text generalizing scanner with
  | case1 here =>
    rw [next_nil keywords ht, hh]
    rfl
  | case2 here c rest run hn =>
    have hs : run.state.symbol = none := by rw [munch_state_of_taken_nil hn]; rfl
    have hr := taken_append_rest keywords .start (c :: rest)
    rw [show (munch keywords .start (c :: rest)).taken = [] from hn, List.nil_append] at hr
    rw [next_of_ne_nil keywords (ht ▸ List.cons_ne_nil _ _), ht, hh]
    simp only [show munch keywords .start (c :: rest) = run from rfl] at hr ⊢
    simp only [hs, hn, hr]
    rfl
  | case3 here c rest run there hn hs =>
    rw [next_of_ne_nil keywords (ht ▸ List.cons_ne_nil _ _), ht, hh]
    simp only [show munch keywords .start (c :: rest) = run from rfl, hs]
    rfl
  | case4 here c rest run there hn hs ih =>
    rw [next_of_ne_nil keywords (ht ▸ List.cons_ne_nil _ _), ht, hh]
    simp only [show munch keywords .start (c :: rest) = run from rfl, hs]
    exact ih _ (here_before _ _) (text_before _ _)
  | case5 here c rest run there hn kind hk hs ih =>
    have hf : kind ≠ .finish := by
      rintro rfl
      exact (longest_of_munch hs).lexical
    rw [next_of_ne_nil keywords (ht ▸ List.cons_ne_nil _ _), ht, hh]
    simp only [show munch keywords .start (c :: rest) = run from rfl, hs]
    rw [if_neg hf, here_before, text_before]

private theorem tokens_eq (scanner : Scanner) : scanner.tokens keywords =
    match scanFrom keywords scanner.here scanner.text with
    | ⟨tokens, .finish last⟩ => .ok (tokens ++ [last])
    | ⟨_, .fault fault⟩ => .error fault := by
  fun_induction tokens keywords scanner with
  | case1 scanner fault h => rw [scanFrom_text, h]
  | case2 scanner token after h hk =>
    rw [scanFrom_text, h]
    simp only [hk, if_true, List.nil_append]
  | case3 scanner token after h hk ih =>
    rw [scanFrom_text, h, ih]
    simp only [hk, if_false]
    generalize scanFrom keywords after.here after.text = scan
    obtain ⟨tokens, _ | _⟩ := scan <;> rfl

/-- Asking for all tokens of a source is scanning it. -/
theorem tokens_eq_tokenize (source : Source) : tokens keywords { input := source } = tokenize source :=
  tokens_eq { input := source }

end Scanner

/--
A session that a scanner stands behind: what is ahead is what the scanner will give when it is asked. It is not
asked any more at the end of the source.
-/
def Session.Draws (session : Session) (scanner : Scanner) : Prop :=
  if session.current.kind = .finish then session.ahead = [] ∧ session.ending = .finish session.current
  else scanFrom keywords scanner.here scanner.text = ⟨session.ahead, session.ending⟩

/-- Compiling begins with the first token that the scanner gives, or with its fault. -/
theorem Scan.begins_draws (source : Source) (journal : Journal) :
    match Scanner.next keywords { input := source } with
    | .error fault => (scan source).begins journal = .error (.ofLexical fault)
    | .ok (token, after) => ∃ ahead ending,
      (scan source).begins journal = .ok { current := token, ahead, ending, journal } ∧
        Session.Draws { current := token, ahead, ending, journal } after := by
  have h := Scanner.scanFrom_text { input := source }
  change scan source = _ at h
  rw [h]
  split
  next => rfl
  next token after _ =>
    dsimp only
    split_ifs with hk
    · exact ⟨_, _, rfl, (if_pos hk).mpr ⟨rfl, rfl⟩⟩
    · exact ⟨_, _, rfl, (if_neg hk).mpr rfl⟩

/--
Going on to the next token is asking the scanner for it, unless the source is at its end: the scanner's token is
looked at next, and the scanner behind it stands behind the session, or its fault is met.
-/
theorem Session.Draws.advance {session : Session} {scanner : Scanner} (h : session.Draws scanner) :
    if session.current.kind = .finish then Compile.advance.run session = .ok session.current session
    else match scanner.next keywords with
      | .error fault => Compile.advance.run session = .error (.ofLexical fault) session
      | .ok (token, after) => ∃ ahead,
        Compile.advance.run session = .ok session.current { session with current := token, ahead } ∧
          Session.Draws { session with current := token, ahead } after := by
  obtain ⟨current, ahead, ending, scopes, elements, features, journal⟩ := session
  unfold Draws at h
  dsimp only at h ⊢
  split_ifs at h ⊢ with hk
  · obtain ⟨rfl, rfl⟩ := h
    rfl
  · rw [Scanner.scanFrom_text] at h
    split
    next fault hn =>
      rw [hn] at h
      cases h
      rfl
    next token after hn =>
      rw [hn] at h
      dsimp only at h
      split_ifs at h with hf
      · cases h
        exact ⟨_, rfl, (if_pos hf).mpr ⟨rfl, rfl⟩⟩
      · cases h
        exact ⟨_, rfl, (if_neg hf).mpr rfl⟩

end Cityscape
