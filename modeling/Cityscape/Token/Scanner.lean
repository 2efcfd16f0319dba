import Cityscape.Token.Scan

/-!
# The scanner

The tokens of a source are asked for one by one. For each of them the automaton is fed with codes until one kills
it, and this code is kept: it is the first one of the next token.
-/

namespace Cityscape

/--
A source that is being scanned: a code that was read too early, what comes behind it, and where it stands.
Specification, section 4.1.
-/
structure Scanner where
  pending : Option Code := none
  input : List Char
  here : Position := .first
  /-- The code of the end is kept only where nothing is left. -/
  exhausted : pending = some .finish → input = [] := by exact nofun

namespace Scanner

/-- What has still to be scanned. -/
def text (scanner : Scanner) : List Char :=
  match scanner.pending with
  | some (.char c) => c :: scanner.input
  | some .finish | none => scanner.input

/-- The character that was read too early, if it was one. -/
def found (scanner : Scanner) : Option Char :=
  match scanner.pending with
  | some (.char c) => some c
  | some .finish | none => none

/-- The next code, and the scanner behind it. -/
def readCode (scanner : Scanner) : Code × Scanner :=
  match scanner.pending, scanner.input with
  | some code, input => (code, { input, here := scanner.here })
  | none, c :: input => (.char c, { input, here := scanner.here })
  | none, [] => (.finish, { input := [], here := scanner.here })

/-- The codes are those of the text, and then always the one of the end. -/
theorem readCode_eq (scanner : Scanner) : scanner.readCode =
    match scanner.text with
    | c :: input => (.char c, { input, here := scanner.here })
    | [] => (.finish, { input := [], here := scanner.here }) := by
  obtain ⟨_ | _ | _, input, here, hx⟩ := scanner
  · cases input <;> rfl
  · rfl
  · obtain rfl := hx rfl
    rfl

/-- A code that was read too early is the next one again. -/
def keep (scanner : Scanner) (code : Code) (h : code = .finish → scanner.input = []) : Scanner where
  pending := some code
  input := scanner.input
  here := scanner.here
  exhausted hc := h (Option.some.inj hc)

/-- Behind the code of the end there is nothing. -/
theorem input_of_readCode {scanner after : Scanner} {code : Code} (h : scanner.readCode = (code, after))
    (hc : code = .finish) : after.input = [] := by
  subst hc
  rw [readCode_eq] at h
  split at h
  · cases h
  · cases h
    rfl

private theorem text_of_readCode {scanner after : Scanner} {c : Char} (h : scanner.readCode = (.char c, after)) :
    scanner.text = c :: after.text := by
  rw [readCode_eq] at h
  split at h
  next ht =>
    cases h
    exact ht
  · cases h

/-- The characters an automaton survived, the state it reached and the scanner behind them. -/
structure Fed where
  taken : List Char
  state : State
  scanner : Scanner

/-- Feeds an automaton until a code kills it or the end is reached. Specification, section 4.1. -/
def feed (words : Trie Kind) (state : State) (scanner : Scanner) : Fed :=
  match h : scanner.readCode with
  | (code, after) =>
    if state.next words code = .dead then ⟨[], state, after.keep code (input_of_readCode h)⟩
    else match code with
      | .finish => ⟨[], state.next words .finish, after⟩
      | .char c =>
        let further := feed words (state.next words (.char c)) { after with here := after.here.after c }
        { further with taken := c :: further.taken }
termination_by scanner.text.length
decreasing_by
  rw [text_of_readCode h]
  exact Nat.lt_succ_self _

/-- A scanner in front of a text whose first code was read too early. -/
def before (text : List Char) (here : Position) : Scanner :=
  match text with
  | c :: input => { pending := some (.char c), input, here }
  | [] => { pending := some .finish, input := [], here, exhausted := fun _ ↦ rfl }

/-- The code that was read too early belongs to the text. -/
theorem text_before (text : List Char) (here : Position) : (before text here).text = text := by
  cases text <;> rfl

/-- A scanner stands where it was put. -/
theorem here_before (text : List Char) (here : Position) : (before text here).here = here := by
  cases text <;> rfl

private theorem feed_nil {scanner : Scanner} (h : scanner.text = []) (words : Trie Kind) (state : State) :
    feed words state scanner =
      if state.next words .finish = .dead then ⟨[], state, before [] scanner.here⟩
      else ⟨[], state.next words .finish, { input := [], here := scanner.here }⟩ := by
  have hr := scanner.readCode_eq
  rw [h] at hr
  rw [feed]
  split
  next code after hc =>
    cases hr.symm.trans hc
    rfl

private theorem feed_cons {scanner : Scanner} {c : Char} {input : List Char} (h : scanner.text = c :: input)
    (words : Trie Kind) (state : State) :
    feed words state scanner =
      if state.read words c = .dead then ⟨[], state, before (c :: input) scanner.here⟩
      else
        let further := feed words (state.read words c) { input, here := scanner.here.after c }
        { further with taken := c :: further.taken } := by
  have hr := scanner.readCode_eq
  rw [h] at hr
  rw [feed]
  split
  next code after hc =>
    cases hr.symm.trans hc
    rfl

/-- Behind the start, or if there is any text, the automaton takes what it takes of the text. -/
theorem feed_eq (words : Trie Kind) {state : State} {scanner : Scanner} (h : state ≠ .start ∨ scanner.text ≠ []) :
    feed words state scanner =
      ⟨(munch words state scanner.text).taken, (munch words state scanner.text).state,
        before (munch words state scanner.text).rest
          (scanner.here.afterAll (munch words state scanner.text).taken)⟩ := by
  generalize ht : scanner.text = text at h ⊢
  induction text generalizing state scanner with
  | nil =>
    rw [feed_nil ht, if_pos (State.next_finish (h.resolve_right fun hn ↦ hn rfl))]
    rfl
  | cons c input ih =>
    rw [feed_cons ht, munch]
    by_cases hd : state.read words c = .dead
    · rw [if_pos hd, if_pos hd]
      rfl
    · rw [if_neg hd, if_neg hd, ih rfl (.inl (state.read_ne_start words c))]
      rfl

/-- At the end of a source there is nothing more to take. -/
theorem feed_start_nil (words : Trie Kind) {scanner : Scanner} (h : scanner.text = []) :
    feed words .start scanner = ⟨[], .finish, { input := [], here := scanner.here }⟩ := by
  rw [feed_nil h]
  rfl

/-- An automaton that takes nothing stays where it is. -/
theorem munch_state_of_taken_nil {words : Trie Kind} {state : State} {text : List Char}
    (h : (munch words state text).taken = []) : (munch words state text).state = state := by
  cases text with
  | nil => rfl
  | cons c input =>
    rw [munch] at h ⊢
    by_cases hd : state.read words c = .dead
    · rw [if_pos hd]
    · rw [if_neg hd] at h
      cases h

private theorem length_text_feed {words : Trie Kind} {scanner : Scanner} {kind : Kind}
    (h : (feed words .start scanner).state.symbol = some kind) (hk : kind ≠ .finish) :
    (feed words .start scanner).scanner.text.length < scanner.text.length := by
  by_cases ht : scanner.text = []
  · rw [feed_start_nil words ht] at h
    exact absurd (Option.some.inj h).symm hk
  · rw [feed_eq words (.inr ht)] at h ⊢
    dsimp only at h ⊢
    have htaken : (munch words .start scanner.text).taken ≠ [] := by
      intro hn
      rw [munch_state_of_taken_nil hn] at h
      cases h
    have := List.length_pos_iff.mpr htaken
    have hsplit := congrArg List.length (taken_append_rest words .start scanner.text)
    rw [List.length_append] at hsplit
    rw [text_before]
    omega

/--
The next token, and the scanner behind it. Blanks between the tokens are gone past. Nobody asks for a token
behind the one of the end. Specification, section 4.1.
-/
def next (words : Trie Kind) (scanner : Scanner) : Except LexicalFault (Token × Scanner) :=
  let run := feed words .start scanner
  match _h : run.state.symbol with
  | none => .error ⟨String.ofList run.taken, run.scanner.found, run.scanner.here⟩
  | some .blank => next words run.scanner
  | some kind => .ok (⟨kind, String.ofList run.taken, scanner.here⟩, run.scanner)
termination_by scanner.text.length
decreasing_by exact length_text_feed _h nofun

private theorem length_text_next {words : Trie Kind} {scanner after : Scanner} {token : Token}
    (h : scanner.next words = .ok (token, after)) (hk : token.kind ≠ .finish) :
    after.text.length < scanner.text.length := by
  fun_induction next words scanner with
  | case1 => cases h
  | case2 scanner run hs ih => exact Nat.lt_trans (ih h) (length_text_feed hs nofun)
  | case3 scanner run kind hb hs =>
    cases h
    exact length_text_feed hs hk

/-- All tokens up to the one of the end, asked for one by one. -/
def tokens (words : Trie Kind) (scanner : Scanner) : Except LexicalFault (List Token) :=
  match _h : scanner.next words with
  | .error fault => .error fault
  | .ok (token, after) =>
    if _hk : token.kind = .finish then .ok [token] else (tokens words after).map (token :: ·)
termination_by scanner.text.length
decreasing_by exact length_text_next _h _hk

end Scanner

end Cityscape
