import Cityscape.Proofs.Classes
import Cityscape.Proofs.Layout

/-!
# Longest matches

A lexer that removes the longest lexeme from the front of its input, again and again, and may look as far
ahead for it as it likes. The scanner never goes back: it takes the last live state of the automaton for the
last complete one. Both come to the same tokens, or both fail. Where the last live state is not complete, either
nothing before it is complete, or digits are, before a point with which no lexeme begins.
-/

namespace Cityscape

variable {text rest lexeme : List Char} {kind : Kind} {spellings : List (Kind × String)}

/-- The text begins with this lexeme of this kind, and with no longer lexeme of any kind. -/
structure LongestLexeme (text : List Char) (kind : Kind) (lexeme rest : List Char) : Prop where
  split : text = lexeme ++ rest
  lexical : kind.Class lexeme
  longest : ∀ (other : Kind) (longer : List Char), longer <+: text → other.Class longer →
    longer.length ≤ lexeme.length

/-- The kinds and lexemes of a text: its longest lexemes one after the other without blanks, and the end. -/
inductive Lexes : List Char → List (Kind × String) → Prop where
  | finish : Lexes [] [(.finish, "")]
  | blank {text lexeme rest : List Char} {spellings : List (Kind × String)}
    (h : LongestLexeme text .blank lexeme rest) (hr : Lexes rest spellings) : Lexes text spellings
  | token {text lexeme rest : List Char} {spellings : List (Kind × String)} {kind : Kind}
    (h : LongestLexeme text kind lexeme rest) (hk : kind ≠ .blank) (hr : Lexes rest spellings) :
    Lexes text ((kind, String.ofList lexeme) :: spellings)

namespace LongestLexeme

/-- There is one longest lexeme at most. -/
theorem unique {other : Kind} {lexeme' rest' : List Char} (h : LongestLexeme text kind lexeme rest)
    (h' : LongestLexeme text other lexeme' rest') : other = kind ∧ lexeme' = lexeme ∧ rest' = rest := by
  have hp : lexeme <+: text := ⟨rest, h.split.symm⟩
  have hp' : lexeme' <+: text := ⟨rest', h'.split.symm⟩
  have hl : lexeme'.length = lexeme.length :=
    Nat.le_antisymm (h.longest other lexeme' hp' h'.lexical) (h'.longest kind lexeme hp h.lexical)
  have he : lexeme' = lexeme :=
    (List.prefix_of_prefix_length_le hp' hp (Nat.le_of_eq hl)).eq_of_length hl
  subst he
  have hs : lexeme' ++ rest' = lexeme' ++ rest := h'.split.symm.trans h.split
  exact ⟨h'.lexical.unique h.lexical, rfl, List.append_cancel_left hs⟩

/-- Something is taken. -/
theorem text_ne_nil (h : LongestLexeme text kind lexeme rest) : text ≠ [] := by
  rw [h.split]
  exact List.append_ne_nil_of_left_ne_nil h.lexical.ne_nil rest

private theorem lexes_blank (h : LongestLexeme text .blank lexeme rest) :
    Lexes text spellings ↔ Lexes rest spellings := by
  refine ⟨fun hl ↦ ?_, .blank h⟩
  cases hl with
  | finish => exact absurd rfl h.text_ne_nil
  | blank h' hr =>
    obtain ⟨_, rfl, rfl⟩ := h.unique h'
    exact hr
  | token h' hk =>
    obtain ⟨rfl, _⟩ := h.unique h'
    exact absurd rfl hk

private theorem lexes_token (h : LongestLexeme text kind lexeme rest) (hk : kind ≠ .blank) :
    Lexes text spellings ↔ ∃ more, spellings = (kind, String.ofList lexeme) :: more ∧ Lexes rest more := by
  constructor
  · intro hl
    cases hl with
    | finish => exact absurd rfl h.text_ne_nil
    | blank h' =>
      obtain ⟨rfl, _⟩ := h.unique h'
      exact absurd rfl hk
    | token h' hk' hr =>
      obtain ⟨rfl, rfl, rfl⟩ := h.unique h'
      exact ⟨_, rfl, hr⟩
  · rintro ⟨more, rfl, hr⟩
    exact .token h hk hr

end LongestLexeme

private theorem lexes_nil : Lexes [] spellings ↔ spellings = [(.finish, "")] := by
  constructor
  · intro h
    cases h with
    | finish => rfl
    | blank h | token h => exact absurd rfl h.text_ne_nil
  · rintro rfl
    exact .finish

private theorem Lexes.exists_longest (h : Lexes text spellings) (hn : text ≠ []) :
    ∃ kind lexeme rest more, LongestLexeme text kind lexeme rest ∧ Lexes rest more := by
  cases h with
  | finish => exact absurd rfl hn
  | blank h hr => exact ⟨_, _, _, _, h, hr⟩
  | token h _ hr => exact ⟨_, _, _, _, h, hr⟩

private theorem prefix_munch (words : Trie Kind) (state : State) {front : List Char} (h : front <+: text)
    (hl : state.afterAll words front ≠ .dead) : front <+: (munch words state text).taken := by
  induction text generalizing state front with
  | nil => rw [List.prefix_nil.mp h]; exact List.nil_prefix
  | cons c text ih =>
    cases front with
    | nil => exact List.nil_prefix
    | cons d front =>
      obtain ⟨rfl, hp⟩ := List.cons_prefix_cons.mp h
      have hr : state.read words d ≠ .dead := by
        intro hd
        apply hl
        change (state.read words d).afterAll words front = .dead
        rw [hd, State.afterAll_dead]
      rw [munch, if_neg hr]
      exact List.cons_prefix_cons.mpr ⟨rfl, ih _ hp hl⟩

/-- If the last live state is complete, what was taken is the longest lexeme. -/
theorem longest_of_munch (hs : (munch keywords .start text).state.symbol = some kind) :
    LongestLexeme text kind (munch keywords .start text).taken (munch keywords .start text).rest where
  split := (taken_append_rest keywords .start text).symm
  lexical := by
    rw [State.munch_state] at hs
    exact State.symbol_afterAll_iff.mp hs
  longest _ _ hp hc := (prefix_munch keywords .start hp hc.live).length_le

private theorem not_lexes_point (rest : List Char) (spellings : List (Kind × String)) :
    ¬ Lexes ('.' :: rest) spellings := by
  intro h
  obtain ⟨kind, lexeme, _, _, hl, _⟩ := h.exists_longest (List.cons_ne_nil _ _)
  cases lexeme with
  | nil => exact hl.lexical.ne_nil rfl
  | cons c lexeme =>
    cases (List.cons.inj hl.split).1
    exact hl.lexical.live (State.afterAll_dead keywords lexeme)

/-- The automaton is alive behind what it takes. -/
theorem munch_live (words : Trie Kind) {state : State} (h : state ≠ .dead) (text : List Char) :
    (munch words state text).state ≠ .dead := by
  induction text generalizing state with
  | nil => exact h
  | cons c text ih =>
    rw [munch]
    split_ifs with hd
    · exact h
    · exact ih hd

private theorem ends_in_point {taken : List Char} (hd : State.start.afterAll keywords taken ≠ .dead)
    (hs : (State.start.afterAll keywords taken).symbol = none) (hp : lexeme <+: taken)
    (hc : kind.Class lexeme) : ∃ whole, taken = whole ++ ['.'] ∧ Digits whole := by
  have hn := hc.ne_nil
  have hshows := State.shows_afterAll keywords taken
  have hsymbol := State.symbol_afterAll_iff.mpr hc
  cases hstate : State.start.afterAll keywords taken with rw [hstate] at hd hs hshows
  | dead => exact absurd rfl hd
  | start =>
    rw [show taken = [] from hshows, List.prefix_nil] at hp
    exact absurd hp hn
  | bang =>
    -- half a comparison is no lexeme, and nothing stands before it
    rw [show taken = ['!'] from hshows, List.prefix_cons_iff] at hp
    obtain rfl | ⟨front, rfl, hf⟩ := hp
    · exact absurd rfl hn
    · rw [List.prefix_nil.mp hf] at hsymbol
      cases hsymbol
  | quote =>
    -- a string without its closing quote has no string in front
    obtain ⟨inner, rfl, hi⟩ := hshows
    cases lexeme with
    | nil => exact absurd rfl hn
    | cons c lexeme =>
      obtain ⟨rfl, hl⟩ := List.cons_prefix_cons.mp hp
      rw [State.afterAll_quote fun c hc ↦ hi c (hl.subset hc)] at hsymbol
      cases hsymbol
  | point => exact hshows
  | finish => exact hshows.elim
  | word | letters | lettersDigits | digits | fraction | quoted | mark | blank => cases hs

private theorem not_lexes_of_munch (hn : text ≠ []) (hs : (munch keywords .start text).state.symbol = none) :
    ¬ Lexes text spellings := by
  intro h
  obtain ⟨kind, lexeme, rest, more, hl, hr⟩ := h.exists_longest hn
  have hp : lexeme <+: (munch keywords .start text).taken :=
    prefix_munch keywords .start ⟨rest, hl.split.symm⟩ hl.lexical.live
  have hd := munch_live keywords (nofun : State.start ≠ .dead) text
  rw [State.munch_state] at hs hd
  obtain ⟨whole, ht, hw⟩ := ends_in_point hd hs hp hl.lexical
  have hsplit := taken_append_rest keywords .start text
  rw [ht, List.append_assoc] at hsplit
  rw [ht] at hs hp
  -- the digits before the point are the longest lexeme
  have hle : whole.length ≤ lexeme.length := hl.longest .integer whole ⟨_, hsplit⟩ hw
  have hne : lexeme ≠ whole ++ ['.'] := by
    intro he
    rw [← he, State.symbol_afterAll_iff.mpr hl.lexical] at hs
    cases hs
  have he : lexeme = whole := by
    obtain he | hp := List.prefix_concat_iff.mp hp
    · exact absurd he hne
    · exact hp.eq_of_length_le hle
  rw [← hsplit, he] at hl
  have hrest := List.append_cancel_left hl.split
  rw [← hrest] at hr
  exact not_lexes_point _ _ hr

/-- The kinds and lexemes of a scan that ends properly. -/
def Scan.spellings? : Scan → Option (List (Kind × String))
  | ⟨tokens, .finish last⟩ => some ((tokens ++ [last]).map Token.spelling)
  | ⟨_, .fault _⟩ => none

private theorem Scan.spellings?_push (token : Token) (scan : Scan) :
    (scan.push token).spellings? = scan.spellings?.map (token.spelling :: ·) := by
  obtain ⟨tokens, ending⟩ := scan
  cases ending <;> rfl

private theorem spellings?_scanFrom (here : Position) (text : List Char) (spellings : List (Kind × String)) :
    (scanFrom keywords here text).spellings? = some spellings ↔ Lexes text spellings := by
  fun_induction scanFrom keywords here text generalizing spellings with
  | case1 here =>
    rw [lexes_nil, Scan.spellings?, Option.some_inj, eq_comm]
    rfl
  | case2 here c rest run hn =>
    have hs : run.state.symbol = none := by
      rw [State.munch_state, show (munch keywords .start (c :: rest)).taken = [] from hn]
      rfl
    simpa [Scan.spellings?] using not_lexes_of_munch (List.cons_ne_nil _ _) hs
  | case3 here c rest run there hn hs =>
    simpa [Scan.spellings?] using not_lexes_of_munch (List.cons_ne_nil _ _) hs
  | case4 here c rest run there hn hs ih =>
    rw [ih, (longest_of_munch hs).lexes_blank]
  | case5 here c rest run there hn kind hk hs ih =>
    rw [Scan.spellings?_push, (longest_of_munch hs).lexes_token hk, Option.map_eq_some_iff]
    refine exists_congr fun more ↦ ?_
    rw [ih, and_comm, eq_comm]
    rfl

/-- The tokens of a text are its longest lexemes. -/
theorem lexes_of_tokenize {source : Source} {tokens : List Token} (h : tokenize source = .ok tokens) :
    Lexes source (tokens.map Token.spelling) := by
  rw [← spellings?_scanFrom .first]
  rw [tokenize, scan] at h
  generalize scanFrom keywords .first source = scan at h
  obtain ⟨found, ending⟩ := scan
  cases ending with
  | finish last =>
    cases h
    rfl
  | fault => cases h

/--
The scanner is a longest-match lexer. It finds tokens if and only if the text can be taken apart into longest
lexemes, and then these are its tokens.
-/
theorem tokenize_iff_lexes (source : Source) (spellings : List (Kind × String)) :
    (∃ tokens, tokenize source = .ok tokens ∧ tokens.map Token.spelling = spellings) ↔
      Lexes source spellings := by
  rw [← spellings?_scanFrom .first, tokenize, scan]
  obtain ⟨tokens, ending⟩ := scanFrom keywords .first source
  cases ending <;> simp [Scan.spellings?]

end Cityscape
