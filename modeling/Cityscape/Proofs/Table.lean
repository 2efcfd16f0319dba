import Cityscape.Proofs.Classes
import Cityscape.Token.Table

/-!
# The table without keywords

The table without keywords does what every automaton does, as far as the numbers of states tell it: its states are
those of the automaton, and the words of keywords have the number of plain letters. Two automata with different
keywords can be told apart behind letters only, as whatever else they read next leads them to the same states.
-/

namespace Cityscape

variable {σ : Type} {words : Trie Kind} {codes : List Code} {code : Code} {c : Char}

/-- Whether an input is a letter. -/
def Code.isLetter : Code → Bool
  | char c => c.isAlpha
  | finish => false

/-- Letters, of which there may be none. -/
def Alphabetic (text : List Char) : Prop :=
  ∀ c ∈ text, c.isAlpha = true

/-- No letters. -/
theorem Alphabetic.nil : Alphabetic [] :=
  List.forall_mem_nil _

/-- One more letter. -/
theorem Alphabetic.concat {text : List Char} (h : Alphabetic text) (hc : c.isAlpha = true) :
    Alphabetic (text ++ [c]) :=
  List.forall_mem_append.mpr ⟨h, List.forall_mem_singleton.mpr hc⟩

/--
Automata lead to the same states except behind letters, if everything else that is read behind letters leads them to
the same states, and from these they go on alike.
-/
theorem Dfa.run_eq_run {first second : Dfa σ}
    (hl : ∀ text code, Alphabetic text → code.isLetter = false →
      first.next (first.reach text) code = second.next (second.reach text) code)
    (hn : ∀ codes code, (¬ ∃ text, Alphabetic text ∧ codes = text.map .char) →
      first.next (second.run codes) code = second.next (second.run codes) code) (codes : List Code) :
    (∃ text, Alphabetic text ∧ codes = text.map .char) ∨ first.run codes = second.run codes := by
  induction codes using List.reverseRecOn with
  | nil => exact .inl ⟨[], .nil, rfl⟩
  | append_singleton codes code ih =>
    rw [run_concat, run_concat]
    by_cases ht : ∃ text, Alphabetic text ∧ codes = text.map .char
    · obtain ⟨text, ht, rfl⟩ := ht
      cases hc : code.isLetter with
      | false => exact .inr (hl text code ht hc)
      | true =>
        cases code with
        | finish => cases hc
        | char c => exact .inl ⟨text ++ [c], ht.concat hc, by simp⟩
    · rw [ih.resolve_left ht]
      exact .inr (hn codes code ht)

namespace State

/-- Running on characters. -/
theorem reach_dfa (words : Trie Kind) (text : List Char) : (dfa words).reach text = start.afterAll words text :=
  List.foldl_map

private theorem next_of_ne_start {state : State} (h : state ≠ start) (words words' : Trie Kind) (code : Code) :
    State.next words state code = State.next words' state code := by
  cases state with
  | start => exact absurd rfl h
  | mark m => cases code <;> cases m <;> rfl
  | _ => cases code <;> rfl

private theorem next_start (h : code.isLetter = false) (words words' : Trie Kind) :
    State.next words start code = State.next words' start code := by
  cases code with
  | finish => rfl
  | char c =>
    have ha : ¬ c.isAlpha = true := Bool.eq_false_iff.mp h
    change opening words c = opening words' c
    rw [opening, opening, if_neg ha, if_neg ha]

private theorem run_dfa (words : Trie Kind) (codes : List Code) :
    (∃ text : List Char, codes = text.map .char) ∨ (dfa words).run codes = finish ∨
      (dfa words).run codes = dead := by
  induction codes using List.reverseRecOn with
  | nil => exact .inl ⟨[], rfl⟩
  | append_singleton codes code ih =>
    rw [Dfa.run_concat]
    obtain ⟨text, rfl⟩ | h | h := ih
    · cases code with
      | char c => exact .inl ⟨text ++ [c], by simp⟩
      | finish =>
        by_cases hs : (dfa words).run (text.map .char) = start
        · rw [hs]
          exact .inr (.inl rfl)
        · exact .inr (.inr (next_finish hs))
    · rw [h]
      cases code <;> exact .inr (.inr rfl)
    · rw [h]
      cases code <;> exact .inr (.inr rfl)

/-- Inputs that lead to a state in the middle of the input are characters, and the state shows them. -/
theorem shows_run {state : State} (h : (dfa words).run codes = state) (hf : state ≠ finish) (hd : state ≠ dead) :
    ∃ text : List Char, codes = text.map .char ∧ state.Shows words text := by
  obtain ⟨text, rfl⟩ | hr | hr := run_dfa words codes
  · refine ⟨text, rfl, ?_⟩
    rw [← h]
    change ((dfa words).reach text).Shows words text
    rw [reach_dfa]
    exact shows_afterAll words text
  · exact absurd (h.symm.trans hr) hf
  · exact absurd (h.symm.trans hr) hd

/-- Nothing but no input at all leads to the start. -/
theorem run_dfa_eq_start {words : Trie Kind} (h : (dfa words).run codes = start) : codes = [] := by
  obtain ⟨text, rfl, hshows⟩ := shows_run h nofun nofun
  rw [show text = [] from hshows]
  rfl

/-- Automata with different keywords lead to different states behind letters only. -/
theorem run_dfa_eq (words words' : Trie Kind) (codes : List Code) :
    (∃ text, Alphabetic text ∧ codes = text.map .char) ∨ (dfa words).run codes = (dfa words').run codes := by
  refine Dfa.run_eq_run (fun text code ht hc ↦ ?_) (fun codes code ht ↦ ?_) codes
  · by_cases hn : text = []
    · subst hn
      exact next_start hc words words'
    · have hl : Letters text := ⟨hn, ht⟩
      rw [reach_dfa, reach_dfa, afterAll_letters hl, afterAll_letters hl]
      cases code with
      | finish => cases words.walk? text <;> cases words'.walk? text <;> rfl
      | char c =>
        have ha : ¬ c.isAlpha = true := Bool.eq_false_iff.mp hc
        cases words.walk? text <;> cases words'.walk? text <;> simp [dfa, State.next, ofNode, read, ha]
  · refine next_of_ne_start (fun hs ↦ ht ?_) words words' code
    exact ⟨[], .nil, run_dfa_eq_start hs⟩

end State

namespace Table

private theorem mem_span {first : Char} {length : Nat} (hl : first.toNat + length ≤ 128) :
    c ∈ span first length ↔ first.toNat ≤ c.toNat ∧ c.toNat < first.toNat + length := by
  rw [span, List.mem_map]
  constructor
  · rintro ⟨n, hn, rfl⟩
    have hn := List.mem_range'_1.mp hn
    have hv : n.isValidChar := .inl (by omega)
    rwa [toNat_ofNat hv]
  · exact fun h ↦ ⟨c.toNat, List.mem_range'_1.mpr h, Char.ofNat_toNat c⟩

@[simp]
theorem mem_alphabet : c ∈ alphabet ↔ c.isAlpha = true := by
  rw [alphabet, List.mem_append, mem_span (by decide), mem_span (by decide), isAlpha_iff]
  change 97 ≤ _ ∧ _ < 97 + 26 ∨ 65 ≤ _ ∧ _ < 65 + 26 ↔ _
  omega

@[simp]
theorem mem_numerals : c ∈ numerals ↔ c.isDigit = true := by
  rw [numerals, mem_span (by decide), isDigit_iff]
  change 48 ≤ _ ∧ _ < 48 + 10 ↔ _
  omega

@[simp]
theorem mem_punctuation : c ∈ punctuation ↔ c = ' ' ∨ c = '.' ∨ c = ',' := by
  simp [punctuation]

@[simp]
theorem mem_blanks : c ∈ blanks ↔ isBlank c = true := by
  simp [blanks, isBlank, or_assoc]

@[simp]
theorem next_nothing (state : Nat) (code : Code) : (mk #[.blank none]).next state code = State.dead.number := by
  cases state <;> rfl

@[simp]
theorem symbol_nothing (state : Nat) : (mk #[.blank none]).symbol state = none := by
  cases state <;> rfl

private theorem size_base : base.size = 26 := by
  simp [base, addMark]

/-- All numbers of states are taken. -/
theorem number_lt (state : State) : state.number < base.size := by
  rw [size_base]
  cases state with
  | mark m => cases m <;> simp [State.number, Mark.number]
  | _ => simp [State.number]

private theorem number_spell (words : Trie Kind) (c : Char) : (State.spell words c).number = State.letters.number := by
  unfold State.spell
  split <;> rfl

/-- The end of the input is accepted between lexemes only. -/
theorem next_base_finish (state : Nat) :
    base.next state .finish = if state = State.start.number then State.finish.number else State.dead.number := by
  have hrow : base.next state .finish = if state = 1 then 25 else 0 := by
    simp [base, addMark, State.number, Mark.number]
  exact hrow

private theorem next_base_start (words : Trie Kind) (c : Char) :
    base.next State.start.number (.char c) = (State.opening words c).number := by
  have hrow : base.next State.start.number (.char c) =
      if isBlank c then State.blank.number
      else if c = '!' then State.bang.number
      else if c = '=' then Mark.assign.number
      else if c = '>' then Mark.greater.number
      else if c = '<' then Mark.less.number
      else if c = '-' then Mark.minus.number
      else if c = '+' then Mark.plus.number
      else if c = ',' then Mark.comma.number
      else if c = '\x7d' then Mark.closeBrace.number
      else if c = '\x7b' then Mark.openBrace.number
      else if c = ']' then Mark.closeBracket.number
      else if c = '[' then Mark.openBracket.number
      else if c = ')' then Mark.closeParen.number
      else if c = '(' then Mark.openParen.number
      else if c = '"' then State.quote.number
      else if c.isDigit then State.digits.number
      else if c.isAlpha then State.letters.number
      else State.dead.number := by
    simp [base, addMark, State.number, Mark.number]
  rw [hrow]
  -- the classes exclude each other, so it does not matter which of them is looked at first
  by_cases hs : c ∈ [' ', '\t', '\r', '\n', '!', '=', '>', '<', '-', '+', ',', '\x7d', '\x7b', ']', '[', ')', '(',
      '"']
  · simp only [List.mem_cons, List.not_mem_nil, or_false] at hs
    rcases hs with rfl | rfl | rfl | rfl | rfl | rfl | rfl | rfl | rfl | rfl | rfl | rfl | rfl | rfl | rfl | rfl |
      rfl | rfl <;> rfl
  · simp only [List.mem_cons, List.not_mem_nil, or_false, not_or] at hs
    have hm : Mark.ofChar? c = none := by
      unfold Mark.ofChar?
      split <;> simp_all
    have hb : isBlank c = false := by simp [isBlank, hs]
    simp only [hs, hb, if_false, State.opening, hm]
    by_cases hd : c.isDigit = true
    · simp [State.isAlpha_of_isDigit hd, hd]
    · by_cases ha : c.isAlpha = true <;> simp [ha, hd, number_spell]

private theorem next_base_letters (c : Char) :
    base.next State.letters.number (.char c) =
      if c.isAlpha then State.letters.number else if c.isDigit then State.lettersDigits.number
      else State.dead.number := by
  split_ifs with ha hd
  · have hd : ¬ c.isDigit = true := fun hd ↦ by simp [State.isAlpha_of_isDigit hd] at ha
    simp [base, addMark, State.number, Mark.number, ha, hd]
  · simp [base, addMark, State.number, Mark.number, hd]
  · simp [base, addMark, State.number, Mark.number, ha, hd]

private theorem next_base (words : Trie Kind) (state : State) (code : Code) :
    base.next state.number code = (State.next words state code).number := by
  cases code with
  | finish =>
    rw [next_base_finish]
    cases state with
    | mark m => cases m <;> rfl
    | _ => rfl
  | char c =>
    cases state with
    | start => exact next_base_start words c
    | word | letters =>
      refine (next_base_letters c).trans ?_
      rw [State.next, State.read]
      split_ifs <;> simp [number_spell]
    | digits =>
      rw [State.next, State.read]
      split_ifs with hd hp
      · have hp : c ≠ '.' := by
          rintro rfl
          cases hd
        simp [base, addMark, State.number, Mark.number, hd, hp]
      · simp [base, addMark, State.number, Mark.number, hp]
      · simp [base, addMark, State.number, Mark.number, hd, hp]
    | quote =>
      rw [State.next, State.read]
      split_ifs with hq hi
      · simp [base, addMark, State.number, Mark.number, hq]
      · simp only [isQuotable, Bool.or_eq_true, decide_eq_true_eq] at hi
        simp [base, addMark, State.number, Mark.number, hq]
        intro hs hp hc hd
        simpa [hs, hp, hc, hd] using hi
      · simp only [isQuotable, Bool.or_eq_true, decide_eq_true_eq, not_or] at hi
        simp [base, addMark, State.number, Mark.number, hq, hi]
    | mark m =>
      cases m with
      | assign =>
        rw [State.next, State.read]
        split_ifs with h <;> simp [base, addMark, State.number, Mark.number, h]
      | _ => simp [base, addMark, State.number, Mark.number, State.next, State.read]
    | lettersDigits | point | fraction | bang | blank =>
      rw [State.next, State.read]
      split_ifs with h <;> simp [base, addMark, State.number, Mark.number, h]
    | dead | quoted | finish => simp [base, addMark, State.number, Mark.number, State.next, State.read]

/-- States are complete for the same kinds, as long as they know no keyword. -/
theorem symbol_base {state : State} (h : ∀ kind below, state ≠ .word kind below) :
    base.symbol state.number = state.symbol := by
  cases state with
  | word kind below => exact absurd rfl (h kind below)
  | mark m => cases m <;> simp [base, addMark, State.number, Mark.number, State.symbol]
  | _ => simp [base, addMark, State.number, Mark.number, State.symbol]

/-- The table follows every automaton. -/
theorem run_base (words : Trie Kind) (codes : List Code) :
    base.dfa.run codes = ((State.dfa words).run codes).number := by
  induction codes using List.reverseRecOn with
  | nil => rfl
  | append_singleton codes code ih =>
    rw [Dfa.run_concat, Dfa.run_concat, ih, dfa_next]
    exact next_base words _ code

/-- Letters lead to the state of plain identifiers. -/
theorem reach_base {text : List Char} (h : Letters text) : base.dfa.reach text = State.letters.number := by
  have hr : base.dfa.reach text = ((State.dfa .empty).reach text).number := run_base .empty _
  rw [hr, State.reach_dfa, State.afterAll_letters h]
  cases Trie.empty.walk? text <;> rfl

end Table

end Cityscape
