import Cityscape.Proofs.DeadEnd
import Cityscape.Proofs.Threading

/-!
# Automata with keywords

There are two automata for any list of keywords: one whose states say what they mean and one that is laid out as a
table. Both do with keywords what an automaton has to do: each of the words is of its own kind, every other name is an
identifier, and what is no name is treated as without any keywords. This says what becomes of every input, so both do
the same, and so do any two that got the keywords in different orders. With the keywords of scripts they recognize
the lexical classes.
-/

namespace Cityscape

variable {σ τ : Type} {words : List (List Char × Kind)} {text : List Char} {codes : List Code}

namespace Dfa

/-- Automata do the same with all inputs: these lead to states that are complete for the same kind, or to dead ones. -/
def Alike (first : Dfa σ) (second : Dfa τ) : Prop :=
  ∀ codes, first.symbol (first.run codes) = second.symbol (second.run codes) ∧
    (first.run codes = first.dead ↔ second.run codes = second.dead)

private theorem Alike.refl (dfa : Dfa σ) : dfa.Alike dfa :=
  fun _ ↦ ⟨rfl, Iff.rfl⟩

private theorem Alike.symm {first : Dfa σ} {second : Dfa τ} (h : first.Alike second) : second.Alike first :=
  fun codes ↦ ⟨(h codes).1.symm, (h codes).2.symm⟩

/--
An automaton treats words as keywords: they have their own kinds, all other names are identifiers, and everything
else is treated as without keywords.
-/
structure Knows (dfa plain : Dfa σ) (words : List (List Char × Kind)) : Prop where
  dead_eq : dfa.dead = plain.dead
  symbol_dead : dfa.symbol dfa.dead = none
  keyword : ∀ entry ∈ words, dfa.classify? entry.1 = some entry.2
  identifier : ∀ text, Name text → text ∉ words.map Prod.fst → dfa.classify? text = some .identifier
  other : ∀ codes, (∀ text, Name text → codes ≠ text.map .char) →
    dfa.run codes = plain.run codes ∧ dfa.symbol (dfa.run codes) = plain.symbol (plain.run codes)

private theorem Knows.reach_ne_dead {dfa plain : Dfa σ} {kind : Kind} (h : dfa.Knows plain words)
    (hc : dfa.classify? text = some kind) : dfa.reach text ≠ dfa.dead := by
  intro hd
  rw [classify?, hd, h.symbol_dead] at hc
  cases hc

private theorem Knows.alike {first firstPlain : Dfa σ} {second secondPlain : Dfa τ} {other : List (List Char × Kind)}
    (hf : first.Knows firstPlain words) (hs : second.Knows secondPlain other) (hw : words.Perm other)
    (hp : firstPlain.Alike secondPlain) : first.Alike second := by
  intro codes
  by_cases hname : ∃ text, Name text ∧ codes = text.map .char
  · obtain ⟨text, hname, rfl⟩ := hname
    have hclass : ∃ kind, first.classify? text = some kind ∧ second.classify? text = some kind := by
      by_cases hm : text ∈ words.map Prod.fst
      · obtain ⟨entry, he, rfl⟩ := List.mem_map.mp hm
        exact ⟨entry.2, hf.keyword entry he, hs.keyword entry (hw.mem_iff.mp he)⟩
      · exact ⟨.identifier, hf.identifier text hname hm,
          hs.identifier text hname (mt (hw.map Prod.fst).mem_iff.mpr hm)⟩
    obtain ⟨kind, hfirst, hsecond⟩ := hclass
    exact ⟨hfirst.trans hsecond.symm, iff_of_false (hf.reach_ne_dead hfirst) (hs.reach_ne_dead hsecond)⟩
  · have hother : ∀ text, Name text → codes ≠ text.map .char := fun text ht he ↦ hname ⟨text, ht, he⟩
    obtain ⟨hfrun, hfsymbol⟩ := hf.other codes hother
    obtain ⟨hsrun, hssymbol⟩ := hs.other codes hother
    rw [hfsymbol, hssymbol, hfrun, hsrun, hf.dead_eq, hs.dead_eq]
    exact hp codes

/-- An automaton differs from a plain one behind letters only, and of these it finds the kinds in a trie. -/
structure Overlays (dfa plain : Dfa σ) (trie : Trie Kind) : Prop where
  start_eq : dfa.start = plain.start
  dead_eq : dfa.dead = plain.dead
  symbol_dead : dfa.symbol dfa.dead = none
  symbol_eq : ∀ codes, dfa.symbol (plain.run codes) = plain.symbol (plain.run codes)
  letters : ∀ text, Letters text → dfa.classify? text = some ((trie.find? text).getD .identifier)
  run_eq : ∀ codes, (∃ text, Alphabetic text ∧ codes = text.map .char) ∨ dfa.run codes = plain.run codes

namespace Overlays

variable {dfa plain : Dfa σ} {trie : Trie Kind}

private theorem lettersDigits (h : dfa.Overlays plain trie) (hp : plain.Alike (State.dfa .empty))
    {letters digits : List Char}
    (hl : Letters letters) (hd : Digits digits) : dfa.classify? (letters ++ digits) = some .identifier := by
  have hplain : plain.classify? (letters ++ digits) = some .identifier := by
    refine (hp _).1.trans ?_
    change (State.dfa .empty).symbol ((State.dfa .empty).reach _) = _
    rw [State.reach_dfa, State.afterAll_lettersDigits hl hd]
    rfl
  obtain ⟨text, ht, he⟩ | he := h.run_eq ((letters ++ digits).map .char)
  · obtain ⟨hn, hd⟩ := hd
    obtain ⟨d, hm⟩ := List.exists_mem_of_ne_nil _ hn
    rw [← List.map_injective_iff.mpr (fun _ _ ↦ Code.char.inj) he] at ht
    have ha := ht d (List.mem_append_right _ hm)
    rw [State.isAlpha_of_isDigit (hd d hm)] at ha
    cases ha
  · rw [classify?, reach, he, h.symbol_eq]
    exact hplain

private theorem knows (h : dfa.Overlays plain (.ofList words)) (hp : plain.Alike (State.dfa .empty))
    (hn : (words.map Prod.fst).Nodup) (hw : ∀ entry ∈ words, Letters entry.1) : dfa.Knows plain words := by
  have hfind {text : List Char} {kind : Kind} : (Trie.ofList words).find? text = some kind ↔ (text, kind) ∈ words :=
    Trie.find?_ofList hn fun entry he ↦ (hw entry he).1
  refine ⟨h.dead_eq, h.symbol_dead, ?keyword, ?identifier, ?other⟩
  case keyword =>
    intro entry he
    rw [h.letters _ (hw entry he), hfind.mpr he]
    rfl
  case identifier =>
    rintro _ ⟨letters, digits, rfl, hl, hd⟩ hm
    by_cases he : digits = []
    · subst he
      rw [List.append_nil] at hm ⊢
      have hnone : (Trie.ofList words).find? letters = none :=
        Option.eq_none_iff_forall_not_mem.mpr fun kind hk ↦ hm (List.mem_map.mpr ⟨_, hfind.mp hk, rfl⟩)
      rw [h.letters _ hl, hnone]
      rfl
    · exact h.lettersDigits hp hl ⟨he, hd⟩
  case other =>
    intro codes hother
    have he : dfa.run codes = plain.run codes := by
      obtain ⟨text, ht, rfl⟩ | he := h.run_eq codes
      · by_cases hn : text = []
        · subst hn
          exact h.start_eq
        · exact absurd rfl (hother text ⟨text, [], by simp, ⟨hn, ht⟩, by simp⟩)
      · exact he
    exact ⟨he, he ▸ h.symbol_eq codes⟩

end Overlays

end Dfa

namespace State

private theorem overlays (words : Trie Kind) : (dfa words).Overlays (dfa .empty) words where
  start_eq := rfl
  dead_eq := rfl
  symbol_dead := rfl
  symbol_eq _ := rfl
  letters text ht := by
    rw [Dfa.classify?, reach_dfa]
    exact symbol_afterAll_letters ht
  run_eq codes := run_dfa_eq words .empty codes

private theorem number_eq_dead {state : State} : state.number = dead.number ↔ state = dead := by
  cases state with
  | mark m => cases m <;> simp [number, Mark.number]
  | _ => simp [number]

private theorem number_eq_start {state : State} : state.number = start.number ↔ state = start := by
  cases state with
  | mark m => cases m <;> simp [number, Mark.number]
  | _ => simp [number]

private theorem run_dfa_empty_ne_word (codes : List Code) (kind : Option Kind) (below : Trie Kind) :
    (dfa .empty).run codes ≠ word kind below := by
  intro h
  obtain ⟨text, rfl, hl, hw⟩ := shows_run h nofun nofun
  have hlabel := Trie.label_empty hl.1
  rw [Trie.label, hw] at hlabel
  cases hlabel

end State

namespace Table

private theorem base_alike : base.dfa.Alike (State.dfa .empty) := by
  intro codes
  rw [run_base .empty, dfa_symbol, dfa_dead]
  exact ⟨symbol_base (State.run_dfa_empty_ne_word codes), State.number_eq_dead⟩

variable {table : Table} {trie : Trie Kind} {label : Labels}

private theorem Lays.classify? (h : table.Lays trie.label) (ht : Letters text) :
    table.dfa.classify? text = some ((trie.find? text).getD .identifier) := by
  rw [Trie.find?_eq_label]
  cases hl : trie.label text with
  | none =>
    have hs : Table.base.symbol State.letters.number = some .identifier := symbol_base nofun
    rw [Dfa.classify?, dfa_symbol, h.plain text ht hl, h.symbol_old _ (number_lt _), hs]
    rfl
  | some kind => exact (h.known text kind ht hl).2.2

private theorem Lays.next_reach (h : table.Lays label) {code : Code} (ht : Alphabetic text)
    (hc : code.isLetter = false) :
    table.next (table.dfa.reach text) code = Table.base.next (Table.base.dfa.reach text) code := by
  by_cases hn : text = []
  · subst hn
    exact h.next_old _ (number_lt .start) _ (.inr hc)
  · have hl : Letters text := ⟨hn, ht⟩
    rw [reach_base hl]
    cases hlabel : label text with
    | none =>
      rw [h.plain text hl hlabel]
      exact h.next_old _ (number_lt _) _ (.inr hc)
    | some kind =>
      obtain ⟨hle, hlt, -⟩ := h.known text kind hl hlabel
      exact h.next_new _ hle hlt code hc

private theorem Lays.overlays (h : table.Lays trie.label) : table.dfa.Overlays Table.base.dfa trie where
  start_eq := by rw [dfa_start, dfa_start]
  dead_eq := by rw [dfa_dead, dfa_dead]
  symbol_dead := by
    have hs : Table.base.symbol State.dead.number = none := symbol_base nofun
    rw [dfa_symbol, dfa_dead, h.symbol_old _ (number_lt .dead), hs]
  symbol_eq codes := by
    rw [run_base .empty, dfa_symbol, dfa_symbol, h.symbol_old _ (number_lt _)]
  letters _ ht := h.classify? ht
  run_eq := by
    refine Dfa.run_eq_run ?_ ?_ <;> rw [dfa_next, dfa_next]
    · exact fun text code ht hc ↦ h.next_reach ht hc
    · intro codes code hc
      rw [run_base .empty]
      refine h.next_old _ (number_lt _) code (.inl fun hs ↦ hc ?_)
      exact ⟨[], .nil, State.run_dfa_eq_start (State.number_eq_start.mp hs)⟩

end Table

section

variable (hn : (words.map Prod.fst).Nodup) (hw : ∀ entry ∈ words, Letters entry.1)

include hn hw

private theorem State.knows_ofList : (State.dfa (.ofList words)).Knows (State.dfa .empty) words :=
  (State.overlays _).knows (.refl _) hn hw

private theorem Table.knows_ofList : (Table.ofList words).dfa.Knows Table.base.dfa words :=
  (Table.Lays.ofList hw).overlays.knows Table.base_alike hn hw

private theorem Table.ofList_alike : (Table.ofList words).dfa.Alike (State.dfa (.ofList words)) :=
  (Table.knows_ofList hn hw).alike (State.knows_ofList hn hw) (.refl words) Table.base_alike

end

/--
Keywords may be any words of letters that are different from each other. Both automata know them, and in whatever
order they are added, the automata do the same with all inputs, also if one keyword begins with another one.
-/
theorem keywords_laid_over_names (hn : (words.map Prod.fst).Nodup) (hw : ∀ entry ∈ words, Letters entry.1) :
    (Table.ofList words).dfa.Knows Table.base.dfa words ∧ (State.dfa (.ofList words)).Knows (State.dfa .empty) words ∧
      ∀ other, other.Perm words → (Table.ofList other).dfa.Alike (Table.ofList words).dfa ∧
        (State.dfa (.ofList other)).Alike (State.dfa (.ofList words)) := by
  refine ⟨Table.knows_ofList hn hw, State.knows_ofList hn hw, fun other ho ↦ ?_⟩
  have hn' : (other.map Prod.fst).Nodup := (ho.map Prod.fst).nodup_iff.mpr hn
  have hw' : ∀ entry ∈ other, Letters entry.1 := fun entry he ↦ hw entry (ho.mem_iff.mp he)
  exact ⟨(Table.knows_ofList hn' hw').alike (Table.knows_ofList hn hw) ho (.refl _),
    (State.knows_ofList hn' hw').alike (State.knows_ofList hn hw) ho (.refl _)⟩

/-- Words that begin with each other. -/
def nestedWords : List (List Char × Kind) :=
  [(['i', 'n', 't'], .keyword .declareInt), (['i', 'n'], .mark .plus), (['i', 'n', 't', 'o'], .keyword .city)]

/-- Words that begin with each other are known in any order. -/
theorem keywords_laid_over_names_nestedWords :
    (nestedWords.map Prod.fst).Nodup ∧ (∀ entry ∈ nestedWords, Letters entry.1) ∧
      (Table.ofList nestedWords).dfa.Knows Table.base.dfa nestedWords ∧
      (State.dfa (.ofList nestedWords)).Knows (State.dfa .empty) nestedWords ∧
      (Table.ofList nestedWords.reverse).dfa.Alike (Table.ofList nestedWords).dfa ∧
      (State.dfa (.ofList nestedWords.reverse)).Alike (State.dfa (.ofList nestedWords)) := by
  have hn : (nestedWords.map Prod.fst).Nodup := by decide
  have hw : ∀ entry ∈ nestedWords, Letters entry.1 := by simp [nestedWords, Letters]
  obtain ⟨htable, hstate, horder⟩ := keywords_laid_over_names hn hw
  exact ⟨hn, hw, htable, hstate, horder _ nestedWords.reverse_perm⟩

/--
An automaton recognizes the lexical classes: a text leads to a state that is complete for a kind if it is a lexeme of
this kind, and to the dead state if no lexeme begins with it. The end of the input is a token of its own where nothing
stands before it, and nowhere else.
-/
structure Dfa.Recognizes (dfa : Dfa σ) : Prop where
  classify?_iff : ∀ text kind, dfa.classify? text = some kind ↔ kind.Class text
  reach_eq_dead : ∀ text, dfa.reach text = dfa.dead ↔ ¬ ∃ kind more, Kind.Class kind (text ++ more)
  symbol_finish : dfa.symbol (dfa.next dfa.start .finish) = some .finish
  eq_start : ∀ state, dfa.next state .finish ≠ dfa.dead → state = dfa.start
  finish_dead : ∀ text, text ≠ [] → dfa.next (dfa.reach text) .finish = dfa.dead

private theorem Dfa.Recognizes.of_alike {first : Dfa σ} {second : Dfa τ} (h : first.Recognizes)
    (ha : first.Alike second)
    (hs : ∀ state, second.next state .finish ≠ second.dead → state = second.start) : second.Recognizes where
  classify?_iff text kind := by
    rw [← h.classify?_iff]
    exact (congrArg (· = some kind) (ha _).1.symm).to_iff
  reach_eq_dead text := (ha _).2.symm.trans (h.reach_eq_dead text)
  symbol_finish := (ha [.finish]).1.symm.trans h.symbol_finish
  eq_start := hs
  finish_dead text hn := by
    have hd := (ha (text.map .char ++ [.finish])).2
    rw [run_concat, run_concat] at hd
    exact hd.mp (h.finish_dead text hn)

private theorem State.recognizes_keywords : (State.dfa keywords).Recognizes where
  classify?_iff text kind := by
    rw [Dfa.classify?, reach_dfa]
    exact symbol_afterAll_iff
  reach_eq_dead text := by
    rw [reach_dfa]
    constructor
    · rintro hd ⟨kind, more, hc⟩
      apply hc.live
      rw [afterAll_append, show start.afterAll keywords text = dead from hd, afterAll_dead]
    · intro hc
      by_contra hl
      cases hs : (start.afterAll keywords text).symbol with
      | some kind => exact hc ⟨kind, [], by simpa using symbol_afterAll_iff.mp hs⟩
      | none => exact hc (exists_class_of_live hl hs)
  symbol_finish := rfl
  eq_start state hs := by
    by_contra hn
    exact hs (next_finish hn)
  finish_dead text hn := by
    refine next_finish fun hs ↦ hn ?_
    exact List.map_eq_nil_iff.mp (run_dfa_eq_start hs)

private theorem Keyword.letters_spelling :
    ∀ entry ∈ all.map fun word ↦ (word.spelling.toList, Kind.keyword word), Letters entry.1 := by
  intro entry he
  obtain ⟨word, -, rfl⟩ := List.mem_map.mp he
  cases word <;> simp [Letters, spelling]

namespace Table

private theorem lays_keywords : keywords.Lays Cityscape.keywords.label :=
  .ofList Keyword.letters_spelling

private theorem keywords_alike : keywords.dfa.Alike (State.dfa Cityscape.keywords) :=
  ofList_alike (by decide +kernel) Keyword.letters_spelling

private theorem recognizes_keywords : keywords.dfa.Recognizes := by
  refine State.recognizes_keywords.of_alike keywords_alike.symm ?_
  intro state hs
  by_contra hn
  rw [dfa_next, lays_keywords.next_finish, dfa_dead] at hs
  exact hs (if_neg hn)

end Table

/-- Both automata recognize the lexical classes of scripts. -/
theorem keywords_recognize_classes : (State.dfa keywords).Recognizes ∧ Table.keywords.dfa.Recognizes :=
  ⟨State.recognizes_keywords, Table.recognizes_keywords⟩

end Cityscape
