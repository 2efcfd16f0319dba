import Mathlib.Data.List.Induction
import Mathlib.Tactic.Conv
import Mathlib.Tactic.SplitIfs
import Cityscape.Proofs.Characters
import Cityscape.Token.Scan

/-!
# The lexical classes

Every kind of token has a class of texts, its lexemes. The automaton recognizes these classes: after any text
its state says what the text looks like, and the state is complete for a kind exactly if the text is a lexeme
of this kind. The keywords are known from their trie, in which a word is found if and only if it was inserted.
-/

namespace Cityscape

/-! ### Words of tries -/

namespace Trie

variable {α : Type} {trie : Trie α} {value : α} {letter first : Char} {word rest : List Char}

/-- Follows letters one after the other: the value of the word read and the words that go on. -/
def walk? (trie : Trie α) (letters : List Char) : Option (Option α × Trie α) :=
  letters.foldlM (fun node letter ↦ node.2.follow? letter) (none, trie)

private theorem find?_cons (trie : Trie α) (letter : Char) (rest : List Char) :
    trie.find? (letter :: rest) =
      (trie.follow? letter).bind fun node ↦ if rest = [] then node.1 else node.2.find? rest := by
  conv_lhs => unfold find?
  cases trie.follow? letter with
  | none => rfl
  | some node => cases rest <;> rfl

/-- An empty trie has no words. -/
@[simp]
theorem find?_empty (word : List Char) : (empty : Trie α).find? word = none := by
  cases word with
  | nil => rfl
  | cons letter rest => rw [find?_cons, follow?, Option.bind_none]

/-- A word has the value that its last letter leads to. -/
theorem find?_eq_walk? (trie : Trie α) (word : List Char) :
    trie.find? word = (trie.walk? word).bind Prod.fst := by
  induction word generalizing trie with
  | nil => simp [find?, walk?]
  | cons letter rest ih =>
    rw [find?_cons, walk?, List.foldlM_cons]
    cases trie.follow? letter with
    | none => simp
    | some node =>
      cases rest with
      | nil => simp
      | cons next rest => simpa [walk?] using ih node.2

/-- Behind the first letter of an inserted word stands its value, or the rest of it is inserted. -/
theorem follow?_insert (trie : Trie α) (value : α) (first : Char) (rest : List Char) (letter : Char) :
    (trie.insert value (first :: rest)).follow? letter =
      if letter = first then
        let node := (trie.follow? first).getD (none, empty)
        some (if rest = [] then (some value, node.2) else (node.1, node.2.insert value rest))
      else trie.follow? letter := by
  induction trie with
  | empty =>
    cases rest with
    | nil => by_cases h : letter = first <;> simp [insert, single, follow?, h]
    | cons next rest => by_cases h : letter = first <;> simp [insert, single, follow?, h]
  | branch here hereValue below others _ ih =>
    by_cases hf : first = here
    · cases rest <;> by_cases h : letter = first <;> simp_all [insert, follow?]
    · by_cases h : letter = here
      · have hn : ¬ here = first := fun he ↦ hf he.symm
        simp [insert, follow?, hf, h, hn]
      · simp [insert, follow?, hf, h, ih]

private theorem find?_insert (trie : Trie α) (value : α) {word : List Char} (hw : word ≠ []) (other : List Char) :
    (trie.insert value word).find? other = if other = word then some value else trie.find? other := by
  induction word generalizing trie other with
  | nil => exact absurd rfl hw
  | cons first rest ih =>
    cases other with
    | nil => simp [find?]
    | cons letter more =>
      rw [find?_cons, find?_cons, follow?_insert]
      by_cases hl : letter = first
      · subst hl
        by_cases hr : rest = []
        · cases trie.follow? letter <;> by_cases hm : more = [] <;> simp [hr, hm]
        · cases trie.follow? letter <;> by_cases hm : more = [] <;> simp [hr, hm, ih _ hr]
      · simp [hl]

private theorem find?_foldl_insert {words : List (List Char × α)} (hn : (words.map Prod.fst).Nodup)
    (he : ∀ entry ∈ words, entry.1 ≠ []) (trie : Trie α) (text : List Char) (value : α) :
    (words.foldl (fun trie entry ↦ trie.insert entry.2 entry.1) trie).find? text = some value ↔
      (text, value) ∈ words ∨ text ∉ words.map Prod.fst ∧ trie.find? text = some value := by
  induction words generalizing trie with
  | nil => simp
  | cons entry words ih =>
    obtain ⟨word, here⟩ := entry
    obtain ⟨hw, hn⟩ := List.nodup_cons.mp hn
    obtain ⟨hword, he⟩ := List.forall_mem_cons.mp he
    rw [List.foldl_cons, ih hn he, find?_insert trie here hword]
    by_cases ht : text = word
    · subst ht
      have hm : (text, value) ∉ words := fun h ↦ hw (List.mem_map.mpr ⟨_, h, rfl⟩)
      simp_all [eq_comm]
    · simp [ht]

/-- The words of a trie are those that it was made of, if no word was given twice. -/
theorem find?_ofList {words : List (List Char × α)} (hn : (words.map Prod.fst).Nodup)
    (he : ∀ entry ∈ words, entry.1 ≠ []) {text : List Char} {value : α} :
    (ofList words).find? text = some value ↔ (text, value) ∈ words := by
  rw [ofList, find?_foldl_insert hn he]
  simp

end Trie

private theorem find?_keywords {text : List Char} {kind : Kind} :
    keywords.find? text = some kind ↔ ∃ word : Keyword, kind = .keyword word ∧ text = word.spelling.toList := by
  have hn : ((Keyword.all.map fun word ↦ (word.spelling.toList, Kind.keyword word)).map Prod.fst).Nodup := by
    decide +kernel
  have he : ∀ entry ∈ Keyword.all.map fun word ↦ (word.spelling.toList, Kind.keyword word), entry.1 ≠ [] := by
    decide +kernel
  have ha (word : Keyword) : word ∈ Keyword.all := by
    cases word <;> decide
  rw [keywords, Trie.find?_ofList hn he, List.mem_map]
  constructor
  · rintro ⟨word, _, h⟩
    cases h
    exact ⟨word, rfl, rfl⟩
  · rintro ⟨word, rfl, rfl⟩
    exact ⟨word, ha word, rfl⟩

/-! ### Classes -/

/-- Characters that may stand between quotes. -/
def Quotable (text : List Char) : Prop :=
  ∀ c ∈ text, isQuotable c = true

instance (text : List Char) : Decidable (Quotable text) :=
  List.decidableBAll _ text

/-- A nonempty run of letters. -/
def Letters (text : List Char) : Prop :=
  text ≠ [] ∧ ∀ c ∈ text, c.isAlpha = true

/-- Letters and then digits, of which there may be none. -/
def Name (text : List Char) : Prop :=
  ∃ letters digits, text = letters ++ digits ∧ Letters letters ∧ ∀ c ∈ digits, c.isDigit = true

/-- The lexemes of a kind. What spells a keyword is no identifier, and no lexeme says that the input ends. -/
def Kind.Class : Kind → List Char → Prop
  | integer, text => Digits text
  | double, text => ∃ whole fraction, text = whole ++ '.' :: fraction ∧ Digits whole ∧ Digits fraction
  | string, text => ∃ inner, text = '"' :: (inner ++ ['"']) ∧ Quotable inner
  | identifier, text => Name text ∧ ∀ word : Keyword, text ≠ word.spelling.toList
  | keyword word, text => text = word.spelling.toList
  | mark m, text => text = m.spelling.toList
  | blank, text => text ≠ [] ∧ ∀ c ∈ text, isBlank c = true
  | finish, _ => False

private theorem Letters.snoc {text : List Char} {c : Char} (h : Letters text) (hc : c.isAlpha = true) :
    Letters (text ++ [c]) :=
  ⟨by simp, by simpa [hc, or_imp, forall_and] using h.2⟩

namespace State

variable {words : Trie Kind} {state : State} {text rest : List Char} {c : Char}

/-- The state that characters lead to. -/
def afterAll (words : Trie Kind) (state : State) (text : List Char) : State :=
  text.foldl (read words) state

/-- One text after the other. -/
theorem afterAll_append (words : Trie Kind) (state : State) (first second : List Char) :
    state.afterAll words (first ++ second) = (state.afterAll words first).afterAll words second := by
  simp [afterAll]

/-- Nothing leads out of the dead state. -/
theorem afterAll_dead (words : Trie Kind) (text : List Char) : dead.afterAll words text = dead := by
  induction text with
  | nil => rfl
  | cons c text ih => exact ih

/-- The state behind what the automaton takes. -/
theorem munch_state (words : Trie Kind) (state : State) (text : List Char) :
    (munch words state text).state = state.afterAll words (munch words state text).taken := by
  induction text generalizing state with
  | nil => rfl
  | cons c rest ih =>
    rw [munch]
    split
    · rfl
    · exact ih (state.read words c)

/-- The automaton takes a text if it survives all of it but not the next character. -/
theorem munch_append (h : state.afterAll words text ≠ dead)
    (hr : ∀ c ∈ rest.head?, (state.afterAll words text).read words c = dead) :
    munch words state (text ++ rest) = ⟨text, state.afterAll words text, rest⟩ := by
  induction text generalizing state with
  | nil =>
    cases rest with
    | nil => rfl
    | cons c rest =>
      exact if_pos (hr c rfl)
  | cons c text ih =>
    have hc : state.read words c ≠ dead := by
      intro hc
      apply h
      change (state.read words c).afterAll words text = dead
      rw [hc, afterAll_dead]
    rw [List.cons_append, munch, if_neg hc, ih h hr]
    rfl

/-- Characters that keep a state. -/
theorem afterAll_eq_self (h : ∀ c ∈ text, state.read words c = state) : state.afterAll words text = state := by
  induction text with
  | nil => rfl
  | cons c text ih =>
    change (state.read words c).afterAll words text = state
    rw [h c List.mem_cons_self]
    exact ih fun d hd ↦ h d (List.mem_cons_of_mem c hd)

/-- The state behind letters, from where they lead to in the trie. -/
def ofNode : Option (Option Kind × Trie Kind) → State
  | some (kind, below) => word kind below
  | none => letters

/-- What a state says about the text that leads to it; the dead state says nothing. -/
def Shows (words : Trie Kind) : State → List Char → Prop
  | dead, _ => True
  | finish, _ => False
  | start, text => text = []
  | word kind below, text => Letters text ∧ words.walk? text = some (kind, below)
  | letters, text => Letters text ∧ words.walk? text = none
  | lettersDigits, text => ∃ letters digits, text = letters ++ digits ∧ Letters letters ∧ Digits digits
  | digits, text => Digits text
  | point, text => ∃ whole, text = whole ++ ['.'] ∧ Digits whole
  | fraction, text => Kind.double.Class text
  | quote, text => ∃ inner, text = '"' :: inner ∧ Quotable inner
  | quoted, text => Kind.string.Class text
  | mark m, text => text = m.spelling.toList
  | bang, text => text = ['!']
  | blank, text => Kind.blank.Class text

/-! ### Texts lead to the states that show them -/

/-- Digits are no letters. -/
theorem isAlpha_of_isDigit (h : c.isDigit = true) : c.isAlpha = false := by
  rw [Bool.eq_false_iff]
  intro ha
  rw [isAlpha_iff] at ha
  rw [isDigit_iff] at h
  omega

private theorem read_ofNode_letter (node : Option (Option Kind × Trie Kind)) (hc : c.isAlpha = true) :
    (ofNode node).read words c = ofNode (node >>= fun node ↦ node.2.follow? c) := by
  cases node with
  | none => simp [ofNode, read, hc]
  | some node =>
    simp only [ofNode, read, hc, if_true, spell]
    cases hf : node.2.follow? c <;> simp [hf]

private theorem read_ofNode_digit (node : Option (Option Kind × Trie Kind)) (hc : c.isDigit = true) :
    (ofNode node).read words c = lettersDigits := by
  cases node <;> simp [ofNode, read, isAlpha_of_isDigit hc, hc]

private theorem afterAll_ofNode (node : Option (Option Kind × Trie Kind)) (h : ∀ c ∈ text, c.isAlpha = true) :
    (ofNode node).afterAll words text =
      ofNode (node >>= fun node ↦ text.foldlM (fun node letter ↦ node.2.follow? letter) node) := by
  induction text generalizing node with
  | nil => cases node <;> rfl
  | cons c text ih =>
    obtain ⟨hc, h⟩ := List.forall_mem_cons.mp h
    change ((ofNode node).read words c).afterAll words text = _
    rw [read_ofNode_letter node hc, ih _ h]
    cases node <;> simp

/-- Letters lead to their node. -/
theorem afterAll_letters (h : Letters text) : start.afterAll words text = ofNode (words.walk? text) := by
  obtain ⟨hn, h⟩ := h
  cases text with
  | nil => exact absurd rfl hn
  | cons c text =>
    obtain ⟨hc, h⟩ := List.forall_mem_cons.mp h
    have ho : opening words c = ofNode (words.follow? c) := by
      rw [opening, if_pos hc, spell]
      cases words.follow? c <;> rfl
    change (opening words c).afterAll words text = _
    rw [ho, afterAll_ofNode _ h, Trie.walk?, List.foldlM_cons]

/-- Letters and digits. -/
theorem afterAll_lettersDigits {letters digits : List Char} (hl : Letters letters) (hd : Digits digits) :
    start.afterAll words (letters ++ digits) = lettersDigits := by
  obtain ⟨hn, hd⟩ := hd
  cases digits with
  | nil => exact absurd rfl hn
  | cons d digits =>
    obtain ⟨hc, hd⟩ := List.forall_mem_cons.mp hd
    rw [afterAll_append, afterAll_letters hl]
    change ((ofNode _).read words d).afterAll words digits = _
    rw [read_ofNode_digit _ hc]
    exact afterAll_eq_self fun c h ↦ if_pos (hd c h)

/-- Digits. -/
theorem afterAll_digits (h : Digits text) : start.afterAll words text = digits := by
  obtain ⟨hn, h⟩ := h
  cases text with
  | nil => exact absurd rfl hn
  | cons c text =>
    obtain ⟨hc, h⟩ := List.forall_mem_cons.mp h
    have ho : opening words c = digits := by
      simp [opening, isAlpha_of_isDigit hc, hc]
    change (opening words c).afterAll words text = _
    rw [ho]
    exact afterAll_eq_self fun d hd ↦ if_pos (h d hd)

private theorem afterAll_point {whole : List Char} (h : Digits whole) :
    start.afterAll words (whole ++ ['.']) = point := by
  rw [afterAll_append, afterAll_digits h]
  rfl

/-- Digits around a point. -/
theorem afterAll_fraction {whole fraction : List Char} (hw : Digits whole) (hf : Digits fraction) :
    start.afterAll words (whole ++ '.' :: fraction) = State.fraction := by
  obtain ⟨hn, hf⟩ := hf
  cases fraction with
  | nil => exact absurd rfl hn
  | cons c fraction =>
    obtain ⟨hc, hf⟩ := List.forall_mem_cons.mp hf
    rw [List.append_cons, afterAll_append, afterAll_point hw]
    change (point.read words c).afterAll words fraction = _
    rw [show point.read words c = State.fraction from if_pos hc]
    exact afterAll_eq_self fun d hd ↦ if_pos (hf d hd)

/-- A quote and what may follow it. -/
theorem afterAll_quote {inner : List Char} (h : Quotable inner) :
    start.afterAll words ('"' :: inner) = quote := by
  change quote.afterAll words inner = quote
  refine afterAll_eq_self fun c hc ↦ ?_
  have hn : c ≠ '"' := by
    rintro rfl
    cases h _ hc
  simp [read, hn, h c hc]

/-- Quotable characters between quotes. -/
theorem afterAll_quoted {inner : List Char} (h : Quotable inner) :
    start.afterAll words ('"' :: (inner ++ ['"'])) = quoted := by
  rw [← List.cons_append, afterAll_append, afterAll_quote h]
  rfl

/-- A blank begins a run of blanks. -/
theorem opening_blank (hc : isBlank c = true) : opening words c = blank := by
  simp only [isBlank, Bool.or_eq_true, decide_eq_true_eq] at hc
  rcases hc with ((rfl | rfl) | rfl) | rfl <;> rfl

private theorem afterAll_blank (h : Kind.blank.Class text) : start.afterAll words text = blank := by
  obtain ⟨hn, h⟩ := h
  cases text with
  | nil => exact absurd rfl hn
  | cons c text =>
    obtain ⟨hc, h⟩ := List.forall_mem_cons.mp h
    change (opening words c).afterAll words text = _
    rw [opening_blank hc]
    exact afterAll_eq_self fun d hd ↦ if_pos (h d hd)

private theorem afterAll_of_shows (hl : state ≠ dead) (h : state.Shows words text) :
    start.afterAll words text = state := by
  cases state with
  | dead => exact absurd rfl hl
  | finish => exact h.elim
  | start => rw [show text = [] from h]; rfl
  | word | letters => rw [afterAll_letters h.1, h.2]; rfl
  | lettersDigits =>
    obtain ⟨letters, digits, rfl, hl, hd⟩ := h
    exact afterAll_lettersDigits hl hd
  | digits => exact afterAll_digits h
  | point =>
    obtain ⟨whole, rfl, hw⟩ := h
    exact afterAll_point hw
  | fraction =>
    obtain ⟨whole, fraction, rfl, hw, hf⟩ := h
    exact afterAll_fraction hw hf
  | quote =>
    obtain ⟨inner, rfl, hi⟩ := h
    exact afterAll_quote hi
  | quoted =>
    obtain ⟨inner, rfl, hi⟩ := h
    exact afterAll_quoted hi
  | mark m =>
    rw [show text = m.spelling.toList from h]
    cases m <;> rfl
  | bang => rw [show text = ['!'] from h]; rfl
  | blank => exact afterAll_blank h

/-! ### States show the texts that lead to them -/

private theorem shows_ofNode (words : Trie Kind) (h : Letters text) : (ofNode (words.walk? text)).Shows words text := by
  cases hw : words.walk? text with
  | none => exact ⟨h, hw⟩
  | some node => exact ⟨h, hw⟩

private theorem spelling_of_ofChar? {m : Mark} (h : Mark.ofChar? c = some m) : [c] = m.spelling.toList := by
  unfold Mark.ofChar? at h
  split at h <;> cases h <;> rfl

private theorem shows_opening (words : Trie Kind) (c : Char) : (opening words c).Shows words [c] := by
  by_cases ha : c.isAlpha = true
  · have hl : Letters [c] := ⟨List.cons_ne_nil _ _, by simpa using ha⟩
    have hs := shows_ofNode words hl
    rw [← afterAll_letters hl] at hs
    exact hs
  · unfold opening
    rw [if_neg ha]
    split_ifs with hd hb hq he
    · exact .singleton hd
    · exact ⟨List.cons_ne_nil _ _, by simpa using hb⟩
    · exact ⟨[], by rw [hq], fun _ h ↦ nomatch h⟩
    · exact congrArg (fun c ↦ [c]) he
    · split
      · next hm => exact spelling_of_ofChar? hm
      · exact True.intro

private theorem shows_read_ofNode (words : Trie Kind) (h : Letters text) (c : Char) :
    ((ofNode (words.walk? text)).read words c).Shows words (text ++ [c]) := by
  by_cases ha : c.isAlpha = true
  · have hw : words.walk? (text ++ [c]) = words.walk? text >>= fun node ↦ node.2.follow? c := by
      simp [Trie.walk?]
    rw [read_ofNode_letter _ ha, ← hw]
    exact shows_ofNode words (h.snoc ha)
  · by_cases hd : c.isDigit = true
    · rw [read_ofNode_digit _ hd]
      exact ⟨text, [c], rfl, h, .singleton hd⟩
    · have hr : (ofNode (words.walk? text)).read words c = dead := by
        cases words.walk? text <;> simp [ofNode, read, ha, hd]
      rw [hr]
      exact True.intro

private theorem shows_read (h : state.Shows words text) : (state.read words c).Shows words (text ++ [c]) := by
  cases state with
  | dead | quoted => exact True.intro
  | finish => exact h.elim
  | start =>
    rw [show text = [] from h]
    exact shows_opening words c
  | word | letters =>
    have hs := shows_read_ofNode words h.1 c
    rw [h.2] at hs
    exact hs
  | lettersDigits =>
    obtain ⟨letters, digits, rfl, hl, hd⟩ := h
    rw [read]
    split_ifs with hc
    · exact ⟨letters, digits ++ [c], by simp, hl, hd.snoc hc⟩
    · exact True.intro
  | digits =>
    rw [read]
    split_ifs with hd hp
    · exact h.snoc hd
    · exact ⟨text, by rw [hp], h⟩
    · exact True.intro
  | point =>
    obtain ⟨whole, rfl, hw⟩ := h
    rw [read]
    split_ifs with hc
    · exact ⟨whole, [c], by simp, hw, .singleton hc⟩
    · exact True.intro
  | fraction =>
    obtain ⟨whole, fraction, rfl, hw, hf⟩ := h
    rw [read]
    split_ifs with hc
    · exact ⟨whole, fraction ++ [c], by simp, hw, hf.snoc hc⟩
    · exact True.intro
  | quote =>
    obtain ⟨inner, rfl, hi⟩ := h
    rw [read]
    split_ifs with hq hc
    · exact ⟨inner, by simp [hq], hi⟩
    · exact ⟨inner ++ [c], rfl, List.forall_mem_append.mpr ⟨hi, by simpa using hc⟩⟩
    · exact True.intro
  | mark m =>
    rw [show text = m.spelling.toList from h]
    cases m with
    | assign =>
      rw [read]
      split_ifs with hc
      · rw [hc]; rfl
      · exact True.intro
    | _ => exact True.intro
  | bang =>
    rw [show text = ['!'] from h, read]
    split_ifs with hc
    · rw [hc]; rfl
    · exact True.intro
  | blank =>
    rw [read]
    split_ifs with hc
    · exact ⟨by simp, List.forall_mem_append.mpr ⟨h.2, by simpa using hc⟩⟩
    · exact True.intro

/-- Every text leads to a state that shows it. -/
theorem shows_afterAll (words : Trie Kind) (text : List Char) :
    (start.afterAll words text).Shows words text := by
  induction text using List.reverseRecOn with
  | nil => rfl
  | append_singleton text c ih =>
    rw [afterAll_append]
    exact shows_read ih

/-! ### Complete states -/

/-- The state behind letters is that of a keyword or of an identifier. -/
theorem symbol_afterAll_letters (h : Letters text) :
    (start.afterAll words text).symbol = some ((words.find? text).getD .identifier) := by
  rw [afterAll_letters h, Trie.find?_eq_walk?]
  cases words.walk? text <;> rfl

/-- What spells a keyword leads to the state of this keyword. -/
theorem afterAll_keyword (word : Keyword) :
    ∃ below, start.afterAll keywords word.spelling.toList = .word (some (.keyword word)) below := by
  cases word <;> exact ⟨_, rfl⟩

private theorem symbol_afterAll_keyword (word : Keyword) :
    (start.afterAll keywords word.spelling.toList).symbol = some (.keyword word) := by
  obtain ⟨_, ha⟩ := afterAll_keyword word
  rw [ha]
  rfl

private theorem class_of_letters {kind : Kind} (h : Letters text)
    (hs : (keywords.find? text).getD .identifier = kind) : kind.Class text := by
  cases hf : keywords.find? text with
  | none =>
    obtain rfl : Kind.identifier = kind := by rw [← hs, hf]; rfl
    refine ⟨⟨text, [], by simp, h, by simp⟩, fun word hw ↦ ?_⟩
    have hk := find?_keywords.mpr ⟨word, rfl, hw⟩
    rw [hf] at hk
    cases hk
  | some found =>
    obtain rfl : found = kind := by rw [← hs, hf]; rfl
    obtain ⟨word, rfl, hw⟩ := find?_keywords.mp hf
    exact hw

private theorem class_of_shows {kind : Kind} (h : state.Shows keywords text) (hs : state.symbol = some kind) :
    kind.Class text := by
  cases state with
  | dead | start | point | quote | bang => cases hs
  | finish => exact h.elim
  | word | letters =>
    apply class_of_letters h.1
    rw [Trie.find?_eq_walk?, h.2]
    exact Option.some.inj hs
  | lettersDigits =>
    obtain ⟨letters, digits, rfl, hl, hd⟩ := h
    cases hs
    refine ⟨⟨letters, digits, rfl, hl, hd.2⟩, fun word hw ↦ ?_⟩
    have hk := symbol_afterAll_keyword word
    rw [← hw, afterAll_lettersDigits hl hd] at hk
    cases hk
  | digits | fraction | quoted | mark | blank =>
    cases hs
    exact h

/-- The texts that lead to a state which is complete for a kind are the lexemes of this kind. -/
theorem symbol_afterAll_iff {kind : Kind} :
    (start.afterAll keywords text).symbol = some kind ↔ kind.Class text := by
  refine ⟨class_of_shows (shows_afterAll keywords text), fun h ↦ ?_⟩
  cases kind with
  | integer =>
    rw [afterAll_digits h]
    rfl
  | double =>
    obtain ⟨whole, fraction, rfl, hw, hf⟩ := h
    rw [afterAll_fraction hw hf]
    rfl
  | string =>
    obtain ⟨inner, rfl, hi⟩ := h
    rw [afterAll_quoted hi]
    rfl
  | identifier =>
    obtain ⟨⟨letters, digits, rfl, hl, hd⟩, hn⟩ := h
    by_cases he : digits = []
    · subst he
      rw [List.append_nil] at hn ⊢
      rw [symbol_afterAll_letters hl]
      cases hf : keywords.find? letters with
      | none => rfl
      | some found =>
        obtain ⟨word, _, hw⟩ := find?_keywords.mp hf
        exact absurd hw (hn word)
    · rw [afterAll_lettersDigits hl ⟨he, hd⟩]
      rfl
  | keyword word =>
    rw [show text = word.spelling.toList from h]
    exact symbol_afterAll_keyword word
  | mark m =>
    have ha : start.afterAll keywords text = mark m := afterAll_of_shows nofun h
    rw [ha]
    rfl
  | blank =>
    rw [afterAll_blank h]
    rfl
  | finish => exact h.elim

end State

namespace Kind.Class

variable {kind other : Kind} {text : List Char}

/-- A lexeme is no lexeme of another kind. -/
theorem unique (h : kind.Class text) (h' : other.Class text) : kind = other :=
  Option.some.inj ((State.symbol_afterAll_iff.mpr h).symm.trans (State.symbol_afterAll_iff.mpr h'))

/-- The automaton survives lexemes. -/
theorem live (h : kind.Class text) : State.start.afterAll keywords text ≠ .dead := by
  intro hd
  have hs := State.symbol_afterAll_iff.mpr h
  rw [hd] at hs
  cases hs

/-- Lexemes are not empty. -/
theorem ne_nil (h : kind.Class text) : text ≠ [] := by
  rintro rfl
  cases State.symbol_afterAll_iff.mpr h

end Kind.Class

end Cityscape
