import Cityscape.Proofs.LongestMatch

/-!
# Lines and quotes

No lexeme goes on behind the end of a line, so a text is taken apart line by line. Of a text between quotes
either all characters may stand in a string literal, and then it is one; or there is another quote in it. Then the
first quote begins a literal and the last one ends another.
-/

namespace Cityscape

variable {text rest lexeme : List Char} {kind : Kind} {spellings : List (Kind × String)}

private theorem Keyword.isAlpha_of_mem (word : Keyword) : ∀ c ∈ word.spelling.toList, c.isAlpha = true := by
  rw [← List.all_eq_true]
  cases word <;> rfl

private theorem Kind.Class.string_or_blank {c : Char} (h : kind.Class text) (hc : c ∈ text)
    (hw : c.isAlpha = false ∧ c.isDigit = false ∧ c ≠ '.') (hm : ∀ m : Mark, c ∉ m.spelling.toList) :
    kind = .string ∨ kind = .blank := by
  obtain ⟨ha, hd, hp⟩ := hw
  have hdigit {digits : List Char} (h : ∀ c ∈ digits, c.isDigit = true) : c ∉ digits := by
    intro hc
    rw [h c hc] at hd
    cases hd
  cases kind with
  | string => exact .inl rfl
  | blank => exact .inr rfl
  | finish => exact h.elim
  | integer => exact absurd hc (hdigit h.2)
  | double =>
    obtain ⟨whole, fraction, rfl, hw, hf⟩ := h
    simp [hdigit hw.2, hdigit hf.2, hp] at hc
  | identifier =>
    obtain ⟨⟨letters, digits, rfl, hl, hd⟩, _⟩ := h
    have hn : c ∉ letters := by
      intro hc
      rw [hl.2 c hc] at ha
      cases ha
    simp [hn, hdigit hd] at hc
  | keyword word =>
    rw [show text = word.spelling.toList from h] at hc
    rw [word.isAlpha_of_mem c hc] at ha
    cases ha
  | mark m =>
    rw [show text = m.spelling.toList from h] at hc
    exact absurd hc (hm m)

private theorem Kind.Class.newline_notMem (h : kind.Class text) (hk : kind ≠ .blank) : '\n' ∉ text := by
  intro hc
  have hm (m : Mark) : '\n' ∉ m.spelling.toList := by
    cases m <;> decide
  obtain rfl := (h.string_or_blank hc (by decide) hm).resolve_right hk
  obtain ⟨inner, rfl, hq⟩ := h
  have hn : '\n' ∉ inner := fun hi ↦ absurd (hq _ hi) (by decide)
  simp [hn] at hc

private theorem Kind.Class.of_quote (h : kind.Class text) (hc : '"' ∈ text) : kind = .string := by
  have hm (m : Mark) : '"' ∉ m.spelling.toList := by
    cases m <;> decide
  obtain rfl | rfl := h.string_or_blank hc (by decide) hm
  · rfl
  · exact absurd (h.2 _ hc) (by decide)

/-- There is no quote between the quotes of a literal. -/
theorem Quotable.quote_notMem (h : Quotable text) : '"' ∉ text :=
  fun hc ↦ absurd (h _ hc) (by decide)

private theorem Kind.Class.of_blank {c : Char} (h : kind.Class (c :: text)) (hc : isBlank c = true) :
    kind = .blank := by
  have hw : (c.isAlpha = false ∧ c.isDigit = false ∧ c ≠ '.') ∧ c ≠ '"' ∧ ∀ m : Mark, c ∉ m.spelling.toList := by
    simp only [isBlank, Bool.or_eq_true, decide_eq_true_eq] at hc
    rcases hc with ((rfl | rfl) | rfl) | rfl <;>
      exact ⟨by decide, by decide, fun m ↦ by cases m <;> decide⟩
  obtain rfl | rfl := h.string_or_blank List.mem_cons_self hw.1 hw.2.2
  · obtain ⟨_, he, _⟩ := h
    exact absurd (List.cons.inj he).1 hw.2.1
  · rfl

private theorem exists_of_append_cons {α : Type} {x y front back : List α} {a : α} (h : x ++ a :: y = front ++ back)
    (ha : a ∉ front) : ∃ middle, x = front ++ middle ∧ back = middle ++ a :: y := by
  obtain ⟨left, hf, hb⟩ | ⟨middle, hx, hb⟩ := List.append_eq_append_iff.mp h
  · cases left with
    | nil => exact ⟨[], by simpa using hf.symm, hb.symm⟩
    | cons b left =>
      obtain ⟨rfl, _⟩ := List.cons.inj hb
      exact absurd (by simp [hf]) ha
  · exact ⟨middle, hx, hb⟩

private theorem eq_or_exists_of_append_cons {α : Type} {x y front back : List α} {a : α}
    (h : x ++ a :: y = front ++ a :: back) (ha : a ∉ front) :
    (x = front ∧ y = back) ∨ ∃ middle, x = front ++ a :: middle ∧ back = middle ++ a :: y := by
  obtain ⟨middle, hx, hb⟩ := exists_of_append_cons h ha
  cases middle with
  | nil => exact .inl ⟨by simpa using hx, by simpa using hb.symm⟩
  | cons b middle =>
    obtain ⟨rfl, rfl⟩ := List.cons.inj hb
    exact .inr ⟨middle, hx, rfl⟩

private theorem LongestLexeme.cut {second : List Char}
    (h : LongestLexeme (lexeme ++ (rest ++ second)) kind lexeme (rest ++ second)) :
    LongestLexeme (lexeme ++ rest) kind lexeme rest where
  split := rfl
  lexical := h.lexical
  longest other longer hp := h.longest other longer
    (hp.trans ⟨second, List.append_assoc lexeme rest second⟩)

/-- The kinds and lexemes of a text without its end, one blank or one lexeme after the other. -/
inductive LexesTo : List Char → List (Kind × String) → Prop where
  | nil : LexesTo [] []
  | blank {c : Char} {text : List Char} {spellings : List (Kind × String)} (hc : isBlank c = true)
    (h : LexesTo text spellings) : LexesTo (c :: text) spellings
  | token {kind : Kind} {lexeme rest : List Char} {spellings : List (Kind × String)}
    (hl : LongestLexeme (lexeme ++ rest) kind lexeme rest) (hk : kind ≠ .blank) (h : LexesTo rest spellings) :
    LexesTo (lexeme ++ rest) ((kind, String.ofList lexeme) :: spellings)

/-- The last one says that the text ends. -/
theorem Lexes.exists_lexesTo (h : Lexes text spellings) :
    ∃ front, spellings = front ++ [(.finish, "")] ∧ LexesTo text front := by
  induction h with
  | finish => exact ⟨[], rfl, .nil⟩
  | @blank _ lexeme rest _ hl _ ih =>
    obtain ⟨front, rfl, hf⟩ := ih
    refine ⟨front, rfl, ?_⟩
    rw [hl.split]
    have hb := hl.lexical.2
    clear hl
    induction lexeme with
    | nil => exact hf
    | cons c lexeme ih =>
      obtain ⟨hc, hb⟩ := List.forall_mem_cons.mp hb
      exact .blank hc (ih hb)
  | token hl hk _ ih =>
    obtain ⟨front, rfl, hf⟩ := ih
    have hs := hl.split
    rw [hs] at hl ⊢
    exact ⟨_ :: front, rfl, .token hl hk hf⟩

namespace LexesTo

/-- A blank is left out. -/
theorem of_blank {c : Char} (h : LexesTo (c :: text) spellings) (hc : isBlank c = true) :
    LexesTo text spellings := by
  generalize ht : c :: text = whole at h
  cases h with
  | nil => cases ht
  | blank _ h =>
    cases ht
    exact h
  | @token kind lexeme _ _ hl hk =>
    cases lexeme with
    | nil => exact absurd rfl hl.lexical.ne_nil
    | cons d lexeme =>
      cases (List.cons.inj ht).1
      exact absurd (hl.lexical.of_blank hc) hk

/-- A lexeme comes first, if what follows does not go on with it. -/
theorem of_spelled (h : LexesTo (text ++ rest) spellings) (hs : kind.Spelled text rest) :
    ∃ more, spellings = (kind, String.ofList text) :: more ∧ LexesTo rest more := by
  have hc : kind.Class text := State.symbol_afterAll_iff.mp hs.symbol
  have hm := State.munch_append hc.live hs.stops
  have hl : LongestLexeme (text ++ rest) kind text rest := by
    have hl := longest_of_munch (show (munch keywords .start (text ++ rest)).state.symbol = some kind by
      rw [hm]
      exact hs.symbol)
    rwa [hm] at hl
  generalize ht : text ++ rest = whole at h
  cases h with
  | nil => exact absurd ht hl.text_ne_nil
  | @blank c _ _ hb =>
    cases text with
    | nil => exact absurd rfl hc.ne_nil
    | cons d text =>
      cases (List.cons.inj ht).1
      exact absurd (hc.of_blank hb) hs.visible
  | token hl' _ h =>
    rw [← ht] at hl'
    obtain ⟨rfl, rfl, rfl⟩ := hl.unique hl'
    exact ⟨_, rfl, h⟩

/-- A text is taken apart line by line. -/
theorem line {first second : List Char} (h : LexesTo (first ++ '\n' :: second) spellings) :
    ∃ front back, spellings = front ++ back ∧ LexesTo first front ∧ LexesTo second back := by
  generalize ht : first ++ '\n' :: second = text at h
  induction h generalizing first with
  | nil => simp at ht
  | @blank c text spellings hc h ih =>
    cases first with
    | nil =>
      cases ht
      exact ⟨[], spellings, rfl, .nil, h⟩
    | cons d first =>
      obtain ⟨rfl, rfl⟩ := List.cons.inj ht
      obtain ⟨front, back, rfl, hf, hb⟩ := ih rfl
      exact ⟨front, back, rfl, .blank hc hf, hb⟩
  | token hl hk _ ih =>
    -- the lexeme ends before the line does
    obtain ⟨middle, rfl, rfl⟩ := exists_of_append_cons ht (hl.lexical.newline_notMem hk)
    obtain ⟨front, back, rfl, hf, hb⟩ := ih rfl
    exact ⟨_ :: front, back, rfl, .token hl.cut hk hf, hb⟩

private theorem opening (h : LexesTo ('"' :: text) spellings) :
    ∃ inner rest more, text = inner ++ '"' :: rest ∧ Quotable inner ∧
      spellings = (.string, String.ofList ('"' :: (inner ++ ['"']))) :: more ∧ LexesTo rest more := by
  generalize ht : '"' :: text = whole at h
  cases h with
  | nil => cases ht
  | blank hc =>
    cases ht
    cases hc
  | @token kind lexeme rest _ hl hk h =>
    have hc := hl.lexical
    cases lexeme with
    | nil => exact absurd rfl hc.ne_nil
    | cons c lexeme =>
      obtain ⟨rfl, rfl⟩ := List.cons.inj ht
      obtain rfl := hc.of_quote List.mem_cons_self
      obtain ⟨inner, he, hq⟩ := hc
      obtain ⟨_, rfl⟩ := List.cons.inj he
      exact ⟨inner, rest, _, by simp, hq, rfl, h⟩

private theorem closing {inner suffix : List Char} (h : LexesTo (inner ++ '"' :: suffix) spellings)
    (hs : '"' ∉ suffix) :
    ∃ front literal back, spellings = front ++ (.string, literal) :: back ∧ LexesTo suffix back := by
  generalize ht : inner ++ '"' :: suffix = text at h
  induction h generalizing inner with
  | nil => simp at ht
  | blank hc _ ih =>
    cases inner with
    | nil =>
      cases ht
      cases hc
    | cons d inner =>
      obtain ⟨rfl, rfl⟩ := List.cons.inj ht
      exact ih rfl
  | @token kind lexeme rest _ hl _ h ih =>
    by_cases hq : '"' ∈ lexeme
    · obtain rfl := hl.lexical.of_quote hq
      obtain ⟨literal, rfl, hi⟩ := hl.lexical
      rw [List.cons_append, List.append_assoc, List.singleton_append] at ht
      cases inner with
      | nil => simp [(List.cons.inj ht).2] at hs
      | cons d inner =>
        obtain ⟨rfl, rfl⟩ | ⟨middle, rfl, rfl⟩ :=
          eq_or_exists_of_append_cons (List.cons.inj ht).2 hi.quote_notMem
        · exact ⟨[], _, _, rfl, h⟩
        · obtain ⟨front, last, back, rfl, hback⟩ := ih rfl
          exact ⟨_ :: front, last, back, rfl, hback⟩
    · obtain ⟨middle, rfl, rfl⟩ := exists_of_append_cons ht hq
      obtain ⟨front, last, back, rfl, hback⟩ := ih rfl
      exact ⟨_ :: front, last, back, rfl, hback⟩

/--
A text between quotes: it can be quoted and is one literal, or there is a quote in it. Then it begins with one
literal and ends with another.
-/
theorem quoted {inner suffix : List Char} (h : LexesTo ('"' :: (inner ++ '"' :: suffix)) spellings)
    (hs : '"' ∉ suffix) :
    (Quotable inner ∧ ∃ back, spellings = (.string, String.ofList ('"' :: (inner ++ ['"']))) :: back ∧
      LexesTo suffix back) ∨
    ('"' ∈ inner ∧ ∃ first middle last back,
      spellings = (.string, first) :: (middle ++ (.string, last) :: back) ∧ LexesTo suffix back) := by
  obtain ⟨literal, rest, more, he, hl, rfl, hm⟩ := h.opening
  obtain ⟨rfl, rfl⟩ | ⟨middle, rfl, rfl⟩ := eq_or_exists_of_append_cons he hl.quote_notMem
  · exact .inl ⟨hl, more, rfl, hm⟩
  · obtain ⟨front, last, back, rfl, hback⟩ := hm.closing hs
    exact .inr ⟨by simp, _, front, last, back, rfl, hback⟩

/-- The lexemes are what their kinds say, with characters of the text. -/
theorem lexical_of_mem (h : LexesTo text spellings) {spelling : Kind × String} (hs : spelling ∈ spellings) :
    spelling.1.Class spelling.2.toList ∧ ∀ c ∈ spelling.2.toList, c ∈ text := by
  induction h with
  | nil => cases hs
  | blank _ _ ih =>
    obtain ⟨hc, hm⟩ := ih hs
    exact ⟨hc, fun c h ↦ List.mem_cons_of_mem _ (hm c h)⟩
  | token hl _ _ ih =>
    rcases List.mem_cons.mp hs with rfl | hs
    · rw [String.toList_ofList]
      exact ⟨hl.lexical, fun c h ↦ List.mem_append_left _ h⟩
    · obtain ⟨hc, hm⟩ := ih hs
      exact ⟨hc, fun c h ↦ List.mem_append_right _ (hm c h)⟩

end LexesTo

end Cityscape
