import Mathlib.Data.List.Basic
import Cityscape.Proofs.Lexeme
import Cityscape.Proofs.Syntax

/-!
# Texts that are scanned as trees

A lexeme is scanned as one token if what follows it cannot go on with it, and blanks are scanned as
nothing. Texts with known tokens are put one after the other, and the trees of their tokens become the
parts of a larger tree.
-/

namespace Cityscape

variable {α β : Type}

/-- Characters of one byte. -/
def Ascii (text : List Char) : Prop :=
  ∀ c ∈ text, c.toNat < 128

instance (text : List Char) : Decidable (Ascii text) :=
  List.decidableBAll _ text

/-- Digits take one byte each. -/
theorem Digits.ascii {text : List Char} (h : Digits text) : Ascii text := by
  intro c hc
  have := isDigit_iff.mp (h.2 c hc)
  omega

/-- Characters that may stand between quotes take one byte each. -/
theorem Quotable.ascii {text : List Char} (h : Quotable text) : Ascii text := by
  intro c hc
  have hq := h c hc
  simp only [isQuotable, Bool.or_eq_true, decide_eq_true_eq, isAlpha_iff, isDigit_iff] at hq
  rcases hq with (((hq | hq) | rfl) | rfl) | rfl
  · omega
  · omega
  · decide
  · decide
  · decide

/-- One text after the other. -/
theorem Ascii.append {first second : List Char} (h : Ascii first) (h' : Ascii second) :
    Ascii (first ++ second) := by
  intro c hc
  rcases List.mem_append.mp hc with hc | hc
  · exact h c hc
  · exact h' c hc

/-- A text of characters of one byte each is its own source. -/
theorem Source.ofString_eq {text : String} (h : Ascii text.toList) : ofString text = text.toList := by
  rw [ofString]
  generalize text.toList = chars at h
  induction chars with
  | nil => rfl
  | cons c chars ih =>
    have hc := h c List.mem_cons_self
    have he : (String.utf8EncodeChar c).map (fun byte ↦ Char.ofNat byte.toNat) = [c] := by
      have hv : c.val ≤ 127 := by
        rw [UInt32.le_iff_toNat_le]
        exact Nat.le_of_lt_succ hc
      have hn : c.val.toUInt8.toNat = c.toNat := by
        rw [UInt32.toNat_toUInt8]
        exact Nat.mod_eq_of_lt (Nat.lt_trans hc (by decide))
      rw [String.utf8EncodeChar_eq_singleton (Char.utf8Size_eq_one_iff.mpr hv), List.map_singleton, hn,
        Char.ofNat_toNat]
    rw [List.flatMap_cons, List.map_append, he, ih fun d hd ↦ h d (List.mem_cons_of_mem c hd)]
    rfl

/-- Characters that go on with no lexeme that came before them, strings apart. -/
def separates (c : Char) : Bool :=
  !c.isAlpha && !c.isDigit && c ≠ '.' && c ≠ '='

/-- Texts that go on with no lexeme. -/
def Separate (rest : List Char) : Prop :=
  ∀ c ∈ rest.head?, separates c = true

/-- A text may begin with a separating character. -/
theorem separate_cons {c : Char} (h : separates c = true) (rest : List Char) : Separate (c :: rest) := by
  intro d hd
  cases hd
  exact h

/-- Whether a text before another one is scanned as one lexeme of this kind. -/
structure Kind.Spelled (kind : Kind) (text rest : List Char) : Prop where
  nonempty : text ≠ []
  symbol : (State.start.afterAll keywords text).symbol = some kind
  visible : kind ≠ .blank
  stops : ∀ c ∈ rest.head?, (State.start.afterAll keywords text).read keywords c = .dead

namespace Kind.Spelled

variable {text rest : List Char}

/-- What a separating character is not. -/
theorem separates_eq {c : Char} (h : separates c = true) :
    c.isAlpha = false ∧ c.isDigit = false ∧ c ≠ '.' ∧ c ≠ '=' := by
  simpa [separates, and_assoc] using h

/-- Digits. -/
theorem integer (h : Digits text) (hr : Separate rest) : Kind.integer.Spelled text rest := by
  refine ⟨h.1, by rw [State.afterAll_digits h]; rfl, by decide, ?_⟩
  intro c hc
  obtain ⟨_, hd, hp, _⟩ := separates_eq (hr c hc)
  rw [State.afterAll_digits h, State.read, if_neg (by rw [hd]; decide), if_neg hp]

/-- Digits around a point. -/
theorem double {whole fraction : List Char} (hw : Digits whole) (hf : Digits fraction) (hr : Separate rest) :
    Kind.double.Spelled (whole ++ '.' :: fraction) rest := by
  have ha : State.start.afterAll keywords (whole ++ '.' :: fraction) = .fraction := State.afterAll_fraction hw hf
  refine ⟨by simp, by rw [ha]; rfl, by decide, ?_⟩
  intro c hc
  obtain ⟨_, hd, _⟩ := separates_eq (hr c hc)
  rw [ha, State.read, if_neg (by rw [hd]; decide)]

/-- Quotable characters between quotes. -/
theorem string (h : Quotable text) (rest : List Char) : Kind.string.Spelled ('"' :: (text ++ ['"'])) rest := by
  have ha : State.start.afterAll keywords ('"' :: (text ++ ['"'])) = .quoted := State.afterAll_quoted h
  refine ⟨List.cons_ne_nil _ _, by rw [ha]; rfl, by decide, ?_⟩
  intro c _
  rw [ha]
  rfl

/-- The letters of keywords take one byte each. -/
theorem ascii_keyword (word : Keyword) : Ascii word.spelling.toList := by
  cases word <;> decide

/-- A keyword. -/
theorem keyword (word : Keyword) (hr : Separate rest) : (Kind.keyword word).Spelled word.spelling.toList rest := by
  obtain ⟨below, ha⟩ := State.afterAll_keyword word
  refine ⟨by cases word <;> decide, by rw [ha]; rfl, by simp, ?_⟩
  intro c hc
  obtain ⟨hl, hd, _⟩ := separates_eq (hr c hc)
  rw [ha, State.read, if_neg (by rw [hl]; decide), if_neg (by rw [hd]; decide)]

private theorem ascii_mark (mark : Mark) : Ascii mark.spelling.toList := by
  cases mark <;> decide

/-- A mark; only the sign of an assignment can be taken for something else. -/
theorem mark (mark : Mark) (hr : mark = .assign → Separate rest) :
    (Kind.mark mark).Spelled mark.spelling.toList rest := by
  have ha : State.start.afterAll keywords mark.spelling.toList = .mark mark := by cases mark <;> rfl
  refine ⟨by cases mark <;> decide, by rw [ha]; rfl, by simp, ?_⟩
  intro c hc
  rw [ha]
  cases mark with
  | assign =>
    obtain ⟨_, _, _, he⟩ := separates_eq (hr rfl c hc)
    rw [State.read, if_neg he]
  | _ => rfl

end Kind.Spelled

/-- The scan with some more tokens in front. -/
def Scan.pushAll (tokens : List Token) (scan : Scan) : Scan :=
  { scan with tokens := tokens ++ scan.tokens }

private theorem Scan.pushAll_append (first second : List Token) (scan : Scan) :
    scan.pushAll (first ++ second) = (scan.pushAll second).pushAll first := by
  rw [pushAll, List.append_assoc]
  rfl

/-- A lexeme is scanned as one token. -/
theorem scanFrom_spelled {kind : Kind} {text rest : List Char} (h : kind.Spelled text rest) (here : Position) :
    scanFrom keywords here (text ++ rest) =
      (scanFrom keywords (here.afterAll text) rest).push ⟨kind, String.ofList text, here⟩ := by
  have hs : State.start.afterAll keywords text ≠ .dead := by
    intro hd
    have := h.symbol
    rw [hd] at this
    cases this
  have hm := State.munch_append hs h.stops
  obtain ⟨c, text, rfl⟩ := List.exists_cons_of_ne_nil h.nonempty
  rw [List.cons_append] at hm ⊢
  rw [scanFrom]
  simp only [hm, h.symbol, List.cons_ne_nil, if_false]
  split
  · next hk => cases hk
  · next hk => exact absurd (Option.some.inj hk) h.visible
  · next hk =>
    cases hk
    rfl

private theorem munch_blank (rest : List Char) :
    munch keywords .blank rest = ⟨rest.takeWhile isBlank, .blank, rest.dropWhile isBlank⟩ := by
  induction rest with
  | nil => rfl
  | cons c rest ih =>
    by_cases hc : isBlank c = true
    · have hr : State.blank.read keywords c = .blank := if_pos hc
      rw [munch, hr, if_neg (by decide), ih, List.takeWhile_cons_of_pos hc, List.dropWhile_cons_of_pos hc]
    · have hr : State.blank.read keywords c = .dead := if_neg hc
      rw [munch, if_pos hr, List.takeWhile_cons_of_neg hc, List.dropWhile_cons_of_neg hc]

private theorem scanFrom_blanks {c : Char} (hc : isBlank c = true) (rest : List Char) (here : Position) :
    scanFrom keywords here (c :: rest) =
      scanFrom keywords (here.afterAll (c :: rest.takeWhile isBlank)) (rest.dropWhile isBlank) := by
  have ho : State.start.read keywords c = .blank := State.opening_blank hc
  have hm : munch keywords .start (c :: rest) =
      ⟨c :: rest.takeWhile isBlank, .blank, rest.dropWhile isBlank⟩ := by
    rw [munch, ho, if_neg (by decide), munch_blank]
  rw [scanFrom]
  simp only [hm, List.cons_ne_nil, if_false]
  rfl

/-- A blank is scanned as nothing, whatever follows it. -/
theorem scanFrom_blank {c : Char} (hc : isBlank c = true) (rest : List Char) (here : Position) :
    scanFrom keywords here (c :: rest) = scanFrom keywords (here.after c) rest := by
  rw [scanFrom_blanks hc]
  cases rest with
  | nil => rfl
  | cons d rest =>
    by_cases hd : isBlank d = true
    · rw [scanFrom_blanks hd, List.takeWhile_cons_of_pos hd, List.dropWhile_cons_of_pos hd]
      rfl
    · rw [List.takeWhile_cons_of_neg hd, List.dropWhile_cons_of_neg hd]
      rfl

/--
Before `rest`, a text is scanned as the tokens of a tree of which `good` holds, and scanning goes on at the place
behind it. The text has characters of one byte only, so it is its own source.
-/
structure Writes (text : List Char) (tokens : α → List Token) (good : α → Prop) (rest : List Char) : Prop where
  ascii : Ascii text
  scans : ∀ here, ∃ tree, good tree ∧
    scanFrom keywords here (text ++ rest) = (scanFrom keywords (here.afterAll text) rest).pushAll (tokens tree)

namespace Writes

variable {text text' rest : List Char} {tokens : α → List Token} {tokens' : β → List Token}
  {good : α → Prop} {good' : β → Prop}

/-- No text is scanned as no tokens. -/
theorem nil (tree : α) (ht : tokens tree = []) (hg : good tree) (rest : List Char) :
    Writes [] tokens good rest := by
  refine ⟨(fun _ h ↦ nomatch h), fun here ↦ ⟨tree, hg, ?_⟩⟩
  rw [ht]
  rfl

/-- One text after the other. -/
theorem append (h : Writes text tokens good (text' ++ rest)) (h' : Writes text' tokens' good' rest) :
    Writes (text ++ text') (fun trees : α × β ↦ tokens trees.1 ++ tokens' trees.2)
      (fun trees ↦ good trees.1 ∧ good' trees.2) rest := by
  refine ⟨h.ascii.append h'.ascii, fun here ↦ ?_⟩
  obtain ⟨tree, hg, hs⟩ := h.scans here
  obtain ⟨tree', hg', hs'⟩ := h'.scans (here.afterAll text)
  refine ⟨(tree, tree'), ⟨hg, hg'⟩, ?_⟩
  rw [List.append_assoc, hs, hs', Scan.pushAll_append, Position.afterAll_append]

/-- Trees with the same tokens. -/
theorem exchange (h : Writes text tokens good rest)
    (ht : ∀ tree, good tree → ∃ tree', tokens' tree' = tokens tree ∧ good' tree') :
    Writes text tokens' good' rest := by
  refine ⟨h.ascii, fun here ↦ ?_⟩
  obtain ⟨tree, hg, hs⟩ := h.scans here
  obtain ⟨tree', he, hg'⟩ := ht tree hg
  refine ⟨tree', hg', ?_⟩
  rw [hs, he]

/-- The parts of a tree make up the tree. -/
theorem map (h : Writes text tokens good rest) (make : α → β) (ht : ∀ tree, tokens' (make tree) = tokens tree)
    (hg : ∀ tree, good tree → good' (make tree)) : Writes text tokens' good' rest :=
  h.exchange fun tree hgood ↦ ⟨make tree, ht tree, hg tree hgood⟩

/-- Blanks before a text. -/
theorem blanks (blanks : List Char) (hb : blanks.all isBlank = true)
    (h : Writes text tokens good rest) : Writes (blanks ++ text) tokens good rest := by
  induction blanks with
  | nil => exact h
  | cons c blanks ih =>
    obtain ⟨hc, hb⟩ := Bool.and_eq_true_iff.mp hb
    have ih := ih hb
    refine ⟨?_, fun here ↦ ?_⟩
    · intro d hd
      rcases List.mem_cons.mp hd with rfl | hd
      · simp only [isBlank, Bool.or_eq_true, decide_eq_true_eq] at hc
        rcases hc with ((rfl | rfl) | rfl) | rfl <;> decide
      · exact ih.ascii d hd
    · obtain ⟨tree, hg, hs⟩ := ih.scans (here.after c)
      refine ⟨tree, hg, ?_⟩
      rw [List.cons_append, List.cons_append, scanFrom_blank hc]
      exact hs

/-- Blanks behind a text. -/
theorem trailing (blanks : List Char) (hb : blanks.all isBlank = true)
    (h : Writes text tokens good (blanks ++ rest)) : Writes (text ++ blanks) tokens good rest := by
  have hn : Writes (blanks ++ []) (fun _ : Unit ↦ []) (fun _ ↦ True) rest :=
    .blanks blanks hb (.nil () rfl True.intro rest)
  rw [List.append_nil] at hn
  exact (h.append hn).map Prod.fst (fun _ ↦ (List.append_nil _).symm) fun _ hg ↦ hg.1

/-- A single lexeme. -/
theorem leaf {kind : Kind} (h : kind.Spelled text rest) (ha : Ascii text) :
    Writes text (fun leaf : Syntax.Leaf kind ↦ [leaf.1]) (fun leaf ↦ leaf.1.lexeme.toList = text) rest := by
  refine ⟨ha, fun here ↦ ⟨⟨⟨kind, String.ofList text, here⟩, rfl⟩, ?_, ?_⟩⟩
  · exact String.toList_ofList
  · rw [scanFrom_spelled h]
    rfl

/-- A text alone is tokenized as its tree, and the end of the input stands behind it. -/
theorem tokenize_eq {text : String} (h : Writes text.toList tokens good []) :
    ∃ tree, good tree ∧ tokenize (Source.ofString text) =
      .ok (tokens tree ++ [⟨.finish, "", Position.first.afterAll text.toList⟩]) := by
  obtain ⟨tree, hg, hs⟩ := h.scans .first
  rw [List.append_nil] at hs
  refine ⟨tree, hg, ?_⟩
  rw [tokenize, Source.ofString_eq h.ascii, scan, hs, scanFrom]
  simp [Scan.pushAll]

/-- A keyword. -/
theorem word (word : Keyword) (hr : Separate rest) :
    Writes word.spelling.toList (fun leaf : Syntax.Word word ↦ [leaf.1]) (fun _ ↦ True) rest :=
  (leaf (.keyword word hr) (Kind.Spelled.ascii_keyword word)).map id (fun _ ↦ rfl) fun _ _ ↦ True.intro

/-- A mark. -/
theorem sign (mark : Mark) (hr : mark = .assign → Separate rest) :
    Writes mark.spelling.toList (fun leaf : Syntax.Sign mark ↦ [leaf.1]) (fun _ ↦ True) rest :=
  (leaf (.mark mark hr) (Kind.Spelled.ascii_mark mark)).map id (fun _ ↦ rfl) fun _ _ ↦ True.intro

end Writes

end Cityscape
