import Cityscape.Proofs.LongestMatch

/-!
# What tokens cover

A source is its lexemes with blanks between them and around them, byte for byte: nothing is lost, nothing is
read twice, and a lexeme as a text has the very bytes that stand in the source. A token begins where the
bytes before it say: the line feeds among them are the lines before its own, and the bytes behind the last
line feed are the columns before its own.
-/

namespace Cityscape

/-- The characters that stand for some bytes. -/
def Source.chars (bytes : List UInt8) : List Char :=
  bytes.map fun byte ↦ Char.ofNat byte.toNat

/-- The code of a line feed. -/
def lineFeed : UInt8 := 10

/-- Whether a byte is a blank, a tab, a carriage return or a line feed. -/
def isBlankByte (byte : UInt8) : Bool :=
  byte == 32 || byte == 9 || byte == 13 || byte == lineFeed

/-- A run of blank bytes, of which there may be none. -/
def BlankBytes (bytes : List UInt8) : Prop :=
  ∀ byte ∈ bytes, isBlankByte byte = true

/-- The place behind some bytes at the beginning of a source. -/
def Position.behind (bytes : List UInt8) : Position where
  line := 1 + bytes.count lineFeed
  column := 1 + (bytes.reverse.takeWhile (· != lineFeed)).length

/-- The bytes of a lexeme. -/
def Token.bytes (token : Token) : List UInt8 :=
  token.lexeme.toUTF8.data.toList

private theorem ofNat_byte_injective : Function.Injective fun byte : UInt8 ↦ Char.ofNat byte.toNat := by
  intro byte other h
  have hn := congrArg Char.toNat h
  rwa [toNat_ofNat_byte, toNat_ofNat_byte, UInt8.toNat_inj] at hn

private theorem isBlank_ofNat_byte (byte : UInt8) : isBlank (Char.ofNat byte.toNat) = isBlankByte byte := by
  have hd (other : UInt8) : decide (Char.ofNat byte.toNat = Char.ofNat other.toNat) = (byte == other) := by
    rw [decide_eq_decide.mpr ofNat_byte_injective.eq_iff]
    rfl
  exact congrArg₂ or (congrArg₂ or (congrArg₂ or (hd 32) (hd 9)) (hd 13)) (hd lineFeed)

/-- Going past the bytes of a source leads to the place behind them. -/
theorem Position.afterAll_chars (bytes : List UInt8) :
    Position.first.afterAll (Source.chars bytes) = .behind bytes := by
  induction bytes using List.reverseRecOn with
  | nil => rfl
  | append_singleton bytes byte ih =>
    rw [Source.chars, List.map_append, afterAll_append, ← Source.chars, ih]
    change Position.after _ _ = _
    by_cases h : byte = lineFeed
    · have hc : Char.ofNat byte.toNat = '\n' := by rw [h]; rfl
      rw [after, if_pos hc]
      simp [behind, h]
      omega
    · have hc : Char.ofNat byte.toNat ≠ '\n' := fun hc ↦ h (ofNat_byte_injective hc)
      rw [after, if_neg hc]
      simp [behind, h]
      omega

private theorem Position.afterAll_behind (before bytes : List UInt8) :
    (Position.behind before).afterAll (Source.chars bytes) = .behind (before ++ bytes) := by
  rw [← afterAll_chars, ← afterAll_append, ← afterAll_chars, Source.chars, Source.chars, Source.chars,
    List.map_append]

private theorem Letters.ascii {text : List Char} (h : Letters text) : Ascii text := by
  intro c hc
  have := isAlpha_iff.mp (h.2 c hc)
  omega

/-- Lexemes have characters of one byte only. -/
theorem Kind.Class.ascii {kind : Kind} {text : List Char} (h : kind.Class text) : Ascii text := by
  have hdigits {digits : List Char} (h : ∀ c ∈ digits, c.isDigit = true) : Ascii digits := by
    intro c hc
    have := isDigit_iff.mp (h c hc)
    omega
  cases kind with
  | integer => exact Digits.ascii h
  | double =>
    obtain ⟨whole, fraction, rfl, hw, hf⟩ := h
    have hp : Ascii ['.'] := by decide
    exact hw.ascii.append (hp.append hf.ascii)
  | string =>
    obtain ⟨inner, rfl, hi⟩ := h
    have hq : Ascii ['"'] := by decide
    exact hq.append (hi.ascii.append hq)
  | identifier =>
    obtain ⟨⟨letters, digits, rfl, hl, hd⟩, _⟩ := h
    exact hl.ascii.append (hdigits hd)
  | keyword word =>
    rw [show text = word.spelling.toList from h]
    cases word <;> decide
  | mark m =>
    rw [show text = m.spelling.toList from h]
    cases m <;> decide
  | blank =>
    intro c hc
    have hb := h.2 c hc
    simp only [isBlank, Bool.or_eq_true, decide_eq_true_eq] at hb
    rcases hb with ((rfl | rfl) | rfl) | rfl <;> decide
  | finish => exact h.elim

private theorem toUTF8_chars {bytes : List UInt8} (h : Ascii (Source.chars bytes)) :
    (String.ofList (Source.chars bytes)).toUTF8.data.toList = bytes := by
  have hs := Source.ofString_eq (show Ascii (String.ofList (Source.chars bytes)).toList by simpa using h)
  rw [Source.ofString, String.toList_ofList] at hs
  rw [String.toUTF8, String.toByteArray_ofList, List.utf8Encode, List.data_toByteArray]
  exact List.map_injective_iff.mpr ofNat_byte_injective hs

/-- A token and the blanks before it. -/
structure Piece where
  gap : List UInt8
  token : Token

/-- The bytes of a piece. -/
def Piece.bytes (piece : Piece) : List UInt8 :=
  piece.gap ++ piece.token.bytes

/--
Whether pieces that stand one after the other, with some bytes before them, are as tokens have to be: nothing but
blanks stands before a lexeme, which is not empty and does not say that the source ends, and its position is
the place behind all bytes before it.
-/
def Placed : List UInt8 → List Piece → Prop
  | _, [] => True
  | before, piece :: pieces =>
    BlankBytes piece.gap ∧ piece.token.kind ≠ .finish ∧ piece.token.lexeme ≠ "" ∧
      piece.token.position = .behind (before ++ piece.gap) ∧ Placed (before ++ piece.bytes) pieces

private theorem exists_bytes_of_munch {state : State} {text : List Char} {bytes : List UInt8}
    (h : text = Source.chars bytes) : ∃ taken left, bytes = taken ++ left ∧
      Source.chars taken = (munch keywords state text).taken ∧
      Source.chars left = (munch keywords state text).rest := by
  rw [← taken_append_rest keywords state text, eq_comm] at h
  exact List.map_eq_append_iff.mp h

/--
What is scanned of a source from some place on: `gap` are blanks that have been read already, behind the bytes
`before`, and all the rest is pieces and blanks.
-/
private theorem scanFrom_covers {here : Position} {text : List Char} {last : Token}
    (h : (scanFrom keywords here text).ending = .finish last) (before gap bytes : List UInt8)
    (ht : text = Source.chars bytes) (hh : here = .behind (before ++ gap)) (hg : BlankBytes gap) :
    ∃ (pieces : List Piece) (trailing : List UInt8),
      gap ++ bytes = pieces.flatMap Piece.bytes ++ trailing ∧ BlankBytes trailing ∧
      (scanFrom keywords here text).tokens = pieces.map Piece.token ∧
      last = ⟨.finish, "", .behind (before ++ (gap ++ bytes))⟩ ∧ Placed before pieces := by
  fun_induction scanFrom keywords here text generalizing before gap bytes with
  | case1 here =>
    cases h
    obtain rfl : bytes = [] := List.map_eq_nil_iff.mp ht.symm
    rw [hh, List.append_nil]
    exact ⟨[], gap, rfl, hg, rfl, rfl, True.intro⟩
  | case2 | case3 => cases h
  | case4 here c rest run there hn hs ih =>
    obtain ⟨taken, left, rfl, htaken, hleft⟩ := exists_bytes_of_munch ht
    have hb : BlankBytes taken := by
      have hc := (longest_of_munch hs).lexical.2
      intro byte hm
      rw [← isBlank_ofNat_byte]
      exact hc _ (htaken ▸ List.mem_map_of_mem hm)
    have hh' : there = .behind (before ++ (gap ++ taken)) := by
      rw [← List.append_assoc, ← Position.afterAll_behind, htaken, ← hh]
    have hc := ih h before (gap ++ taken) left hleft.symm hh' (List.forall_mem_append.mpr ⟨hg, hb⟩)
    rwa [List.append_assoc] at hc
  | case5 here c rest run there hn kind hk hs ih =>
    obtain ⟨taken, left, rfl, htaken, hleft⟩ := exists_bytes_of_munch ht
    have hc := (longest_of_munch hs).lexical
    have hbytes : (String.ofList run.taken).toUTF8.data.toList = taken := by
      rw [← htaken]
      exact toUTF8_chars (htaken ▸ hc.ascii)
    have hh' : there = .behind (before ++ (gap ++ taken) ++ []) := by
      rw [List.append_nil, ← List.append_assoc, ← Position.afterAll_behind, htaken, ← hh]
    obtain ⟨pieces, trailing, he, htrailing, hts, hl, hp⟩ :=
      ih h (before ++ (gap ++ taken)) [] left hleft.symm hh' (List.forall_mem_nil _)
    refine ⟨⟨gap, kind, String.ofList run.taken, here⟩ :: pieces, trailing, ?_, htrailing, ?_, ?_, hg, ?_, ?_,
      hh, ?_⟩
    · rw [List.flatMap_cons, List.append_assoc, ← he, Piece.bytes, Token.bytes, hbytes, List.nil_append,
        List.append_assoc]
    · exact congrArg (_ :: ·) hts
    · rw [hl, List.nil_append, List.append_assoc, List.append_assoc]
    · rintro rfl
      exact hc
    · intro he
      exact hn (String.ofList_injective (he.trans String.ofList_nil.symm))
    · rw [Piece.bytes, Token.bytes, hbytes]
      exact hp

/--
The tokens of a source cover it. Its bytes are those of the lexemes in their order, with blanks before each of
them and behind the last one; the lexemes are not empty. Only the last token says that the source ends, and it has
no lexeme. Every token stands at the place behind all bytes before it.
-/
theorem tokenize_covers {bytes : ByteArray} {tokens : List Token}
    (h : tokenize (Source.ofBytes bytes) = .ok tokens) :
    ∃ (pieces : List Piece) (trailing : List UInt8),
      bytes.data.toList = pieces.flatMap Piece.bytes ++ trailing ∧ BlankBytes trailing ∧ Placed [] pieces ∧
      tokens = pieces.map Piece.token ++ [⟨.finish, "", .behind bytes.data.toList⟩] := by
  obtain ⟨front, last, rfl, hs, _⟩ := tokenize_eq_ok h
  have hl : (scan (Source.ofBytes bytes)).ending = .finish last := by rw [hs]
  obtain ⟨pieces, trailing, he, hb, ht, rfl, hp⟩ :=
    scanFrom_covers hl [] [] bytes.data.toList rfl rfl (List.forall_mem_nil _)
  refine ⟨pieces, trailing, he, hb, hp, ?_⟩
  rw [← ht, ← scan, hs]
  rfl

/-- A source with lexemes that touch each other, line breaks of two kinds and blanks at its end. -/
def crowdedSource : ByteArray :=
  " a1b==2.5\r\n\n\t\"x\"lake  \n".toUTF8

/-- Its tokens cover it, and they stand on the first and on the third line. -/
theorem tokenize_covers_crowdedSource :
    ∃ tokens, tokenize (Source.ofBytes crowdedSource) = .ok tokens ∧
      tokens.map Token.position = [⟨1, 2⟩, ⟨1, 4⟩, ⟨1, 5⟩, ⟨1, 7⟩, ⟨3, 2⟩, ⟨3, 5⟩, ⟨4, 1⟩] ∧
      ∃ (pieces : List Piece) (trailing : List UInt8),
        crowdedSource.data.toList = pieces.flatMap Piece.bytes ++ trailing ∧ BlankBytes trailing ∧
        Placed [] pieces ∧
        tokens = pieces.map Piece.token ++ [⟨.finish, "", .behind crowdedSource.data.toList⟩] := by
  have h : (tokenize (Source.ofBytes crowdedSource)).toOption.map (List.map Token.position) =
      some [⟨1, 2⟩, ⟨1, 4⟩, ⟨1, 5⟩, ⟨1, 7⟩, ⟨3, 2⟩, ⟨3, 5⟩, ⟨4, 1⟩] := by
    decide +kernel
  cases ht : tokenize (Source.ofBytes crowdedSource) with
  | error fault => simp [ht, Except.toOption] at h
  | ok tokens =>
    rw [ht] at h
    exact ⟨tokens, rfl, Option.some.inj h, tokenize_covers ht⟩

end Cityscape
