import Mathlib.Data.List.TakeDrop
import Mathlib.Tactic.SplitIfs
import Cityscape.Json.Lexeme
import Cityscape.Proofs.Decimal.Binary
import Cityscape.Proofs.Decimal.Text

/-!
# Written literals read back

A string literal holds the string it was written for, whatever its characters are, and a written double is
a number with a point or an exponent, which reads as this double.
-/

namespace Cityscape.Json

private theorem hexQuad_digitChar {n : Nat} (h : n < 0x20) (rest : List Char) :
    hexQuad ('0' :: '0' :: Nat.digitChar (n / 16) :: Nat.digitChar (n % 16) :: rest) = .ok n := by
  have hv : ∀ n < 0x20, hexQuad ['0', '0', Nat.digitChar (n / 16), Nat.digitChar (n % 16)] = .ok n := by
    decide
  exact hv n h

private theorem escapeAhead_short {mark c : Char} (hs : shortEscape? mark = some c) (rest : List Char) :
    escapeAhead (mark :: rest) = .ok (c, 1) := by
  unfold escapeAhead
  split
  · next h => cases h
  · next h =>
    cases h
    cases hs
  · next h =>
    cases h
    rw [hs]

/-- A string that begins with an escape. -/
theorem stringBody_escape {escape : List Char → Except Fault (Char × Nat)} {text : List Char} {c : Char}
    {length : Nat} (h : escape text = .ok (c, length)) :
    stringBody escape ('\\' :: text) =
      (stringBody escape (text.drop length)).map fun read ↦ (c :: read.1, read.2) := by
  rw [stringBody, h]
  change (stringBody escape (text.drop length) >>= _) = _
  cases stringBody escape (text.drop length) <;> rfl

private theorem stringBody_plain (escape : List Char → Except Fault (Char × Nat)) {c : Char}
    (h : escapeChar c = [c]) (rest : List Char) :
    stringBody escape (c :: rest) = (stringBody escape rest).map fun read ↦ (c :: read.1, read.2) := by
  have hq : c ≠ '"' := by
    rintro rfl
    cases h
  have hb : c ≠ '\\' := by
    rintro rfl
    cases h
  have hc : ¬ c.toNat < 0x20 := by
    intro hc
    unfold escapeChar at h
    simp only [hq, hb, hc, if_true, if_false] at h
    split_ifs at h <;> cases h
  rw [stringBody]
  · rw [if_neg hc]
    cases stringBody escape rest <;> rfl
  · exact fun h ↦ hq h
  · exact fun h ↦ hb h

private theorem escapeChar_cases (c : Char) :
    escapeChar c = [c] ∨ (∃ mark, escapeChar c = ['\\', mark] ∧ shortEscape? mark = some c) ∨
      (c.toNat < 0x20 ∧ escapeChar c =
        ['\\', 'u', '0', '0', Nat.digitChar (c.toNat / 16), Nat.digitChar (c.toNat % 16)]) := by
  unfold escapeChar
  split_ifs with h1 h2 h3 h4 h5 h6 h7 h8
  · exact .inr (.inl ⟨_, rfl, congrArg some h1.symm⟩)
  · exact .inr (.inl ⟨_, rfl, congrArg some h2.symm⟩)
  · exact .inr (.inl ⟨_, rfl, congrArg some h3.symm⟩)
  · exact .inr (.inl ⟨_, rfl, congrArg some h4.symm⟩)
  · exact .inr (.inl ⟨_, rfl, congrArg some h5.symm⟩)
  · exact .inr (.inl ⟨_, rfl, congrArg some h6.symm⟩)
  · exact .inr (.inl ⟨_, rfl, congrArg some h7.symm⟩)
  · exact .inr (.inr ⟨h8, rfl⟩)
  · exact .inl rfl

private theorem escapeAhead_control {c : Char} (h : c.toNat < 0x20) (rest : List Char) :
    escapeAhead ('u' :: '0' :: '0' :: Nat.digitChar (c.toNat / 16) :: Nat.digitChar (c.toNat % 16) ::
      rest) = .ok (c, 5) := by
  have hl : isLeading c.toNat = false := by
    rw [isLeading, decide_eq_false (by omega), Bool.false_and]
  have ht : isTrailing c.toNat = false := by
    rw [isTrailing, decide_eq_false (by omega), Bool.false_and]
  have hu : unicodeEscape ('0' :: '0' :: Nat.digitChar (c.toNat / 16) ::
      Nat.digitChar (c.toNat % 16) :: rest) = .ok (c, 4) := by
    rw [unicodeEscape, hexQuad_digitChar h]
    change (if isTrailing c.toNat = true then _ else _) = _
    simp only [hl, ht, Bool.false_eq_true, if_false, Char.ofNat_toNat]
    rfl
  rw [escapeAhead.eq_def]
  simp only [hu]
  rfl

private theorem stringBody_escapeChar (c : Char) (rest : List Char) :
    stringBody escapeAhead (escapeChar c ++ rest) =
      (stringBody escapeAhead rest).map fun read ↦ (c :: read.1, read.2) := by
  rcases escapeChar_cases c with h | ⟨mark, h, hs⟩ | ⟨hc, h⟩
  · rw [h]
    exact stringBody_plain escapeAhead h rest
  · rw [h]
    exact stringBody_escape (escapeAhead_short hs rest)
  · rw [h]
    exact stringBody_escape (escapeAhead_control hc rest)

/-- What follows the opening quote of a literal is read up to its closing one. -/
theorem stringBody_quote (text rest : List Char) :
    stringBody escapeAhead (text.flatMap escapeChar ++ '"' :: rest) = .ok (text, rest) := by
  induction text with
  | nil => rw [List.flatMap_nil, List.nil_append, stringBody]
  | cons c text ih =>
    rw [List.flatMap_cons, List.append_assoc, stringBody_escapeChar, ih]
    rfl

/-- Characters that are written as they are. -/
def Unescaped (text : List Char) : Prop :=
  ∀ c ∈ text, escapeChar c = [c]

instance (text : List Char) : Decidable (Unescaped text) :=
  List.decidableBAll _ text

/-- A literal without escapes is read the same way whatever escapes stand for. -/
theorem stringBody_unescaped (escape : List Char → Except Fault (Char × Nat)) {text : List Char}
    (h : Unescaped text) (rest : List Char) :
    stringBody escape (text.flatMap escapeChar ++ '"' :: rest) = .ok (text, rest) := by
  induction text with
  | nil => rw [List.flatMap_nil, List.nil_append, stringBody]
  | cons c text ih =>
    have hc := h c List.mem_cons_self
    rw [List.flatMap_cons, hc, List.append_assoc, List.singleton_append, stringBody_plain escape hc,
      ih fun d hd ↦ h d (List.mem_cons_of_mem c hd)]
    rfl

open Decimal (ofDigits digitsOf splitSign Scaled)

/-- What follows a number: no digit, no point and no exponent. -/
def Ends (rest : List Char) : Prop :=
  ∀ c ∈ rest.head?, c = ',' ∨ c = '\n'

variable {rest : List Char}

private theorem Ends.not_isDigit (h : Ends rest) : rest.head?.all (fun c ↦ !c.isDigit) = true := by
  cases rest with
  | nil => rfl
  | cons c rest =>
    rcases h c rfl with rfl | rfl <;> rfl

/-- Digits up to where something else comes. -/
theorem someDigits_append {text : List Char} (h : Digits text) (ended : Fault) (rest : List Char)
    (hr : rest.head?.all (fun c ↦ !c.isDigit) = true) :
    someDigits ended (text ++ rest) = .ok (text, rest) := by
  obtain ⟨ht, hd⟩ := h.takeWhile_append rest hr
  have hs : (text ++ rest).span Char.isDigit = (text, rest) := by
    rw [List.span_eq_takeWhile_dropWhile, ht, hd]
  cases text with
  | nil => exact absurd rfl h.1
  | cons c text =>
    rw [List.cons_append] at hs ⊢
    rw [someDigits, if_pos (h.2 c List.mem_cons_self), hs]

private theorem wholeDigits_append {text : List Char} (h : Digits text)
    (hc : text = ['0'] ∨ text.head? ≠ some '0') (ended : Fault) (rest : List Char)
    (hr : rest.head?.all (fun c ↦ !c.isDigit) = true) :
    wholeDigits ended (text ++ rest) = .ok (text, rest) := by
  rcases hc with rfl | hc
  · have hn : rest.head?.any Char.isDigit = false := by
      cases rest with
      | nil => rfl
      | cons c rest => simpa using hr
    rw [List.singleton_append, wholeDigits, hn]
    rfl
  · have hs := someDigits_append h ended rest hr
    cases text with
    | nil => exact absurd rfl h.1
    | cons c text =>
      have hz : c ≠ '0' := fun hz ↦ hc (congrArg some hz)
      rw [List.cons_append] at hs ⊢
      rw [wholeDigits]
      · exact hs
      · exact fun h ↦ hz h

private theorem numberParts_point {whole fraction : List Char} {m : Nat} (h : Decimal.Reads m whole fraction 0)
    (hf : Digits fraction) (ended : Fault) (hr : Ends rest) :
    numberParts ended (whole ++ '.' :: fraction ++ rest) = .ok (⟨whole, some fraction, none⟩, rest) := by
  have hw := wholeDigits_append h.digits h.canonical ended ('.' :: (fraction ++ rest)) rfl
  have hd := someDigits_append hf ended rest hr.not_isDigit
  rw [List.append_assoc]
  simp only [numberParts, hw, List.cons_append, hd, bind, Except.bind, pure, Except.pure]
  cases rest with
  | nil => rfl
  | cons c rest =>
    rcases hr c rfl with rfl | rfl <;> rfl

private theorem exponent_append (exponent : Int) (ended : Fault) (hr : Ends rest) :
    ∃ negative, splitSign ((if exponent < 0 then ['-'] else numeral.plus.toList) ++
        digitsOf exponent.natAbs ++ rest) = (negative, digitsOf exponent.natAbs ++ rest) ∧
      someDigits ended (digitsOf exponent.natAbs ++ rest) = .ok (digitsOf exponent.natAbs, rest) ∧
      (if negative then -(ofDigits (digitsOf exponent.natAbs) : Int)
        else ofDigits (digitsOf exponent.natAbs)) = exponent := by
  have hd := someDigits_append (Decimal.digits_digitsOf exponent.natAbs) ended rest hr.not_isDigit
  rw [Decimal.ofDigits_digitsOf]
  split
  · exact ⟨true, rfl, hd, by rw [if_pos rfl]; omega⟩
  · exact ⟨false, rfl, hd, by rw [if_neg Bool.false_ne_true]; omega⟩

private theorem numberParts_exponent {first : Char} {fraction : List Char} {exponent : Int} {m : Nat}
    (h : Decimal.Reads m [first] fraction exponent) (ended : Fault) (hr : Ends rest) :
    numberParts ended (first :: (if fraction = [] then [] else '.' :: fraction) ++
        'e' :: (if exponent < 0 then ['-'] else numeral.plus.toList) ++
        digitsOf exponent.natAbs ++ rest) =
      .ok (⟨[first], if fraction = [] then none else some fraction, some exponent⟩, rest) := by
  obtain ⟨negative, hs, hd, he⟩ := exponent_append exponent ended hr
  generalize (if exponent < 0 then ['-'] else numeral.plus.toList) = sign at *
  rw [List.append_assoc] at hs
  rw [List.append_assoc, List.append_assoc, List.cons_append, List.cons_append]
  split_ifs with hf
  · have hw := wholeDigits_append h.digits h.canonical ended
      ('e' :: (sign ++ (digitsOf exponent.natAbs ++ rest))) rfl
    rw [List.singleton_append] at hw
    simp [numberParts, hw, hs, hd, he, bind, Except.bind, pure, Except.pure]
  · have hw := wholeDigits_append h.digits h.canonical ended
      ('.' :: (fraction ++ 'e' :: (sign ++ (digitsOf exponent.natAbs ++ rest)))) rfl
    have hf := someDigits_append ⟨hf, h.digits'⟩ ended
      ('e' :: (sign ++ (digitsOf exponent.natAbs ++ rest))) rfl
    rw [List.singleton_append] at hw
    simp [numberParts, hw, hf, hs, hd, he, bind, Except.bind, pure, Except.pure]

/-- A number with a point or an exponent, so that it is a double. -/
def NumberParts.IsDouble (parts : NumberParts) : Prop :=
  parts.fraction.isSome = true ∨ parts.exponent.isSome = true

/-- The decimal that the parts of a number are. -/
def NumberParts.decimal (parts : NumberParts) : Scaled :=
  .ofParts parts.whole (parts.fraction.getD []) (parts.exponent.getD 0)

/-- How a double is read is up to the numerals. -/
theorem NumberParts.toJson_eq [Numerals] {parts : NumberParts} (h : parts.IsDouble) (negative : Bool) :
    parts.toJson negative = match Numerals.double? negative parts with
      | some value => .ok (.double value)
      | none => .error .malformed := by
  have hn : (parts.fraction.isNone && parts.exponent.isNone) = false := by
    obtain ⟨whole, _ | fraction, _ | exponent⟩ := parts
    · simp [IsDouble] at h
    all_goals rfl
  rw [toJson, hn]
  cases Numerals.double? negative parts <;> rfl

/-- A magnitude is written as a double with this magnitude, and its parts are found whatever follows. -/
theorem numberParts_layout {text : List Char} {m : Nat} (h : numeral.Layout m text) :
    ∃ parts : NumberParts, parts.IsDouble ∧ parts.decimal.nearest = m ∧
      ∀ ended rest, Ends rest → numberParts ended (text ++ rest) = .ok (parts, rest) := by
  cases h with
  | integral whole _ h =>
    exact ⟨⟨whole, some ['0'], none⟩, .inl rfl, h.nearest, fun ended _ ↦ numberParts_point h (.singleton rfl) ended⟩
  | fractional whole fraction hf h =>
    exact ⟨⟨whole, some fraction, none⟩, .inl rfl, h.nearest, fun ended _ ↦ numberParts_point h hf ended⟩
  | scientific first fraction exponent h hp =>
    refine ⟨⟨[first], if fraction = [] then none else some fraction, some exponent⟩, .inr rfl, ?_,
      fun ended _ ↦ numberParts_exponent h ended⟩
    rw [NumberParts.decimal]
    split_ifs with hf
    · subst hf
      exact h.nearest
    · exact h.nearest

end Cityscape.Json
