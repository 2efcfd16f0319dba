import Cityscape.Proofs.Json.Finite
import Cityscape.Proofs.Json.Reader

/-!
# Numbers in texts

Every finite number is written with a point or an exponent, and its text says exactly this number. What is read there
is still up to the numerals of the reader, which may round. It does not depend on what stands around the text: numbers
are `Readable` if something is read where they were written alone, and `Faithful` if the same number is read there.
All numbers are faithful to a reader that takes the nearest double.
-/

namespace Cityscape.Json

open Reader

variable {α β : Type}

namespace Reader

/-- What a value of the text of a double is: one that is not finite has no text of its own. -/
def ofDouble (value : Float) : Json :=
  if value.isFinite then .double value else .null

private theorem numberTail_reads [Numerals] {text rest : List Char} {parts : NumberParts}
    (h : numberParts .truncated (text ++ rest) = .ok (parts, rest)) (negative : Bool) :
    Reads (numberTail negative) (text ++ rest) ((parts.toJson negative).map (·, rest)) := by
  cases hj : parts.toJson negative with
  | error fault =>
    apply Reads.lift_error
    rw [h]
    change (parts.toJson negative >>= _) = _
    rw [hj]
    rfl
  | ok value =>
    apply Reads.lift
    · rw [h]
      change (parts.toJson negative >>= _) = _
      rw [hj]
      rfl
    · rw [List.length_append]
      omega

/-- A magnitude is written with a digit first. -/
theorem head_magnitude {m : Nat} (hm : m < Decimal.infinite) :
    ∃ c text, numeral.magnitude m = c :: text ∧ c.isDigit = true := by
  have hl := numeral.layout_magnitude hm
  generalize numeral.magnitude m = text at hl
  cases hl with
  | integral whole h _ | fractional whole _ _ h =>
    obtain ⟨hn, hd⟩ := h.digits
    cases whole with
    | nil => exact absurd rfl hn
    | cons c whole => exact ⟨c, _, rfl, hd c List.mem_cons_self⟩
  | scientific first _ _ h _ => exact ⟨first, _, rfl, h.digits.2 first List.mem_cons_self⟩

/-- A digit is not blank. -/
theorem isBlank_of_isDigit {c : Char} (hc : c.isDigit = true) : isBlank c = false := by
  rw [Bool.eq_false_iff]
  intro hn
  simp only [isBlank, Bool.or_eq_true, decide_eq_true_eq] at hn
  rcases hn with ((rfl | rfl) | rfl) | rfl <;> cases hc

private theorem valueWith_digit [Numerals] {onArray onObject : Reader Json} {blanks rest : List Char}
    (hb : Blanks blanks) {c : Char} (hc : c.isDigit = true) {result : Except Fault (Json × List Char)}
    (h : Reads (numberTail false) (c :: rest) result) :
    Reads (valueWith onArray onObject) (blanks ++ c :: rest) result := by
  apply (Reads.peek hb (isBlank_of_isDigit hc) rest).bind
  split
  · next he => cases he
  · next he =>
    cases he
    cases hc
  · next he =>
    cases he
    cases hc
  · next he =>
    cases he
    cases hc
  · next he =>
    cases he
    cases hc
  · next he =>
    cases he
    cases hc
  · next he =>
    cases he
    cases hc
  · next he =>
    cases he
    cases hc
  · next he =>
    cases he
    rw [if_pos hc]
    exact h

private theorem exists_parts {value : Float} (hf : value.isFinite = true) :
    ∃ parts : NumberParts, parts.IsDouble ∧ parts.decimal.nearest = Decimal.magnitude value ∧
      ∀ [Numerals] (onArray onObject : Reader Json), Takes (valueWith onArray onObject)
        (numeral.write value).toList (parts.toJson (Decimal.isNegative value)) := by
  have hm := Decimal.isFinite_iff.mp hf
  obtain ⟨parts, hd, hn, hp⟩ := numberParts_layout (numeral.layout_magnitude hm)
  refine ⟨parts, hd, hn, fun onArray onObject blanks rest hb hr ↦ ?_⟩
  have ht := numberTail_reads (hp .truncated rest hr)
  rw [Decimal.Style.write, if_neg (by omega), if_neg hm.ne, String.toList_ofList]
  cases hs : Decimal.isNegative value with
  | true => exact (Reads.peek hb rfl _).bind ((Reads.eat '-' _).bind (ht true))
  | false =>
    obtain ⟨c, text, he, hc⟩ := head_magnitude hm
    replace ht := ht false
    rw [he] at ht ⊢
    exact valueWith_digit hb hc ht

private theorem null_takes [Numerals] {value : Float} (hf : ¬ value.isFinite = true) (onArray onObject : Reader Json) :
    Takes (valueWith onArray onObject) (numeral.write value).toList (.ok .null) := by
  intro blanks rest hb _
  have hm : Decimal.infinite ≤ Decimal.magnitude value := by
    rw [Decimal.isFinite_iff] at hf
    omega
  have hw : numeral.write value = "null" := by
    unfold Decimal.Style.write
    simp only
    split_ifs <;> first | rfl | omega
  rw [hw]
  exact (Reads.peek hb rfl _).bind ((Reads.eat 'n' _).bind (Reads.lift rfl (Nat.le_add_right _ 3)))

/-- A text that is read to its end. -/
theorem readAll_eq {reader : Reader α} {text : String} {result : Except Fault α}
    (h : Takes reader text.toList result) : readAll reader text = result := by
  have hr := h [] [] blanks_nil (fun _ h ↦ nomatch h) text.toList.length (by simp)
  rw [List.nil_append, List.append_nil] at hr
  cases result with
  | error fault =>
    obtain ⟨left, hr⟩ := hr
    simp only [readAll, EStateM.run, Bind.bind, EStateM.bind] at hr ⊢
    rw [hr]
  | ok a =>
    obtain ⟨_, hr⟩ := hr
    simp only [readAll, EStateM.run, Bind.bind, EStateM.bind] at hr ⊢
    rw [hr]
    rfl

end Reader

section

variable [Numerals]

/-- What is read where a number was written. -/
def readBack (number : Float) : Except Fault Json :=
  readAll (Reader.value 0) (numeral.write number)

/-- Numbers in whose texts something is found. -/
def Readable (numbers : List Float) : Prop :=
  ∀ number ∈ numbers, (readBack number).isOk = true

/-- Numbers that are found in their texts again, as far as they are finite. -/
def Faithful (numbers : List Float) : Prop :=
  ∀ number ∈ numbers, number.isFinite = true → readBack number = .ok (.double number)

instance (numbers : List Float) : Decidable (Readable numbers) :=
  List.decidableBAll _ numbers

/-- The number that is read where a finite one was written. -/
def returned (number : Float) : Float :=
  match readBack number with
  | .ok (.double found) => found
  | _ => number

variable {number : Float}

private theorem readBack_of_parts {parts : NumberParts}
    (h : ∀ onArray onObject, Takes (valueWith onArray onObject) (numeral.write number).toList
      (parts.toJson (Decimal.isNegative number))) :
    readBack number = parts.toJson (Decimal.isNegative number) := by
  rw [readBack, value]
  exact readAll_eq (h _ _)

private theorem readBack_cases (hf : number.isFinite = true) :
    readBack number = .error .malformed ∨
      ∃ found : Float, found.isFinite = true ∧ readBack number = .ok (.double found) := by
  obtain ⟨parts, hd, _, ht⟩ := exists_parts hf
  rw [readBack_of_parts ht, NumberParts.toJson_eq hd]
  split
  · next found hv => exact .inr ⟨found, Numerals.finite hv, rfl⟩
  · exact .inl rfl

private theorem readBack_eq_null (hf : ¬ number.isFinite = true) : readBack number = .ok .null := by
  rw [readBack, value]
  exact readAll_eq (null_takes hf _ _)

/-- Reading a number back does not make it finite or infinite. -/
theorem isFinite_returned (number : Float) : (returned number).isFinite = number.isFinite := by
  rw [returned]
  by_cases hf : number.isFinite = true
  · obtain h | ⟨found, hv, h⟩ := readBack_cases hf
    · rw [h]
    · rw [h, hf]
      exact hv
  · rw [readBack_eq_null hf]

/-- Faithful numbers are those that are read, and as themselves. -/
theorem faithful_iff {numbers : List Float} :
    Faithful numbers ↔ Readable numbers ∧ ∀ number ∈ numbers, returned number = number := by
  simp only [Readable, ← forall₂_and]
  refine forall₂_congr fun number _ ↦ ?_
  by_cases hf : number.isFinite = true
  · obtain h | ⟨found, _, h⟩ := readBack_cases hf
    · simp [h, hf, Except.isOk, Except.toBool]
    · simp [h, hf, returned, Except.isOk, Except.toBool]
  · simp [readBack_eq_null hf, hf, returned, Except.isOk, Except.toBool]

instance (numbers : List Float) : Decidable (Faithful numbers) :=
  decidable_of_iff _ faithful_iff.symm

/-- A result that takes some numbers to be readable. -/
def admitting (numbers : List Float) (result : Except Fault α) : Except Fault α :=
  if Readable numbers then result else .error .malformed

variable {numbers : List Float}

/-- Where numbers are not readable, there is no result. -/
theorem admitting_eq_ok {result : Except Fault α} {a : α} :
    admitting numbers result = .ok a ↔ Readable numbers ∧ result = .ok a := by
  rw [admitting]
  split_ifs with h
  · simp [h]
  · simp [h]

/-- Nothing has to be readable. -/
theorem admitting_nil (result : Except Fault α) : admitting [] result = result :=
  if_pos (List.forall_mem_nil _)

/-- Some numbers have to be readable, and then others. -/
theorem admitting_append (numbers numbers' : List Float) (result : Except Fault α) :
    admitting (numbers ++ numbers') result = admitting numbers (admitting numbers' result) := by
  simp only [admitting, Readable, List.forall_mem_append, ite_and]

/-- A result may be changed. -/
theorem map_admitting (f : α → β) (numbers : List Float) (result : Except Fault α) :
    (admitting numbers result).map f = admitting numbers (result.map f) := by
  simp only [admitting, apply_ite (Except.map f)]
  rfl

/-- Reading goes on behind readable numbers. -/
theorem Reader.Reads.bind_admitting {reader : Reader α} {next : α → Reader β} {text rest : List Char} {a : α}
    {result : Except Fault (β × List Char)} (h : Reads reader text ((admitting numbers (.ok a)).map (·, rest)))
    (h' : Reads (next a) rest result) : Reads (reader >>= next) text (admitting numbers result) := by
  unfold admitting at h ⊢
  split_ifs at h ⊢
  · exact h.bind h'
  · exact h.bind_error

/-- One item after the other. -/
theorem mapM_admitting {γ : Type} (numbers : γ → List Float) (found : γ → β) (xs : List γ) :
    (xs.mapM fun x ↦ admitting (numbers x) (.ok (found x))) =
      admitting (xs.flatMap numbers) (.ok (xs.map found)) := by
  induction xs with
  | nil => exact (admitting_nil _).symm
  | cons x xs ih =>
    rw [List.mapM_cons, ih, List.flatMap_cons, admitting_append, List.map_cons]
    simp only [admitting]
    split_ifs <;> rfl

/-- A double is read among other values as it is alone. -/
theorem double_takes (onArray onObject : Reader Json) (value : Float) :
    Takes (valueWith onArray onObject) (numeral.write value).toList
      (admitting [value] (.ok (ofDouble (returned value)))) := by
  simp only [admitting, Readable, List.forall_mem_singleton, ofDouble, isFinite_returned]
  by_cases hf : value.isFinite = true
  · obtain ⟨parts, _, _, ht⟩ := exists_parts hf
    have hb := readBack_of_parts ht
    replace ht := ht onArray onObject
    rw [← hb] at ht
    obtain h | ⟨found, _, h⟩ := readBack_cases hf
    · simpa [h, Except.isOk, Except.toBool] using ht
    · simpa [h, hf, returned, Except.isOk, Except.toBool] using ht
  · simpa [readBack_eq_null hf, hf, Except.isOk, Except.toBool] using null_takes hf onArray onObject

end

/-- Numbers that are read as the doubles nearest to them. -/
@[reducible] def Numerals.nearest : Numerals where
  double? negative parts :=
    if parts.decimal.nearest = Decimal.infinite then none else some (parts.decimal.toFloat negative)
  finite h := by
    split_ifs at h with hi
    cases h
    exact Decimal.isFinite_ofMagnitude _ (lt_of_le_of_ne (Decimal.Scaled.nearest_le _) hi)

/-- Numbers are written so precisely that the nearest doubles are the same numbers. -/
theorem faithful_nearest (numbers : List Float) : @Faithful .nearest numbers := by
  let := Numerals.nearest
  intro number _ hf
  obtain ⟨parts, hd, hn, ht⟩ := exists_parts hf
  have hm := Decimal.isFinite_iff.mp hf
  have hv : Numerals.double? (Decimal.isNegative number) parts = some number := by
    change (if parts.decimal.nearest = Decimal.infinite then none else some (parts.decimal.toFloat _)) = _
    rw [hn, if_neg hm.ne, Decimal.Scaled.toFloat, hn, Decimal.ofMagnitude_magnitude hf]
  rw [readBack_of_parts ht, NumberParts.toJson_eq hd, hv]

end Cityscape.Json
