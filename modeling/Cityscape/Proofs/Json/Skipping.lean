import Mathlib.Data.List.DropRight
import Cityscape.Proofs.Json.Agreement

/-!
# Values that are skipped

What nobody asks for is skipped step by step, with the open arrays and objects on a stack instead of in a recursion,
and without a bound on its depth. Everything that is read as a value can be skipped, up to the same place.
-/

namespace Cityscape.Json.Reader

/-! ### Skipping stays in the text -/

private theorem skipNumber_mirrors : Mirrors Eq skipNumber skipNumber := by
  refine .lift fun text read rest hr ↦ ?_
  obtain ⟨_, hp, he⟩ := exists_of_bind_eq_ok hr
  cases he
  exact ⟨(numberParts_ok hp).1.le, (), hr, rfl⟩

private theorem skipString_mirrors : Mirrors Eq skipString skipString := by
  refine .lift fun text read rest hr ↦ ?_
  obtain ⟨_, hp, he⟩ := exists_of_bind_eq_ok hr
  cases he
  exact ⟨(length_stringBody hp).le, (), hr, rfl⟩

private theorem skipName_mirrors : Mirrors Eq skipName skipName := by
  refine .peek fun c ↦ ?_
  split
  · exact .throw _
  · exact .eat (skipString_mirrors.bind fun _ _ _ ↦ colon_mirrors)
  · exact .throw _

private theorem skipOpening_mirrors : Mirrors Eq skipOpening skipOpening := by
  refine .peek fun c ↦ ?_
  split
  · exact .throw _
  · exact word_mirrors _ rfl
  · exact word_mirrors _ rfl
  · exact word_mirrors _ rfl
  · exact .eat (skipString_mirrors.bind fun _ _ _ ↦ .pure rfl)
  · exact .eat (skipNumber_mirrors.bind fun _ _ _ ↦ .pure rfl)
  · exact .eat (.pure rfl)
  · exact .eat (.pure rfl)
  · split_ifs
    · exact skipNumber_mirrors.bind fun _ _ _ ↦ .pure rfl
    · exact .throw _

private theorem skipFrames_mirrors (limit : Nat) (expecting : Expecting) (frames : List Frame) :
    Mirrors Eq (skipFrames limit expecting frames) (skipFrames limit expecting frames) := by
  induction limit generalizing expecting frames with
  | zero => exact .throw _
  | succ limit ih =>
    cases expecting with
    | value =>
      refine skipOpening_mirrors.bind ?_
      rintro frame _ rfl
      cases frame with
      | some frame => exact ih _ _
      | none => exact ih _ _
    | entry =>
      rw [skipFrames]
      split_ifs
      · exact skipName_mirrors.bind fun _ _ _ ↦ ih _ _
      · exact ih _ _
    | more first =>
      cases frames with
      | nil => exact .pure rfl
      | cons frame frames =>
        refine .peek fun c ↦ ?_
        split
        · exact .throw _
        · split_ifs
          · exact .eat (ih _ _)
          · exact ih _ _
          · exact .eat (ih _ _)
          · exact .throw _

/-- A value of any depth. -/
theorem skip_mirrors : Mirrors Eq skip skip :=
  .sized fun text ↦ skipFrames_mirrors (3 * text.size + 3) .value []

/-! ### Steps of skipping -/

/--
Whether skipping goes from here to there in so many steps, whatever the other bound on them is. The step that
comes next is part of it, because it is the one that looks behind blanks.
-/
def Skips (steps : Nat) (expecting : Expecting) (frames : List Frame) (text : Text) (expecting' : Expecting)
    (frames' : List Frame) (rest : Text) : Prop :=
  ∀ limit, (skipFrames (limit + 1 + steps) expecting frames).run text =
    (skipFrames (limit + 1) expecting' frames').run rest

variable {expecting expecting' expecting'' : Expecting} {frames frames' frames'' : List Frame}
  {text middle rest : Text} {steps steps' : Nat}

private theorem Skips.trans (h : Skips steps expecting frames text expecting' frames' middle)
    (h' : Skips steps' expecting' frames' middle expecting'' frames'' rest) :
    Skips (steps + steps') expecting frames text expecting'' frames'' rest := by
  intro limit
  rw [← h' limit, show limit + 1 + (steps + steps') = limit + steps' + 1 + steps by omega, h (limit + steps')]
  congr 2
  omega

/-- The text behind the blanks ahead. -/
def pastBlanks (text : Text) : Text :=
  { text with rest := text.rest.dropWhile isBlank }

/-- There are no blanks behind the blanks. -/
theorem pastBlanks_pastBlanks (text : Text) : pastBlanks (pastBlanks text) = pastBlanks text := by
  simp only [pastBlanks, List.dropWhile_idempotent]

/-- Going past blanks does not make a text longer. -/
theorem length_pastBlanks_le (text : Text) : (pastBlanks text).rest.length ≤ text.rest.length :=
  List.length_dropWhile_le ..

/-- A reader that looks ahead first goes on behind the blanks. -/
theorem run_peek_bind {α : Type} (next : Option Char → Reader α) (text : Text) :
    (peek? >>= next).run text = (next (pastBlanks text).rest.head?).run (pastBlanks text) :=
  rfl

/-- A reader that goes past a character goes on behind it. -/
theorem run_eat_bind {α : Type} (next : Unit → Reader α) (text : Text) :
    (eat >>= next).run text = (next ()).run { text with rest := text.rest.drop 1 } :=
  rfl

private theorem skips_pastBlanks (frames : List Frame) (text : Text) :
    Skips 0 .value frames text .value frames (pastBlanks text) := by
  intro limit
  have ho (text : Text) : skipOpening.run (pastBlanks text) = skipOpening.run text := by
    rw [skipOpening, run_peek_bind, run_peek_bind, pastBlanks_pastBlanks]
  simp only [skipFrames, EStateM.run, Bind.bind, EStateM.bind] at ho ⊢
  rw [ho]

section

variable {c : Char} {tail : List Char} {size : Nat}

private theorem run_more (limit : Nat) (first : Bool) (frame : Frame) (frames : List Frame)
    (ht : pastBlanks text = ⟨c :: tail, size⟩) :
    (skipFrames (limit + 1) (.more first) (frame :: frames)).run text =
      if c = frame.closing then (skipFrames limit (.more false) frames).run ⟨tail, size⟩
      else if first then (skipFrames limit .entry (frame :: frames)).run ⟨c :: tail, size⟩
      else if c = ',' then (skipFrames limit .entry (frame :: frames)).run ⟨tail, size⟩
      else .error .malformed ⟨c :: tail, size⟩ := by
  rw [skipFrames, run_peek_bind, ht]
  dsimp only [List.head?_cons]
  split_ifs <;> rfl

private theorem close_skips {frame : Frame} (h : (close frame.closing).run text = .ok () rest) (first : Bool)
    (frames : List Frame) :
    Skips 1 (.more first) (frame :: frames) text (.more false) frames rest ∧
      rest.rest.length + 1 ≤ text.rest.length := by
  have hl := length_pastBlanks_le text
  rw [close, run_peek_bind] at h
  rcases ht : pastBlanks text with ⟨_ | ⟨c, tail⟩, size⟩ <;> rw [ht] at h hl <;> dsimp only [List.head?] at h
  · cases h
  · split at h
    · next hc =>
      cases h
      refine ⟨fun limit ↦ ?_, hl⟩
      rw [run_more _ first frame frames ht, if_pos hc]
      rfl
    · cases h

/-- Whether another entry of the innermost frame comes, which begins at `start`. -/
structure Enters (frame : Frame) (first : Bool) (text start : Text) : Prop where
  run : ∀ limit frames, (skipFrames (limit + 1) (.more first) (frame :: frames)).run text =
    (skipFrames limit .entry (frame :: frames)).run start
  length : start.rest.length + (if first then 0 else 1) ≤ text.rest.length

private theorem enters_first {frame : Frame} (ht : pastBlanks text = ⟨c :: tail, size⟩) (hc : c ≠ frame.closing) :
    Enters frame true text (pastBlanks text) where
  run limit frames := by rw [run_more _ true frame frames ht, if_neg hc, if_pos rfl, ht]
  length := length_pastBlanks_le text

private theorem enters_next (frame : Frame) (ht : pastBlanks text = ⟨',' :: tail, size⟩) :
    Enters frame false text ⟨tail, size⟩ where
  run limit frames := by
    rw [run_more _ false frame frames ht, if_neg (by cases frame <;> decide), if_neg Bool.false_ne_true, if_pos rfl]
  length := by
    have hl := length_pastBlanks_le text
    rwa [ht] at hl

private theorem moreItems_enters {first : Bool} (h : (moreItems first).run text = .ok true middle) :
    ∃ start, Enters .array first text start ∧ middle = pastBlanks start := by
  rw [moreItems, run_peek_bind] at h
  rcases ht : pastBlanks text with ⟨_ | ⟨c, tail⟩, size⟩ <;> rw [ht] at h <;> dsimp only [List.head?] at h
  · cases h
  split at h
  · next hc => cases hc
  · cases h
  · next d hc hn =>
    cases hn
    cases first with
    | true =>
      cases h
      exact ⟨pastBlanks text, enters_first ht hc, by rw [pastBlanks_pastBlanks, ht]⟩
    | false =>
      rw [if_neg Bool.false_ne_true] at h
      split at h
      · next hcomma =>
        subst hcomma
        refine ⟨_, enters_next .array ht, ?_⟩
        rw [run_eat_bind, run_peek_bind] at h
        split at h
        · cases h
        · cases h
        · cases h
          rfl
      · cases h

private theorem moreMembers_enters {first : Bool} (h : (moreMembers first).run text = .ok true middle) :
    ∃ start, Enters .object first text start ∧ middle = pastBlanks start ∧ middle.rest.head? = some '"' := by
  rw [moreMembers, run_peek_bind] at h
  rcases ht : pastBlanks text with ⟨_ | ⟨c, tail⟩, size⟩ <;> rw [ht] at h <;> dsimp only [List.head?] at h
  · cases h
  split at h
  · next hc => cases hc
  · cases h
  · next d hc hn =>
    cases hn
    cases first with
    | true =>
      rw [if_pos rfl] at h
      split at h
      · next hq =>
        subst hq
        cases h
        exact ⟨pastBlanks text, enters_first ht hc, by rw [pastBlanks_pastBlanks, ht], rfl⟩
      · cases h
    | false =>
      rw [if_neg Bool.false_ne_true] at h
      split at h
      · next hcomma =>
        subst hcomma
        refine ⟨_, enters_next .object ht, ?_⟩
        rw [run_eat_bind, run_peek_bind] at h
        split at h
        · cases h
        · next hq =>
          cases h
          exact ⟨rfl, hq⟩
        · cases h
      · cases h

/-- Behind the last item, only blanks are gone past. -/
theorem moreItems_false {first : Bool} (h : (moreItems first).run text = .ok false rest) :
    rest = pastBlanks text := by
  rw [moreItems, run_peek_bind] at h
  split at h
  · cases h
  · cases h
    rfl
  · split at h
    · cases h
    · split at h
      · rw [run_eat_bind, run_peek_bind] at h
        split at h <;> cases h
      · cases h

private theorem moreMembers_false {first : Bool} (h : (moreMembers first).run text = .ok false rest) :
    rest = pastBlanks text := by
  rw [moreMembers, run_peek_bind] at h
  split at h
  · cases h
  · cases h
    rfl
  · split at h
    · split at h <;> cases h
    · split at h
      · rw [run_eat_bind, run_peek_bind] at h
        split at h <;> cases h
      · cases h

private theorem stringTail_skips {name : String} (h : stringTail.run text = .ok name rest) :
    skipString.run text = .ok () rest ∧ rest.rest.length < text.rest.length := by
  obtain ⟨body, _, hb, h⟩ := exists_of_run_bind h
  cases h
  obtain ⟨hb, hs⟩ := run_lift_eq_ok_iff.mp hb
  obtain ⟨body', hl⟩ := stringBody_loose hb
  exact ⟨run_lift_eq_ok_iff.mpr ⟨by rw [hl]; rfl, hs⟩, length_stringBody hb⟩

private theorem numberTail_skips [Numerals] {negative : Bool} {value : Json}
    (h : (numberTail negative).run text = .ok value rest) :
    skipNumber.run text = .ok () rest ∧ rest.rest.length < text.rest.length := by
  obtain ⟨hp, hs⟩ := run_lift_eq_ok_iff.mp h
  obtain ⟨⟨parts, behind⟩, hp, h⟩ := exists_of_bind_eq_ok hp
  obtain ⟨_, _, h⟩ := exists_of_bind_eq_ok h
  cases h
  obtain ⟨hl, hp⟩ := numberParts_ok hp
  exact ⟨run_lift_eq_ok_iff.mpr ⟨by rw [hp]; rfl, hs⟩, hl⟩

private theorem word_skips {letters : List Char} {value found : Json}
    (h : (word letters value).run text = .ok found rest) :
    (word letters (none : Option Frame)).run text = .ok none rest ∧
      rest.rest.length + letters.length ≤ text.rest.length := by
  obtain ⟨_, behind, he, h⟩ := exists_of_run_bind h
  obtain ⟨hp, hs⟩ := run_lift_eq_ok_iff.mp h
  obtain ⟨left, hl, hp⟩ := exists_of_bind_eq_ok hp
  have hr : rest.rest = left := (congrArg Prod.snd (Except.ok.inj hp)).symm
  refine ⟨?_, ?_⟩
  · rw [word, run_bind he]
    exact run_lift_eq_ok_iff.mpr ⟨by rw [hl, hr]; rfl, hs⟩
  · have hl := length_literal hl
    have hd : behind.rest.length ≤ text.rest.length := by
      cases he
      exact (List.drop_sublist 1 text.rest).length_le
    rw [hr]
    omega

private theorem length_colon (h : colon.run text = .ok () rest) : rest.rest.length ≤ text.rest.length := by
  rw [colon, run_peek_bind] at h
  split at h
  · cases h
  · cases h
    exact (List.drop_sublist 1 _).length_le.trans (length_pastBlanks_le text)
  · cases h

private theorem memberName_skips {name : String} (hq : (pastBlanks text).rest.head? = some '"')
    (hn : memberName.run (pastBlanks text) = .ok name middle) (hc : colon.run middle = .ok () rest) :
    skipName.run text = .ok () rest ∧ rest.rest.length ≤ text.rest.length := by
  rw [skipName, run_peek_bind, hq]
  obtain ⟨_, behind, he, hn⟩ := exists_of_run_bind hn
  obtain ⟨hs, hl⟩ := stringTail_skips hn
  refine ⟨?_, ?_⟩
  · change (eat >>= fun _ ↦ skipString >>= fun _ ↦ colon).run (pastBlanks text) = _
    rw [run_bind he, run_bind hs, hc]
  · calc rest.rest.length ≤ middle.rest.length := length_colon hc
      _ ≤ behind.rest.length := hl.le
      _ ≤ (pastBlanks text).rest.length := by
        cases he
        exact (List.drop_sublist 1 _).length_le
      _ ≤ text.rest.length := length_pastBlanks_le text

private theorem moreItems_skips {first : Bool} (h : (moreItems first).run text = .ok true rest) (frames : List Frame) :
    Skips 2 (.more first) (.array :: frames) text .value (.array :: frames) rest ∧
      rest.rest.length + (if first then 0 else 1) ≤ text.rest.length := by
  obtain ⟨start, he, rfl⟩ := moreItems_enters h
  refine ⟨fun limit ↦ ?_, (Nat.add_le_add_right (length_pastBlanks_le start) _).trans he.length⟩
  rw [he.run, ← skips_pastBlanks _ _ limit]
  rfl

private theorem moreMembers_skips {first : Bool} {name : String} {behind : Text}
    (h : (moreMembers first).run text = .ok true middle) (hn : memberName.run middle = .ok name behind)
    (hc : colon.run behind = .ok () rest) (frames : List Frame) :
    Skips 2 (.more first) (.object :: frames) text .value (.object :: frames) rest ∧
      rest.rest.length + (if first then 0 else 1) ≤ text.rest.length := by
  obtain ⟨start, he, rfl, hq⟩ := moreMembers_enters h
  obtain ⟨hs, hl⟩ := memberName_skips hq hn hc
  refine ⟨fun limit ↦ ?_, (Nat.add_le_add_right hl _).trans he.length⟩
  rw [he.run]
  exact run_bind hs fun _ ↦ skipFrames (limit + 1) .value (.object :: frames)

private theorem valueWith_skips [Numerals] {onArray onObject : Reader Json} {value : Json}
    (h : (valueWith onArray onObject).run text = .ok value rest) :
    (skipOpening.run text = .ok none rest ∧ rest.rest.length < text.rest.length) ∨
      (∃ inner, skipOpening.run text = .ok (some .array) inner ∧ inner.rest.length < text.rest.length ∧
        onArray.run inner = .ok value rest) ∨
      ∃ inner, skipOpening.run text = .ok (some .object) inner ∧ inner.rest.length < text.rest.length ∧
        onObject.run inner = .ok value rest := by
  have hl := length_pastBlanks_le text
  rw [valueWith, run_peek_bind] at h
  rw [skipOpening, run_peek_bind]
  rcases ht : pastBlanks text with ⟨_ | ⟨c, tail⟩, size⟩ <;> rw [ht] at h hl <;> dsimp only [List.head?] at h ⊢
  · cases h
  have hword {letters : List Char} {found : Json} (hn : letters ≠ [])
      (h : (word letters found).run ⟨c :: tail, size⟩ = .ok value rest) :
      (word letters (none : Option Frame)).run ⟨c :: tail, size⟩ = .ok none rest ∧
        rest.rest.length < text.rest.length := by
    obtain ⟨hs, hw⟩ := word_skips h
    have := List.length_pos_of_ne_nil hn
    exact ⟨hs, by omega⟩
  split at h
  · next hc => cases hc
  · next hc =>
    cases hc
    exact .inl (hword (by decide) h)
  · next hc =>
    cases hc
    exact .inl (hword (by decide) h)
  · next hc =>
    cases hc
    exact .inl (hword (by decide) h)
  · next hc =>
    cases hc
    rw [run_eat_bind] at h
    obtain ⟨name, _, hs, h⟩ := exists_of_run_bind h
    cases h
    obtain ⟨hs, hlt⟩ := stringTail_skips hs
    exact .inl ⟨run_bind hs fun _ ↦ pure none, hlt.trans hl⟩
  · next hc =>
    cases hc
    rw [run_eat_bind] at h
    obtain ⟨hs, hlt⟩ := numberTail_skips h
    exact .inl ⟨run_bind hs fun _ ↦ pure none, hlt.trans hl⟩
  · next hc =>
    cases hc
    exact .inr (.inl ⟨⟨tail, size⟩, rfl, hl, h⟩)
  · next hc =>
    cases hc
    exact .inr (.inr ⟨⟨tail, size⟩, rfl, hl, h⟩)
  · next d h1 h2 h3 h4 h5 h6 h7 hc =>
    cases hc
    split at h
    · next hd =>
      obtain ⟨hs, hlt⟩ := numberTail_skips h
      refine .inl ⟨?_, hlt.trans_le hl⟩
      rw [if_pos hd]
      exact run_bind hs fun _ ↦ pure none
    · cases h

/-- Whether everything between two places is skipped as a value, with at most two steps for each character. -/
def Passes (text rest : Text) : Prop :=
  ∃ steps, steps + 2 * rest.rest.length + 1 ≤ 2 * text.rest.length ∧
    ∀ frames, Skips steps .value frames text (.more false) frames rest

/-- Whether what is left of a frame is skipped up to its closing bracket. -/
def PassesFrame (frame : Frame) (first : Bool) (text rest : Text) : Prop :=
  ∃ steps, steps + 2 * rest.rest.length ≤ 2 * text.rest.length + (if first then 1 else 0) ∧
    ∀ frames, ∃ first', Skips steps (.more first) (frame :: frames) text (.more first') (frame :: frames) rest

private theorem PassesFrame.entry {frame : Frame} {first : Bool} {start behind : Text}
    (hs : ∀ frames, Skips 2 (.more first) (frame :: frames) text .value (frame :: frames) start)
    (hl : start.rest.length + (if first then 0 else 1) ≤ text.rest.length) (hv : Passes start behind)
    (h : PassesFrame frame false behind rest) : PassesFrame frame first text rest := by
  obtain ⟨steps, hn, hv⟩ := hv
  obtain ⟨steps', hn', h⟩ := h
  -- The comma pays for both steps; before the first entry, the bracket and the value have one left each.
  refine ⟨2 + steps + steps', ?_, fun frames ↦ ?_⟩
  · rw [if_neg Bool.false_ne_true] at hn'
    cases first with
    | true =>
      simp only [if_pos] at hl ⊢
      omega
    | false =>
      simp only [Bool.false_eq_true, if_false] at hl ⊢
      omega
  · obtain ⟨first', h⟩ := h frames
    exact ⟨first', ((hs frames).trans (hv (frame :: frames))).trans h⟩

private theorem passesFrame_pastBlanks (frame : Frame) (first : Bool) (text : Text) :
    PassesFrame frame first text (pastBlanks text) := by
  have hl := length_pastBlanks_le text
  refine ⟨0, by omega, fun frames ↦ ⟨first, fun limit ↦ ?_⟩⟩
  rw [skipFrames, run_peek_bind, run_peek_bind, pastBlanks_pastBlanks]

private theorem Passes.frame {frame : Frame} {inner : Text} (ho : skipOpening.run text = .ok (some frame) inner)
    (hl : inner.rest.length < text.rest.length) (h : PassesFrame frame true inner middle)
    (hc : (close frame.closing).run middle = .ok () rest) : Passes text rest := by
  obtain ⟨steps, hn, h⟩ := h
  have hlast := (close_skips hc true []).2
  refine ⟨1 + steps + 1, ?_, fun frames ↦ ?_⟩
  · rw [if_pos rfl] at hn
    omega
  · obtain ⟨first, hs⟩ := h frames
    have hopen : Skips 1 .value frames text (.more true) (frame :: frames) inner :=
      fun limit ↦ run_bind ho _
    exact (hopen.trans hs).trans (close_skips hc first frames).1

private theorem itemsUpTo_passes {item : Reader Json}
    (hi : ∀ ⦃text value rest⦄, item.run text = .ok value rest → Passes text rest) {limit : Nat} {first : Bool}
    {values : List Json} (h : (itemsUpTo item limit first).run text = .ok values rest) :
    PassesFrame .array first text rest := by
  induction limit generalizing first text values with
  | zero => cases h
  | succ limit ih =>
    obtain ⟨more, middle, hm, h⟩ := exists_of_run_bind h
    cases more with
    | false =>
      cases h
      rw [moreItems_false hm]
      exact passesFrame_pastBlanks .array first text
    | true =>
      obtain ⟨value, behind, hv, h⟩ := exists_of_run_bind h
      obtain ⟨values, _, hr, h⟩ := exists_of_run_bind h
      cases h
      exact .entry (fun frames ↦ (moreItems_skips hm frames).1) (moreItems_skips hm []).2 (hi hv) (ih hr)

private theorem membersUpTo_passes {σ : Type} {member : σ → String → Reader σ}
    (hv : ∀ ⦃state name text after rest⦄, (member state name).run text = .ok after rest →
      ∃ start, colon.run text = .ok () start ∧ Passes start rest)
    {limit : Nat} {first : Bool} {state after : σ}
    (h : (membersUpTo member limit first state).run text = .ok after rest) : PassesFrame .object first text rest := by
  induction limit generalizing first text state with
  | zero => cases h
  | succ limit ih =>
    obtain ⟨more, middle, hm, h⟩ := exists_of_run_bind h
    cases more with
    | false =>
      cases h
      rw [moreMembers_false hm]
      exact passesFrame_pastBlanks .object first text
    | true =>
      obtain ⟨name, behind, hn, h⟩ := exists_of_run_bind h
      obtain ⟨next, _, hs, h⟩ := exists_of_run_bind h
      obtain ⟨start, hc, hp⟩ := hv hs
      exact .entry (fun frames ↦ (moreMembers_skips hm hn hc frames).1) (moreMembers_skips hm hn hc []).2 hp (ih h)

private theorem passes_of_opening (hs : skipOpening.run text = .ok none rest)
    (hl : rest.rest.length < text.rest.length) :
    Passes text rest :=
  ⟨1, by omega, fun _ _ ↦ run_bind hs _⟩

private theorem value_passes [Numerals] {depth : Nat} {found : Json} (h : (value depth).run text = .ok found rest) :
    Passes text rest := by
  -- Items and members are read with less room for brackets, so the induction is on the room.
  induction depth generalizing text found rest with
  | zero =>
    rcases valueWith_skips h with ⟨hs, hl⟩ | ⟨_, _, _, h⟩ | ⟨_, _, _, h⟩
    · exact passes_of_opening hs hl
    · cases h
    · cases h
  | succ depth ih =>
    rcases valueWith_skips h with ⟨hs, hl⟩ | ⟨inner, hs, hl, h⟩ | ⟨inner, hs, hl, h⟩
    · exact passes_of_opening hs hl
    · obtain ⟨_, _, h, hr⟩ := exists_of_run_bind h
      cases hr
      obtain ⟨_, middle, hi, h⟩ := exists_of_run_bind h
      obtain ⟨_, _, hc, h⟩ := exists_of_run_bind h
      cases h
      exact .frame hs hl (itemsUpTo_passes (fun _ _ _ h ↦ ih h) hi) hc
    · obtain ⟨_, _, h, hr⟩ := exists_of_run_bind h
      cases hr
      obtain ⟨_, middle, hm, h⟩ := exists_of_run_bind h
      obtain ⟨_, _, hc, h⟩ := exists_of_run_bind h
      cases h
      refine .frame hs hl (membersUpTo_passes ?_ hm) hc
      intro read name text after rest h
      obtain ⟨_, _, h, hr⟩ := exists_of_run_bind h
      cases hr
      obtain ⟨_, start, hc, h⟩ := exists_of_run_bind h
      exact ⟨start, hc, ih h⟩

end

/-- A value is skipped up to the same place. -/
theorem value_mirrors_skip [Numerals] (depth : Nat) : Mirrors (fun _ _ ↦ True) (value depth) skip := by
  intro text found rest ht h
  obtain ⟨hb, _⟩ := value_mirrors depth ht h
  obtain ⟨steps, hn, hs⟩ := value_passes h
  refine ⟨hb, (), ?_, True.intro⟩
  -- Skipping has three steps for each character of the whole text, which are enough for what is left of it.
  have hs := hs [] (3 * text.size + 2 - steps)
  rw [show 3 * text.size + 2 - steps + 1 + steps = 3 * text.size + 3 by rw [Text.Bounded] at ht; omega] at hs
  exact hs

end Cityscape.Json.Reader
