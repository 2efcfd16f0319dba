import Cityscape.Proofs.Json.Finite
import Cityscape.Proofs.Json.Literal
import Cityscape.Proofs.Json.Reader

/-!
# Readers that agree

Two readers may look at the same text and ask for different things. One mirrors the other if it reads every text
that the other reads, up to the same place, and finds something that agrees with what the other found. Readers are
put together in sequence, and so are these facts.
-/

namespace Cityscape.Json

/-- Whether the size of a text bounds its length. -/
def Text.Bounded (text : Text) : Prop :=
  text.rest.length ≤ text.size

namespace Reader

variable {α β γ δ σ τ : Type}

/-- What two readers in sequence read, each of them reads. -/
theorem exists_of_run_bind {first : Reader α} {next : α → Reader β} {text rest : Text} {b : β}
    (h : (first >>= next).run text = .ok b rest) :
    ∃ a middle, first.run text = .ok a middle ∧ (next a).run middle = .ok b rest := by
  simp only [EStateM.run, Bind.bind, EStateM.bind] at h ⊢
  cases hf : first text with
  | error fault left =>
    rw [hf] at h
    cases h
  | ok a middle =>
    rw [hf] at h
    exact ⟨a, middle, rfl, h⟩

/-- A reader goes on where another one stopped. -/
theorem run_bind {first : Reader α} {text middle : Text} {a : α} (h : first.run text = .ok a middle)
    (next : α → Reader β) : (first >>= next).run text = (next a).run middle := by
  simp only [EStateM.run, Bind.bind, EStateM.bind] at h ⊢
  rw [h]

/-- What is read with a function on characters. -/
theorem run_lift_eq_ok_iff {part : List Char → Except Fault (α × List Char)} {text rest : Text} {a : α} :
    (lift part).run text = .ok a rest ↔ part text.rest = .ok (a, rest.rest) ∧ rest.size = text.size := by
  have hg : (EStateM.get : Reader Text) text = .ok text text := rfl
  simp only [lift, EStateM.run, Bind.bind, EStateM.bind, get, getThe, MonadStateOf.get, hg]
  cases part text.rest with
  | error fault =>
    constructor
    · intro h
      cases h
    · intro h
      cases h.1
  | ok read =>
    constructor
    · intro h
      cases h
      exact ⟨rfl, rfl⟩
    · rintro ⟨hp, hs⟩
      cases hp
      obtain ⟨chars, size⟩ := rest
      cases hs
      rfl

/--
Whether `loose` mirrors `strict`: where `strict` reads something, `loose` reads something that agrees with it and
stops at the same place.
-/
def Mirrors (agree : α → β → Prop) (strict : Reader α) (loose : Reader β) : Prop :=
  ∀ ⦃text a rest⦄, text.Bounded → strict.run text = .ok a rest →
    rest.Bounded ∧ ∃ b, loose.run text = .ok b rest ∧ agree a b

namespace Mirrors

variable {agree : α → β → Prop} {agree' : γ → δ → Prop} {strict : Reader α} {loose : Reader β}
  {next : α → Reader γ} {next' : β → Reader δ}

/-- Nothing is read. -/
theorem pure {a : α} {b : β} (h : agree a b) : Mirrors agree (Pure.pure a) (Pure.pure b) := by
  rintro text _ _ ht ⟨⟩
  exact ⟨ht, b, rfl, h⟩

/-- Where `strict` faults, there is nothing to mirror. -/
theorem throw (fault : Fault) : Mirrors agree (MonadExcept.throw fault) loose :=
  fun _ _ _ _ h ↦ nomatch h

/-- One step after another. -/
theorem bind (h : Mirrors agree strict loose) (h' : ∀ a b, agree a b → Mirrors agree' (next a) (next' b)) :
    Mirrors agree' (strict >>= next) (loose >>= next') := by
  intro text c rest ht hr
  obtain ⟨a, middle, hs, hr⟩ := exists_of_run_bind hr
  obtain ⟨hm, b, hl, hab⟩ := h ht hs
  rw [run_bind hl]
  exact h' a b hab hm hr

/-- What `strict` and `loose` found may be changed. -/
theorem map (h : Mirrors agree strict loose) {f : α → γ} {g : β → δ} (hf : ∀ a b, agree a b → agree' (f a) (g b)) :
    Mirrors agree' (strict >>= fun a ↦ Pure.pure (f a)) (loose >>= fun b ↦ Pure.pure (g b)) :=
  h.bind fun a b hab ↦ pure (hf a b hab)

/-- Both readers look at the text and its size first. -/
theorem sized {strict : Text → Reader α} {loose : Text → Reader β}
    (h : ∀ text, Mirrors agree (strict text) (loose text)) : Mirrors agree (get >>= strict) (get >>= loose) :=
  fun text _ _ ht hr ↦ h text ht hr

/-- Parts of the text that are read by functions on characters. -/
theorem lift {part : List Char → Except Fault (α × List Char)} {part' : List Char → Except Fault (β × List Char)}
    (h : ∀ text a rest, part text = .ok (a, rest) →
      rest.length ≤ text.length ∧ ∃ b, part' text = .ok (b, rest) ∧ agree a b) :
    Mirrors agree (Reader.lift part) (Reader.lift part') := by
  intro text a rest ht hr
  obtain ⟨hp, hs⟩ := run_lift_eq_ok_iff.mp hr
  obtain ⟨hl, b, hb, hab⟩ := h _ _ _ hp
  refine ⟨?_, b, run_lift_eq_ok_iff.mpr ⟨hb, hs⟩, hab⟩
  rw [Text.Bounded, hs]
  exact hl.trans ht

end Mirrors

private theorem peek_mirrors : Mirrors Eq peek? peek? := by
  rintro text _ _ ht ⟨⟩
  exact ⟨(List.length_dropWhile_le ..).trans ht, _, rfl, rfl⟩

/-- One character less. -/
theorem eat_mirrors : Mirrors Eq eat eat := by
  rintro text _ _ ht ⟨⟩
  refine ⟨?_, (), rfl, rfl⟩
  exact (List.drop_sublist 1 text.rest).length_le.trans ht

/-- Both readers look at the same character. -/
theorem Mirrors.peek {agree : α → β → Prop} {next : Option Char → Reader α} {next' : Option Char → Reader β}
    (h : ∀ c, Mirrors agree (next c) (next' c)) : Mirrors agree (peek? >>= next) (peek? >>= next') :=
  peek_mirrors.bind fun _ c hc ↦ hc ▸ h c

/-- Both readers go past the same character. -/
theorem Mirrors.eat {agree : α → β → Prop} {strict : Reader α} {loose : Reader β} (h : Mirrors agree strict loose) :
    Mirrors agree (Reader.eat >>= fun _ ↦ strict) (Reader.eat >>= fun _ ↦ loose) :=
  eat_mirrors.bind fun _ _ _ ↦ h

private theorem moreItems_mirrors (first : Bool) : Mirrors Eq (moreItems first) (moreItems first) := by
  refine .peek fun c ↦ ?_
  split
  · exact .throw _
  · exact .pure rfl
  · split_ifs
    · exact .pure rfl
    · refine .eat (.peek fun c ↦ ?_)
      split
      · exact .throw _
      · exact .throw _
      · exact .pure rfl
    · exact .throw _

private theorem moreMembers_mirrors (first : Bool) : Mirrors Eq (moreMembers first) (moreMembers first) := by
  refine .peek fun c ↦ ?_
  split
  · exact .throw _
  · exact .pure rfl
  · split_ifs
    · exact .pure rfl
    · exact .throw _
    · refine .eat (.peek fun c ↦ ?_)
      split
      · exact .throw _
      · exact .pure rfl
      · exact .throw _
    · exact .throw _

/-- A colon. -/
theorem colon_mirrors : Mirrors Eq colon colon := by
  refine .peek fun c ↦ ?_
  split
  · exact .throw _
  · exact eat_mirrors
  · exact .throw _

/-- A closing bracket. -/
theorem close_mirrors (bracket : Char) : Mirrors Eq (close bracket) (close bracket) := by
  refine .peek fun c ↦ ?_
  split
  · exact .throw _
  · split_ifs
    · exact eat_mirrors
    · exact .throw _

/-- The same word with values that agree. -/
theorem word_mirrors {agree : α → β → Prop} (letters : List Char) {a : α} {b : β} (h : agree a b) :
    Mirrors agree (word letters a) (word letters b) := by
  refine .eat (.lift fun text read rest hr ↦ ?_)
  obtain ⟨left, hl, hr⟩ := exists_of_bind_eq_ok hr
  cases hr
  have := length_literal hl
  exact ⟨by omega, b, by rw [hl]; rfl, h⟩

private theorem stringTail_mirrors : Mirrors Eq stringTail stringTail :=
  (Mirrors.lift fun _ body _ hr ↦ ⟨(length_stringBody hr).le, body, hr, rfl⟩).map
    fun _ _ h ↦ congrArg String.ofList h

private theorem memberName_mirrors : Mirrors Eq memberName memberName :=
  .eat stringTail_mirrors

private theorem numberTail_mirrors [Numerals] (negative : Bool) :
    Mirrors (fun a b ↦ a.Finite ∧ a = b) (numberTail negative) (numberTail negative) := by
  refine .lift fun text value rest hr ↦ ?_
  obtain ⟨⟨parts, behind⟩, hp, h⟩ := exists_of_bind_eq_ok hr
  obtain ⟨value, hv, h⟩ := exists_of_bind_eq_ok h
  cases h
  exact ⟨(numberParts_ok hp).1.le, value, hr, NumberParts.finite_toJson hv, rfl⟩

private theorem refuse_mirrors [Numerals] {agree : α → β → Prop} {loose : Reader β} : Mirrors agree refuse loose := by
  intro text a rest _ h
  simp only [refuse, EStateM.run, Bind.bind, EStateM.bind] at h
  split at h <;> cases h

/-- A string. -/
theorem string_mirrors [Numerals] : Mirrors Eq string string := by
  refine .peek fun c ↦ ?_
  split
  · exact .eat stringTail_mirrors
  · exact refuse_mirrors

/-- A field that has been met, in agreement. -/
theorem require_mirrors {agree : α → β → Prop} {a : Option α} {b : Option β} (h : Option.Rel agree a b) :
    Mirrors agree (require a) (require b) := by
  cases h with
  | some h => exact .pure h
  | none => exact .throw _

section

variable {agree : α → β → Prop} {strict : Reader α} {loose : Reader β}

private theorem itemsUpTo_mirrors (h : Mirrors agree strict loose) (limit : Nat) (first : Bool) :
    Mirrors (List.Forall₂ agree) (itemsUpTo strict limit first) (itemsUpTo loose limit first) := by
  induction limit generalizing first with
  | zero => exact .throw _
  | succ limit ih =>
    refine (moreItems_mirrors first).bind ?_
    rintro more _ rfl
    cases more with
    | false => exact .pure .nil
    | true => exact h.bind fun a b hab ↦ (ih false).map fun as bs hs ↦ .cons hab hs

/-- The items of an array, without a bound. -/
theorem items_mirrors (h : Mirrors agree strict loose) (first : Bool) :
    Mirrors (List.Forall₂ agree) (items strict first) (items loose first) :=
  .sized fun text ↦ itemsUpTo_mirrors h (text.size + 1) first

private theorem arrayTail_mirrors (h : Mirrors agree strict loose) :
    Mirrors (List.Forall₂ agree) (arrayTail strict) (arrayTail loose) :=
  (items_mirrors h true).bind fun _ _ hs ↦ (close_mirrors ']').bind fun _ _ _ ↦ .pure hs

/-- The next field of a record that is written as an array. -/
theorem field_mirrors (first : Bool) (h : Mirrors agree strict loose) :
    Mirrors agree (field first strict) (field first loose) := by
  refine (moreItems_mirrors first).bind ?_
  rintro more _ rfl
  cases more with
  | false => exact .throw _
  | true => exact h

/-- The value of a member. -/
theorem memberValue_mirrors (h : Mirrors agree strict loose) :
    Mirrors agree (memberValue strict) (memberValue loose) :=
  colon_mirrors.bind fun _ _ _ ↦ h

/-- The value of a member that neither reader has met before. -/
theorem once_mirrors (h : Mirrors agree strict loose) {a : Option α} {b : Option β} (hab : Option.Rel agree a b) :
    Mirrors (Option.Rel agree) (once a strict) (once b loose) := by
  cases hab with
  | some => exact .throw _
  | none => exact (memberValue_mirrors h).map fun _ _ hab ↦ .some hab

end

/--
As `Mirrors`, but only if what `strict` reads turns out to be good. A reader may go on for a while where another
one faults already; it has to be mirrored only as long as something can still come of what it reads.
-/
def MirrorsIf (good : α → Prop) (agree : α → β → Prop) (strict : Reader α) (loose : Reader β) : Prop :=
  ∀ ⦃text a rest⦄, text.Bounded → strict.run text = .ok a rest → good a →
    rest.Bounded ∧ ∃ b, loose.run text = .ok b rest ∧ agree a b

private theorem mirrorsIf_true {agree : α → β → Prop} {strict : Reader α} {loose : Reader β} :
    MirrorsIf (fun _ ↦ True) agree strict loose ↔ Mirrors agree strict loose := by
  simp only [MirrorsIf, Mirrors, true_implies]

namespace MirrorsIf

variable {good : α → Prop} {agree : α → β → Prop} {good' : γ → Prop} {agree' : γ → δ → Prop} {strict : Reader α}
  {loose : Reader β} {next : α → Reader γ} {next' : β → Reader δ}

/-- A reader that is mirrored anyway. -/
theorem of_mirrors (h : Mirrors agree strict loose) : MirrorsIf good agree strict loose :=
  fun _ _ _ ht hr _ ↦ h ht hr

/-- One step after another, where something good comes of good things only. -/
theorem bind (h : MirrorsIf good agree strict loose)
    (hg : ∀ ⦃a text c rest⦄, (next a).run text = .ok c rest → good' c → good a)
    (h' : ∀ a b, agree a b → MirrorsIf good' agree' (next a) (next' b)) :
    MirrorsIf good' agree' (strict >>= next) (loose >>= next') := by
  intro text c rest ht hr hc
  obtain ⟨a, middle, hs, hr⟩ := exists_of_run_bind hr
  obtain ⟨hm, b, hl, hab⟩ := h ht hs (hg hr hc)
  rw [run_bind hl]
  exact h' a b hab hm hr hc

private theorem after {step : Reader δ} (hs : Mirrors Eq step step) {strict : δ → Reader α} {loose : δ → Reader β}
    (h : ∀ x, MirrorsIf good agree (strict x) (loose x)) :
    MirrorsIf good agree (step >>= strict) (step >>= loose) := by
  have hs : MirrorsIf (fun _ ↦ True) Eq step step := of_mirrors hs
  refine hs.bind (fun _ _ _ _ _ _ ↦ True.intro) ?_
  rintro x _ rfl
  exact h x

end MirrorsIf

section

variable {good : σ → Prop} {agree : σ → τ → Prop} {member : σ → String → Reader σ} {member' : τ → String → Reader τ}

private theorem good_of_membersUpTo
    (hg : ∀ ⦃state name text after rest⦄, (member state name).run text = .ok after rest → good after → good state)
    {limit : Nat} {first : Bool} {state after : σ} {text rest : Text}
    (h : (membersUpTo member limit first state).run text = .ok after rest) (ha : good after) : good state := by
  induction limit generalizing first state text with
  | zero => cases h
  | succ limit ih =>
    obtain ⟨more, _, _, h⟩ := exists_of_run_bind h
    cases more with
    | false =>
      cases h
      exact ha
    | true =>
      obtain ⟨name, _, _, h⟩ := exists_of_run_bind h
      obtain ⟨next, _, hm, h⟩ := exists_of_run_bind h
      exact hg hm (ih h)

private theorem membersUpTo_mirrors
    (hg : ∀ ⦃state name text after rest⦄, (member state name).run text = .ok after rest → good after → good state)
    (h : ∀ state state' name, agree state state' → MirrorsIf good agree (member state name) (member' state' name))
    (limit : Nat) (first : Bool) {state : σ} {state' : τ} (hs : agree state state') :
    MirrorsIf good agree (membersUpTo member limit first state) (membersUpTo member' limit first state') := by
  induction limit generalizing first state state' with
  | zero => exact .of_mirrors (.throw _)
  | succ limit ih =>
    refine .after (moreMembers_mirrors first) fun more ↦ ?_
    cases more with
    | false => exact .of_mirrors (.pure hs)
    | true =>
      refine .after memberName_mirrors fun name ↦ ?_
      exact (h state state' name hs).bind (fun _ _ _ _ hr ha ↦ good_of_membersUpTo hg hr ha)
        fun _ _ hab ↦ ih false hab

/-- The members of an object behind its opening bracket. -/
theorem members_mirrorsIf
    (hg : ∀ ⦃state name text after rest⦄, (member state name).run text = .ok after rest → good after → good state)
    (h : ∀ state state' name, agree state state' → MirrorsIf good agree (member state name) (member' state' name))
    {state : σ} {state' : τ} (hs : agree state state') :
    MirrorsIf good agree (members member state) (members member' state') :=
  fun text _ _ ht hr ha ↦ membersUpTo_mirrors hg h (text.size + 1) true hs ht hr ha

/-- The same where every member is mirrored. -/
theorem members_mirrors
    (h : ∀ state state' name, agree state state' → Mirrors agree (member state name) (member' state' name))
    {state : σ} {state' : τ} (hs : agree state state') :
    Mirrors agree (members member state) (members member' state') :=
  mirrorsIf_true.mp (members_mirrorsIf (fun _ _ _ _ _ _ _ ↦ True.intro)
    (fun _ _ name hab ↦ .of_mirrors (h _ _ name hab)) hs)

end

private theorem valueWith_mirrors [Numerals] {onArray onObject : Reader Json}
    (ha : Mirrors (fun a b ↦ a.Finite ∧ a = b) onArray onArray)
    (ho : Mirrors (fun a b ↦ a.Finite ∧ a = b) onObject onObject) :
    Mirrors (fun a b ↦ a.Finite ∧ a = b) (valueWith onArray onObject) (valueWith onArray onObject) := by
  refine .peek fun c ↦ ?_
  split
  · exact .throw _
  · exact word_mirrors _ ⟨.null, rfl⟩
  · exact word_mirrors _ ⟨.bool true, rfl⟩
  · exact word_mirrors _ ⟨.bool false, rfl⟩
  · exact .eat (stringTail_mirrors.map fun a b h ↦ ⟨.string a, congrArg Json.string h⟩)
  · exact .eat (numberTail_mirrors true)
  · exact .eat ha
  · exact .eat ho
  · split_ifs
    · exact numberTail_mirrors false
    · exact .throw _

/-- Finite items are the same if each of them is. -/
theorem finite_of_forall₂ {as bs : List Json} (h : List.Forall₂ (fun a b ↦ a.Finite ∧ a = b) as bs) :
    (∀ a ∈ as, a.Finite) ∧ as = bs := by
  obtain ⟨hf, he⟩ := (List.forall₂_and_left as bs).mp h
  exact ⟨hf, List.forall₂_eq_eq_eq ▸ he⟩

/-- All numbers of a value are finite. -/
theorem value_mirrors [Numerals] (depth : Nat) : Mirrors (fun a b ↦ a.Finite ∧ a = b) (value depth) (value depth) := by
  induction depth with
  | zero => exact valueWith_mirrors (.throw _) (.throw _)
  | succ depth ih =>
    refine valueWith_mirrors ((arrayTail_mirrors ih).map fun as bs h ↦ ?_) ?_
    · obtain ⟨hf, he⟩ := finite_of_forall₂ h
      exact ⟨.array hf, congrArg Json.array he⟩
    · have hm : Mirrors (fun a b ↦ (∀ member ∈ a, member.2.Finite) ∧ a = b)
          (members (fun read name ↦ return read ++ [(name, ← memberValue (value depth))]) [])
          (members (fun read name ↦ return read ++ [(name, ← memberValue (value depth))]) []) := by
        refine members_mirrors ?_ ⟨List.forall_mem_nil _, rfl⟩
        rintro read _ name ⟨hr, rfl⟩
        refine (memberValue_mirrors ih).map ?_
        rintro a _ ⟨ha, rfl⟩
        exact ⟨List.forall_mem_append.mpr ⟨hr, List.forall_mem_singleton.mpr ha⟩, rfl⟩
      refine (hm.bind fun as bs hs ↦ (close_mirrors '\x7d').bind fun _ _ _ ↦ .pure hs).map ?_
      rintro members _ ⟨hm, rfl⟩
      exact ⟨.object hm, rfl⟩

/-- An array of any length. -/
theorem array_mirrors [Numerals] {agree : α → β → Prop} {strict : Nat → Reader α} {loose : Nat → Reader β}
    (h : ∀ depth, Mirrors agree (strict depth) (loose depth)) (depth : Nat) :
    Mirrors (List.Forall₂ agree) (array depth strict) (array depth loose) := by
  refine .peek fun c ↦ ?_
  split
  · exact .throw _
  · exact .eat (arrayTail_mirrors (h _))
  · exact refuse_mirrors

section

variable {good : α → Prop} {agree : α → β → Prop} {onObject onArray : Nat → Reader α}
  {onObject' onArray' : Nat → Reader β}

private theorem MirrorsIf.closed {strict : Reader α} {loose : Reader β} (h : MirrorsIf good agree strict loose)
    (bracket : Char) :
    MirrorsIf good agree (strict >>= fun value ↦ close bracket >>= fun _ ↦ Pure.pure value)
      (loose >>= fun value ↦ close bracket >>= fun _ ↦ Pure.pure value) := by
  refine h.bind ?_ fun a b hab ↦ .after (close_mirrors bracket) fun _ ↦ .of_mirrors (.pure hab)
  intro a text c rest hr hg
  obtain ⟨_, _, _, hr⟩ := exists_of_run_bind hr
  cases hr
  exact hg

/-- A record, whichever way it is written. -/
theorem record_mirrorsIf [Numerals] (ho : ∀ depth, MirrorsIf good agree (onObject depth) (onObject' depth))
    (ha : ∀ depth, MirrorsIf good agree (onArray depth >>= fun value ↦ close ']' >>= fun _ ↦ pure value)
      (onArray' depth >>= fun value ↦ close ']' >>= fun _ ↦ pure value)) (depth : Nat) :
    MirrorsIf good agree (record depth onObject onArray) (record depth onObject' onArray') := by
  refine .after peek_mirrors fun c ↦ ?_
  split
  · exact .of_mirrors (.throw _)
  · exact .of_mirrors (.throw _)
  · exact .after eat_mirrors fun _ ↦ (ho _).closed '\x7d'
  · exact .after eat_mirrors fun _ ↦ ha _
  · exact .of_mirrors refuse_mirrors

/-- The same where both ways are mirrored. -/
theorem record_mirrors [Numerals] (ho : ∀ depth, Mirrors agree (onObject depth) (onObject' depth))
    (ha : ∀ depth, Mirrors agree (onArray depth) (onArray' depth)) (depth : Nat) :
    Mirrors agree (record depth onObject onArray) (record depth onObject' onArray') :=
  mirrorsIf_true.mp (record_mirrorsIf (fun depth ↦ .of_mirrors (ho depth))
    (fun depth ↦ (MirrorsIf.of_mirrors (ha depth)).closed ']') depth)

end

/-- A whole text. -/
theorem readAll_mirrors {agree : α → β → Prop} {strict : Reader α} {loose : Reader β}
    (h : Mirrors agree strict loose) {text : String} {a : α} (hr : readAll strict text = .ok a) :
    ∃ b, readAll loose text = .ok b ∧ agree a b := by
  have hw : Mirrors agree (do
        let value ← strict
        if (← peek?).isSome then throw .malformed
        return value)
      (do
        let value ← loose
        if (← peek?).isSome then throw .malformed
        return value) := by
    refine h.bind fun a b hab ↦ .peek fun c ↦ ?_
    split_ifs
    · exact .throw _
    · exact .pure hab
  unfold readAll at hr ⊢
  dsimp only at hr ⊢
  split at hr
  · next left hs =>
    cases hr
    obtain ⟨_, b, hl, hab⟩ := hw (Nat.le_refl _) hs
    exact ⟨b, by rw [hl], hab⟩
  · cases hr

end Reader

end Cityscape.Json
