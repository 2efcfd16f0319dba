import Cityscape.Json.Reader
import Cityscape.Proofs.Json.Lexeme

/-!
# Written values read back

What a reader makes of a text is a value and the rest of the text, or a fault. Readers are put together in
sequence, and so are the facts about them: a list reads back if its items do, and a record if its members
do, one after the other.
-/

namespace Cityscape.Json.Reader

variable {α β σ : Type}

/-- What a reader makes of a text, whatever the size is that bounds its length. -/
def Reads (reader : Reader α) (text : List Char) (result : Except Fault (α × List Char)) : Prop :=
  ∀ size, text.length ≤ size → match result with
    | .ok (a, rest) => rest.length ≤ text.length ∧ reader.run ⟨text, size⟩ = .ok a ⟨rest, size⟩
    | .error fault => ∃ left, reader.run ⟨text, size⟩ = .error fault left

/-- Characters that may stand between the parts of a text. -/
def Blanks (text : List Char) : Prop :=
  ∀ c ∈ text, isBlank c = true

/-- A reader goes past a text, with or without blanks before it, and leaves what follows. -/
def Takes (reader : Reader α) (text : List Char) (result : Except Fault α) : Prop :=
  ∀ blanks rest, Blanks blanks → Ends rest →
    Reads reader (blanks ++ (text ++ rest)) (result.map (·, rest))

namespace Reads

variable {reader : Reader α} {next : α → Reader β} {text rest : List Char} {a : α}
  {result : Except Fault (β × List Char)}

/-- A value that is there already. -/
theorem pure (a : α) (text : List Char) : Reads (Pure.pure a) text (.ok (a, text)) :=
  fun _ _ ↦ ⟨Nat.le_refl _, rfl⟩

/-- A fault. -/
theorem throw (fault : Fault) (text : List Char) :
    Reads (MonadExcept.throw fault : Reader α) text (.error fault) :=
  fun _ _ ↦ ⟨_, rfl⟩

/-- Reading on where another reader stopped. -/
theorem bind (h : Reads reader text (.ok (a, rest))) (h' : Reads (next a) rest result) :
    Reads (reader >>= next) text result := by
  intro size hs
  obtain ⟨hl, hr⟩ := h size hs
  have hn := h' size (hl.trans hs)
  have he : (reader >>= next).run ⟨text, size⟩ = (next a).run ⟨rest, size⟩ := by
    simp only [EStateM.run, Bind.bind, EStateM.bind] at hr ⊢
    rw [hr]
  rw [he]
  cases result with
  | ok read => exact ⟨hn.1.trans hl, hn.2⟩
  | error fault => exact hn

/-- A fault ends reading. -/
theorem bind_error {fault : Fault} (h : Reads reader text (.error fault)) :
    Reads (reader >>= next) text (.error fault) := by
  intro size hs
  obtain ⟨left, hr⟩ := h size hs
  refine ⟨left, ?_⟩
  simp only [EStateM.run, Bind.bind, EStateM.bind] at hr ⊢
  rw [hr]

private theorem map {f : α → β} {read : Except Fault α} (h : Reads reader text (read.map (·, rest))) :
    Reads (reader >>= fun a ↦ Pure.pure (f a)) text ((read.map f).map (·, rest)) := by
  cases read with
  | ok a => exact bind h (pure (f a) rest)
  | error fault => exact bind_error h

private theorem sized {reader : Text → Reader β}
    (h : ∀ size, text.length ≤ size → Reads (reader ⟨text, size⟩) text result) :
    Reads (get >>= reader) text result :=
  fun size hs ↦ h size hs size hs

/-- The character behind blanks. -/
theorem peek {blanks : List Char} (hb : Blanks blanks) {c : Char} (hc : isBlank c = false)
    (rest : List Char) : Reads peek? (blanks ++ c :: rest) (.ok (some c, c :: rest)) := by
  intro size _
  have hd : (blanks ++ c :: rest).dropWhile isBlank = c :: rest := by
    rw [List.dropWhile_append_of_pos hb, List.dropWhile_cons_of_neg (by rw [hc]; decide)]
  refine ⟨by simp, ?_⟩
  change EStateM.Result.ok ((blanks ++ c :: rest).dropWhile isBlank).head?
    (⟨(blanks ++ c :: rest).dropWhile isBlank, size⟩ : Text) = _
  rw [hd]
  rfl

/-- One character. -/
theorem eat (c : Char) (rest : List Char) : Reads eat (c :: rest) (.ok ((), rest)) :=
  fun _ _ ↦ ⟨Nat.le_succ _, rfl⟩

/-- A part of the text. -/
theorem lift {part : List Char → Except Fault (α × List Char)} (h : part text = .ok (a, rest))
    (hl : rest.length ≤ text.length) : Reads (lift part) text (.ok (a, rest)) := by
  intro size _
  refine ⟨hl, ?_⟩
  change (match part text with
    | .ok (value, rest) => (do
      set (⟨rest, size⟩ : Text)
      return value : Reader α)
    | .error fault => MonadExcept.throw fault) ⟨text, size⟩ = _
  rw [h]
  rfl

/-- A part of the text that is refused. -/
theorem lift_error {part : List Char → Except Fault (α × List Char)} {fault : Fault} (h : part text = .error fault) :
    Reads (Reader.lift part) text (.error fault) := by
  intro size _
  refine ⟨⟨text, size⟩, ?_⟩
  change (match part text with
    | .ok (value, rest) => (do
      set (⟨rest, size⟩ : Text)
      return value : Reader α)
    | .error fault => MonadExcept.throw fault) ⟨text, size⟩ = _
  rw [h]
  rfl

end Reads

/-- No blanks at all. -/
theorem blanks_nil : Blanks [] :=
  fun _ h ↦ nomatch h

/-- The characters of a literal. -/
theorem toList_quote (text : String) :
    (quote text).toList = '"' :: (text.toList.flatMap escapeChar ++ ['"']) := by
  simp [quote]

private theorem stringTail_reads (text : String) (rest : List Char) :
    Reads stringTail (text.toList.flatMap escapeChar ++ '"' :: rest) (.ok (text, rest)) := by
  have h : Reads (lift (stringBody escapeAhead)) (text.toList.flatMap escapeChar ++ '"' :: rest)
      (.ok (text.toList, rest)) := by
    apply Reads.lift (stringBody_quote text.toList rest)
    rw [List.length_append, List.length_cons]
    omega
  have hp : Reads stringTail _ (.ok (String.ofList text.toList, rest)) := h.bind (Reads.pure _ rest)
  rwa [String.ofList_toList] at hp

/-- A string. -/
theorem string_takes [Numerals] (text : String) : Takes string (quote text).toList (.ok text) := by
  intro blanks rest hb _
  rw [toList_quote, List.cons_append, List.append_assoc]
  apply (Reads.peek hb rfl _).bind
  exact (Reads.eat '"' _).bind (stringTail_reads text rest)

/-- A string among values. -/
theorem string_takes_value [Numerals] (onArray onObject : Reader Json) (text : String) :
    Takes (valueWith onArray onObject) (quote text).toList (.ok (.string text)) := by
  intro blanks rest hb _
  rw [toList_quote, List.cons_append, List.append_assoc]
  apply (Reads.peek hb rfl _).bind
  exact (Reads.eat '"' _).bind ((stringTail_reads text rest).bind (Reads.pure _ rest))

/-- Texts on lines of their own, with a comma before all of them or all but the first. -/
def entries (indent : Nat) : Bool → List (List Char) → List Char
  | _, [] => []
  | first, text :: rest =>
    (if first then [] else [',']) ++ ((newline indent).toList ++ (text ++ entries indent false rest))

/-- What stands between the last of some texts and the closing bracket. -/
def lastBreak (indent : Nat) (texts : List (List Char)) : List Char :=
  if texts.isEmpty then [] else (newline indent).toList

private theorem toList_newline (indent : Nat) : (newline indent).toList = '\n' :: List.replicate (2 * indent) ' ' := by
  simp [newline]

private theorem blanks_newline (indent : Nat) : Blanks (newline indent).toList := by
  intro c hc
  rw [toList_newline] at hc
  rcases List.mem_cons.mp hc with rfl | hc
  · rfl
  · rw [List.eq_of_mem_replicate hc]
    rfl

private theorem blanks_lastBreak (indent : Nat) (texts : List (List Char)) : Blanks (lastBreak indent texts) := by
  unfold lastBreak
  split
  · exact blanks_nil
  · exact blanks_newline indent

/-- The characters of bracketed texts. -/
theorem toList_bracketed (opening closing : String) (indent : Nat) (texts : List String) :
    (bracketed opening closing indent texts).toList =
      opening.toList ++ (entries (indent + 1) true (texts.map String.toList) ++
        (lastBreak indent (texts.map String.toList) ++ closing.toList)) := by
  have hi (first : String) (texts : List String) :
      (("," ++ newline (indent + 1)).intercalate (first :: texts)).toList =
        first.toList ++ entries (indent + 1) false (texts.map String.toList) := by
    induction texts generalizing first with
    | nil => simp [entries]
    | cons second texts ih =>
      rw [String.intercalate_cons_cons, String.toList_append, ih]
      simp [entries]
  cases texts with
  | nil => simp [bracketed, entries, lastBreak]
  | cons first texts =>
    rw [bracketed, List.isEmpty_cons, if_neg Bool.false_ne_true, String.toList_append, String.toList_append,
      String.toList_append, String.toList_append, hi]
    simp [entries, lastBreak]

private theorem ends_entries (indent : Nat) (texts : List (List Char)) {tail : List Char} (h : Ends tail) :
    Ends (entries indent false texts ++ tail) := by
  cases texts with
  | nil => exact h
  | cons text texts =>
    intro c hc
    cases hc
    exact .inl rfl

private theorem ends_newline (indent : Nat) (rest : List Char) : Ends ((newline indent).toList ++ rest) := by
  rw [toList_newline]
  intro c hc
  cases hc
  exact .inr rfl

private theorem length_le_entries (indent : Nat) (first : Bool) (texts : List (List Char)) :
    texts.length ≤ (entries indent first texts).length := by
  induction texts generalizing first with
  | nil => exact Nat.zero_le _
  | cons text texts ih =>
    have hn : 1 ≤ (newline indent).toList.length := by
      rw [toList_newline, List.length_cons]
      omega
    have := ih false
    rw [entries]
    simp only [List.length_append, List.length_cons]
    omega

/-- Whether a text can be an item of an array. -/
def Begins (text : List Char) : Prop :=
  ∃ c rest, text = c :: rest ∧ isBlank c = false ∧ c ≠ ']'

private theorem moreItems_close (first : Bool) {blanks : List Char} (hb : Blanks blanks) (rest : List Char) :
    Reads (moreItems first) (blanks ++ ']' :: rest) (.ok (false, ']' :: rest)) :=
  (Reads.peek hb rfl rest).bind (Reads.pure false _)

private theorem moreItems_entry (first : Bool) (indent : Nat) {text : List Char} (h : Begins text)
    (rest : List Char) :
    Reads (moreItems first) ((if first then [] else [',']) ++ ((newline indent).toList ++ (text ++ rest)))
      (.ok (true, text ++ rest)) := by
  obtain ⟨c, text, rfl, hc, hn⟩ := h
  have hp := Reads.peek (blanks_newline indent) hc (text ++ rest)
  cases first with
  | true =>
    apply hp.bind
    split
    · next he => cases he
    · next he =>
      cases he
      exact absurd rfl hn
    · exact Reads.pure true _
  | false =>
    apply (Reads.peek blanks_nil (c := ',') rfl _).bind
    apply (Reads.eat ',' _).bind
    apply hp.bind
    split
    · next he => cases he
    · next he =>
      cases he
      exact absurd rfl hn
    · exact Reads.pure true _

private theorem itemsUpTo_reads {item : Reader α} {text : β → List Char} {result : β → Except Fault α}
    (indent : Nat) {blanks rest : List Char} (hb : Blanks blanks) (xs : List β)
    (h : ∀ x ∈ xs, Begins (text x) ∧ Takes item (text x) (result x))
    (ht : xs ≠ [] → Ends (blanks ++ ']' :: rest)) (limit : Nat) (hl : xs.length < limit) (first : Bool) :
    Reads (itemsUpTo item limit first) (entries indent first (xs.map text) ++ (blanks ++ ']' :: rest))
      ((xs.mapM result).map (·, ']' :: rest)) := by
  induction xs generalizing limit first with
  | nil =>
    obtain ⟨limit, rfl⟩ := Nat.exists_eq_add_of_lt hl
    exact (moreItems_close first hb rest).bind (Reads.pure [] _)
  | cons x xs ih =>
    obtain ⟨limit, rfl⟩ : ∃ n, limit = n + 1 := ⟨limit - 1, by omega⟩
    obtain ⟨hx, hi⟩ := h x List.mem_cons_self
    have ht := ht (List.cons_ne_nil x xs)
    have hrest := ih (fun y hy ↦ h y (List.mem_cons_of_mem x hy)) (fun _ ↦ ht) limit
      (by simpa using hl) false
    have hitem := hi [] (entries indent false (xs.map text) ++ (blanks ++ ']' :: rest)) blanks_nil
      (ends_entries indent _ ht)
    simp only [List.map_cons, entries, List.append_assoc]
    apply (moreItems_entry first indent hx _).bind
    rw [List.mapM_cons]
    cases hr : result x with
    | error fault =>
      rw [hr] at hitem
      exact hitem.bind_error
    | ok a =>
      rw [hr] at hitem
      apply hitem.bind
      have hm : (do
          let a ← Except.ok a
          let read ← xs.mapM result
          Pure.pure (a :: read) : Except Fault (List α)) = (xs.mapM result).map (a :: ·) := by
        cases xs.mapM result <;> rfl
      rw [hm]
      exact hrest.map

/-- An array behind its opening bracket. -/
theorem arrayTail_reads {item : Reader α} {text : β → List Char} {result : β → Except Fault α}
    (indent : Nat) (xs : List β) (h : ∀ x ∈ xs, Begins (text x) ∧ Takes item (text x) (result x))
    (rest : List Char) :
    Reads (arrayTail item)
      (entries (indent + 1) true (xs.map text) ++ (lastBreak indent (xs.map text) ++ ']' :: rest))
      ((xs.mapM result).map (·, rest)) := by
  have hi : Reads (items item true)
      (entries (indent + 1) true (xs.map text) ++ (lastBreak indent (xs.map text) ++ ']' :: rest))
      ((xs.mapM result).map (·, ']' :: rest)) := by
    rw [items]
    apply Reads.sized
    intro size hs
    apply itemsUpTo_reads (indent + 1) (blanks_lastBreak indent _) xs h
    · intro hn
      cases xs with
      | nil => exact absurd rfl hn
      | cons x xs => exact ends_newline indent _
    · have := length_le_entries (indent + 1) true (xs.map text)
      simp only [List.length_append, List.length_map] at hs this ⊢
      omega
  cases hm : xs.mapM result with
  | error fault =>
    rw [hm] at hi
    exact hi.bind_error
  | ok read =>
    rw [hm] at hi
    apply hi.bind
    exact ((Reads.peek blanks_nil (c := ']') rfl rest).bind (Reads.eat ']' rest)).bind (Reads.pure read rest)

/-- The characters of a member with its value. -/
def memberText (name : String) (text : List Char) : List Char :=
  (quote name).toList ++ (':' :: ' ' :: text)

/-- What reading members one after the other leads to. -/
inductive Gathers (member : σ → String → Reader σ) : σ → List (String × List Char) → Except Fault σ → Prop where
  | done (state : σ) : Gathers member state [] (.ok state)
  | next {state after : σ} {name : String} {text : List Char} {rest : List (String × List Char)}
    {result : Except Fault σ} (h : Takes (member state name) (':' :: ' ' :: text) (.ok after))
    (h' : Gathers member after rest result) : Gathers member state ((name, text) :: rest) result
  | fault {state : σ} {name : String} {text : List Char} {rest : List (String × List Char)} {fault : Fault}
    (h : Takes (member state name) (':' :: ' ' :: text) (.error fault)) :
    Gathers member state ((name, text) :: rest) (.error fault)

/-- The last member decides. -/
theorem Gathers.last {member : σ → String → Reader σ} {state : σ} {name : String} {text : List Char}
    {result : Except Fault σ} (h : Takes (member state name) (':' :: ' ' :: text) result) :
    Gathers member state [(name, text)] result := by
  cases result with
  | error fault => exact .fault h
  | ok after => exact .next h (.done after)

private theorem moreMembers_entry (first : Bool) (indent : Nat) (rest : List Char) :
    Reads (moreMembers first) ((if first then [] else [',']) ++ ((newline indent).toList ++ '"' :: rest))
      (.ok (true, '"' :: rest)) := by
  have hp := Reads.peek (blanks_newline indent) (c := '"') rfl rest
  cases first with
  | true => exact hp.bind (Reads.pure true _)
  | false =>
    apply (Reads.peek blanks_nil (c := ',') rfl _).bind
    exact (Reads.eat ',' _).bind (hp.bind (Reads.pure true _))

private theorem moreMembers_close (first : Bool) {blanks : List Char} (hb : Blanks blanks) (rest : List Char) :
    Reads (moreMembers first) (blanks ++ '\x7d' :: rest) (.ok (false, '\x7d' :: rest)) :=
  (Reads.peek hb rfl rest).bind (Reads.pure false _)

private theorem membersUpTo_reads {member : σ → String → Reader σ} (indent : Nat) {blanks rest : List Char}
    (hb : Blanks blanks) {texts : List (String × List Char)} {state : σ} {result : Except Fault σ}
    (h : Gathers member state texts result) (ht : texts ≠ [] → Ends (blanks ++ '\x7d' :: rest))
    (limit : Nat) (hl : texts.length < limit) (first : Bool) :
    Reads (membersUpTo member limit first state)
      (entries indent first (texts.map fun (name, text) ↦ memberText name text) ++ (blanks ++ '\x7d' :: rest))
      (result.map (·, '\x7d' :: rest)) := by
  -- Going past the name of the first member leaves the colon and everything behind it.
  have hname (limit : Nat) (first : Bool) (state : σ) (name : String) (text behind : List Char)
      (result : Except Fault (σ × List Char))
      (h : Reads (member state name >>= membersUpTo member limit false) (':' :: ' ' :: (text ++ behind)) result) :
      Reads (membersUpTo member (limit + 1) first state) ((if first then [] else [',']) ++
        ((newline indent).toList ++ (memberText name text ++ behind))) result := by
    rw [memberText, toList_quote]
    simp only [List.cons_append, List.append_assoc]
    apply (moreMembers_entry first indent _).bind
    exact ((Reads.eat '"' _).bind (stringTail_reads name _)).bind h
  induction h generalizing limit first with
  | done state =>
    obtain ⟨limit, rfl⟩ := Nat.exists_eq_add_of_lt hl
    exact (moreMembers_close first hb rest).bind (Reads.pure state _)
  | @next state after name text texts result h _ ih =>
    obtain ⟨limit, rfl⟩ : ∃ n, limit = n + 1 := ⟨limit - 1, by omega⟩
    have ht := ht (List.cons_ne_nil _ _)
    have hrest := ih (fun _ ↦ ht) limit (by simpa using hl) false
    simp only [List.map_cons, entries, List.append_assoc]
    apply hname
    exact (h [] _ blanks_nil (ends_entries indent _ ht)).bind hrest
  | @fault state name text texts fault h =>
    obtain ⟨limit, rfl⟩ : ∃ n, limit = n + 1 := ⟨limit - 1, by omega⟩
    have ht := ht (List.cons_ne_nil _ _)
    simp only [List.map_cons, entries, List.append_assoc]
    apply hname
    exact (h [] _ blanks_nil (ends_entries indent _ ht)).bind_error

/-- The members of an object behind its opening bracket. -/
theorem members_reads {member : σ → String → Reader σ} (indent : Nat) {texts : List (String × List Char)}
    {state : σ} {result : Except Fault σ} (h : Gathers member state texts result) (rest : List Char) :
    Reads (members member state)
      (entries (indent + 1) true (texts.map fun (name, text) ↦ memberText name text) ++
        (lastBreak indent (texts.map fun (name, text) ↦ memberText name text) ++ '\x7d' :: rest))
      (result.map (·, '\x7d' :: rest)) := by
  rw [members]
  apply Reads.sized
  intro size hs
  apply membersUpTo_reads (indent + 1) (blanks_lastBreak indent _) h
  · intro hn
    cases texts with
    | nil => exact absurd rfl hn
    | cons x xs => exact ends_newline indent _
  · have := length_le_entries (indent + 1) true (texts.map fun (name, text) ↦ memberText name text)
    simp only [List.length_append, List.length_map] at hs this ⊢
    omega

/-- The value of a member. -/
theorem memberValue_takes {item : Reader α} {text : List Char} {result : Except Fault α}
    (h : Takes item text result) : Takes (memberValue item) (':' :: ' ' :: text) result := by
  intro blanks rest hb hr
  apply ((Reads.peek hb (c := ':') rfl _).bind (Reads.eat ':' _)).bind
  exact h [' '] rest (fun c hc ↦ List.mem_singleton.mp hc ▸ rfl) hr

/-- The value of a member that has not been met. -/
theorem once_takes {item : Reader α} {text : List Char} {result : Except Fault α}
    (h : Takes item text result) : Takes (once none item) (':' :: ' ' :: text) (result.map some) := by
  intro blanks rest hb hr
  exact (memberValue_takes h blanks rest hb hr).map

/-- A reader whose result is changed. -/
theorem Takes.map {reader : Reader α} {text : List Char} {result : Except Fault α} (h : Takes reader text result)
    (f : α → β) : Takes (reader >>= fun a ↦ Pure.pure (f a)) text (result.map f) :=
  fun blanks rest hb hr ↦ (h blanks rest hb hr).map

/-- Going past a string without escapes. -/
theorem skip_takes (text : String) (h : Unescaped text.toList) :
    Takes skip (quote text).toList (.ok ()) := by
  intro blanks rest hb _
  rw [toList_quote, List.cons_append, List.append_assoc, skip]
  apply Reads.sized
  intro size _
  have hs : Reads skipString (text.toList.flatMap escapeChar ++ '"' :: rest) (.ok ((), rest)) := by
    apply Reads.lift
    · rw [stringBody_unescaped looseEscapeAhead h rest]
      rfl
    · rw [List.length_append, List.length_cons]
      omega
  have ho : Reads skipOpening (blanks ++ '"' :: (text.toList.flatMap escapeChar ++ '"' :: rest))
      (.ok (none, rest)) :=
    (Reads.peek hb (c := '"') rfl _).bind ((Reads.eat '"' _).bind (hs.bind (Reads.pure none rest)))
  exact ho.bind (Reads.pure () rest)

end Cityscape.Json.Reader
