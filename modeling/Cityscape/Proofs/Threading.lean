import Mathlib.Data.List.Basic
import Mathlib.Data.Nat.Basic
import Mathlib.Logic.Function.Basic
import Mathlib.Order.Basic
import Cityscape.Proofs.Table

/-!
# Keywords in the table

Keywords are threaded through a table one after the other. What has to be known of a table while that goes on is what
its states are for: the states that need no keywords stay as they are, except for the letters behind the start; every
text that begins a keyword leads to a state of its own, and all other letters lead to the state of plain identifiers.
From a new state everything but a letter leads on as from that one.
-/

namespace Cityscape

variable {table : Table} {text word : List Char} {c : Char} {kind : Kind}

/-- What is known of letters: nothing, that a word begins with them, or the kind of the word that they spell. -/
abbrev Labels := List Char → Option (Option Kind)

/-- What a trie knows of letters. -/
def Trie.label (trie : Trie Kind) : Labels :=
  fun text ↦ (trie.walk? text).map Prod.fst

/-- What is known if a word begins with some more letters. -/
def Labels.opened (label : Labels) (word : List Char) : Labels :=
  fun text ↦ if text <+: word then some ((label text).getD none) else label text

namespace Labels

variable (label : Labels)

private theorem opened_concat (word : List Char) (c : Char) :
    label.opened (word ++ [c]) =
      Function.update (label.opened word) (word ++ [c]) (some ((label (word ++ [c])).getD none)) := by
  funext text
  simp only [Function.update_apply, opened, List.prefix_concat_iff]
  by_cases ht : text = word ++ [c] <;> simp [ht]

private theorem opened_concat_self (word : List Char) (c : Char) :
    label.opened word (word ++ [c]) = label (word ++ [c]) := by
  have hp : ¬ word ++ [c] <+: word := fun h ↦ by
    have hl := h.length_le
    rw [List.length_append] at hl
    exact Nat.not_succ_le_self _ hl
  rw [opened, if_neg hp]

private theorem opened_concat_of_some {known : Option Kind} (h : label (word ++ [c]) = some known) :
    label.opened (word ++ [c]) = label.opened word := by
  rw [opened_concat, Function.update_eq_self_iff, opened_concat_self, h]
  rfl

private theorem opened_concat_of_none (h : label (word ++ [c]) = none) :
    label.opened (word ++ [c]) = Function.update (label.opened word) (word ++ [c]) (some none) := by
  rw [opened_concat, h]
  rfl

end Labels

namespace Trie

private theorem label_cons (trie : Trie Kind) (letter : Char) (rest : List Char) :
    trie.label (letter :: rest) =
      (trie.follow? letter).bind fun node ↦ if rest = [] then some node.1 else node.2.label rest := by
  rw [label, walk?, List.foldlM_cons]
  cases trie.follow? letter with
  | none => rfl
  | some node => cases rest <;> rfl

/-- No word of an empty trie begins with any letter. -/
theorem label_empty (h : text ≠ []) : (empty : Trie Kind).label text = none := by
  cases text with
  | nil => exact absurd rfl h
  | cons letter rest => rfl

/-- A word is found if its kind is known. -/
theorem find?_eq_label (trie : Trie Kind) (word : List Char) : trie.find? word = (trie.label word).bind id := by
  rw [find?_eq_walk?, label]
  cases trie.walk? word <;> rfl

private theorem label_insert (trie : Trie Kind) (kind : Kind) (hw : word ≠ []) (text : List Char) :
    (trie.insert kind word).label text = if text = word then some (some kind) else trie.label.opened word text := by
  induction word generalizing trie text with
  | nil => exact absurd rfl hw
  | cons first rest ih =>
    cases text with
    | nil => simp [Labels.opened, label, walk?]
    | cons letter more =>
      rw [Labels.opened, label_cons, label_cons, follow?_insert]
      by_cases hl : letter = first
      · subst hl
        simp only [if_true, Option.bind_some, List.cons.injEq, true_and, List.cons_prefix_cons]
        by_cases hr : rest = []
        · subst hr
          cases hf : trie.follow? letter <;> by_cases hm : more = [] <;> simp [hm, label_empty]
        · by_cases hm : more = []
          · subst hm
            cases hf : trie.follow? letter <;> simp [hr, Ne.symm hr]
          · rw [if_neg hr, if_neg hm]
            simp only [hm]
            rw [ih _ hr, Labels.opened]
            cases hf : trie.follow? letter <;> simp [label_empty hm]
      · simp [hl]

end Trie

namespace Table

section

variable {source : Nat}

private theorem size_fork (source : Nat) (c : Char) : (table.fork source c).size = table.size + 1 := by
  simp [fork]

private theorem next_fork (h : source < table.size) (c : Char) (state : Nat) (code : Code) :
    (table.fork source c).next state code =
      if state = source ∧ code = .char c then table.size
      else if state = table.size then base.next State.letters.number code
      else table.next state code := by
  have hs : source < table.size + 1 := Nat.lt_succ_of_lt h
  have hdead : table.next table.size code = State.dead.number := by
    rw [Table.next, row_of_le (Nat.le_refl _)]
    rfl
  by_cases hn : state = table.size
  · subst hn
    simp [fork, hs, hdead, base, addMark, State.number, Mark.number, -mem_numerals, -mem_alphabet]
  · simp [fork, hs, hn]

private theorem symbol_fork (h : source < table.size) (c : Char) (state : Nat) :
    (table.fork source c).symbol state = if state = table.size then some .identifier else table.symbol state := by
  have hs : source < table.size + 1 := Nat.lt_succ_of_lt h
  simp [fork, hs]

private theorem reach_complete (h : source < table.size) (kind : Kind) (text : List Char) :
    (table.complete source kind).dfa.reach text = table.dfa.reach text := by
  have hn : (table.complete source kind).dfa.next = table.dfa.next :=
    funext fun state ↦ funext fun code ↦ next_complete h kind state code
  rw [Dfa.reach, Dfa.run, hn]
  rfl

end

/--
New states stand behind those that need no keywords. These stay as they are, except that letters may lead from the
start to new states. Letters apart, everything leads from a new state where it leads from that of plain identifiers.
-/
structure Grown (table : Table) : Prop where
  size_le : base.size ≤ table.size
  next_old : ∀ state < base.size, ∀ code, state ≠ State.start.number ∨ code.isLetter = false →
    table.next state code = base.next state code
  symbol_old : ∀ state < base.size, table.symbol state = base.symbol state
  next_new : ∀ state, base.size ≤ state → state < table.size → ∀ code, code.isLetter = false →
    table.next state code = base.next State.letters.number code

namespace Grown

variable {source : Nat}

private theorem base : base.Grown where
  size_le := Nat.le_refl _
  next_old _ _ _ _ := rfl
  symbol_old _ _ := rfl
  next_new _ hle hlt := absurd hle (Nat.not_le_of_lt hlt)

private theorem fork (h : table.Grown) (hs : source < table.size)
    (ho : source = State.start.number ∨ Table.base.size ≤ source) (hc : c.isAlpha = true) :
    (table.fork source c).Grown := by
  have hsize := h.size_le
  constructor
  case size_le =>
    rw [size_fork]
    omega
  case next_old =>
    intro state hlt code hcode
    rw [next_fork hs, if_neg, if_neg (by omega), h.next_old state hlt code hcode]
    rintro ⟨rfl, rfl⟩
    obtain ho | ho := ho
    · exact hcode.elim (absurd ho) (by simp [Code.isLetter, hc])
    · omega
  case symbol_old =>
    intro state hlt
    rw [symbol_fork hs, if_neg (by omega), h.symbol_old state hlt]
  case next_new =>
    intro state hle hlt code hcode
    rw [next_fork hs, if_neg]
    · split_ifs with hnew
      · rfl
      · rw [size_fork] at hlt
        exact h.next_new state hle (by omega) code hcode
    · rintro ⟨_, rfl⟩
      simp [Code.isLetter, hc] at hcode

private theorem complete (h : table.Grown) (hs : source < table.size) (hn : Table.base.size ≤ source) (kind : Kind) :
    (table.complete source kind).Grown where
  size_le := by
    rw [size_complete]
    exact h.size_le
  next_old state hlt code hcode := by rw [next_complete hs, h.next_old state hlt code hcode]
  symbol_old state hlt := by rw [symbol_complete hs, if_neg (by omega), h.symbol_old state hlt]
  next_new state hle hlt code hcode := by
    rw [size_complete] at hlt
    rw [next_complete hs, h.next_new state hle hlt code hcode]

/-- The end of the input is accepted from the start only. -/
theorem next_finish (h : table.Grown) (state : Nat) :
    table.next state .finish = if state = State.start.number then State.finish.number else State.dead.number := by
  have hstart := number_lt .start
  by_cases hold : state < Table.base.size
  · rw [h.next_old state hold .finish (.inr rfl), next_base_finish]
  · rw [if_neg (by omega)]
    by_cases hnew : state < table.size
    · rw [h.next_new state (by omega) hnew .finish rfl, next_base_finish]
      rfl
    · rw [Table.next, row_of_le (by omega)]
      rfl

end Grown

/--
Letters lead to the states that what is known of them asks for: to that of plain identifiers if nothing is known, and
otherwise each to a new state of their own that is complete for their kind.
-/
structure Lays (table : Table) (label : Labels) : Prop extends table.Grown where
  plain : ∀ text, Letters text → label text = none → table.dfa.reach text = State.letters.number
  known : ∀ text kind, Letters text → label text = some kind → base.size ≤ table.dfa.reach text ∧
    table.dfa.reach text < table.size ∧ table.symbol (table.dfa.reach text) = some (kind.getD .identifier)
  apart : ∀ text other, Alphabetic text → Alphabetic other → table.dfa.reach text ≠ State.letters.number →
    table.dfa.reach text = table.dfa.reach other → text = other

namespace Lays

variable {label : Labels}

private theorem reach_lt (h : table.Lays label) (ht : Alphabetic text) : table.dfa.reach text < table.size := by
  by_cases hn : text = []
  · subst hn
    exact Nat.lt_of_lt_of_le (number_lt .start) h.size_le
  · cases hl : label text with
    | none =>
      rw [h.plain text ⟨hn, ht⟩ hl]
      exact Nat.lt_of_lt_of_le (number_lt .letters) h.size_le
    | some kind => exact (h.known text kind ⟨hn, ht⟩ hl).2.1

private theorem reach_eq_start_or (h : table.Lays label) (ht : Alphabetic text) (hl : text = [] ∨ label text ≠ none) :
    table.dfa.reach text = State.start.number ∨ base.size ≤ table.dfa.reach text := by
  by_cases he : text = []
  · rw [he]
    exact .inl rfl
  · obtain ⟨kind, hk⟩ := Option.ne_none_iff_exists'.mp (hl.resolve_left he)
    exact .inr (h.known text kind ⟨he, ht⟩ hk).1

private theorem reach_ne_letters (h : table.Lays label) (ht : Alphabetic text) (hl : text = [] ∨ label text ≠ none) :
    table.dfa.reach text ≠ State.letters.number := by
  intro hs
  obtain hr | hr := h.reach_eq_start_or ht hl <;> rw [hs] at hr
  · cases hr
  · exact Nat.not_le_of_lt (number_lt _) hr

private theorem congr (h : table.Lays label) {other : Labels} (he : ∀ text, Letters text → other text = label text) :
    table.Lays other where
  toGrown := h.toGrown
  plain text ht hl := h.plain text ht (he text ht ▸ hl)
  known text kind ht hl := h.known text kind ht (he text ht ▸ hl)
  apart := h.apart

private theorem reach_fork (h : table.Lays label) (ht : Alphabetic text) (hl : text = [] ∨ label text ≠ none)
    (hn : label (text ++ [c]) = none) {other : List Char} (ho : Alphabetic other) :
    (table.fork (table.dfa.reach text) c).dfa.reach other =
      if other = text ++ [c] then table.size else table.dfa.reach other := by
  have hlt := h.reach_lt ht
  induction other using List.reverseRecOn with
  | nil => rw [if_neg (by simp), Dfa.reach_nil, Dfa.reach_nil, dfa_start, dfa_start]
  | append_singleton other d ih =>
    obtain ⟨ho, hd⟩ := List.forall_mem_append.mp ho
    rw [Dfa.reach_concat, Dfa.reach_concat, ih ho, dfa_next, dfa_next]
    by_cases he : other = text ++ [c]
    · -- the new state leads on as that of plain identifiers, which is where the text led before
      have hne : table.size ≠ table.dfa.reach text := hlt.ne'
      have hc : Letters (text ++ [c]) := ⟨by simp, he ▸ ho⟩
      rw [if_pos he, next_fork hlt, if_neg (by simp [hne]), if_pos rfl, he, if_neg (by simp), h.plain _ hc hn,
        h.next_old _ (number_lt _) _ (.inl (by decide))]
    · -- no other text leads to where the letter was added
      have hr : table.dfa.reach other = table.dfa.reach text ↔ other = text :=
        ⟨fun hr ↦ (h.apart _ _ ht ho (h.reach_ne_letters ht hl) hr.symm).symm, fun hr ↦ by rw [hr]⟩
      rw [if_neg he, next_fork hlt, if_neg (c := _ = table.size) (h.reach_lt ho).ne]
      refine if_congr ?_ rfl rfl
      rw [hr, Code.char.injEq, List.append_singleton_inj]

private theorem fork (h : table.Lays label) (ht : Alphabetic text) (hc : c.isAlpha = true)
    (hl : text = [] ∨ label text ≠ none) (hn : label (text ++ [c]) = none) :
    (table.fork (table.dfa.reach text) c).Lays (Function.update label (text ++ [c]) (some none)) := by
  have hlt := h.reach_lt ht
  have hsize := h.size_le
  have hreach {other : List Char} (ho : Alphabetic other) := h.reach_fork ht hl hn ho
  refine ⟨h.toGrown.fork hlt (h.reach_eq_start_or ht hl) hc, ?plain, ?known, ?apart⟩
  case plain =>
    intro other ho hlabel
    rw [Function.update_apply] at hlabel
    split_ifs at hlabel with he
    rw [hreach ho.2, if_neg he, h.plain other ho hlabel]
  case known =>
    intro other kind ho hlabel
    rw [hreach ho.2, size_fork, symbol_fork hlt]
    rw [Function.update_apply] at hlabel
    split_ifs at hlabel with he
    · cases hlabel
      rw [if_pos he, if_pos rfl]
      exact ⟨hsize, by omega, rfl⟩
    · obtain ⟨hle, hlt, hk⟩ := h.known other kind ho hlabel
      rw [if_neg he, if_neg hlt.ne]
      exact ⟨hle, by omega, hk⟩
  case apart =>
    intro first second hf hs hne he
    have hfirst := h.reach_lt hf
    have hsecond := h.reach_lt hs
    rw [hreach hf] at hne he
    rw [hreach hs] at he
    split_ifs at hne he with h1 h2
    · rw [h1, h2]
    · omega
    · omega
    · exact h.apart first second hf hs hne he

private theorem complete (h : table.Lays label) (ht : Letters text) (hl : label text ≠ none) (kind : Kind) :
    (table.complete (table.dfa.reach text) kind).Lays (Function.update label text (some (some kind))) := by
  have hlt := h.reach_lt ht.2
  have hle : base.size ≤ table.dfa.reach text := by
    obtain ⟨kind, hk⟩ := Option.ne_none_iff_exists'.mp hl
    exact (h.known text kind ht hk).1
  refine ⟨h.toGrown.complete hlt hle kind, ?plain, ?known, ?apart⟩
  case plain =>
    intro other ho hlabel
    rw [Function.update_apply] at hlabel
    split_ifs at hlabel with he
    rw [reach_complete hlt, h.plain other ho hlabel]
  case known =>
    intro other known ho hlabel
    rw [reach_complete hlt, size_complete, symbol_complete hlt]
    rw [Function.update_apply] at hlabel
    split_ifs at hlabel with he
    · cases hlabel
      rw [he, if_pos rfl]
      exact ⟨hle, hlt, rfl⟩
    · have hr : table.dfa.reach other ≠ table.dfa.reach text :=
        fun hr ↦ he (h.apart text other ht.2 ho.2 (h.reach_ne_letters ht.2 (.inr hl)) hr.symm).symm
      rw [if_neg hr]
      exact h.known other known ho hlabel
  case apart =>
    intro first second hf hs
    rw [reach_complete hlt, reach_complete hlt]
    exact h.apart first second hf hs

private theorem thread (h : table.Lays (label.opened text)) (ht : Alphabetic text) (hw : Alphabetic word) :
    (table.thread (table.dfa.reach text) word).1.Lays (label.opened (text ++ word)) ∧
      (table.thread (table.dfa.reach text) word).2 =
        (table.thread (table.dfa.reach text) word).1.dfa.reach (text ++ word) := by
  induction word generalizing table text with
  | nil => simpa [Table.thread] using h
  | cons c word ih =>
    obtain ⟨hc, hw⟩ := List.forall_mem_cons.mp hw
    have ht' : Alphabetic (text ++ [c]) := ht.concat hc
    have hletters : Letters (text ++ [c]) := ⟨by simp, ht'⟩
    have htext : label.opened text text ≠ none := by simp [Labels.opened]
    have hlabel := label.opened_concat_self text c
    rw [List.append_cons, Table.thread, ← dfa_next, ← Dfa.reach_concat]
    cases hk : label (text ++ [c]) with
    | some known =>
      -- another word begins with these letters
      obtain ⟨hle, _⟩ := h.known _ known hletters (hlabel.trans hk)
      have hne (state : State) : table.dfa.reach (text ++ [c]) ≠ state.number :=
        (Nat.lt_of_lt_of_le (number_lt state) hle).ne'
      rw [if_pos ⟨hne .dead, hne .letters⟩]
      exact ih (label.opened_concat_of_some hk ▸ h) ht' hw
    | none =>
      have hplain := h.plain _ hletters (hlabel.trans hk)
      have hreach := h.reach_fork ht (.inr htext) (hlabel.trans hk) ht'
      rw [if_pos rfl] at hreach
      rw [if_neg fun hne ↦ hne.2 hplain, ← hreach]
      exact ih (label.opened_concat_of_none hk ▸ h.fork ht hc (.inr htext) (hlabel.trans hk)) ht' hw

private theorem insert {trie : Trie Kind} (h : table.Lays trie.label) (hw : Letters word) (kind : Kind) :
    (table.addKeyword word kind).Lays (trie.insert kind word).label := by
  have ho : table.Lays (trie.label.opened []) := h.congr fun text ht ↦ if_neg (by simpa using ht.1)
  obtain ⟨hl, hr⟩ := ho.thread .nil hw.2
  rw [Dfa.reach_nil, dfa_start, List.nil_append] at hl hr
  have hadd : table.addKeyword word kind =
      (table.thread State.start.number word).1.complete (table.thread State.start.number word).2 kind := rfl
  rw [hadd, hr]
  refine (hl.complete hw (by simp [Labels.opened]) kind).congr fun text _ ↦ ?_
  rw [Trie.label_insert _ _ hw.1, Function.update_apply]

private theorem base : base.Lays Trie.empty.label where
  toGrown := .base
  plain _ ht _ := reach_base ht
  known text kind ht hl := by
    rw [Trie.label_empty ht.1] at hl
    cases hl
  apart text other ht ho hne he := by
    have hnil {text : List Char} (ht : Alphabetic text) (hr : Table.base.dfa.reach text ≠ State.letters.number) :
        text = [] := by
      by_contra hn
      exact hr (reach_base ⟨hn, ht⟩)
    rw [hnil ht hne, hnil ho (he ▸ hne)]

/-- A table knows the words that were added to it. -/
theorem ofList {words : List (List Char × Kind)} (hw : ∀ entry ∈ words, Letters entry.1) :
    (ofList words).Lays (Trie.ofList words).label := by
  induction words using List.reverseRecOn with
  | nil => exact base
  | append_singleton words entry ih =>
    rw [List.forall_mem_append, List.forall_mem_singleton] at hw
    rw [Table.ofList, Trie.ofList, List.foldl_concat, List.foldl_concat]
    exact (ih hw.1).insert hw.2 entry.2

end Lays

end Table

end Cityscape
