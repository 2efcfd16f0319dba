import Cityscape.Proofs.Coverage
import Cityscape.Proofs.Layout

/-!
# Printing tokens

Lexemes that are printed with blanks between them are scanned as what they were. Blanks end every lexeme, whatever its
kind is, so no lexeme swallows the next one, and none is cut off before its end, as all of it is a lexeme.
-/

namespace Cityscape

/-- Characters that say nothing. -/
def Blank (text : String) : Prop :=
  ∀ c ∈ text.toList, isBlank c = true

/-- A lexeme to print, and the blanks behind it. -/
structure Printed where
  kind : Kind
  lexeme : String
  gap : String
  lexical : kind.Class lexeme.toList
  visible : kind ≠ .blank
  blank : Blank gap

namespace Printed

/-- What is to be scanned again. -/
def spelling (item : Printed) : Kind × String :=
  (item.kind, item.lexeme)

/-- The text with some blanks before all lexemes, and behind each of them its own. -/
def print (before : String) : List Printed → String
  | [] => before
  | item :: items => before ++ (item.lexeme ++ print item.gap items)

/-- The token of a lexeme; where it stands does not matter. -/
def token (item : Printed) : Token :=
  ⟨item.kind, item.lexeme, .first⟩

private theorem spelled (item : Printed) : item.token.kind.Spelled item.token.lexeme.toList [] :=
  ⟨item.lexical.ne_nil, State.symbol_afterAll_iff.mpr item.lexical, item.visible, by rintro _ ⟨⟩⟩

variable {before : String} {items : List Printed}

private theorem ascii_of_blank (h : Blank before) : Ascii before.toList := by
  intro c hc
  have hb : Kind.blank.Class [c] := ⟨List.cons_ne_nil _ _, List.forall_mem_singleton.mpr (h c hc)⟩
  exact hb.ascii c List.mem_cons_self

private theorem ascii_print (hb : Blank before) : Ascii (print before items).toList := by
  induction items generalizing before with
  | nil => exact ascii_of_blank hb
  | cons item items ih =>
    rw [print, String.toList_append, String.toList_append]
    exact (ascii_of_blank hb).append (item.lexical.ascii.append (ih item.blank))

private theorem isBlank_head_print {gap : String} (hg : Blank gap) (hn : items = [] ∨ gap ≠ "") :
    ∀ c ∈ (print gap items).toList.head?, isBlank c = true := by
  intro c hc
  cases items with
  | nil => exact hg c (List.mem_of_mem_head? hc)
  | cons item items =>
    have hn : gap.toList ≠ [] := by simpa using hn
    rw [print, String.toList_append, List.head?_append_of_ne_nil _ hn] at hc
    exact hg c (List.mem_of_mem_head? hc)

private theorem spaced_print (hb : Blank before) (ha : ∀ item ∈ items.dropLast, item.gap ≠ "") :
    Source.Spaced (print before items).toList (items.map lexeme) := by
  induction items generalizing before with
  | nil => exact .done hb
  | cons item items ih =>
    have hn : items = [] ∨ item.gap ≠ "" ∧ ∀ other ∈ items.dropLast, other.gap ≠ "" := by
      cases items with
      | nil => exact .inl rfl
      | cons next items => exact .inr (List.forall_mem_cons.mp ha)
    have ha : ∀ other ∈ items.dropLast, other.gap ≠ "" := by
      obtain rfl | ⟨_, ha⟩ := hn
      · exact List.forall_mem_nil _
      · exact ha
    rw [print, String.toList_append, String.toList_append]
    exact .lexeme hb (ih item.blank ha) (isBlank_head_print item.blank (hn.imp_right And.left))

end Printed

/--
Scanning finds again what was printed: for lexemes of any kinds in any order, with any blanks before and behind them
all, and any, but at least one, between them, the kinds and lexemes of the tokens are the printed ones, with the end of
the input behind them.
-/
theorem tokenize_print {before : String} {items : List Printed} (hb : Blank before)
    (ha : ∀ item ∈ items.dropLast, item.gap ≠ "") :
    (tokenize (Source.ofString (Printed.print before items))).map (·.map Token.spelling) =
      .ok (items.map Printed.spelling ++ [(.finish, "")]) := by
  have hs : Source.Spells (Printed.print before items).toList (items.map Printed.token) := by
    refine Source.Spaced.spells (List.forall_mem_map.mpr fun item _ ↦ item.spelled) ?_
    rw [List.map_map]
    exact Printed.spaced_print hb ha
  obtain ⟨found, last, ht, hm⟩ := hs
  have hl := (finish_of_tokenize ht).2
  rw [Source.ofString_eq (Printed.ascii_print hb), ht]
  change Except.ok ((found ++ [last]).map Token.spelling) = _
  rw [List.map_append, hm, List.map_map, List.map_singleton, hl]
  rfl

/-- A keyword, what would be one without its digit, half of a comparison, a whole one and a string are scanned again. -/
theorem tokenize_print_mixedItems :
    ∃ items : List Printed,
      items.map Printed.spelling =
        [(.keyword .declareInt, "int"), (.identifier, "int1"), (.mark .assign, "="), (.mark .equal, "=="),
          (.string, "\"int 1.\"")] ∧
      items.map Printed.gap = ["\t\n", " ", " \r ", "\n", ""] ∧ Blank " " ∧
      (∀ item ∈ items.dropLast, item.gap ≠ "") ∧
      (tokenize (Source.ofString (Printed.print " " items))).map (·.map Token.spelling) =
        .ok (items.map Printed.spelling ++ [(.finish, "")]) := by
  have hname : Kind.identifier.Class "int1".toList := State.symbol_afterAll_iff.mp (by decide +kernel)
  have hstring : Kind.string.Class "\"int 1.\"".toList := State.symbol_afterAll_iff.mp (by decide +kernel)
  have hblank : Blank " " ∧ Blank "\t\n" ∧ Blank " \r " ∧ Blank "\n" ∧ Blank "" := by
    simp [Blank, isBlank]
  obtain ⟨hspace, htab, hreturn, hline, hnone⟩ := hblank
  refine ⟨[⟨.keyword .declareInt, "int", "\t\n", rfl, by decide, htab⟩,
    ⟨.identifier, "int1", " ", hname, by decide, hspace⟩, ⟨.mark .assign, "=", " \r ", rfl, by decide, hreturn⟩,
    ⟨.mark .equal, "==", "\n", rfl, by decide, hline⟩, ⟨.string, "\"int 1.\"", "", hstring, by decide, hnone⟩],
    rfl, rfl, hspace, ?_, ?_⟩
  · simp
  · exact tokenize_print hspace (by simp)

end Cityscape
