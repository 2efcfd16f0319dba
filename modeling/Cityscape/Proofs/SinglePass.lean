import Cityscape.Proofs.Derivation
import Cityscape.Proofs.Invariant
import Cityscape.Proofs.Milestones
import Cityscape.Proofs.Simulation.City

/-!
# One pass is as good as two

Compiling reads tokens and acts on them at once. It comes to the same as building the tree of all tokens
first and then evaluating it, and it accepts exactly what the grammar derives, apart from what a script
means.
-/

namespace Cityscape

/-- A token with a lexeme of its kind is legible. -/
theorem Token.legible_of_class {token : Token} (h : token.kind.Class token.lexeme.toList) :
    token.Legible := by
  rintro (hk | hk)
  · rw [hk] at h
    have hd : Digits token.lexeme.toList := h
    have hs := hd.splitSign_append []
    obtain ⟨ht, hr⟩ := hd.takeWhile_append [] rfl
    rw [List.append_nil] at hs ht hr
    simp only [Decimal.read?, hs, Decimal.scaled?, ht, hr, Syntax.numeral, hd.1, false_and, if_false,
      Option.map_some]
    rfl
  · rw [hk] at h
    obtain ⟨whole, fraction, hl, hw, hf⟩ := h
    have hs := hw.splitSign_append ('.' :: fraction)
    obtain ⟨ht, hr⟩ := hw.takeWhile_append ('.' :: fraction) rfl
    obtain ⟨ht', hr'⟩ := hf.takeWhile_append [] rfl
    rw [List.append_nil] at ht' hr'
    simp only [Decimal.read?, hl, hs, Decimal.scaled?, ht, hr, ht', hr', Syntax.numeral, hw.1, false_and,
      if_false, Option.map_some, List.drop_one, List.tail_cons]

/-- What compiling with a journal of this capacity keeps of an evaluation. -/
def Evaluation.compilation (evaluation : Evaluation) (capacity : Nat) : Compilation where
  result := evaluation.result
  elements := evaluation.elements
  features := evaluation.elements.map Element.feature
  journal := (Journal.empty capacity).recordAll evaluation.records

/-- Compiling begins with nothing done and all tokens ahead. -/
theorem Scan.compile_eq (tokens : List Token) (last : Token) (capacity : Nat) :
    Scan.compile ⟨tokens, .finish last⟩ (.empty capacity) =
      match Compile.city.run (Work.session {} capacity last tokens) with
      | .ok city session => session.compilation (.ok city)
      | .error fault session => session.compilation (.error fault) := by
  cases tokens <;> rfl

/-- Compiling the tokens of a tree is evaluating the tree. -/
theorem Syntax.City.compile_eq (city : Syntax.City) {last : Token} (hf : last.kind = .finish)
    (hl : Spelled city.tokens) (capacity : Nat) :
    Scan.compile ⟨city.tokens, .finish last⟩ (.empty capacity) = city.evaluation.compilation capacity := by
  have hc := @city_follows capacity last city hf
    (fun token ht ↦ Token.legible_of_class (hl token ht)) {}
  rw [List.append_nil] at hc
  rw [Scan.compile_eq]
  unfold Syntax.City.evaluation
  split at hc
  · next result work he =>
    obtain ⟨_, rfl, hr⟩ := hc
    rw [hr, he]
    rfl
  · next fault work he =>
    obtain ⟨session, hr, hes, hfs, hj⟩ := hc
    rw [hr, he]
    simp only [Session.compilation, hes, hfs, hj]
    rfl

/-- Compiling a source whose tokens are those of a tree is evaluating the tree. -/
theorem compile_eq_compilation {source : Source} {city : Syntax.City} {last : Token}
    (ht : tokenize source = .ok (city.tokens ++ [last])) (capacity : Nat) :
    compile capacity source = city.evaluation.compilation capacity := by
  obtain ⟨front, last', he, hs, hf, hl⟩ := tokenize_eq_ok ht
  obtain ⟨rfl, _⟩ := List.append_inj' he rfl
  rw [compile, hs]
  exact city.compile_eq hf hl capacity

/-- The tree of a scanned script gives a sound city, or is refused for what it means. -/
theorem meaningful_of_tokenize {source : Source} {city : Syntax.City} {last : Token}
    (ht : tokenize source = .ok (city.tokens ++ [last])) :
    Meaningful City.Sound city.evaluation.result := by
  obtain ⟨front, last', he, _, _, hl⟩ := tokenize_eq_ok ht
  obtain ⟨rfl, _⟩ := List.append_inj' he rfl
  exact city.meaningful hl

private theorem semantic_of_evaluation {source : Source} {city : Syntax.City} {last : Token} {fault : Fault}
    (ht : tokenize source = .ok (city.tokens ++ [last])) (h : city.evaluation.result = .error fault) :
    fault.cause.stage = .semantic := by
  have hm := meaningful_of_tokenize ht
  rw [h] at hm
  exact hm

private theorem Scan.exists_run {scan : Scan} {journal : Journal} {city : City}
    (h : (scan.compile journal).result = .ok city) :
    ∃ session after, session.At scan.ending scan.tokens ∧ Compile.city.run session = .ok city after := by
  have hrun {current : Token} {ahead : List Token} {ending : Ending}
      (h : (compileFrom current ahead ending journal).result = .ok city) :
      ∃ after, Compile.city.run { current, ahead, ending, journal } = .ok city after := by
    unfold compileFrom at h
    split at h
    · next after hr =>
      cases h
      exact ⟨after, hr⟩
    · cases h
  obtain ⟨_ | ⟨first, ahead⟩, ending⟩ := scan
  · cases ending with
    | finish last =>
      obtain ⟨after, hr⟩ := hrun h
      exact ⟨_, after, ⟨rfl, rfl, rfl⟩, hr⟩
    | fault fault => cases h
  · obtain ⟨after, hr⟩ := hrun h
    exact ⟨_, after, ⟨rfl, rfl, rfl⟩, hr⟩

/-- Strokes and features of compilations are in step, also of those that are cut short. -/
theorem Scan.features_compile (scan : Scan) (capacity : Nat) :
    (scan.compile (.empty capacity)).features = (scan.compile (.empty capacity)).elements.map Element.feature := by
  have hfrom (current : Token) (ahead : List Token) (ending : Ending) (journal : Journal) :
      (compileFrom current ahead ending journal).features =
        (compileFrom current ahead ending journal).elements.map Element.feature := by
    have hk := city_inStep { current, ahead, ending, journal } rfl
    rw [Compile.left] at hk
    unfold compileFrom
    split <;> next hr => rw [hr] at hk; exact hk
  obtain ⟨_ | ⟨first, ahead⟩, ending⟩ := scan
  · cases ending with
    | finish last => exact hfrom _ _ _ _
    | fault fault => rfl
  · exact hfrom _ _ _ _

private theorem Compile.left_of_city {session after : Session} {result : City}
    (h : Compile.city.run session = .ok result after) :
    after.elements = result.elements ∧ after.features = result.features := by
  rw [Compile.city_eq] at h
  obtain ⟨_, _, _, h⟩ := exists_of_run_bind h
  obtain ⟨_, _, _, h⟩ := exists_of_run_bind h
  cases h
  exact ⟨rfl, rfl⟩

/-- An accepted script has no elements and features but those of its city. -/
theorem Scan.compile_of_city {scan : Scan} {journal : Journal} {city : City}
    (h : (scan.compile journal).result = .ok city) :
    (scan.compile journal).elements = city.elements ∧ (scan.compile journal).features = city.features := by
  have hfrom {current : Token} {ahead : List Token} {ending : Ending}
      (h : (compileFrom current ahead ending journal).result = .ok city) :
      (compileFrom current ahead ending journal).elements = city.elements ∧
        (compileFrom current ahead ending journal).features = city.features := by
    unfold compileFrom at h ⊢
    split at h
    · next hr =>
      cases h
      exact Compile.left_of_city hr
    · cases h
  obtain ⟨_ | ⟨first, ahead⟩, ending⟩ := scan
  · cases ending with
    | finish last => exact hfrom h
    | fault fault => cases h
  · exact hfrom h

/-- The document of an accepted script has the features of its elements. -/
theorem features_of_compile {source : Source} {capacity : Nat} {city : City}
    (h : (compile capacity source).result = .ok city) : city.features = city.elements.map Element.feature := by
  obtain ⟨he, hf⟩ := Scan.compile_of_city h
  rw [← he, ← hf]
  exact Scan.features_compile _ _

/-- A source that compiles has no lexical fault, and its tokens are acceptable. -/
theorem tokenize_of_compile {source : Source} {capacity : Nat} {city : City}
    (h : (compile capacity source).result = .ok city) :
    ∃ tokens, tokenize source = .ok tokens ∧ Grammar.Accepts (tokens.map Token.kind) := by
  obtain ⟨session, after, hs, hr⟩ := Scan.exists_run h
  have hn : ∀ token ∈ (scan source).tokens, token.kind ≠ .finish := by
    intro token hm hk
    have hl := scanFrom_class .first source token hm
    rw [hk] at hl
    exact hl
  have hp : (scan source).ending.Proper := fun _ he ↦ scanFrom_ending he
  obtain ⟨last, he, ha⟩ := accepts_of_city hp hn hs hr
  refine ⟨_, ?_, ha⟩
  rw [tokenize]
  split
  · next front last' hs =>
    rw [hs] at he ⊢
    cases he
    rfl
  · next front fault hs =>
    rw [hs] at he
    cases he

/-- A source that compiles has a tree, which comes to the same city. -/
theorem evaluation_of_compile {source : Source} {capacity : Nat} {city : City}
    (h : (compile capacity source).result = .ok city) :
    ∃ (tree : Syntax.City) (last : Token), tokenize source = .ok (tree.tokens ++ [last]) ∧
      tree.evaluation.result = .ok city := by
  obtain ⟨tokens, ht, ha⟩ := tokenize_of_compile h
  obtain ⟨tree, last, rfl⟩ := Syntax.City.exists_of_accepts ha
  rw [compile_eq_compilation ht capacity] at h
  exact ⟨tree, last, ht, h⟩

/-- A source that compiles has acceptable tokens. -/
theorem accepts_of_compile {source : Source} {tokens : List Token} {capacity : Nat} {city : City}
    (ht : tokenize source = .ok tokens) (h : (compile capacity source).result = .ok city) :
    Grammar.Accepts (tokens.map Token.kind) := by
  obtain ⟨tokens', ht', ha⟩ := tokenize_of_compile h
  cases ht.symm.trans ht'
  exact ha

/--
Compiling an acceptable source is parsing it into a tree and evaluating the tree: there is a tree with its
tokens, and whatever the tree, the capacity of the journal and the projection are, the result, the records
and the strokes are those of the evaluation, and a fault is one of what the script means.
-/
theorem compile_eq_evaluation {source : Source} {tokens : List Token} (ht : tokenize source = .ok tokens)
    (ha : Grammar.Accepts (tokens.map Token.kind)) :
    (∃ (city : Syntax.City) (last : Token), tokens = city.tokens ++ [last]) ∧
      ∀ (city : Syntax.City) (last : Token), tokens = city.tokens ++ [last] →
        ∀ (capacity : Nat) (project : Projection),
          (compile capacity source).result = city.evaluation.result ∧
          (compile capacity source).journal =
            (Journal.empty capacity).recordAll city.evaluation.records ∧
          (compile capacity source).elements.flatMap (·.strokes project) =
            city.evaluation.strokes project ∧
          ∀ fault, city.evaluation.result = .error fault → fault.cause.stage = .semantic := by
  constructor
  · obtain ⟨city, last, he⟩ := Syntax.City.exists_of_accepts ha
    exact ⟨city, last, he⟩
  · rintro city last rfl capacity project
    rw [compile_eq_compilation ht capacity]
    exact ⟨rfl, rfl, rfl, fun fault h ↦ semantic_of_evaluation ht h⟩

/-- A script with a branch that is not taken, in which a variable has no value. -/
def sampleScript : Source :=
  ("city \"A\"\x7bcoordinate p=(1,2)if(1<2)\x7b\x7delse\x7bstring s=t\x7d"
    ++ "street \"S\"\x7bbend(p,p,5)line(p,p)\x7d"
    ++ "institution \"I\"\x7baddress=\"B\"events=3 block(p,p,p,p)\x7d\x7d").toList

/-- The script is scanned and compiles. -/
private theorem compile_sampleScript :
    ∃ tokens city, tokenize sampleScript = .ok tokens ∧ (compile 4 sampleScript).result = .ok city := by
  have h : ((tokenize sampleScript).isOk && (compile 4 sampleScript).result.isOk) = true := by
    decide +kernel
  cases ht : tokenize sampleScript with
  | error fault => simp [ht, Except.isOk, Except.toBool] at h
  | ok tokens =>
    cases hc : (compile 4 sampleScript).result with
    | error fault => simp [hc, Except.isOk, Except.toBool] at h
    | ok city => exact ⟨tokens, city, rfl, rfl⟩

/-- The script has a tree, and it compiles to what the tree means. -/
theorem compile_eq_evaluation_sampleScript :
    ∃ (city : Syntax.City) (last : Token), tokenize sampleScript = .ok (city.tokens ++ [last]) ∧
      (compile 4 sampleScript).result = city.evaluation.result := by
  obtain ⟨tokens, result, ht, hc⟩ := compile_sampleScript
  obtain ⟨⟨city, last, he⟩, h⟩ := compile_eq_evaluation ht (accepts_of_compile ht hc)
  rw [he] at ht
  exact ⟨city, last, ht, (h city last he 4 fun x y ↦ ⟨x, y⟩).1⟩

/--
The compiler accepts what the grammar derives: a source with acceptable tokens compiles or is refused for
what it means, and no other source compiles, whatever the capacity of the journal is.
-/
theorem compile_recognizes {source : Source} {tokens : List Token} (ht : tokenize source = .ok tokens)
    (capacity : Nat) :
    (Grammar.Accepts (tokens.map Token.kind) →
      ∀ fault, (compile capacity source).result = .error fault → fault.cause.stage = .semantic) ∧
    (¬ Grammar.Accepts (tokens.map Token.kind) →
      ∀ city, (compile capacity source).result ≠ .ok city) := by
  constructor
  · intro ha fault h
    obtain ⟨city, last, rfl⟩ := Syntax.City.exists_of_accepts ha
    rw [compile_eq_compilation ht capacity] at h
    exact semantic_of_evaluation ht h
  · intro hn city h
    exact hn (accepts_of_compile ht h)

/-- The script is acceptable. -/
theorem compile_recognizes_sampleScript :
    ∃ tokens, tokenize sampleScript = .ok tokens ∧ Grammar.Accepts (tokens.map Token.kind) := by
  obtain ⟨tokens, city, ht, hc⟩ := compile_sampleScript
  refine ⟨tokens, ht, Classical.byContradiction fun hn ↦ ?_⟩
  exact (compile_recognizes ht 4).2 hn city hc

end Cityscape
