import Mathlib.Data.Set.Function
import Cityscape.Proofs.Layout
import Cityscape.Proofs.LongestMatch

/-!
# Scripts with other names

The names of variables are chosen freely: they select what was declared under them and are told in the journal and
in faults, but nothing else depends on them. A script in which the variables have other names, different ones for
different variables, compiles to the same city with its variables under the new names, or is refused at the same
token for the same kind of fault.
-/

namespace Cityscape

variable {α : Type} {ρ : String → String} {names : Set String}

namespace Bindings

/-- The bindings under other names; `carry` gives a value the name that it carries itself, if it does. -/
def rename (ρ : String → String) (carry : String → α → α) (bindings : Bindings α) : Bindings α :=
  bindings.map fun (name, value) ↦ (ρ name, carry (ρ name) value)

/-- Whether all names are among these. -/
def Within (names : Set String) (bindings : Bindings α) : Prop :=
  ∀ entry ∈ bindings, entry.1 ∈ names

variable {carry : String → α → α} {bindings : Bindings α} {name : String}

private theorem get?_rename (hi : names.InjOn ρ) (hb : bindings.Within names) (hn : name ∈ names) :
    (bindings.rename ρ carry).get? (ρ name) = (bindings.get? name).map (carry (ρ name)) := by
  induction bindings with
  | nil => rfl
  | cons entry bindings ih =>
    obtain ⟨hm, hb⟩ := List.forall_mem_cons.mp hb
    have ih := ih hb
    obtain ⟨found, value⟩ := entry
    simp only [get?, rename, List.map_cons, List.lookup_cons] at ih ⊢
    by_cases he : name = found
    · simp [he]
    · have hr : ρ name ≠ ρ found := fun hr ↦ he (hi hn hm hr)
      simpa [beq_false_of_ne he, beq_false_of_ne hr] using ih

private theorem rename_insert (hi : names.InjOn ρ) (hb : bindings.Within names) (hn : name ∈ names) (value : α) :
    (bindings.insert name value).rename ρ carry =
      (bindings.rename ρ carry).insert (ρ name) (carry (ρ name) value) := by
  have hf : rename ρ carry (bindings.filter (·.1 ≠ name)) =
      (bindings.rename ρ carry).filter (·.1 ≠ ρ name) := by
    rw [rename, rename, List.filter_map]
    refine congrArg _ (List.filter_congr fun entry he ↦ ?_)
    simp [hi.eq_iff (hb entry he) hn]
  rw [insert, insert, ← hf]
  rfl

private theorem Within.insert (hb : bindings.Within names) (hn : name ∈ names) (value : α) :
    (bindings.insert name value).Within names :=
  List.forall_mem_cons.mpr ⟨hn, fun entry he ↦ hb entry (List.mem_of_mem_filter he)⟩

end Bindings

/-- The variables of a level under other names; coordinates carry the new ones. -/
def Scope.rename (ρ : String → String) (scope : Scope) : Scope where
  strings := scope.strings.rename ρ fun _ ↦ id
  ints := scope.ints.rename ρ fun _ ↦ id
  doubles := scope.doubles.rename ρ fun _ ↦ id
  coordinates := scope.coordinates.rename ρ fun name place ↦ place.renamed name

/-- Whether all names of a level are among these. -/
structure Scope.Within (names : Set String) (scope : Scope) : Prop where
  strings : scope.strings.Within names
  ints : scope.ints.Within names
  doubles : scope.doubles.Within names
  coordinates : scope.coordinates.Within names

private theorem Scope.within_empty : Scope.empty.Within names :=
  ⟨List.forall_mem_nil _, List.forall_mem_nil _, List.forall_mem_nil _, List.forall_mem_nil _⟩

private theorem Scope.rename_declare (hi : names.InjOn ρ) {scope : Scope} (hs : scope.Within names) {name : String}
    (hn : name ∈ names) (value : Value) :
    (scope.declare name (value.named name)).rename ρ =
        (scope.rename ρ).declare (ρ name) (value.named (ρ name)) ∧
      (scope.declare name (value.named name)).Within names := by
  cases value with
  | string value =>
    refine ⟨?_, { hs with strings := hs.strings.insert hn value }⟩
    simp only [rename, declare, Value.named, Bindings.rename_insert hi hs.strings hn]
    rfl
  | int value =>
    refine ⟨?_, { hs with ints := hs.ints.insert hn value }⟩
    simp only [rename, declare, Value.named, Bindings.rename_insert hi hs.ints hn]
    rfl
  | double value =>
    refine ⟨?_, { hs with doubles := hs.doubles.insert hn value }⟩
    simp only [rename, declare, Value.named, Bindings.rename_insert hi hs.doubles hn]
    rfl
  | coordinate value =>
    refine ⟨?_, { hs with coordinates := hs.coordinates.insert hn _ }⟩
    simp only [rename, declare, Value.named, Bindings.rename_insert hi hs.coordinates hn]
    rfl

namespace Scopes

/-- The variables of both levels under other names. -/
def rename (ρ : String → String) (scopes : Scopes) : Scopes :=
  ⟨scopes.city.rename ρ, scopes.element.rename ρ⟩

/-- Whether all names of both levels are among these. -/
structure Within (names : Set String) (scopes : Scopes) : Prop where
  city : scopes.city.Within names
  element : scopes.element.Within names

variable {scopes : Scopes}

private theorem rename_declare (hi : names.InjOn ρ) (hs : scopes.Within names) (level : Level) {name : String}
    (hn : name ∈ names) (value : Value) :
    (scopes.declare level name (value.named name)).rename ρ =
        (scopes.rename ρ).declare level (ρ name) (value.named (ρ name)) ∧
      (scopes.declare level name (value.named name)).Within names := by
  cases level with
  | city =>
    obtain ⟨he, hw⟩ := Scope.rename_declare hi hs.city hn value
    exact ⟨by rw [rename, declare, declare, he]; rfl, hw, hs.element⟩
  | element =>
    obtain ⟨he, hw⟩ := Scope.rename_declare hi hs.element hn value
    exact ⟨by rw [rename, declare, declare, he]; rfl, hs.city, hw⟩

private theorem Within.agree {naming : Naming} (hs : scopes.Within names) (hi : names.InjOn ρ)
    (hn : ∀ n n', naming.name n n' → n ∈ names ∧ n' = ρ n) : scopes.Agree naming (scopes.rename ρ) where
  string h := by
    obtain ⟨hm, rfl⟩ := hn _ _ h
    simp only [string?, lookup, rename, Scope.rename, Bindings.get?_rename hi hs.element.strings hm,
      Bindings.get?_rename hi hs.city.strings hm, Option.map_id_fun, id_eq]
  number h := by
    obtain ⟨hm, rfl⟩ := hn _ _ h
    simp only [number?, lookup, rename, Scope.number?, Scope.rename,
      Bindings.get?_rename hi hs.element.doubles hm, Bindings.get?_rename hi hs.city.doubles hm,
      Bindings.get?_rename hi hs.element.ints hm, Bindings.get?_rename hi hs.city.ints hm,
      Option.map_id_fun, id_eq]
  coordinate h := by
    obtain ⟨hm, rfl⟩ := hn _ _ h
    simp only [coordinate?, lookup, rename, Scope.rename,
      Bindings.get?_rename hi hs.element.coordinates hm, Bindings.get?_rename hi hs.city.coordinates hm]
    cases scopes.element.coordinates.get? _ with
    | some place => exact .some ⟨rfl, rfl⟩
    | none =>
      cases scopes.city.coordinates.get? _ with
      | some place => exact .some ⟨rfl, rfl⟩
      | none => exact .none

end Scopes

/-- The token under another name, if it is that of a variable. -/
def Token.rename (ρ : String → String) (token : Token) : Token :=
  if token.kind = .identifier then { token with lexeme := ρ token.lexeme } else token

/-- Its kind stays the same. -/
@[simp]
theorem Token.kind_rename (ρ : String → String) (token : Token) : (token.rename ρ).kind = token.kind := by
  unfold rename
  split <;> rfl

/-- The names of variables among tokens. -/
def identifiers (tokens : List Token) : Set String :=
  {name | ∃ token ∈ tokens, token.kind = .identifier ∧ token.lexeme = name}

/-- The city with its variables under other names. -/
def City.rename (ρ : String → String) (city : City) : City :=
  { city with scopes := city.scopes.rename ρ }

/--
The same city with its variables under other names, or faults of one stage at tokens that come equally far down
these lists.
-/
inductive Renames (ρ : String → String) (tokens tokens' : List Token) :
    Except Fault City → Except Fault City → Prop where
  | ok (city : City) : Renames ρ tokens tokens' (.ok city) (.ok (city.rename ρ))
  | error {fault fault' : Fault} {index : Nat} {token token' : Token}
    (stage : fault.cause.stage = fault'.cause.stage)
    (found : tokens[index]? = some token) (found' : tokens'[index]? = some token')
    (position : fault.position = token.position) (position' : fault'.position = token'.position) :
    Renames ρ tokens tokens' (.error fault) (.error fault')

/--
Two compilations with the same elements and features, of which the second has its variables under other names. Tokens
correspond to each other if they come equally far down their lists.
-/
def Likeness.renamed {tokens : List Token} (tokens' : List Token) (hi : (identifiers tokens).InjOn ρ) : Likeness where
  token t t' := (t.rename ρ).spelling = t'.spelling ∧
    ∃ index : Nat, tokens[index]? = some t ∧ tokens'[index]? = some t'
  progress p p' := p'.scopes = p.scopes.rename ρ ∧ p.scopes.Within (identifiers tokens) ∧
    p.elements = p'.elements ∧ p.features = p'.features
  fault _ := False
  sighted := True
  noted := True
  naming := {
    name := fun n n' ↦ n ∈ identifiers tokens ∧ n' = ρ n
    message := fun _ _ ↦ True
    message_refl := fun _ ↦ True.intro
    message_name := fun _ _ _ ↦ True.intro }
  changes change change' := ∀ scopes : Scopes, scopes.Within (identifiers tokens) →
    (change scopes).rename ρ = change' (scopes.rename ρ) ∧ (change scopes).Within (identifiers tokens)
  kind_eq {t _} h := (t.kind_rename ρ).symm.trans (congrArg Prod.fst h.1)
  lexeme_eq h hk := by
    have hl := congrArg Prod.snd h.1
    rwa [Token.rename, if_neg hk] at hl
  name_of {t _} h hk := by
    obtain ⟨hs, index, ht, _⟩ := h
    have hl := congrArg Prod.snd hs
    rw [Token.rename, if_pos hk] at hl
    exact ⟨⟨t, List.mem_of_getElem? ht, hk, rfl⟩, hl.symm⟩
  agree _ h := h.1 ▸ h.2.1.agree hi fun _ _ h ↦ h
  change hc h := by
    obtain ⟨he, hw⟩ := hc _ h.2.1
    exact ⟨by rw [h.1, ← he], hw, h.2.2⟩
  note _ _ _ h := h

section

variable {tokens tokens' : List Token} (hi : (identifiers tokens).InjOn ρ)

private theorem Likeness.renamed_twins : (renamed tokens' hi).Twins where
  declares level := ⟨True.intro, True.intro, fun h value scopes hs ↦ by
    obtain ⟨hm, rfl⟩ := h
    exact Scopes.rename_declare hi hs level hm value⟩
  clears _ hs := ⟨rfl, hs.city, Scope.within_empty⟩
  features_eq h := h.2.2.2
  complete element h :=
    ⟨h.1, h.2.1, congrArg (· ++ [element]) h.2.2.1, congrArg (· ++ [element.feature]) h.2.2.2⟩

private theorem Likeness.renames_of_renamed {fault fault' : Fault} (h : (renamed tokens' hi).Faults fault fault') :
    Renames ρ tokens tokens' (.error fault) (.error fault') := by
  cases h with
  | lexical h => exact h.elim
  | unexpected _ h | refused _ h | incomplete _ h | undefined _ _ h =>
    obtain ⟨_, index, ht, ht'⟩ := h
    exact .error rfl ht ht' rfl rfl

end

private theorem Scan.renames_compile {tokens tokens' : List Token} {last last' : Token}
    (hi : (identifiers (tokens ++ [last])).InjOn ρ)
    (hs : (tokens ++ [last]).map (Token.spelling ∘ Token.rename ρ) = (tokens' ++ [last']).map Token.spelling)
    (capacity capacity' : Nat) :
    Renames ρ (tokens ++ [last]) (tokens' ++ [last']) (Scan.compile ⟨tokens, .finish last⟩ (.empty capacity)).result
        (Scan.compile ⟨tokens', .finish last'⟩ (.empty capacity')).result ∧
      (Scan.compile ⟨tokens, .finish last⟩ (.empty capacity)).elements =
        (Scan.compile ⟨tokens', .finish last'⟩ (.empty capacity')).elements := by
  have ht : (Likeness.renamed (tokens' ++ [last']) hi).Sessions (Work.session {} capacity last tokens)
      (Work.session {} capacity' last' tokens') := by
    refine Likeness.sessions_of_tokens (by simpa using congrArg List.length hs) (fun index t t' ht ht' ↦ ?_)
      ⟨rfl, ⟨Scope.within_empty, Scope.within_empty⟩, rfl, rfl⟩
    have he := congrArg (·[index]?) hs
    simp only [List.getElem?_map, ht, ht', Option.map_some] at he
    exact ⟨Option.some.inj he, index, ht, ht'⟩
  have hc := city_alike (Likeness.renamed_twins hi) _ _ ht
  rw [Scan.compile_eq, Scan.compile_eq]
  generalize Compile.city.run (Work.session {} capacity last tokens) = outcome,
    Compile.city.run (Work.session {} capacity' last' tokens') = outcome' at hc
  cases hc with
  | @ok city city' session session' he hp =>
    obtain ⟨hn, _, _, hscopes, _, helements, hfeatures⟩ := he
    have hcity : city' = city.rename ρ := by
      obtain ⟨_, _, _, _⟩ := city'
      cases hn
      cases hscopes
      cases helements
      cases hfeatures
      rfl
    exact ⟨hcity ▸ .ok city, hp.progress.2.2.1⟩
  | error hf hp => exact ⟨Likeness.renames_of_renamed hi hf, hp.progress.2.2.1⟩

private theorem Token.spelled_rename {token : Token} (h : token.kind.Spelled token.lexeme.toList [])
    (hn : token.kind = .identifier → Kind.identifier.Class (ρ token.lexeme).toList) :
    (token.rename ρ).kind.Spelled (token.rename ρ).lexeme.toList [] := by
  unfold rename
  split
  · next hk =>
    have hc := hn hk
    rw [← hk] at hc
    exact ⟨hc.ne_nil, State.symbol_afterAll_iff.mpr hc, h.visible, by rintro _ ⟨⟩⟩
  · exact h

/--
Names of variables carry no meaning. Let the identifiers of a source be given other names, which are identifiers
too, different ones if they were different. However its lexemes are written down with these names, as long as
blanks keep them apart, the tokens are the same up to the names, and compiling comes to the same: the same city
with its variables under the new names, or a fault of the same stage at the same token; in both cases the same is
drawn.
-/
theorem compile_renamed {source source' : Source} {tokens : List Token} {last : Token}
    (ht : tokenize source = .ok (tokens ++ [last])) (hi : (identifiers tokens).InjOn ρ)
    (hn : ∀ name ∈ identifiers tokens, Kind.identifier.Class (ρ name).toList)
    (hs : source'.Spaced (tokens.map fun token ↦ (token.rename ρ).lexeme)) :
    ∃ tokens', tokenize source' = .ok tokens' ∧
      tokens'.map Token.spelling = (tokens ++ [last]).map (Token.spelling ∘ Token.rename ρ) ∧
      ∀ (capacity capacity' : Nat) (project : Projection),
        Renames ρ (tokens ++ [last]) tokens' (compile capacity source).result (compile capacity' source').result ∧
          (compile capacity source).elements.flatMap (·.strokes project) =
            (compile capacity' source').elements.flatMap (·.strokes project) := by
  obtain ⟨hscan, hlast⟩ := finish_of_tokenize ht
  have hfinish : last.kind = .finish := congrArg Prod.fst hlast
  have hspelled : ∀ token ∈ tokens.map (Token.rename ρ), token.kind.Spelled token.lexeme.toList [] := by
    rintro _ hr
    obtain ⟨token, hm, rfl⟩ := List.mem_map.mp hr
    exact Token.spelled_rename (spelled_of_tokenize ht token hm) fun hk ↦ hn _ ⟨token, hm, hk, rfl⟩
  have hs' : source'.Spaced ((tokens.map (Token.rename ρ)).map Token.lexeme) := by rwa [List.map_map]
  obtain ⟨found, last', ht', hm⟩ := hs'.spells hspelled
  obtain ⟨hscan', hlast'⟩ := finish_of_tokenize ht'
  -- The last tokens have no name.
  have hrename : last.rename ρ = last := if_neg (by rw [hfinish]; decide)
  have hi' : (identifiers (tokens ++ [last])).InjOn ρ := by
    refine hi.mono ?_
    rintro _ ⟨token, hm, hk, rfl⟩
    rcases List.mem_append.mp hm with hm | hm
    · exact ⟨token, hm, hk, rfl⟩
    · rw [List.mem_singleton.mp hm, hfinish] at hk
      cases hk
  have hspell : (tokens ++ [last]).map (Token.spelling ∘ Token.rename ρ) =
      (found ++ [last']).map Token.spelling := by
    simp only [List.map_append, hm, List.map_map, List.map_singleton, Function.comp_apply, hrename, hlast, hlast']
  refine ⟨found ++ [last'], ht', hspell.symm, fun capacity capacity' project ↦ ?_⟩
  have hc := Scan.renames_compile hi' hspell capacity capacity'
  rw [compile, compile, hscan, hscan']
  exact ⟨hc.1, by rw [hc.2]⟩

/-- A script with a number and a coordinate; its street hides the number. -/
def namedScript : Source :=
  ("city \"A\"\x7bint p=1 coordinate q=(p,2)street \"S\"\x7bint p=5 bend(q,q,p)line(q,q)\x7d"
    ++ "institution \"I\"\x7baddress=\"B\"events=p block(q,q,q,q)\x7d\x7d").toList

/-- It compiles with both names exchanged. -/
theorem compile_renamed_namedScript :
    ∃ tokens last tokens', tokenize namedScript = .ok (tokens ++ [last]) ∧
      tokenize (.ofTokens (tokens.map (Token.rename (Equiv.swap "p" "q")))) = .ok tokens' ∧
      (compile 4 namedScript).result.isOk = true ∧
      Renames (Equiv.swap "p" "q") (tokens ++ [last]) tokens' (compile 4 namedScript).result
        (compile 0 (.ofTokens (tokens.map (Token.rename (Equiv.swap "p" "q"))))).result := by
  have hnames : ∀ token ∈ (scan namedScript).tokens, token.kind = .identifier →
      (State.start.afterAll keywords (Equiv.swap "p" "q" token.lexeme).toList).symbol = some .identifier := by
    decide +kernel
  have hresult : (tokenize namedScript).isOk = true ∧ (compile 4 namedScript).result.isOk = true := by
    decide +kernel
  cases ht : tokenize namedScript with
  | error fault =>
    rw [ht] at hresult
    cases hresult.1
  | ok tokens =>
    obtain ⟨front, last, rfl, hscan, _⟩ := tokenize_eq_ok ht
    rw [hscan] at hnames
    have hs := Source.spaced_ofTokens (front.map (Token.rename (Equiv.swap "p" "q")))
    rw [List.map_map] at hs
    obtain ⟨tokens', ht', _, hr⟩ := compile_renamed ht (Equiv.injective _).injOn
      (by rintro _ ⟨token, hm, hk, rfl⟩; exact State.symbol_afterAll_iff.mp (hnames token hm hk)) hs
    exact ⟨front, last, tokens', rfl, ht', hresult.2, (hr 4 0 fun _ _ ↦ ⟨0, 0⟩).1⟩

end Cityscape
