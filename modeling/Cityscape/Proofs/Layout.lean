import Cityscape.Drawing.Stroke
import Cityscape.Proofs.Script.Lexeme
import Cityscape.Proofs.SinglePass

/-!
# Scripts in another layout

Compiling looks at the kinds and lexemes of tokens; where they stand goes into the journal and into faults
only. So sources with tokens that are written alike compile to the same city or are refused at the same token,
whatever stands between the tokens, and tokens that were scanned once can be written down again, kept apart by any
blanks.
-/

namespace Cityscape

/-- What is written for a token, wherever it stands. -/
def Token.spelling (token : Token) : Kind × String :=
  (token.kind, token.lexeme)

/-- Whether a source is scanned as tokens that are written like these, up to the end of the input. -/
def Source.Spells (source : Source) (tokens : List Token) : Prop :=
  ∃ found last, tokenize source = .ok (found ++ [last]) ∧
    found.map Token.spelling = tokens.map Token.spelling

/-- Journals that differ in line numbers only. -/
structure Journal.Echoes (journal journal' : Journal) : Prop where
  capacity : journal.capacity = journal'.capacity
  messages : journal.records.map Record.message = journal'.records.map Record.message
  dropped : journal.dropped = journal'.dropped

private theorem Journal.Echoes.record {journal journal' : Journal} (h : journal.Echoes journal') (line line' : Nat)
    (message : String) : (journal.record line message).Echoes (journal'.record line' message) := by
  obtain ⟨capacity, records, dropped⟩ := journal
  obtain ⟨capacity', records', dropped'⟩ := journal'
  obtain ⟨rfl, hm, rfl⟩ := h
  have hl : records.length = records'.length := by simpa using congrArg List.length hm
  simp only [Journal.record, hl]
  split_ifs
  · exact ⟨rfl, hm, rfl⟩
  · exact ⟨rfl, by simp [hm], rfl⟩
  · exact ⟨rfl, by simp [hm], rfl⟩

/-- Faults with one stage and one wording, at tokens that come equally far down these lists. -/
def Fault.Echoes (tokens tokens' : List Token) (fault fault' : Fault) : Prop :=
  fault.cause.stage = fault'.cause.stage ∧ fault.cause.message = fault'.cause.message ∧
    ∃ (index : Nat) (token token' : Token), tokens[index]? = some token ∧ tokens'[index]? = some token' ∧
      fault.position = token.position ∧ fault'.position = token'.position

/-- The same city, or faults that differ in their positions only. -/
inductive Echoes (tokens tokens' : List Token) : Except Fault City → Except Fault City → Prop where
  | ok (city : City) : Echoes tokens tokens' (.ok city) (.ok city)
  | error {fault fault' : Fault} (h : fault.Echoes tokens tokens' fault') :
    Echoes tokens tokens' (.error fault) (.error fault')

/-- Compilations that differ in the positions of their tokens only. -/
structure Compilation.Echoes (tokens tokens' : List Token) (compilation compilation' : Compilation) : Prop where
  result : Cityscape.Echoes tokens tokens' compilation.result compilation'.result
  elements : compilation.elements = compilation'.elements
  features : compilation.features = compilation'.features
  journal : compilation.journal.Echoes compilation'.journal

/--
Two compilations of tokens that are written alike, with the same variables, elements and features. Tokens correspond to
each other if they come equally far down their lists.
-/
def Likeness.layout (tokens tokens' : List Token) : Likeness where
  token t t' := t.spelling = t'.spelling ∧
    ∃ index : Nat, tokens[index]? = some t ∧ tokens'[index]? = some t'
  progress p p' := p.scopes = p'.scopes ∧ p.elements = p'.elements ∧ p.features = p'.features ∧
    p.journal.Echoes p'.journal
  fault _ := False
  sighted := True
  noted := True
  naming := .same
  changes := Eq
  kind_eq h := congrArg Prod.fst h.1
  lexeme_eq h _ := congrArg Prod.snd h.1
  name_of h _ := congrArg Prod.snd h.1
  agree _ h := h.1 ▸ Scopes.agree_self _
  change hc h := ⟨by rw [hc, h.1], h.2⟩
  note _ _ hm h := ⟨h.1, h.2.1, h.2.2.1, hm ▸ h.2.2.2.record _ _ _⟩

section

variable {tokens tokens' : List Token} {last last' : Token}

private theorem Likeness.layout_twins : (layout tokens tokens').Twins where
  declares level := ⟨True.intro, True.intro, fun h value ↦
    congrArg (fun name (scopes : Scopes) ↦ scopes.declare level name (value.named name)) h⟩
  clears := rfl
  features_eq h := h.2.2.1
  complete element h :=
    ⟨h.1, congrArg (· ++ [element]) h.2.1, congrArg (· ++ [element.feature]) h.2.2.1, h.2.2.2⟩

/-- Compilations begin alike if tokens that come equally far down correspond. -/
theorem Likeness.sessions_of_tokens {alike : Likeness} {capacity capacity' : Nat}
    (hn : tokens.length = tokens'.length)
    (ht : ∀ (index : Nat) (t t' : Token), (tokens ++ [last])[index]? = some t →
      (tokens' ++ [last'])[index]? = some t' → alike.token t t')
    (hp : alike.progress ⟨.empty, [], [], .empty capacity⟩ ⟨.empty, [], [], .empty capacity'⟩) :
    alike.Sessions (Work.session {} capacity last tokens) (Work.session {} capacity' last' tokens') := by
  have hl : alike.token last last' := ht tokens.length last last' (by simp) (by simp [hn])
  have ha : List.Forall₂ alike.token tokens tokens' := by
    refine List.forall₂_iff_get.mpr ⟨hn, fun i hi hi' ↦ ht i _ _ ?_ ?_⟩
    · rw [List.getElem?_append_left hi]
      simp [hi]
    · rw [List.getElem?_append_left hi']
      simp [hi']
  cases ha with
  | nil => exact ⟨hl, .nil, .finish hl, hp⟩
  | cons hf ha => exact ⟨hf, ha, .finish hl, hp⟩

private theorem Likeness.layout_sessions
    (hs : (tokens ++ [last]).map Token.spelling = (tokens' ++ [last']).map Token.spelling) (capacity : Nat) :
    (layout (tokens ++ [last]) (tokens' ++ [last'])).Sessions (Work.session {} capacity last tokens)
      (Work.session {} capacity last' tokens') := by
  refine sessions_of_tokens (by simpa using congrArg List.length hs) (fun index t t' ht ht' ↦ ?_)
    ⟨rfl, rfl, rfl, rfl, rfl, rfl⟩
  have he := congrArg (·[index]?) hs
  simp only [List.getElem?_map, ht, ht', Option.map_some] at he
  exact ⟨Option.some.inj he, index, ht, ht'⟩

private theorem Likeness.echoes_of_layout {fault fault' : Fault} (h : (layout tokens tokens').Faults fault fault') :
    fault.Echoes tokens tokens' fault' := by
  cases h with
  | lexical h => exact h.elim
  | @unexpected expected t t' h =>
    obtain ⟨hs, index, ht, ht'⟩ := h
    obtain ⟨hk, hl⟩ := Prod.mk.inj hs
    have hd : t.describe = t'.describe := by simp only [Token.describe, hk, hl]
    have hm : (Cause.unexpected expected t).message = (Cause.unexpected expected t').message :=
      congrArg ("expected " ++ expected.describe ++ ", got " ++ ·) hd
    exact ⟨rfl, hm, index, t, t', ht, ht', rfl, rfl⟩
  | @refused _ _ t t' h | @incomplete _ t t' h =>
    obtain ⟨_, index, ht, ht'⟩ := h
    exact ⟨rfl, rfl, index, t, t', ht, ht', rfl, rfl⟩
  | @undefined sort _ t t' h hn =>
    obtain ⟨_, index, ht, ht'⟩ := h
    exact ⟨rfl, congrArg (fun name ↦ (Cause.undefined sort name).message) hn, index, t, t', ht, ht', rfl, rfl⟩

private theorem Scan.compile_layout
    (hs : (tokens ++ [last]).map Token.spelling = (tokens' ++ [last']).map Token.spelling) (capacity : Nat) :
    (Scan.compile ⟨tokens, .finish last⟩ (.empty capacity)).Echoes (tokens ++ [last]) (tokens' ++ [last'])
      (Scan.compile ⟨tokens', .finish last'⟩ (.empty capacity)) := by
  have hc := city_alike Likeness.layout_twins _ _ (Likeness.layout_sessions hs capacity)
  rw [Scan.compile_eq, Scan.compile_eq]
  generalize Compile.city.run (Work.session {} capacity last tokens) = outcome,
    Compile.city.run (Work.session {} capacity last' tokens') = outcome' at hc
  cases hc with
  | @ok city city' session session' he hp =>
    obtain ⟨hn, _, _, hs, he, hf, _⟩ := he
    have hcity : city = city' := by
      obtain ⟨_, _, _, _⟩ := city
      cases hn
      cases hs
      cases he
      cases hf
      rfl
    obtain ⟨_, he, hf, hj⟩ := hp.progress
    exact ⟨hcity ▸ .ok city, he, hf, hj⟩
  | error hr hp =>
    obtain ⟨_, he, hf, hj⟩ := hp.progress
    exact ⟨.error (Likeness.echoes_of_layout hr), he, hf, hj⟩

end

/--
Layout never changes meaning. Two sources whose tokens are written alike compile to the same city, or both are
refused, for one stage and with one wording, at tokens that come equally far down; in both cases the same is
drawn, and the same messages are kept and dropped.
-/
theorem compile_echoes {source source' : Source} {tokens tokens' : List Token}
    (ht : tokenize source = .ok tokens) (ht' : tokenize source' = .ok tokens')
    (hs : tokens.map Token.spelling = tokens'.map Token.spelling) (capacity : Nat) (project : Projection) :
    Echoes tokens tokens' (compile capacity source).result (compile capacity source').result ∧
      (compile capacity source).elements.flatMap (·.strokes project) =
        (compile capacity source').elements.flatMap (·.strokes project) ∧
      (compile capacity source).journal.Echoes (compile capacity source').journal := by
  obtain ⟨front, last, rfl, hscan, _⟩ := tokenize_eq_ok ht
  obtain ⟨front', last', rfl, hscan', _⟩ := tokenize_eq_ok ht'
  have hc := Scan.compile_layout hs capacity
  rw [compile, compile, hscan, hscan']
  exact ⟨hc.result, by rw [hc.elements], hc.journal⟩

/-- A script on one line that is refused in its second element, where a variable has no value. -/
def narrowScript : Source :=
  ("city \"A\"\x7bcoordinate p=(1,2)street \"S\"\x7bbend(p,p,5)line(p,p)\x7d"
    ++ "institution \"I\"\x7baddress=b\x7d\x7d").toList

/-- The same script on four lines. -/
def wideScript : Source :=
  ("city \"A\" \x7b coordinate p = (1, 2)\n street \"S\" \x7b bend(p, p, 5) line(p, p) \x7d\n"
    ++ "institution \"I\" \x7b\n address = b \x7d \x7d").toList

/-- Both scripts are refused alike. -/
theorem compile_echoes_wideScript :
    ∃ tokens tokens', tokenize narrowScript = .ok tokens ∧ tokenize wideScript = .ok tokens' ∧
      tokens.map Token.position ≠ tokens'.map Token.position ∧ (compile 4 narrowScript).result.isOk = false ∧
      Echoes tokens tokens' (compile 4 narrowScript).result (compile 4 wideScript).result := by
  have hscan : (tokenize narrowScript).isOk = true ∧ (tokenize wideScript).isOk = true ∧
      (tokenize narrowScript).toOption.map (·.map Token.spelling) =
        (tokenize wideScript).toOption.map (·.map Token.spelling) ∧
      (tokenize narrowScript).toOption.map (·.map Token.position) ≠
        (tokenize wideScript).toOption.map (·.map Token.position) := by
    decide +kernel
  have hresult : (compile 4 narrowScript).result.isOk = false := by
    decide +kernel
  obtain ⟨ho, ho', hs, hp⟩ := hscan
  cases ht : tokenize narrowScript with
  | error fault =>
    rw [ht] at ho
    cases ho
  | ok tokens =>
    cases ht' : tokenize wideScript with
    | error fault =>
      rw [ht'] at ho'
      cases ho'
    | ok tokens' =>
      rw [ht, ht'] at hs hp
      refine ⟨tokens, tokens', rfl, rfl, fun h ↦ hp (congrArg some h), hresult, ?_⟩
      exact (compile_echoes ht ht' (Option.some.inj hs) 4 fun _ _ ↦ ⟨0, 0⟩).1

/-- A source that spells a tree compiles to what the tree means. -/
theorem compile_of_spells {source : Source} {tree : Syntax.City} {city : City}
    (hs : source.Spells tree.tokens) (he : tree.evaluation.result = .ok city) (capacity : Nat) :
    (compile capacity source).result = .ok city := by
  obtain ⟨found, last, ht, hm⟩ := hs
  obtain ⟨front, last', hf, hs, hk, hl⟩ := tokenize_eq_ok ht
  obtain ⟨rfl, h⟩ := List.append_inj' hf rfl
  cases h
  have hl' : Syntax.Spelled tree.tokens := by
    intro token ht
    obtain ⟨other, ho, hsp⟩ := List.mem_map.mp (hm ▸ List.mem_map_of_mem ht : token.spelling ∈ found.map _)
    obtain ⟨hkind, hlexeme⟩ := Prod.mk.inj hsp
    rw [← hkind, ← hlexeme]
    exact hl other ho
  have hc := (Scan.compile_layout (show (tree.tokens ++ [last]).map Token.spelling =
    (found ++ [last]).map Token.spelling by simp [hm]) capacity).result
  rw [tree.compile_eq hk hl' capacity, show (tree.evaluation.compilation capacity).result = .ok city from he,
    ← hs] at hc
  generalize hr : (Scan.compile (scan source) (.empty capacity)).result = result at hc
  cases hc
  exact hr

/--
Lexemes that are kept apart: blanks stand between any two of them, and any number of blanks before the first and
behind the last.
-/
inductive Source.Spaced : Source → List String → Prop where
  | done {gap : List Char} (hg : ∀ c ∈ gap, isBlank c = true) : Spaced gap []
  | lexeme {gap text : List Char} {lexeme : String} {lexemes : List String} (hg : ∀ c ∈ gap, isBlank c = true)
    (h : Spaced text lexemes) (apart : ∀ c ∈ text.head?, isBlank c = true) :
    Spaced (gap ++ (lexeme.toList ++ text)) (lexeme :: lexemes)

private theorem Source.Spaced.blank {text : Source} {lexemes : List String} (h : text.Spaced lexemes) {c : Char}
    (hc : isBlank c = true) : Spaced (c :: text) lexemes := by
  cases h with
  | done hg => exact .done (List.forall_mem_cons.mpr ⟨hc, hg⟩)
  | @lexeme gap _ _ _ hg h apart =>
    have hg : ∀ d ∈ c :: gap, isBlank d = true := List.forall_mem_cons.mpr ⟨hc, hg⟩
    exact .lexeme hg h apart

/-- The tokens in order, each with a blank behind it. -/
def Source.ofTokens (tokens : List Token) : Source :=
  tokens.flatMap fun token ↦ token.lexeme.toList ++ [' ']

/-- There the lexemes are kept apart. -/
theorem Source.spaced_ofTokens (tokens : List Token) :
    (Source.ofTokens tokens).Spaced (tokens.map Token.lexeme) := by
  induction tokens with
  | nil => exact .done (List.forall_mem_nil _)
  | cons token tokens ih =>
    have hb : Spaced (' ' :: ofTokens tokens) (tokens.map Token.lexeme) := ih.blank rfl
    have ht : ofTokens (token :: tokens) = [] ++ (token.lexeme.toList ++ ' ' :: ofTokens tokens) := by
      rw [ofTokens, List.flatMap_cons, List.append_assoc]
      rfl
    rw [ht]
    refine .lexeme (List.forall_mem_nil _) hb ?_
    rintro _ ⟨⟩
    rfl

private theorem State.read_blank {state : State} {kind : Kind} (hs : state.symbol = some kind) (hk : kind ≠ .blank)
    {c : Char} (hc : isBlank c = true) : state.read keywords c = .dead := by
  simp only [isBlank, Bool.or_eq_true, decide_eq_true_eq] at hc
  cases state with
  | mark mark => rcases hc with ((rfl | rfl) | rfl) | rfl <;> cases mark <;> rfl
  | blank => exact absurd (Option.some.inj hs).symm hk
  | dead | start | point | quote | bang => cases hs
  | _ => rcases hc with ((rfl | rfl) | rfl) | rfl <;> rfl

private theorem Kind.Spelled.apart {kind : Kind} {text : List Char} (h : kind.Spelled text []) {rest : List Char}
    (hr : ∀ c ∈ rest.head?, isBlank c = true) : kind.Spelled text rest :=
  ⟨h.nonempty, h.symbol, h.visible, fun c hc ↦ State.read_blank h.symbol h.visible (hr c hc)⟩

private theorem scanFrom_gap {gap : List Char} (hg : ∀ c ∈ gap, isBlank c = true) (rest : List Char) (here : Position) :
    scanFrom keywords here (gap ++ rest) = scanFrom keywords (here.afterAll gap) rest := by
  induction gap generalizing here with
  | nil => rfl
  | cons c gap ih =>
    obtain ⟨hc, hg⟩ := List.forall_mem_cons.mp hg
    rw [List.cons_append, scanFrom_blank hc, ih hg]
    rfl

private theorem scanFrom_alone (here : Position) (text : List Char) :
    ∀ token ∈ (scanFrom keywords here text).tokens, token.kind.Spelled token.lexeme.toList [] := by
  fun_induction scanFrom keywords here text with
  | case1 | case2 | case3 => exact List.forall_mem_nil _
  | case4 _ _ _ _ _ _ _ ih => exact ih
  | case5 here c rest run there hn kind hk hs ih =>
    refine List.forall_mem_cons.mpr ⟨?_, ih⟩
    rw [State.munch_state] at hs
    refine ⟨by rwa [String.toList_ofList], by rwa [String.toList_ofList], hk, ?_⟩
    rintro _ ⟨⟩

private theorem scanFrom_spaced {tokens : List Token} (h : ∀ token ∈ tokens, token.kind.Spelled token.lexeme.toList [])
    {text : Source} (ht : text.Spaced (tokens.map Token.lexeme)) (here : Position) :
    ∃ found last, scanFrom keywords here text = ⟨found, .finish last⟩ ∧
      found.map Token.spelling = tokens.map Token.spelling := by
  induction tokens generalizing text here with
  | nil =>
    cases ht with
    | done hg =>
      have hs := scanFrom_gap hg [] here
      rw [List.append_nil] at hs
      exact ⟨[], ⟨.finish, "", _⟩, by rw [hs, scanFrom], rfl⟩
  | cons token tokens ih =>
    obtain ⟨hl, h⟩ := List.forall_mem_cons.mp h
    cases ht with
    | @lexeme gap text _ _ hg ht apart =>
      obtain ⟨found, last, hs, hm⟩ := ih h ht ((here.afterAll gap).afterAll token.lexeme.toList)
      refine ⟨⟨token.kind, token.lexeme, here.afterAll gap⟩ :: found, last, ?_, ?_⟩
      · rw [scanFrom_gap hg, scanFrom_spelled (hl.apart apart), hs, String.ofList_toList]
        rfl
      · rw [List.map_cons, List.map_cons, hm]
        rfl

/-- So a source in which they are kept apart spells them. -/
theorem Source.Spaced.spells {tokens : List Token}
    (h : ∀ token ∈ tokens, token.kind.Spelled token.lexeme.toList []) {source : Source}
    (hs : source.Spaced (tokens.map Token.lexeme)) : source.Spells tokens := by
  obtain ⟨found, last, hf, hm⟩ := scanFrom_spaced h hs .first
  refine ⟨found, last, ?_, hm⟩
  rw [tokenize, scan, hf]

/-- The tokens of a source can be scanned alone. -/
theorem spelled_of_tokenize {source : Source} {tokens : List Token} {last : Token}
    (h : tokenize source = .ok (tokens ++ [last])) :
    ∀ token ∈ tokens, token.kind.Spelled token.lexeme.toList [] := by
  obtain ⟨tokens', last', he, hs, _⟩ := tokenize_eq_ok h
  obtain ⟨rfl, _⟩ := List.append_inj' he rfl
  have ha := scanFrom_alone .first source
  rwa [← scan, hs] at ha

private theorem scanFrom_finish {here : Position} {text : List Char} {last : Token}
    (h : (scanFrom keywords here text).ending = .finish last) : last.spelling = (.finish, "") := by
  fun_induction scanFrom keywords here text with
  | case1 =>
    cases h
    rfl
  | case2 | case3 => cases h
  | case4 _ _ _ _ _ _ _ ih => exact ih h
  | case5 _ _ _ _ _ _ _ _ _ ih => exact ih h

/-- So the last tokens of sources are written alike. -/
theorem finish_of_tokenize {source : Source} {tokens : List Token} {last : Token}
    (h : tokenize source = .ok (tokens ++ [last])) :
    scan source = ⟨tokens, .finish last⟩ ∧ last.spelling = (.finish, "") := by
  obtain ⟨tokens', last', he, hs, _⟩ := tokenize_eq_ok h
  obtain ⟨rfl, hl⟩ := List.append_inj' he rfl
  cases hl
  exact ⟨hs, scanFrom_finish (congrArg Scan.ending hs)⟩

/-- The tokens of a source are written down again, in any order and any number. -/
theorem Source.spells_ofTokens {source : Source} {front tokens : List Token} {last : Token}
    (h : tokenize source = .ok (front ++ [last])) (ht : ∀ token ∈ tokens, token ∈ front) :
    (Source.ofTokens tokens).Spells tokens :=
  (Source.spaced_ofTokens tokens).spells fun token hm ↦ spelled_of_tokenize h token (ht token hm)

end Cityscape
