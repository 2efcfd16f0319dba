import Cityscape.Proofs.Coverage

/-!
# Where scanning comes to a dead end

A source that cannot be scanned is whole lexemes first, each of them the longest one there, then a text that begins
a lexeme without being one, and then a character, or the end, with which no lexeme goes on. The fault is reported
at the place of that character and tells what was read of the lexeme. Scanning never looks behind the character,
so every source that begins in the same way has the same fault.
-/

namespace Cityscape

variable {kind : Kind} {text done part rest : List Char}

/-- The inputs of a lexeme; the end of a source counts as one, too, and has no characters. -/
inductive Kind.Codes : Kind → List Code → Prop where
  | text {kind : Kind} {text : List Char} (h : kind.Class text) : Codes kind (text.map .char)
  | finish : Codes .finish [.finish]

/-- Whether a lexeme begins with these inputs. -/
def Opens (codes : List Code) : Prop :=
  ∃ (kind : Kind) (whole : List Code), kind.Codes whole ∧ codes <+: whole

/-- What is read next where this text is left. -/
def Code.ahead : List Char → Code
  | [] => .finish
  | c :: _ => .char c

private theorem Kind.codes_map_iff : kind.Codes (text.map .char) ↔ kind.Class text := by
  constructor
  · intro h
    generalize hc : text.map Code.char = codes at h
    cases h with
    | text h =>
      have he := List.map_injective_iff.mpr (fun _ _ ↦ Code.char.inj) hc
      exact he ▸ h
    | finish => cases text <;> cases hc
  · exact .text

private theorem opens_map_iff : Opens (text.map .char) ↔ ∃ kind more, Kind.Class kind (text ++ more) := by
  constructor
  · rintro ⟨kind, _, hc, hp⟩
    cases hc with
    | text h =>
      obtain ⟨more, hm⟩ := hp
      obtain ⟨front, back, rfl, hf, _⟩ := List.map_eq_append_iff.mp hm.symm
      have he := List.map_injective_iff.mpr (fun _ _ ↦ Code.char.inj) hf
      exact ⟨kind, back, he ▸ h⟩
    | finish =>
      -- no character stands before the end, but everything may begin where nothing has been read
      have ht : text = [] := by
        rcases List.prefix_cons_iff.mp hp with h | ⟨_, h, _⟩
        · exact List.map_eq_nil_iff.mp h
        · cases text <;> cases h
      exact ⟨.mark .comma, [','], by rw [ht]; rfl⟩
  · rintro ⟨kind, more, h⟩
    exact ⟨kind, _, .text h, by simp⟩

private theorem not_opens_finish (h : text ≠ []) : ¬ Opens (text.map .char ++ [.finish]) := by
  rintro ⟨_, _, hc, hp⟩
  cases hc with
  | text =>
    have hm := hp.subset (List.mem_append_right _ List.mem_cons_self)
    simp at hm
  | finish =>
    have hl := hp.length_le
    simp at hl
    exact h hl

/-- Scanning stops behind `part`, which begins a lexeme and is none, and `rest` does not go on with it. -/
structure DeadEnd (part rest : List Char) : Prop where
  opens : Opens (part.map .char)
  incomplete : ∀ kind : Kind, ¬ kind.Codes (part.map .char)
  blocked : ¬ Opens (part.map .char ++ [.ahead rest])

/-- Each live state that is not complete is on the way to a complete one. -/
theorem exists_class_of_live (hl : State.start.afterAll keywords text ≠ .dead)
    (hs : (State.start.afterAll keywords text).symbol = none) : ∃ kind more, Kind.Class kind (text ++ more) := by
  have hshows := State.shows_afterAll keywords text
  cases hstate : State.start.afterAll keywords text with rw [hstate] at hl hs hshows
  | dead => exact absurd rfl hl
  | start => exact ⟨.mark .comma, [','], by rw [show text = [] from hshows]; rfl⟩
  | point =>
    obtain ⟨whole, rfl, hw⟩ := hshows
    exact ⟨.double, ['0'], whole, ['0'], by simp, hw, .singleton rfl⟩
  | quote =>
    obtain ⟨inner, rfl, hi⟩ := hshows
    exact ⟨.string, ['"'], inner, rfl, hi⟩
  | bang => exact ⟨.mark .notEqual, ['='], by rw [show text = ['!'] from hshows]; rfl⟩
  | finish => exact hshows.elim
  | word | letters | lettersDigits | digits | fraction | quoted | mark | blank => cases hs

private theorem munch_stops (words : Trie Kind) (state : State) (text : List Char) :
    ∀ c ∈ (munch words state text).rest.head?, (munch words state text).state.read words c = .dead := by
  induction text generalizing state with
  | nil => exact nofun
  | cons c text ih =>
    rw [munch]
    split_ifs with h
    · rintro _ ⟨⟩
      exact h
    · exact ih _

private theorem deadEnd_of_munch (hn : text ≠ []) (hs : (munch keywords .start text).state.symbol = none) :
    DeadEnd (munch keywords .start text).taken (munch keywords .start text).rest := by
  have hsplit := taken_append_rest keywords .start text
  have hlive := munch_live keywords (nofun : State.start ≠ .dead) text
  have hstops := munch_stops keywords .start text
  rw [State.munch_state] at hs hlive hstops
  generalize (munch keywords .start text).taken = part, (munch keywords .start text).rest = rest at *
  refine ⟨opens_map_iff.mpr (exists_class_of_live hlive hs), fun kind h ↦ ?_, ?_⟩
  · rw [State.symbol_afterAll_iff.mpr (Kind.codes_map_iff.mp h)] at hs
    cases hs
  · cases rest with
    | nil =>
      apply not_opens_finish
      rintro rfl
      exact hn hsplit.symm
    | cons c rest =>
      change ¬ Opens (part.map .char ++ [c].map .char)
      rw [← List.map_append, opens_map_iff]
      rintro ⟨kind, more, h⟩
      apply h.live
      rw [State.afterAll_append, State.afterAll_append]
      change (((State.start.afterAll keywords part).read keywords c).afterAll keywords more) = .dead
      rw [hstops c rfl, State.afterAll_dead]

/-- The longest lexemes that a text begins with, one after the other: all of `done`, and `rest` is left. -/
inductive Consumes : List Char → List Char → List Char → Prop where
  | nil (text : List Char) : Consumes text [] text
  | lexeme {text lexeme next done rest : List Char} {kind : Kind} (h : LongestLexeme text kind lexeme next)
    (hr : Consumes next done rest) : Consumes text (lexeme ++ done) rest

private theorem Consumes.append_eq (h : Consumes text done rest) : done ++ rest = text := by
  induction h with
  | nil => rfl
  | lexeme h _ ih => rw [List.append_assoc, ih, h.split]

private theorem munch_taken_append {words : Trie Kind} {state : State} (hs : state ≠ .dead) (text : List Char)
    {rest : List Char} (h : rest.head? = (munch words state text).rest.head?) :
    munch words state ((munch words state text).taken ++ rest) =
      ⟨(munch words state text).taken, (munch words state text).state, rest⟩ := by
  have hlive := munch_live words hs text
  have hstops := munch_stops words state text
  rw [State.munch_state] at hlive hstops ⊢
  exact State.munch_append hlive (h ▸ hstops)

private theorem ending_scanFrom_append {here : Position} {text rest : List Char} {kind : Kind}
    (hn : (munch keywords .start text).taken ≠ []) (hs : (munch keywords .start text).state.symbol = some kind)
    (h : rest.head? = (munch keywords .start text).rest.head?) :
    (scanFrom keywords here ((munch keywords .start text).taken ++ rest)).ending =
      (scanFrom keywords (here.afterAll (munch keywords .start text).taken) rest).ending := by
  have hm := munch_taken_append (nofun : State.start ≠ .dead) text h
  generalize (munch keywords .start text).taken = taken, (munch keywords .start text).state = state at *
  cases taken with
  | nil => exact absurd rfl hn
  | cons c taken =>
    rw [List.cons_append] at hm ⊢
    rw [scanFrom, hm]
    simp only [hs, reduceCtorEq, if_false]
    cases kind <;> rfl

private theorem ending_scanFrom_deadEnd (here : Position) {text rest : List Char} (hn : text ≠ [])
    (hs : (munch keywords .start text).state.symbol = none)
    (h : rest.head? = (munch keywords .start text).rest.head?) :
    (scanFrom keywords here ((munch keywords .start text).taken ++ rest)).ending =
      .fault ⟨String.ofList (munch keywords .start text).taken, (munch keywords .start text).rest.head?,
        here.afterAll (munch keywords .start text).taken⟩ := by
  have hm := munch_taken_append (nofun : State.start ≠ .dead) text h
  have hsplit := taken_append_rest keywords .start text
  generalize (munch keywords .start text).taken = taken, (munch keywords .start text).state = state,
    (munch keywords .start text).rest = left at *
  cases taken with
  | nil =>
    cases left with
    | nil => exact absurd hsplit.symm hn
    | cons c left =>
      cases rest with
      | nil => cases h
      | cons d rest =>
        cases h
        rw [List.nil_append] at hm ⊢
        rw [scanFrom, hm]
        rfl
  | cons c taken =>
    rw [List.cons_append] at hm ⊢
    rw [scanFrom, hm]
    simp only [hs, h, reduceCtorEq, if_false]

/--
A text at some place is scanned with this fault: all of `done` is whole lexemes, scanning stops between `part` and
`rest`, and it does so for every text that is the same up to the first character of `rest`.
-/
structure Stalls (here : Position) (fault : LexicalFault) (text done part rest : List Char) : Prop where
  consumes : Consumes text done (part ++ rest)
  deadEnd : DeadEnd part rest
  fault_eq : fault = ⟨String.ofList part, rest.head?, here.afterAll (done ++ part)⟩
  same : ∀ c ∈ rest.head?, ∀ more,
    (scanFrom keywords here (done ++ (part ++ c :: more))).ending = .fault fault

namespace Stalls

variable {here : Position} {fault : LexicalFault}

private theorem of_munch (hn : text ≠ []) (hs : (munch keywords .start text).state.symbol = none)
    (h : (scanFrom keywords here text).ending = .fault fault) :
    Stalls here fault text [] (munch keywords .start text).taken (munch keywords .start text).rest := by
  have hsplit := taken_append_rest keywords .start text
  have hfault := ending_scanFrom_deadEnd here hn hs rfl
  rw [hsplit, h] at hfault
  refine ⟨?_, deadEnd_of_munch hn hs, Ending.fault.inj hfault, fun c hc more ↦ ?_⟩
  · rw [hsplit]
    exact .nil text
  · rw [hfault]
    exact ending_scanFrom_deadEnd here hn hs hc.symm

private theorem lexeme (hn : (munch keywords .start text).taken ≠ [])
    (hs : (munch keywords .start text).state.symbol = some kind)
    (h : Stalls (here.afterAll (munch keywords .start text).taken) fault (munch keywords .start text).rest
      done part rest) :
    Stalls here fault text ((munch keywords .start text).taken ++ done) part rest := by
  refine ⟨.lexeme (longest_of_munch hs) h.consumes, h.deadEnd, ?_, fun c hc more ↦ ?_⟩
  · rw [h.fault_eq, List.append_assoc, Position.afterAll_append here]
  · have hhead : (done ++ (part ++ c :: more)).head? = (munch keywords .start text).rest.head? := by
      rw [← h.consumes.append_eq]
      cases done <;> cases part <;> simp_all
    rw [List.append_assoc, ending_scanFrom_append hn hs hhead]
    exact h.same c hc more

end Stalls

private theorem exists_stalls {here : Position} {text : List Char} {fault : LexicalFault}
    (h : (scanFrom keywords here text).ending = .fault fault) :
    ∃ done part rest, Stalls here fault text done part rest := by
  fun_induction scanFrom keywords here text with
  | case1 => cases h
  | case2 here c rest run hn =>
    have hs : run.state.symbol = none := by
      rw [State.munch_state, show (munch keywords .start (c :: rest)).taken = [] from hn]
      rfl
    exact ⟨_, _, _, .of_munch (List.cons_ne_nil _ _) hs (by rwa [scanFrom, if_pos hn])⟩
  | case3 here c rest run there hn hs =>
    refine ⟨_, _, _, .of_munch (List.cons_ne_nil _ _) hs ?_⟩
    rw [scanFrom, if_neg hn, hs]
    exact h
  | case4 here c rest run there hn hs ih | case5 here c rest run there hn kind hk hs ih =>
    obtain ⟨done, part, left, hstalls⟩ := ih h
    exact ⟨_, part, left, hstalls.lexeme hn hs⟩

private theorem Source.chars_append (first second : List UInt8) :
    Source.chars (first ++ second) = Source.chars first ++ Source.chars second :=
  List.map_append

/--
A source that cannot be scanned has a fault that is exact. Its bytes are `done`, which is taken off in longest
lexemes and blanks, then `part`, which begins a lexeme but is none, then `rest`, whose first byte, or the end if
there is none, goes on with no lexeme. The fault tells `part` and that byte, and stands where `rest` begins. If
there is such a byte, every source with the same bytes up to it has the very same fault.
-/
theorem tokenize_fault_exact {bytes : ByteArray} {fault : LexicalFault}
    (h : tokenize (Source.ofBytes bytes) = .error fault) :
    ∃ done part rest : List UInt8, bytes.data.toList = done ++ (part ++ rest) ∧
      Consumes (Source.ofBytes bytes) (Source.chars done) (Source.chars (part ++ rest)) ∧
      DeadEnd (Source.chars part) (Source.chars rest) ∧
      fault = ⟨String.ofList (Source.chars part), (Source.chars rest).head?, .behind (done ++ part)⟩ ∧
      ∀ byte ∈ rest.head?, ∀ more : List UInt8,
        tokenize (Source.ofBytes (done ++ (part ++ byte :: more)).toByteArray) = .error fault := by
  have hending {source : Source} : tokenize source = .error fault ↔ (scan source).ending = .fault fault := by
    rw [tokenize]
    obtain ⟨tokens, ending⟩ := scan source
    cases ending <;> simp
  obtain ⟨done, part, rest, hs⟩ := exists_stalls (hending.mp h)
  obtain ⟨done, bytes', hb, rfl, hb'⟩ := List.map_eq_append_iff.mp hs.consumes.append_eq.symm
  obtain ⟨part, rest, rfl, rfl, rfl⟩ := List.map_eq_append_iff.mp hb'
  refine ⟨done, part, rest, hb, ?_, hs.deadEnd, ?_, fun byte hbyte more ↦ ?_⟩
  · rw [Source.chars_append]
    exact hs.consumes
  · rw [← Position.afterAll_chars, Source.chars_append]
    exact hs.fault_eq
  · have hchar : Char.ofNat byte.toNat ∈ (Source.chars rest).head? := by
      rw [Source.chars, List.head?_map]
      exact Option.mem_map_of_mem _ hbyte
    have hsame := hs.same (Char.ofNat byte.toNat) hchar (Source.chars more)
    rw [hending, Source.ofBytes, List.data_toByteArray]
    simpa [Source.chars, scan] using hsame

/-- A source with a number that breaks off behind its point. -/
def brokenSource : ByteArray :=
  "lake \"x\"\n 3.!=5".toUTF8

/-- The number is told, and the fault stands on the second line. -/
theorem tokenize_fault_exact_brokenSource :
    ∃ fault, tokenize (Source.ofBytes brokenSource) = .error fault ∧ fault.lexeme = "3." ∧
      fault.position = ⟨2, 4⟩ ∧
      ∃ done part rest : List UInt8, brokenSource.data.toList = done ++ (part ++ rest) ∧
        DeadEnd (Source.chars part) (Source.chars rest) ∧
        fault = ⟨String.ofList (Source.chars part), (Source.chars rest).head?, .behind (done ++ part)⟩ := by
  have h : (match tokenize (Source.ofBytes brokenSource) with
      | .error fault => decide (fault.lexeme = "3." ∧ fault.position = ⟨2, 4⟩)
      | .ok _ => false) = true := by
    decide +kernel
  split at h
  next fault ht =>
    obtain ⟨hl, hp⟩ := of_decide_eq_true h
    obtain ⟨done, part, rest, hb, _, hd, hf, _⟩ := tokenize_fault_exact ht
    exact ⟨fault, ht, hl, hp, done, part, rest, hb, hd, hf⟩
  · cases h

end Cityscape
