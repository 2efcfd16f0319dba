import Cityscape.Proofs.Drawing

/-!
# The first impossible token

A script that is refused for how it is written is refused at the first token that no script can have there: the
kinds up to it begin an acceptable script, and together with it they begin none. That they begin one is what
readers go past. That they begin none together with it is seen from a script that would continue them: it has a
tree, so it is refused for what it means only, and yet its readers meet the same token.
-/

namespace Cityscape

/-- Whether a kind can stand in a script before its end. -/
def Kind.isInner : Kind → Bool
  | finish | blank => false
  | _ => true

namespace Grammar

/-- Whether a part derives nothing but kinds that can stand in a script before its end. -/
def Part.isInner : Part → Bool
  | token kind => kind.isInner
  | symbol .script => false
  | symbol _ => true

private theorem isInner_of_rules {symbol : Symbol} (h : symbol ≠ .script) :
    ∀ alternative ∈ rules symbol, ∀ part ∈ alternative, part.isInner = true := by
  cases symbol with
  | script => exact absurd rfl h
  | _ => decide

private theorem Derives.isInner {parts : List Part} {kinds : List Kind} (h : Derives parts kinds)
    (hp : ∀ part ∈ parts, part.isInner = true) : ∀ kind ∈ kinds, kind.isInner = true := by
  induction h with
  | nil => exact List.forall_mem_nil _
  | token kind _ ih =>
    obtain ⟨hk, hp⟩ := List.forall_mem_cons.mp hp
    exact List.forall_mem_cons.mpr ⟨hk, ih hp⟩
  | symbol symbol rule _ _ ih ih' =>
    obtain ⟨hs, hp⟩ := List.forall_mem_cons.mp hp
    have hs : symbol ≠ .script := by
      rintro rfl
      cases hs
    exact List.forall_mem_append.mpr ⟨ih (isInner_of_rules hs _ rule), ih' hp⟩

private theorem Accepts.exists_body {kinds : List Kind} (h : Accepts kinds) :
    ∃ body, kinds = body ++ [.finish] ∧ ∀ kind ∈ body, kind.isInner = true := by
  obtain ⟨_, hm, hd⟩ := derives_rule.mp h
  cases List.mem_singleton.mp hm
  cases hd with
  | @symbol _ _ body _ _ rule head tail =>
    cases tail with
    | token _ tail =>
      rw [derives_nil.mp tail]
      exact ⟨body, rfl, head.isInner (isInner_of_rules Symbol.noConfusion _ rule)⟩

private theorem viable_of_begun {kinds : List Kind} (h : Begun Accepts kinds) : Viable kinds := by
  rcases h with rfl | h
  · exact exists_derives _
  · exact h

end Grammar

/-- A lexeme of a kind. -/
def Kind.sample : Kind → String
  | integer => "0"
  | double => "0.0"
  | string => "\"\""
  | identifier => "a"
  | keyword word => word.spelling
  | mark m => m.spelling
  | finish | blank => ""

private theorem Kind.class_sample {kind : Kind} (h : kind.isInner = true) : kind.Class kind.sample.toList := by
  have hd : Digits ['0'] := .singleton rfl
  cases kind with
  | integer => exact hd
  | double => exact ⟨['0'], ['0'], rfl, hd, hd⟩
  | string => exact ⟨[], rfl, fun _ hc ↦ nomatch hc⟩
  | identifier => exact State.symbol_afterAll_iff.mp (by decide +kernel)
  | keyword | mark => exact rfl
  | finish | blank => cases h

private theorem semantic_of_accepts {tokens : List Token} {last : Token} (hf : last.kind = .finish)
    (hl : Syntax.Spelled tokens) (ha : Grammar.Accepts ((tokens ++ [last]).map Token.kind)) {capacity : Nat}
    {fault : Fault} (h : (Scan.compile ⟨tokens, .finish last⟩ (.empty capacity)).result = .error fault) :
    fault.cause.stage = .semantic := by
  obtain ⟨tree, leaf, he⟩ := Syntax.City.exists_of_accepts ha
  obtain ⟨rfl, _⟩ := List.append_inj' he rfl
  have hm := tree.meaningful hl
  rw [tree.compile_eq hf hl capacity] at h
  change tree.evaluation.result = .error fault at h
  rw [h] at hm
  exact hm

private theorem Grammar.Viable.exists_script {front : List Token} {token : Token}
    (h : Grammar.Viable ((front ++ [token]).map Token.kind))
    (hl : ∀ other ∈ front ++ [token], other.kind.isInner = true → other.kind.Class other.lexeme.toList) :
    ∃ back last, last.kind = .finish ∧ (Ending.finish last).Shows back token ∧
      Syntax.Spelled (front ++ back) ∧ Grammar.Accepts ((front ++ back ++ [last]).map Token.kind) := by
  obtain ⟨more, hd⟩ := h
  obtain ⟨others, rfl, ho⟩ : ∃ others : List Token, others.map Token.kind = more ∧
      ∀ other ∈ others, other.kind.isInner = true → other.kind.Class other.lexeme.toList := by
    refine ⟨more.map fun kind ↦ ⟨kind, kind.sample, token.position⟩, ?_, fun other hm hi ↦ ?_⟩
    · rw [List.map_map]
      exact List.map_id more
    · obtain ⟨kind, _, rfl⟩ := List.mem_map.mp hm
      exact Kind.class_sample hi
  -- The last token of the script is the one that says that it ends; it may be `token`.
  obtain ⟨back, last, hb⟩ :=
    (List.eq_nil_or_concat (token :: others)).resolve_left (List.cons_ne_nil _ _)
  rw [List.concat_eq_append] at hb
  have hsplit : front ++ [token] ++ others = front ++ back ++ [last] := by
    rw [List.append_assoc, List.append_assoc, ← hb, List.singleton_append]
  have ha : Grammar.Accepts ((front ++ back ++ [last]).map Token.kind) := by
    rwa [← hsplit, List.map_append]
  have hlexeme := List.forall_mem_append.mpr ⟨hl, ho⟩
  rw [hsplit] at hlexeme
  obtain ⟨body, hbody, hinner⟩ := ha.exists_body
  rw [List.map_append] at hbody
  obtain ⟨rfl, hlast⟩ := List.append_inj' hbody rfl
  refine ⟨back, last, List.singleton_injective hlast, congrArg List.head? hb.symm, fun other hm ↦ ?_, ha⟩
  exact hlexeme other (List.mem_append_left _ hm) (hinner _ (List.mem_map_of_mem hm))

/-- A fault before the first token is a lexical one. -/
theorem Scan.lexical_of_begins_error {scan : Scan} {journal : Journal} {fault : Fault}
    (h : scan.begins journal = .error fault) :
    ∃ lexical, scan.ending = .fault lexical ∧ fault = .ofLexical lexical := by
  obtain ⟨_ | ⟨first, ahead⟩, _ | lexical⟩ := scan <;> cases h
  exact ⟨lexical, rfl, rfl⟩

private theorem Scan.begins_facing {scan : Scan} {journal : Journal} {first : Session}
    (h : scan.begins journal = .ok first) {ending : Ending} {tokens : List Token}
    (hs : ending.Shows tokens first.current) :
    Scan.begins ⟨tokens, ending⟩ journal = .ok (first.facing ending tokens) := by
  obtain ⟨ahead, ending', hf⟩ :
      ∃ ahead ending, first = { current := first.current, ahead, ending, journal } := by
    obtain ⟨_ | ⟨token, ahead⟩, _ | _⟩ := scan <;> cases h <;> exact ⟨_, _, rfl⟩
  rw [hf]
  cases tokens with
  | nil =>
    cases ending with
    | finish last =>
      cases hs
      rfl
    | fault fault => cases hs
  | cons token tokens =>
    cases hs
    rfl

/-- A scanned script is refused at a token that may follow `front` in no script. -/
structure Scan.RefusedAt (scan : Scan) (journal : Journal) (fault : Fault) (front : List Token)
    (token : Token) : Prop where
  split : ∃ back, scan.tokens ++ scan.ending.tokens = front ++ token :: back
  fault_eq : ∃ expected, fault = ⟨.unexpected expected token, token.position⟩
  viable : Grammar.Viable (front.map Token.kind)
  /-- The script is refused whatever follows the token. -/
  same : ∀ (ending : Ending) (back : List Token), ending.Proper → ending.Shows back token →
    (Scan.compile ⟨front ++ back, ending⟩ journal).result = .error fault

/-- A script is refused for its lexical fault, for what it means or at a token. -/
theorem refused_of_compile {source : Source} {capacity : Nat} {fault : Fault}
    (h : (compile capacity source).result = .error fault) :
    (∃ lexical, (scan source).ending = .fault lexical ∧ fault = .ofLexical lexical) ∨
      fault.cause.stage = .semantic ∨
      ∃ front token, (scan source).RefusedAt (.empty capacity) fault front token := by
  have hp : (scan source).ending.Proper := fun _ he ↦ scanFrom_ending he
  rw [compile] at h
  cases hb : (scan source).begins (.empty capacity) with
  | error fault' =>
    rw [Scan.compile_of_begins_error hb] at h
    cases h
    exact .inl (Scan.lexical_of_begins_error hb)
  | ok first =>
    obtain ⟨hat, _, _⟩ := Scan.at_of_begins hb
    rw [Scan.compile_of_begins hb] at h
    split at h
    · cases h
    next fault' after hr =>
    cases h
    obtain ⟨front, back, he, ho⟩ := city_settles hp hat hr
    rw [hr] at ho
    cases ho with
    | lexical h => exact .inl ⟨_, h, rfl⟩
    | semantic h => exact .inr (.inl h)
    | illegible hm hl =>
      rw [← he] at hm
      exact absurd (Token.legible_of_class (scanFrom_class .first source _ hm)) hl
    | @unexpected expected token _ begun shown same =>
      refine .inr (.inr ⟨front, token, ?_, ⟨expected, rfl⟩, Grammar.viable_of_begun begun, ?_⟩)
      · obtain ⟨rest, hrest⟩ := List.head?_eq_some_iff.mp shown
        exact ⟨rest, by rw [he, List.append_assoc, hrest]⟩
      · intro ending' back' hp' hs'
        rw [he] at hat
        obtain ⟨after', hr'⟩ := same ending' back' hp' hs'
        rw [Scan.compile_of_begins (Scan.begins_facing hb (Ending.Shows.append hat.current shown hs')), hr']
        rfl

private theorem Scan.RefusedAt.not_viable {source : Source} {capacity : Nat} {fault : Fault} {front : List Token}
    {token : Token} (h : (scan source).RefusedAt (.empty capacity) fault front token) :
    ¬ Grammar.Viable ((front ++ [token]).map Token.kind) := by
  intro hv
  obtain ⟨rest, hsplit⟩ := h.split
  have hl : ∀ other ∈ front ++ [token],
      other.kind.isInner = true → other.kind.Class other.lexeme.toList := by
    intro other hm hi
    have hm : other ∈ (scan source).tokens ++ (scan source).ending.tokens := by
      rw [hsplit, ← List.singleton_append, ← List.append_assoc]
      exact List.mem_append_left _ hm
    rcases List.mem_append.mp hm with hm | hm
    · exact scanFrom_class .first source other hm
    · cases he : (scan source).ending with
      | finish last =>
        rw [he] at hm
        rw [List.mem_singleton.mp hm, scanFrom_ending he] at hi
        cases hi
      | fault lexical =>
        rw [he] at hm
        cases hm
  obtain ⟨back, last, hf, hshows, hspelled, ha⟩ := hv.exists_script hl
  have hp : (Ending.finish last).Proper := by
    rintro _ ⟨⟩
    exact hf
  have hs := semantic_of_accepts hf hspelled ha (h.same _ back hp hshows)
  obtain ⟨expected, rfl⟩ := h.fault_eq
  cases hs

/--
A script that is refused for how it is written is refused at the first impossible token: there is a token,
perhaps the one at the end, before which the kinds begin an acceptable script, and with which they begin none.
The fault names this token and its position.
-/
theorem parse_fault_at_first_impossible {source : Source} {capacity : Nat} {fault : Fault}
    (h : (compile capacity source).result = .error fault) (hs : fault.cause.stage = .parse) :
    ∃ (front back : List Token) (token : Token) (expected : Expected),
      (scan source).tokens ++ (scan source).ending.tokens = front ++ token :: back ∧
      fault = ⟨.unexpected expected token, token.position⟩ ∧
      Grammar.Viable (front.map Token.kind) ∧ ¬ Grammar.Viable ((front ++ [token]).map Token.kind) := by
  rcases refused_of_compile h with ⟨lexical, _, rfl⟩ | hsemantic | ⟨front, token, hr⟩
  · cases hs
  · cases hs.symm.trans hsemantic
  · obtain ⟨back, hsplit⟩ := hr.split
    obtain ⟨expected, hfault⟩ := hr.fault_eq
    exact ⟨front, back, token, expected, hsplit, hfault, hr.viable, hr.not_viable⟩

/-- A script with a statue where a street or an institution has to come. -/
def hastyScript : Source :=
  ("city \"A\"\x7bif(1<2)\x7b\x7delse\x7bdouble d=n\x7d\n"
    ++ "statue \"S\"\x7bpoint(1,2)\x7d\x7d").toList

/-- The script is refused at the statue. -/
theorem parse_fault_at_first_impossible_hastyScript :
    ∃ (front back : List Token) (token : Token) (fault : Fault),
      (compile 4 hastyScript).result = .error fault ∧ fault.position = ⟨2, 1⟩ ∧
      (scan hastyScript).tokens ++ (scan hastyScript).ending.tokens = front ++ token :: back ∧
      token.position = ⟨2, 1⟩ ∧
      Grammar.Viable (front.map Token.kind) ∧ ¬ Grammar.Viable ((front ++ [token]).map Token.kind) := by
  have hc : (match (compile 4 hastyScript).result with
      | .ok _ => false
      | .error fault => fault.cause.stage = .parse ∧ fault.position = ⟨2, 1⟩ : Bool) = true := by
    decide +kernel
  split at hc
  · cases hc
  next fault hr =>
  obtain ⟨hs, hp⟩ := of_decide_eq_true hc
  obtain ⟨front, back, token, expected, hsplit, rfl, hv, hn⟩ := parse_fault_at_first_impossible hr hs
  exact ⟨front, back, token, _, hr, hp, hsplit, hp, hv, hn⟩

end Cityscape
