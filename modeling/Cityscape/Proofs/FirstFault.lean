import Cityscape.Proofs.ViablePrefix

/-!
# Lexical faults and others

Tokens are compiled as they are scanned, so a lexical fault shows as late as its place is reached. A script
without lexical faults is never refused for one; a script with one is refused for it, or for something that
stands before it.
-/

namespace Cityscape

/-- A place comes before another one in reading order. -/
def Position.Before (here there : Position) : Prop :=
  here.line < there.line ∨ here.line = there.line ∧ here.column < there.column

namespace Position

private theorem Before.trans {first second third : Position} (h : first.Before second) (h' : second.Before third) :
    first.Before third := by
  simp only [Before] at *
  omega

private theorem before_after (here : Position) (c : Char) : here.Before (here.after c) := by
  unfold after
  split
  · exact .inl (Nat.lt_succ_self _)
  · exact .inr ⟨rfl, Nat.lt_succ_self _⟩

private theorem before_afterAll (here : Position) {text : List Char} (h : text ≠ []) :
    here.Before (here.afterAll text) := by
  induction text generalizing here with
  | nil => exact absurd rfl h
  | cons c text ih =>
    change here.Before ((here.after c).afterAll text)
    cases text with
    | nil => exact here.before_after c
    | cons d text => exact (here.before_after c).trans (ih _ (List.cons_ne_nil _ _))

end Position

private theorem scanFrom_before {words : Trie Kind} {here : Position} {text : List Char} {fault : LexicalFault}
    (h : (scanFrom words here text).ending = .fault fault) :
    (here = fault.position ∨ here.Before fault.position) ∧
      ∀ token ∈ (scanFrom words here text).tokens, token.position.Before fault.position := by
  fun_induction scanFrom words here text with
  | case1 => cases h
  | case2 =>
    cases h
    exact ⟨.inl rfl, List.forall_mem_nil _⟩
  | case3 here c rest run there hn =>
    cases h
    exact ⟨.inr (here.before_afterAll hn), List.forall_mem_nil _⟩
  | case4 here c rest run there hn _ ih =>
    obtain ⟨hh, ht⟩ := ih h
    have hb : here.Before there := here.before_afterAll hn
    exact ⟨.inr (hh.elim (fun he ↦ he ▸ hb) hb.trans), ht⟩
  | case5 here c rest run there hn _ _ _ ih =>
    obtain ⟨hh, ht⟩ := ih h
    have hb : here.Before there := here.before_afterAll hn
    have hf : here.Before fault.position := hh.elim (fun he ↦ he ▸ hb) hb.trans
    exact ⟨.inr hf, List.forall_mem_cons.mpr ⟨hf, ht⟩⟩

/-- A compilation beside itself, whose tokens are among these. -/
def Likeness.among (tokens : List Token) : Likeness where
  __ := itself
  token t t' := t = t' ∧ t ∈ tokens
  kind_eq h := itself.kind_eq h.1
  lexeme_eq h := itself.lexeme_eq h.1
  name_of h := itself.name_of h.1
  note hn ht := itself.note hn ht.1

namespace Likeness

variable {tokens : List Token}

private theorem among_twins : (among tokens).Twins where
  declares level :=
    have h := itself_twins.declares level
    ⟨h.sighted, h.noted, h.changes⟩
  clears := itself_twins.clears
  features_eq := itself_twins.features_eq
  complete := itself_twins.complete

private theorem among_sessions {session : Session} {ending : Ending} (hs : session.At ending tokens) :
    (among (tokens ++ ending.tokens)).Sessions session session where
  current := ⟨rfl, List.mem_of_head? hs.current⟩
  ahead := by
    rw [hs.ahead]
    refine List.forall₂_same.mpr fun token ht ↦ ⟨rfl, ?_⟩
    exact List.mem_append_left _ (List.mem_of_mem_tail ht)
  ending := by
    rw [hs.ending]
    cases ending with
    | finish last => exact .finish ⟨rfl, List.mem_append_right _ List.mem_cons_self⟩
    | fault fault => exact .fault True.intro
  progress := rfl

private theorem place_of_among {fault fault' : Fault} (h : (among tokens).Faults fault fault') :
    (∃ lexical, fault = .ofLexical lexical) ∨ ∃ token ∈ tokens, fault.position = token.position := by
  cases h with
  | lexical => exact .inl ⟨_, rfl⟩
  | unexpected _ ht => exact .inr ⟨_, ht.2, rfl⟩
  | refused _ ht | incomplete _ ht | undefined _ _ ht => exact .inr ⟨_, ht.2, rfl⟩

end Likeness

private theorem place_of_compile {source : Source} {capacity : Nat} {fault : Fault}
    (h : (compile capacity source).result = .error fault) :
    (∃ lexical, fault = .ofLexical lexical) ∨
      ∃ token ∈ (scan source).tokens ++ (scan source).ending.tokens, fault.position = token.position := by
  rw [compile] at h
  cases hb : (scan source).begins (.empty capacity) with
  | error fault' =>
    rw [Scan.compile_of_begins_error hb] at h
    cases h
    obtain ⟨lexical, _, hf⟩ := Scan.lexical_of_begins_error hb
    exact .inl ⟨lexical, hf⟩
  | ok first =>
    obtain ⟨hat, _, _⟩ := Scan.at_of_begins hb
    have hc := city_alike Likeness.among_twins _ _ (Likeness.among_sessions hat)
    rw [Scan.compile_of_begins hb] at h
    split at h
    · cases h
    next fault' after hr =>
    cases h
    rw [hr] at hc
    obtain ⟨_, _, _, hf, _⟩ := hc.of_error
    exact Likeness.place_of_among hf

private theorem refused_of_lexical {source : Source} {capacity : Nat} {lexical : LexicalFault}
    (he : (scan source).ending = .fault lexical) {fault : Fault}
    (h : (compile capacity source).result = .error fault) :
    fault = .ofLexical lexical ∨
      (fault.cause.stage = .parse ∨ fault.cause.stage = .semantic) ∧
        fault.position.Before lexical.position := by
  have hbefore (hs : fault.cause.stage ≠ .lex) : fault.position.Before lexical.position := by
    rcases place_of_compile h with ⟨lexical', rfl⟩ | ⟨token, hm, hp⟩
    · exact absurd rfl hs
    · rw [he, Ending.tokens, List.append_nil] at hm
      rw [hp]
      exact (scanFrom_before he).2 token hm
  rcases refused_of_compile h with ⟨lexical', he', rfl⟩ | hs | ⟨front, token, hr⟩
  · cases he.symm.trans he'
    exact .inl rfl
  · exact .inr ⟨.inr hs, hbefore (by rw [hs]; exact Stage.noConfusion)⟩
  · obtain ⟨expected, rfl⟩ := hr.fault_eq
    exact .inr ⟨.inl rfl, hbefore Stage.noConfusion⟩

/--
Scanning and compiling agree on lexical faults, whatever the source and the capacity of the journal are. If the
source can be scanned, it is never refused for a lexical fault, nor for a number that cannot be read. If it
cannot, it is refused, either for the fault that scanning finds or for how it is written or what it means at a
place strictly before that fault.
-/
theorem lexical_faults_agree (source : Source) (capacity : Nat) :
    match tokenize source with
    | .ok _ => ∀ fault, (compile capacity source).result = .error fault → fault.cause.stage ≠ .lex
    | .error lexical => ∃ fault, (compile capacity source).result = .error fault ∧
        (fault = .ofLexical lexical ∨
          (fault.cause.stage = .parse ∨ fault.cause.stage = .semantic) ∧
            fault.position.Before lexical.position) := by
  cases ht : tokenize source with
  | ok tokens =>
    intro fault h
    obtain ⟨_, last, _, hscan, _⟩ := tokenize_eq_ok ht
    rcases refused_of_compile h with ⟨lexical, he, _⟩ | hs | ⟨front, token, hr⟩
    · rw [hscan] at he
      cases he
    · rw [hs]
      exact Stage.noConfusion
    · obtain ⟨expected, rfl⟩ := hr.fault_eq
      exact Stage.noConfusion
  | error lexical =>
    have he : (scan source).ending = .fault lexical := by
      rw [tokenize] at ht
      split at ht
      · cases ht
      next hscan =>
      cases ht
      rw [hscan]
    cases h : (compile capacity source).result with
    | ok city =>
      obtain ⟨tokens, ht', _⟩ := tokenize_of_compile h
      cases ht.symm.trans ht'
    | error fault => exact ⟨fault, rfl, refused_of_lexical he h⟩

/-- A script that begins with a street, and later on holds a character that no lexeme has. -/
def overtakingScript : Source :=
  "street \"S\"\n@".toList

/-- The script is refused for its first token, before the character is met. -/
theorem lexical_faults_agree_overtakingScript :
    ∃ lexical fault, tokenize overtakingScript = .error lexical ∧
      (compile 4 overtakingScript).result = .error fault ∧ fault.cause.stage = .parse ∧
      fault.position.Before lexical.position := by
  have hs : (match tokenize overtakingScript, (compile 4 overtakingScript).result with
      | .error _, .error fault => decide (fault.cause.stage = .parse)
      | _, _ => false) = true := by
    decide +kernel
  have h := lexical_faults_agree overtakingScript 4
  split at hs
  next lexical fault ht hc =>
    rw [ht] at h
    obtain ⟨_, hc', h⟩ := h
    cases hc.symm.trans hc'
    have hstage := of_decide_eq_true hs
    rcases h with rfl | ⟨_, hb⟩
    · cases hstage
    · exact ⟨lexical, fault, ht, hc, hstage, hb⟩
  · cases hs

end Cityscape
