import Cityscape.Proofs.Grammar
import Cityscape.Proofs.Simulation

/-!
# What readers go past

A reader goes past some of the tokens ahead. If it succeeds, their kinds are a sequence of its language; if it
refuses the token it comes to, they are the beginning of one. In both cases it has seen that token and none
behind it, so it does the same whatever tokens follow. All this holds whatever the variables are, and it is
kept by sequencing.
-/

namespace Cityscape

open Grammar (Part Derives rules)

variable {α β : Type}

/-! ### Tokens ahead -/

/-- The token that says that the source ends. -/
def Ending.tokens : Ending → List Token
  | finish last => [last]
  | fault _ => []

/-- An ending whose token is of the right kind. -/
def Ending.Proper (ending : Ending) : Prop :=
  ∀ last, ending = .finish last → last.kind = .finish

/-- The first of these tokens is this one, or the last one is if there are none. -/
def Ending.Shows (ending : Ending) (tokens : List Token) (token : Token) : Prop :=
  (tokens ++ ending.tokens).head? = some token

/-- A session that looks at the first of these tokens, or at the last one if there are none. -/
structure Session.At (session : Session) (ending : Ending) (tokens : List Token) : Prop where
  current : (tokens ++ ending.tokens).head? = some session.current
  ahead : session.ahead = tokens.tail
  ending : session.ending = ending

/-- The session with other tokens behind the one that it looks at. -/
def Session.facing (session : Session) (ending : Ending) (tokens : List Token) : Session :=
  { session with ahead := tokens.tail, ending }

/-- A session faces the tokens that it is at. -/
theorem Session.At.facing_eq {session : Session} {ending : Ending} {tokens : List Token}
    (h : session.At ending tokens) : session.facing ending tokens = session := by
  obtain ⟨_, ha, he⟩ := h
  rw [facing, ← ha, ← he]

private theorem Session.at_facing {session : Session} {ending : Ending} {tokens : List Token}
    (h : ending.Shows tokens session.current) : (session.facing ending tokens).At ending tokens :=
  ⟨h, rfl, rfl⟩

/-- A session that is not at the end is at a token. -/
theorem Session.At.exists_cons {session : Session} {ending : Ending} {tokens : List Token}
    (h : session.At ending tokens) (hp : ending.Proper) (hk : session.current.kind ≠ .finish) :
    ∃ rest, tokens = session.current :: rest := by
  have hc := h.current
  cases tokens with
  | nil =>
    cases ending with
    | finish last =>
      cases hc
      exact absurd (hp _ rfl) hk
    | fault fault => cases hc
  | cons token tokens =>
    cases hc
    exact ⟨tokens, rfl⟩

/-- Tokens that are put before others show the same token, whatever the others are. -/
theorem Ending.Shows.append {ending ending' : Ending} {front back back' : List Token} {first token : Token}
    (h : ending.Shows (front ++ back) first) (hb : ending.Shows back token) (hb' : ending'.Shows back' token) :
    ending'.Shows (front ++ back') first := by
  cases front with
  | nil =>
    cases hb.symm.trans h
    exact hb'
  | cons => exact h

/-! ### Outcomes -/

/-- What can be continued to one of these sequences, and nothing, from which all begins. -/
def Begun (whole : List Kind → Prop) (kinds : List Kind) : Prop :=
  kinds = [] ∨ ∃ more, whole (kinds ++ more)

/-- What begins a sequence also begins the sequences that continue it. -/
theorem Begun.mono {whole whole' : List Kind → Prop} {kinds : List Kind} (h : Begun whole kinds)
    (hw : ∀ kinds, whole kinds → ∃ more, whole' (kinds ++ more)) : Begun whole' kinds := by
  refine h.imp_right fun ⟨more, hm⟩ ↦ ?_
  obtain ⟨back, hb⟩ := hw _ hm
  exact ⟨more ++ back, by rwa [← List.append_assoc]⟩

/-- What begins the rest of a sequence continues its front. -/
theorem Begun.append {whole whole' : List Kind → Prop} {front kinds : List Kind} (h : Begun whole kinds)
    (hf : ∃ back, whole' (front ++ back)) (hw : ∀ back, whole back → whole' (front ++ back)) :
    Begun whole' (front ++ kinds) := by
  rcases h with rfl | ⟨more, hm⟩
  · rw [List.append_nil]
    exact .inr hf
  · refine .inr ⟨more, ?_⟩
    rw [List.append_assoc]
    exact hw _ hm

/-- What a reader may go past: whole sequences with their results, and the beginnings of them. -/
structure Language (α : Type) where
  whole : α → List Kind → Prop
  begun : List Kind → Prop

/-- Sequences with any result. -/
def Language.ofKinds (whole : List Kind → Prop) : Language α where
  whole _ := whole
  begun := Begun whole

/-- What is left of a language behind some kinds. -/
def Language.behind (language : Language α) (front : List Kind) : Language α where
  whole a kinds := language.whole a (front ++ kinds)
  begun kinds := language.begun (front ++ kinds)

/-- The kinds that the parts of a rule derive, whatever the result is. -/
def Rule (parts : List Part) : Language α := .ofKinds (Derives parts)

/--
How reading turns out that has gone past `front` and has `back` before it. `again` is reading the same with
other tokens in the place of `back`; as long as they show the same token, it turns out the same.
-/
inductive Outcome (language : Language α) (ending : Ending) (front back : List Token)
    (again : Ending → List Token → EStateM.Result Fault Session α) :
    EStateM.Result Fault Session α → Prop where
  | ok {a : α} {after : Session} (whole : language.whole a (front.map Token.kind))
    (rest : after.At ending back)
    (same : ∀ ending' back', ending'.Proper → ending'.Shows back' after.current →
      again ending' back' = .ok a (after.facing ending' back')) :
    Outcome language ending front back again (.ok a after)
  /-- The token that is shown is refused. -/
  | unexpected {expected : Expected} {token : Token} {after : Session}
    (begun : language.begun (front.map Token.kind)) (shown : ending.Shows back token)
    (same : ∀ ending' back', ending'.Proper → ending'.Shows back' token →
      ∃ after', again ending' back' = .error ⟨.unexpected expected token, token.position⟩ after') :
    Outcome language ending front back again (.error ⟨.unexpected expected token, token.position⟩ after)
  /-- The tokens do not reach: a lexical fault comes where another one is needed. -/
  | lexical {fault : LexicalFault} {after : Session} (h : ending = .fault fault) :
    Outcome language ending front back again (.error (.ofLexical fault) after)
  /-- A number cannot be read. Scanned tokens are legible, so this is said of other ones. -/
  | illegible {fault : Fault} {token : Token} {after : Session} (h : token ∈ front ++ back)
    (hl : ¬ token.Legible) : Outcome language ending front back again (.error fault after)
  /-- The script is refused for what it means. -/
  | semantic {fault : Fault} {after : Session} (h : fault.cause.stage = .semantic) :
    Outcome language ending front back again (.error fault after)

private theorem Outcome.mono {language language' : Language α} {ending : Ending} {front front' back : List Token}
    {again again' : Ending → List Token → EStateM.Result Fault Session α}
    {outcome : EStateM.Result Fault Session α} (h : Outcome language ending front back again outcome)
    (hw : ∀ a, language.whole a (front.map Token.kind) → language'.whole a (front'.map Token.kind))
    (hb : language.begun (front.map Token.kind) → language'.begun (front'.map Token.kind))
    (hm : front ⊆ front')
    (ha : ∀ token ending' back', ending.Shows back token → ending'.Proper → ending'.Shows back' token →
      again' ending' back' = again ending' back') :
    Outcome language' ending front' back again' outcome := by
  cases h with
  | ok whole rest same =>
    refine .ok (hw _ whole) rest fun ending' back' hp hs ↦ ?_
    rw [ha _ ending' back' rest.current hp hs]
    exact same ending' back' hp hs
  | unexpected begun shown same =>
    refine .unexpected (hb begun) shown fun ending' back' hp hs ↦ ?_
    rw [ha _ ending' back' shown hp hs]
    exact same ending' back' hp hs
  | lexical h => exact .lexical h
  | illegible h hl => exact .illegible (List.mem_append.mpr ((List.mem_append.mp h).imp_left (@hm _))) hl
  | semantic h => exact .semantic h

/-! ### Reading -/

/-- Reading `tokens` goes past some of them, as the language says. -/
def Settles (read : Compile α) (language : Language α) (ending : Ending) (tokens : List Token)
    (session : Session) : Prop :=
  ∃ front back, tokens = front ++ back ∧ Outcome language ending front back
    (fun ending' back' ↦ read.run (session.facing ending' (front ++ back'))) (read.run session)

namespace Settles

variable {read : Compile α} {language language' : Language α} {ending : Ending} {tokens : List Token}
  {session : Session}

private theorem mono (h : Settles read language ending tokens session)
    (hw : ∀ a kinds, language.whole a kinds → language'.whole a kinds)
    (hb : ∀ kinds, language.begun kinds → language'.begun kinds) :
    Settles read language' ending tokens session := by
  obtain ⟨front, back, he, ho⟩ := h
  exact ⟨front, back, he, ho.mono (fun a ↦ hw a _) (hb _) (List.Subset.refl _) fun _ _ _ _ _ _ ↦ rfl⟩

private theorem congr {read' : Compile α} (h : Settles read' language ending tokens session)
    (hp : ending.Proper) (hs : session.At ending tokens)
    (he : ∀ (ending : Ending) (tokens : List Token) (session : Session),
      ending.Proper → session.At ending tokens → read.run session = read'.run session) :
    Settles read language ending tokens session := by
  obtain ⟨front, back, rfl, ho⟩ := h
  refine ⟨front, back, rfl, ?_⟩
  rw [he ending _ session hp hs]
  refine ho.mono (fun _ h ↦ h) (fun h ↦ h) (List.Subset.refl _) fun token ending' back' hb hp' hb' ↦ ?_
  exact he ending' _ _ hp' (Session.at_facing (Ending.Shows.append hs.current hb hb'))

/-- Reading that fails where a token is illegible. -/
theorem of_illegible {token : Token} (h : token ∈ tokens) (hl : ¬ token.Legible) {fault : Fault}
    {after : Session} (hr : read.run session = .error fault after) :
    Settles read language ending tokens session := by
  refine ⟨tokens, [], (List.append_nil _).symm, ?_⟩
  rw [hr]
  exact .illegible (List.mem_append_left _ h) hl

/-- Readers in sequence. -/
theorem bind {next : α → Compile β} {language' : Language β} (h : Settles read language ending tokens session)
    (hb : ∀ kinds, language.begun kinds → language'.begun kinds)
    (h' : ∀ a front rest between, tokens = front ++ rest → language.whole a (front.map Token.kind) →
      between.At ending rest → read.run session = .ok a between →
        Settles (next a) (language'.behind (front.map Token.kind)) ending rest between) :
    Settles (read >>= next) language' ending tokens session := by
  obtain ⟨front, rest, rfl, ho⟩ := h
  generalize hr : read.run session = outcome at ho
  cases ho with
  | @ok a between whole hat same =>
    obtain ⟨front', back, rfl, ho'⟩ := h' a front rest between rfl whole hat hr
    refine ⟨front ++ front', back, (List.append_assoc ..).symm, ?_⟩
    rw [run_bind_of_ok hr]
    refine ho'.mono (fun b hw ↦ ?_) (fun hw ↦ ?_) (List.subset_append_right _ _)
      fun token ending' back' hs hp hs' ↦ ?_
    · rw [List.map_append]
      exact hw
    · rw [List.map_append]
      exact hw
    · -- The first reader sees at most the first token of what the second one goes past.
      rw [List.append_assoc]
      exact run_bind_of_ok (same ending' _ hp (Ending.Shows.append hat.current hs hs'))
  | unexpected begun shown same =>
    refine ⟨front, rest, rfl, ?_⟩
    rw [run_bind_of_error hr]
    refine .unexpected (hb _ begun) shown fun ending' back' hp hs ↦ ?_
    obtain ⟨after, hr'⟩ := same ending' back' hp hs
    exact ⟨after, run_bind_of_error hr'⟩
  | lexical h =>
    refine ⟨front, rest, rfl, ?_⟩
    rw [run_bind_of_error hr]
    exact .lexical h
  | illegible h hl =>
    refine ⟨front, rest, rfl, ?_⟩
    rw [run_bind_of_error hr]
    exact .illegible h hl
  | semantic h =>
    refine ⟨front, rest, rfl, ?_⟩
    rw [run_bind_of_error hr]
    exact .semantic h

end Settles

/-! ### Readers -/

/-- A reader that at a token of this kind goes past kinds as `language` says. -/
def RecognizesAt (kind : Kind) (read : Compile α) (language : Language α) : Prop :=
  ∀ (ending : Ending) (tokens : List Token) (session : Session), ending.Proper →
    session.At ending tokens → session.current.kind = kind → Settles read language ending tokens session

/-- A reader that goes past kinds as `language` says. -/
def Recognizes (read : Compile α) (language : Language α) : Prop :=
  ∀ kind, RecognizesAt kind read language

namespace RecognizesAt

variable {kind : Kind} {read : Compile α} {language : Language α} {whole : List Kind → Prop}

/-- A reader that succeeds has gone past a sequence of its language. -/
theorem of_ok (h : RecognizesAt kind read language) {ending : Ending} {tokens : List Token}
    {session after : Session} {a : α} (hp : ending.Proper) (hs : session.At ending tokens)
    (hk : session.current.kind = kind) (hr : read.run session = .ok a after) :
    ∃ front back, tokens = front ++ back ∧ language.whole a (front.map Token.kind) ∧
      after.At ending back := by
  obtain ⟨front, back, he, ho⟩ := h ending tokens session hp hs hk
  rw [hr] at ho
  cases ho with
  | ok whole rest => exact ⟨front, back, he, whole, rest⟩

/-- A reader with a larger language. -/
theorem weaken {larger : Language α} (h : RecognizesAt kind read language)
    (hw : ∀ a kinds, language.whole a kinds → larger.whole a kinds)
    (hb : ∀ kinds, language.begun kinds → larger.begun kinds) : RecognizesAt kind read larger :=
  fun ending tokens session hp hs hk ↦ (h ending tokens session hp hs hk).mono hw hb

/-- A reader of more sequences. -/
theorem mono {more : List Kind → Prop} (h : RecognizesAt kind read (.ofKinds whole))
    (hw : ∀ kinds, whole kinds → more kinds) : RecognizesAt kind read (.ofKinds more) :=
  h.weaken (fun _ ↦ hw) fun _ ↦ Or.imp_right fun ⟨back, hb⟩ ↦ ⟨back, hw _ hb⟩

private theorem bind {next : α → Compile β} {language' : Language β} (h : RecognizesAt kind read language)
    (hb : ∀ kinds, language.begun kinds → language'.begun kinds)
    (h' : ∀ a front, language.whole a front → Recognizes (next a) (language'.behind front)) :
    RecognizesAt kind (read >>= next) language' :=
  fun ending tokens session hp hs hk ↦ (h ending tokens session hp hs hk).bind hb
    fun a _ rest between _ hw hat _ ↦ h' a _ hw _ ending rest between hp hat rfl

private theorem sequence {next : α → Compile β} {whole' : List Kind → Prop}
    (h : RecognizesAt kind read (.ofKinds whole))
    (hc : ∀ front, whole front → ∃ back, whole' (front ++ back))
    (h' : ∀ a front, whole front → Recognizes (next a) (.ofKinds fun back ↦ whole' (front ++ back))) :
    RecognizesAt kind (read >>= next) (.ofKinds whole') :=
  h.bind (fun _ hb ↦ Begun.mono hb hc) fun a front hf found ↦
    (h' a front hf found).weaken (fun _ _ hw ↦ hw) fun kinds (hb : Begun _ kinds) ↦
      hb.append (hc front hf) fun _ hw ↦ hw

private theorem append {parts parts' : List Part} {next : α → Compile β}
    (h : RecognizesAt kind read (Rule parts)) (h' : ∀ a, Recognizes (next a) (Rule parts')) :
    RecognizesAt kind (read >>= next) (Rule (parts ++ parts')) :=
  h.sequence (fun _ hf ↦ hf.begins_append parts') fun a _ hf kind ↦ (h' a kind).mono fun _ hb ↦ hf.append hb

/-- Looking at the kind of the token ahead. -/
theorem peek {read : Kind → Compile α} (h : RecognizesAt kind (read kind) language) :
    RecognizesAt kind (Compile.peek >>= read) language := by
  rintro ending tokens session hp hs rfl
  exact h ending tokens session hp hs rfl

end RecognizesAt

/-- Going on to the token that is shown behind the current one. -/
theorem Session.run_advance {session : Session} {ending : Ending} {tokens : List Token} {next : Token}
    (h : ending.Shows tokens next) :
    Compile.advance.run (session.facing ending (session.current :: tokens)) =
      .ok session.current ({ session with current := next }.facing ending tokens) := by
  cases tokens with
  | nil =>
    cases ending with
    | finish last =>
      cases h
      rfl
    | fault fault => cases h
  | cons token tokens =>
    cases h
    rfl

namespace RecognizesAt

variable {kind : Kind}

/-- Going past a token. -/
theorem token (hk : kind ≠ .finish) : RecognizesAt kind Compile.advance (Rule [.token kind]) := by
  rintro ending tokens session hp hs rfl
  obtain ⟨rest, rfl⟩ := hs.exists_cons hp hk
  refine ⟨[session.current], rest, rfl, ?_⟩
  rw [← hs.facing_eq]
  cases hn : (rest ++ ending.tokens).head? with
  | some next =>
    rw [Session.run_advance hn]
    exact .ok (.token _ .nil) (Session.at_facing hn) fun _ _ _ hs ↦ Session.run_advance hs
  | none =>
    obtain ⟨rfl, he⟩ := List.append_eq_nil_iff.mp (List.head?_eq_none_iff.mp hn)
    cases ending with
    | finish last => cases he
    | fault fault => exact .lexical rfl

/-- Going past a token, and then the other parts of a rule. -/
theorem advance {parts : List Part} {next : Token → Compile β} (hk : kind ≠ .finish)
    (h : ∀ a, Recognizes (next a) (Rule parts)) :
    RecognizesAt kind (Compile.advance >>= next) (Rule (.token kind :: parts)) :=
  (token hk).append h

end RecognizesAt

namespace Recognizes

variable {read : Compile α} {language : Language α} {whole : List Kind → Prop} {parts : List Part}

/-- Nothing is read. -/
theorem pure {a : α} (h : language.whole a []) : Recognizes (Pure.pure a) language :=
  fun _ _ tokens _ _ hs _ ↦ ⟨[], tokens, rfl, .ok h hs fun _ _ _ _ ↦ rfl⟩

/-- A script that is refused for what it means. -/
theorem refuse {cause : Cause} (h : cause.stage = .semantic) {token : Token} :
    Recognizes (Compile.refuse cause token) language :=
  fun _ _ tokens _ _ _ _ ↦ ⟨[], tokens, rfl, .semantic h⟩

/-- A token that is refused, if so far a sequence has begun. -/
theorem refuseToken (h : language.begun []) {expected : Expected} :
    Recognizes (Compile.unexpected expected) language :=
  fun _ _ tokens _ _ hs _ ↦ ⟨[], tokens, rfl, .unexpected h hs.current fun _ _ _ _ ↦ ⟨_, rfl⟩⟩

/-- A token that is refused. -/
theorem unexpected {expected : Expected} :
    Recognizes (Compile.unexpected expected : Compile α) (.ofKinds whole) :=
  refuseToken (Or.inl rfl)

/-- Nothing is read behind a token that is refused. -/
theorem unexpected_bind {expected : Expected} {next : β → Compile α} :
    Recognizes (Compile.unexpected expected >>= next) (.ofKinds whole) :=
  fun _ _ tokens _ _ hs _ ↦ ⟨[], tokens, rfl, .unexpected (.inl rfl) hs.current fun _ _ _ _ ↦ ⟨_, rfl⟩⟩

/-- A step that changes nothing that is still to be read. -/
theorem silent {next : α → Compile β} (h : Recognizes read (Rule []))
    (h' : ∀ a, Recognizes (next a) (.ofKinds whole)) : Recognizes (read >>= next) (.ofKinds whole) := by
  intro kind
  refine (h kind).bind (fun kinds hb ↦ .inl ?_) fun a front hf ↦ ?_
  · rcases hb with rfl | ⟨more, hm⟩
    · rfl
    · exact (List.append_eq_nil_iff.mp (Grammar.derives_nil.mp hm)).1
  · rw [Grammar.derives_nil.mp hf]
    exact h' a

/-- A note. -/
theorem note (line : Nat) (message : String) : Recognizes (Compile.note line message) (Rule []) :=
  fun _ _ tokens _ _ hs _ ↦
    ⟨[], tokens, rfl, .ok .nil ⟨hs.current, hs.ahead, hs.ending⟩ fun _ _ _ _ ↦ rfl⟩

/-- A change of variables. -/
theorem modifyScopes (change : Scopes → Scopes) :
    Recognizes (Compile.modifyScopes change) (Rule []) :=
  fun _ _ tokens _ _ hs _ ↦
    ⟨[], tokens, rfl, .ok .nil ⟨hs.current, hs.ahead, hs.ending⟩ fun _ _ _ _ ↦ rfl⟩

/-- Looking at the variables. -/
theorem scopes : Recognizes Compile.scopes (Rule []) :=
  fun _ _ tokens _ _ hs _ ↦ ⟨[], tokens, rfl, .ok .nil hs fun _ _ _ _ ↦ rfl⟩

private theorem peek {read : Kind → Compile α} (h : ∀ kind, RecognizesAt kind (read kind) language) :
    Recognizes (Compile.peek >>= read) language :=
  fun kind ↦ (h kind).peek

/-- Going past a token of a kind. -/
theorem expect {kind : Kind} (hk : kind ≠ .finish) :
    Recognizes (Compile.expect kind) (Rule [.token kind]) := by
  apply peek
  intro found
  split
  · next h =>
    rw [h]
    exact .token hk
  · exact unexpected found

/-- A result may be changed. -/
theorem map {language' : Language β} {f : α → β} (h : Recognizes read language)
    (hw : ∀ a kinds, language.whole a kinds → language'.whole (f a) kinds)
    (hb : ∀ kinds, language.begun kinds → language'.begun kinds) : Recognizes (f <$> read) language' := by
  rw [map_eq_pure_bind]
  intro kind
  refine (h kind).bind hb fun a front hf ↦ .pure ?_
  change language'.whole (f a) (front ++ [])
  rw [List.append_nil]
  exact hw a front hf

end Recognizes

/-! ### Repetitions -/

/-- What a repetition goes past, from the state it is in, if it goes past `item` each time. -/
structure Repeats {σ : Type} (item : σ → Language (Option σ)) (language : σ → Language σ) : Prop where
  /-- A step after which there is another one goes past a token. -/
  forward {state next : σ} {front : List Kind} : (item state).whole (some next) front → front ≠ []
  stop {state : σ} {front : List Kind} : (item state).whole none front → (language state).whole state front
  step {state next last : σ} {front back : List Kind} : (item state).whole (some next) front →
    (language next).whole last back → (language state).whole last (front ++ back)
  begin_item {state : σ} {front : List Kind} : (item state).begun front → (language state).begun front
  begin_next {state next : σ} {front back : List Kind} : (item state).whole (some next) front →
    (language next).begun back → (language state).begun (front ++ back)

section

variable {σ : Type} {step : σ → Compile (Option σ)} {item : σ → Language (Option σ)}
  {language : σ → Language σ} {ending : Ending} {tokens : List Token} {session : Session} {state : σ}

private theorem Repeats.length_lt (hr : Repeats item language) {next : σ} {front : List Token}
    (hw : (item state).whole (some next) (front.map Token.kind)) (rest : List Token) :
    rest.length < (front ++ rest).length := by
  have : 0 < front.length := List.length_pos_iff.mpr fun he ↦ hr.forward hw (by rw [he]; rfl)
  rw [List.length_append]
  omega

private theorem Repeats.iterate_eq (hr : Repeats item language) (h : ∀ state, Recognizes (step state) (item state))
    (hp : ending.Proper) {limit limit' : Nat} (hs : session.At ending tokens)
    (hl : tokens.length < limit) (hl' : tokens.length < limit') :
    (Compile.iterate step limit state).run session = (Compile.iterate step limit' state).run session := by
  induction limit generalizing limit' tokens session state with
  | zero => exact absurd hl (Nat.not_lt_zero _)
  | succ limit ih =>
    obtain _ | limit' := limit'
    · exact absurd hl' (Nat.not_lt_zero _)
    rw [Compile.iterate, Compile.iterate]
    cases hn : (step state).run session with
    | error fault after => rw [run_bind_of_error hn, run_bind_of_error hn]
    | ok result after =>
      rw [run_bind_of_ok hn, run_bind_of_ok hn]
      cases result with
      | none => rfl
      | some next =>
        obtain ⟨front, rest, rfl, hw, hat⟩ := (h state _).of_ok hp hs rfl hn
        have := hr.length_lt hw rest
        exact ih hat (by omega) (by omega)

private theorem Repeats.many_eq (hr : Repeats item language) (h : ∀ state, Recognizes (step state) (item state))
    (hp : ending.Proper) (hs : session.At ending tokens) :
    (Compile.many step state).run session = (do
      match ← step state with
      | some next => Compile.many step next
      | none => pure state : Compile σ).run session := by
  have hl (session : Session) {tokens : List Token} (hs : session.At ending tokens) :
      tokens.length < session.ahead.length + 2 := by
    rw [hs.ahead, List.length_tail]
    omega
  change (Compile.iterate step (session.ahead.length + 1 + 1) state).run session = _
  rw [Compile.iterate]
  cases hn : (step state).run session with
  | error fault after => rw [run_bind_of_error hn, run_bind_of_error hn]
  | ok result after =>
    rw [run_bind_of_ok hn, run_bind_of_ok hn]
    cases result with
    | none => rfl
    | some next =>
      obtain ⟨front, rest, rfl, hw, hat⟩ := (h state _).of_ok hp hs rfl hn
      have := hr.length_lt hw rest
      have := hl session hs
      exact hr.iterate_eq h hp hat (by omega) (hl after hat)

/-- A repetition goes past one item after the other. -/
theorem Repeats.recognizes (hr : Repeats item language) (h : ∀ state, Recognizes (step state) (item state))
    (state : σ) : Recognizes (Compile.many step state) (language state) := by
  -- By induction on the number of tokens: a step that goes on leaves fewer of them.
  have hn (length : Nat) : ∀ (state : σ) (ending : Ending) (tokens : List Token) (session : Session),
      ending.Proper → session.At ending tokens → tokens.length = length →
        Settles (Compile.many step state) (language state) ending tokens session := by
    induction length using Nat.strongRecOn with
    | ind length ih =>
      rintro state ending tokens session hp hs rfl
      refine Settles.congr ?_ hp hs fun ending tokens session hp hs ↦ hr.many_eq h hp hs
      refine (h state _ ending tokens session hp hs rfl).bind (fun _ ↦ hr.begin_item) ?_
      rintro result front rest between rfl hw hat -
      cases result with
      | none =>
        have hstop : ((language state).behind (front.map Token.kind)).whole state [] := by
          change (language state).whole state (front.map Token.kind ++ [])
          rw [List.append_nil]
          exact hr.stop hw
        exact Recognizes.pure hstop _ ending rest between hp hat rfl
      | some next =>
        exact (ih _ (hr.length_lt hw rest) next ending rest between hp hat rfl).mono (fun _ _ ↦ hr.step hw)
          fun _ ↦ hr.begin_next hw
  exact fun kind ending tokens session hp hs _ ↦ hn _ state ending tokens session hp hs rfl

end

end Cityscape
