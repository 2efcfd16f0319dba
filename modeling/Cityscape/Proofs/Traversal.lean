import Cityscape.Proofs.Likeness
import Cityscape.Proofs.Reading

/-!
# One traversal of all readers

Readers are taken apart once, and two things are said of each part together: what it goes past, and what two
compilations that read it side by side have in common. From this follows what single compilations do, too: a
compilation beside itself keeps what a likeness says of it.
-/

namespace Cityscape

open Grammar (Part Derives rules)

variable {α β γ δ : Type}

/-- Every compilation is alike to itself. -/
def Likeness.Reflexive (alike : Likeness) : Prop :=
  ∀ session, alike.Sessions session session

/--
At a token of this kind two readers keep compilations alike, with results as `agree` says. What the first one goes
past is as `language` says, if every compilation is alike to itself.
-/
structure WalksAt (alike : Likeness) (kind : Kind) (language : Language α) (agree : α → β → Prop)
    (read : Compile α) (read' : Compile β) : Prop where
  recognizes : alike.Reflexive → RecognizesAt kind read language
  keeps : AlikeAt alike kind agree read read'

/-- As `WalksAt`, at every token. -/
def Walks (alike : Likeness) (language : Language α) (agree : α → β → Prop) (read : Compile α)
    (read' : Compile β) : Prop :=
  ∀ kind, WalksAt alike kind language agree read read'

variable {alike : Likeness} {language : Language α} {agree : α → β → Prop} {agree' : γ → δ → Prop}
  {read : Compile α} {read' : Compile β} {next : α → Compile γ} {next' : β → Compile δ}

/-- What a reader goes past. -/
theorem Walks.recognizes (h : Walks alike language agree read read') (hr : alike.Reflexive) :
    Recognizes read language :=
  fun kind ↦ (h kind).recognizes hr

/-- What two readers have in common. -/
theorem Walks.keeps (h : Walks alike language agree read read') : Alike alike agree read read' :=
  fun s s' hs ↦ (h s.current.kind).keeps s s' hs rfl

namespace WalksAt

variable {kind : Kind} {first second whole : List Kind → Prop} {parts parts' : List Part}

/--
Readers in sequence. Where the first one succeeds every compilation is alike to itself, so its result agrees with
some result.
-/
theorem bind {language' : Language γ} (h : WalksAt alike kind language agree read read')
    (hb : ∀ kinds, language.begun kinds → language'.begun kinds)
    (hl : ∀ a b front, agree a b → language.whole a front → alike.Reflexive →
      Recognizes (next a) (language'.behind front))
    (ha : ∀ a b, agree a b → Alike alike agree' (next a) (next' b)) :
    WalksAt alike kind language' agree' (read >>= next) (read' >>= next') where
  recognizes := by
    intro hr ending tokens session hp hs hk
    refine (h.recognizes hr ending tokens session hp hs hk).bind hb fun a front rest between _ hw hat hrun ↦ ?_
    have ho := h.keeps session session (hr session) hk
    rw [hrun] at ho
    obtain ⟨b, _, _, hab, _⟩ := ho.of_ok
    exact hl a b _ hab hw hr _ ending rest between hp hat rfl
  keeps := h.keeps.bind ha

/-- Readers of a larger language. -/
theorem weaken {larger : Language α} (h : WalksAt alike kind language agree read read')
    (hw : ∀ a kinds, language.whole a kinds → larger.whole a kinds)
    (hb : ∀ kinds, language.begun kinds → larger.begun kinds) :
    WalksAt alike kind larger agree read read' :=
  ⟨fun hr ↦ (h.recognizes hr).weaken hw hb, h.keeps⟩

/-- Readers of more sequences. -/
theorem mono (h : WalksAt alike kind (.ofKinds first) agree read read') (hw : ∀ kinds, first kinds → whole kinds) :
    WalksAt alike kind (.ofKinds whole) agree read read' :=
  ⟨fun hr ↦ (h.recognizes hr).mono hw, h.keeps⟩

/-- Readers of sequences whose fronts and backs go together. -/
theorem sequence (h : WalksAt alike kind (.ofKinds first) agree read read') (hs : ∃ back, second back)
    (hw : ∀ front back, first front → second back → whole (front ++ back))
    (h' : ∀ a b, agree a b → Walks alike (.ofKinds second) agree' (next a) (next' b)) :
    WalksAt alike kind (.ofKinds whole) agree' (read >>= next) (read' >>= next') := by
  obtain ⟨more, hm⟩ := hs
  refine h.bind (fun _ hb ↦ Begun.mono hb fun front hf ↦ ⟨more, hw front more hf hm⟩) ?_
    fun a b hab ↦ (h' a b hab).keeps
  intro a b front hab hf hr found
  exact ((h' a b hab).recognizes hr found).weaken (fun _ back ↦ hw front back hf) fun kinds (hb : Begun _ kinds) ↦
    hb.append ⟨more, hw front more hf hm⟩ fun back ↦ hw front back hf

/-- Some parts of a rule and then the others. -/
theorem append (h : WalksAt alike kind (Rule parts) agree read read')
    (h' : ∀ a b, agree a b → Walks alike (Rule parts') agree' (next a) (next' b)) :
    WalksAt alike kind (Rule (parts ++ parts')) agree' (read >>= next) (read' >>= next') :=
  h.sequence (Grammar.exists_derives parts') (fun _ _ hf hb ↦ hf.append hb) h'

/-- What an alternative derives and then nothing. -/
theorem followed (h : WalksAt alike kind (Rule parts) agree read read')
    (h' : ∀ a b, agree a b → Walks alike (Rule []) agree' (next a) (next' b)) :
    WalksAt alike kind (Rule parts) agree' (read >>= next) (read' >>= next') := by
  have ha := h.append h'
  rwa [List.append_nil] at ha

/-- Readers of what an alternative derives read what the symbol derives. -/
theorem rule {symbol : Grammar.Symbol} (parts : List Part) (hr : parts ∈ rules symbol)
    (h : WalksAt alike kind (Rule parts) agree read read') :
    WalksAt alike kind (Rule [.symbol symbol]) agree read read' :=
  h.mono fun _ hd ↦ Grammar.derives_rule.mpr ⟨parts, hr, hd⟩

/-- Looking at the token ahead. -/
theorem current {language : Language γ} {next : Token → Compile γ} {next' : Token → Compile δ}
    (h : ∀ t t', alike.token t t' → WalksAt alike kind language agree' (next t) (next' t')) :
    WalksAt alike kind language agree' (Compile.current >>= next) (Compile.current >>= next') where
  recognizes hr ending tokens session hp hs hk :=
    (h session.current session.current (hr session).current).recognizes hr ending tokens session hp hs hk
  keeps s s' hs hk := (h s.current s'.current hs.current).keeps s s' hs hk

/-- Looking at the kind of the token ahead. -/
theorem peek {language : Language γ} {next : Kind → Compile γ} {next' : Kind → Compile δ}
    (h : WalksAt alike kind language agree' (next kind) (next' kind)) :
    WalksAt alike kind language agree' (Compile.peek >>= next) (Compile.peek >>= next') :=
  ⟨fun hr ↦ .peek (h.recognizes hr), .peek h.keeps⟩

/-- Going past a token. -/
theorem token (hk : kind ≠ .finish) :
    WalksAt alike kind (Rule [.token kind]) (alike.Of kind) Compile.advance Compile.advance :=
  ⟨fun _ ↦ .token hk, .advance⟩

/-- Going past a token, and then the other parts of a rule. -/
theorem advance {next : Token → Compile γ} {next' : Token → Compile δ} (hk : kind ≠ .finish)
    (h : ∀ t t', alike.Of kind t t' → Walks alike (Rule parts) agree' (next t) (next' t')) :
    WalksAt alike kind (Rule (.token kind :: parts)) agree' (Compile.advance >>= next)
      (Compile.advance >>= next') :=
  (token hk).append h

end WalksAt

namespace Walks

variable {whole : List Kind → Prop} {parts parts' : List Part}

/-- Nothing is read. -/
theorem pure {a : α} {b : β} (h : language.whole a []) (hab : agree a b) :
    Walks alike language agree (Pure.pure a) (Pure.pure b) :=
  fun kind ↦ ⟨fun _ ↦ Recognizes.pure h kind, (Alike.pure hab).at kind⟩

/-- Some parts of a rule and then the others. -/
theorem append (h : Walks alike (Rule parts) agree read read')
    (h' : ∀ a b, agree a b → Walks alike (Rule parts') agree' (next a) (next' b)) :
    Walks alike (Rule (parts ++ parts')) agree' (read >>= next) (read' >>= next') :=
  fun kind ↦ (h kind).append h'

/-- A part of a rule and then the others. -/
theorem cons {part : Part} (h : Walks alike (Rule [part]) agree read read')
    (h' : ∀ a b, agree a b → Walks alike (Rule parts) agree' (next a) (next' b)) :
    Walks alike (Rule (part :: parts)) agree' (read >>= next) (read' >>= next') :=
  h.append h'

/-- A rule and then a step that changes nothing that is still to be read. -/
theorem followed (h : Walks alike (Rule parts) agree read read')
    (h' : ∀ a b, agree a b → Walks alike (Rule []) agree' (next a) (next' b)) :
    Walks alike (Rule parts) agree' (read >>= next) (read' >>= next') :=
  fun kind ↦ (h kind).followed h'

/-- A step that changes nothing that is still to be read. -/
theorem silent (h : Walks alike (Rule []) agree read read')
    (h' : ∀ a b, agree a b → Walks alike (Rule parts) agree' (next a) (next' b)) :
    Walks alike (Rule parts) agree' (read >>= next) (read' >>= next') :=
  h.append h'

/-- Readers of what an alternative derives read what the symbol derives. -/
theorem rule {symbol : Grammar.Symbol} (parts : List Part) (hr : parts ∈ rules symbol)
    (h : Walks alike (Rule parts) agree read read') : Walks alike (Rule [.symbol symbol]) agree read read' :=
  fun kind ↦ (h kind).rule parts hr

/-- Results may be changed. -/
theorem map {language' : Language γ} {f : α → γ} {g : β → δ} (h : Walks alike language agree read read')
    (hw : ∀ a kinds, language.whole a kinds → language'.whole (f a) kinds)
    (hb : ∀ kinds, language.begun kinds → language'.begun kinds) (ha : ∀ a b, agree a b → agree' (f a) (g b)) :
    Walks alike language' agree' (f <$> read) (g <$> read') :=
  fun kind ↦ ⟨fun hr ↦ (h.recognizes hr).map hw hb kind, (h.keeps.map ha).at kind⟩

/-- Results that nobody looks at. -/
theorem ignored (h : Walks alike language agree read read') : Walks alike language Ignored read read' :=
  fun kind ↦ ⟨(h kind).recognizes, h.keeps.ignored.at kind⟩

/-- A script refused at corresponding tokens for what it means. -/
theorem refuse {cause : Cause} (hc : cause.Blind) (hm : cause.stage = .semantic) {t t' : Token}
    (ht : alike.token t t') : Walks alike language agree (Compile.refuse cause t) (Compile.refuse cause t') :=
  fun kind ↦ ⟨fun _ ↦ Recognizes.refuse hm kind, (Alike.refuse hc ht).at kind⟩

/-- A token that is not allowed. -/
theorem unexpected {expected : Expected} :
    Walks alike (.ofKinds whole) agree (Compile.unexpected expected) (Compile.unexpected expected) :=
  fun kind ↦ ⟨fun _ ↦ Recognizes.unexpected kind, Alike.unexpected.at kind⟩

/-- Nothing is read behind a token that is not allowed. -/
theorem unexpected_bind {expected : Expected} :
    Walks alike (.ofKinds whole) agree' (Compile.unexpected expected >>= next)
      (Compile.unexpected expected >>= next') := by
  have hu : Alike alike (fun (_ : α) (_ : β) ↦ False) (Compile.unexpected expected)
      (Compile.unexpected expected) := .unexpected
  exact fun kind ↦ ⟨fun _ ↦ Recognizes.unexpected_bind kind, (hu.bind fun _ _ ↦ False.elim).at kind⟩

/-- Looking at the token ahead. -/
theorem current {language : Language γ} {next : Token → Compile γ} {next' : Token → Compile δ}
    (h : ∀ t t', alike.token t t' → Walks alike language agree' (next t) (next' t')) :
    Walks alike language agree' (Compile.current >>= next) (Compile.current >>= next') :=
  fun kind ↦ .current fun t t' ht ↦ h t t' ht kind

/-- Looking at the kind of the token ahead. -/
theorem peek {language : Language γ} {next : Kind → Compile γ} {next' : Kind → Compile δ}
    (h : ∀ kind, WalksAt alike kind language agree' (next kind) (next' kind)) :
    Walks alike language agree' (Compile.peek >>= next) (Compile.peek >>= next') :=
  fun kind ↦ .peek (h kind)

/-- Going past a token of a kind. -/
theorem expect {kind : Kind} (hk : kind ≠ .finish) :
    Walks alike (Rule [.token kind]) (alike.Of kind) (Compile.expect kind) (Compile.expect kind) :=
  fun found ↦ ⟨fun _ ↦ Recognizes.expect hk found, (Alike.expect kind).at found⟩

/-- Going past a keyword. -/
theorem word (word : Keyword) :
    Walks alike (Rule [.word word]) (alike.Of (.keyword word)) (Compile.expectWord word)
      (Compile.expectWord word) :=
  expect Kind.noConfusion

/-- Going past a mark. -/
theorem mark (mark : Mark) :
    Walks alike (Rule [.mark mark]) Ignored (Compile.expectMark mark) (Compile.expectMark mark) :=
  (expect Kind.noConfusion).followed fun _ _ _ ↦ .pure .nil True.intro

/-- Going past a string literal. -/
theorem string : Walks alike (Rule [.token .string]) Eq Compile.expectString Compile.expectString :=
  (expect Kind.noConfusion).followed fun _ _ ht ↦ .pure .nil (alike.unquoted_eq ht)

/-- Corresponding notes about corresponding tokens. -/
theorem note (hn : alike.noted) {t t' : Token} (ht : alike.token t t') {message message' : String}
    (hm : alike.naming.message message message') :
    Walks alike (Rule []) Ignored (Compile.note t.position.line message)
      (Compile.note t'.position.line message') :=
  fun kind ↦ ⟨fun _ ↦ Recognizes.note _ _ kind, (Alike.note hn ht hm).at kind⟩

/-- Corresponding changes of variables. -/
theorem modifyScopes {change change' : Scopes → Scopes} (hc : alike.changes change change') :
    Walks alike (Rule []) Ignored (Compile.modifyScopes change) (Compile.modifyScopes change') :=
  fun kind ↦ ⟨fun _ ↦ Recognizes.modifyScopes _ kind, (Alike.modifyScopes hc).at kind⟩

end Walks

/-- A repetition goes past one item after the other. -/
theorem Repeats.walks {σ : Type} {step step' : σ → Compile (Option σ)} {item : σ → Language (Option σ)}
    {language : σ → Language σ} (hr : Repeats item language)
    (h : ∀ state, Walks alike (item state) Eq (step state) (step' state)) (state : σ) :
    Walks alike (language state) Eq (Compile.many step state) (Compile.many step' state) :=
  fun kind ↦ ⟨fun hrefl ↦ hr.recognizes (fun state ↦ (h state).recognizes hrefl) state kind,
    (Alike.many (fun state ↦ (h state).keeps) state).at kind⟩

end Cityscape
