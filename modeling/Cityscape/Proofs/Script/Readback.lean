import Cityscape.Proofs.Chain
import Cityscape.Proofs.Script.Stanza
import Cityscape.Proofs.SinglePass

/-!
# Numbers and positions read back

What a script says for a finite number is scanned as a numeral, or as zero, a minus and a numeral, and as an
expression it has the value of the number. What it says for a position is a coordinate with both numbers. Reading
stops where the text ends, wherever the text stands and whatever follows it, so positions can be read one after the
other, with commas between them.
-/

namespace Cityscape

open Compile (Operator)
open Decimal (plain)

variable {α β : Type}

/--
Reading these tokens gives a value where the variables are these. It goes past all of them and changes nothing else,
whatever has been done and whatever follows, as long as the kind of the token behind them is as `behind` says.
-/
structure Compile.Gives (read : Compile α) (tokens : List Token) (scopes : Scopes) (value : α)
    (behind : Kind → Prop) : Prop where
  nonempty : tokens ≠ []
  run : (∀ token ∈ tokens, token.Legible) →
    ∀ {session : Session} {ending : Ending} {back : List Token} {next : Token}, session.scopes = scopes →
      session.At ending (tokens ++ back) → ending.Shows back next → behind next.kind →
        read.run session = .ok value (session.past next back)

/-- Any kind of token. -/
def Anything (_ : Kind) : Prop := True

/-- The kinds of tokens with which no expression goes on. -/
def EndsExpression (kind : Kind) : Prop :=
  Operator.ofKind? kind = none

namespace Compile.Gives

variable {tokens tokens' : List Token} {scopes : Scopes} {a : α} {b : β} {behind behind' : Kind → Prop}

private theorem bind {read : Compile α} {next : α → Compile β} (h : Gives read tokens scopes a behind)
    (h' : Gives (next a) tokens' scopes b behind') (hb : ∀ first ∈ tokens'.head?, behind first.kind) :
    Gives (read >>= next) (tokens ++ tokens') scopes b behind' := by
  refine ⟨List.append_ne_nil_of_left_ne_nil h.nonempty _, fun hlegible session ending back last hs hat hn hk ↦ ?_⟩
  obtain ⟨first, rest, rfl⟩ := List.exists_cons_of_ne_nil h'.nonempty
  obtain ⟨hl, hl'⟩ := List.forall_mem_append.mp hlegible
  -- What the first reader has behind it is the first token that the second one goes past.
  have hf : ending.Shows (first :: rest ++ back) first := rfl
  rw [List.append_assoc] at hat
  rw [run_bind_of_ok (h.run hl hs hat hf (hb first rfl))]
  exact h'.run hl' hs (at_past hat hf) hn hk

private theorem chain {read : Compile α} {next : α → Compile β} (h : Gives read tokens scopes a Anything)
    (h' : Gives (next a) tokens' scopes b behind) : Gives (read >>= next) (tokens ++ tokens') scopes b behind :=
  h.bind h' fun _ _ ↦ True.intro

/-- One reader and then something that reads nothing. -/
theorem followed {read : Compile α} {next : α → Compile β} (h : Gives read tokens scopes a behind)
    (h' : ∀ session : Session, session.scopes = scopes → (next a).run session = .ok b session) :
    Gives (read >>= next) tokens scopes b behind := by
  refine ⟨h.nonempty, fun hl session ending back last hs hat hn hk ↦ ?_⟩
  rw [run_bind_of_ok (h.run hl hs hat hn hk)]
  exact h' _ hs

private theorem map {read : Compile α} (h : Gives read tokens scopes a behind) (f : α → β) :
    Gives (read >>= fun a ↦ pure (f a)) tokens scopes (f a) behind :=
  h.followed fun _ _ ↦ rfl

private theorem mono {read : Compile α} (h : Gives read tokens scopes a behind)
    (hb : ∀ kind, behind' kind → behind kind) :
    Gives read tokens scopes a behind' :=
  ⟨h.nonempty, fun hl _ _ _ _ hs hat hn hk ↦ h.run hl hs hat hn (hb _ hk)⟩

private theorem peek {read : Kind → Compile α} {first : Token}
    (h : Gives (read first.kind) (first :: tokens) scopes a behind) :
    Gives (Compile.peek >>= read) (first :: tokens) scopes a behind := by
  refine ⟨h.nonempty, fun hl session ending back last hs hat hn hk ↦ ?_⟩
  rw [run_peek_bind, ← Option.some.inj hat.current]
  exact h.run hl hs hat hn hk

private theorem advance (token : Token) : Gives Compile.advance [token] scopes token Anything :=
  ⟨List.cons_ne_nil _ _, fun _ _ _ _ _ _ hat hn _ ↦ run_advance_past hat hn⟩

private theorem leaf {kind : Kind} (leaf : Syntax.Leaf kind) :
    Gives (Compile.expect kind) [leaf.1] scopes leaf.1 Anything := by
  have h : Gives (if leaf.1.kind = kind then Compile.advance else Compile.unexpected (.kind kind)) [leaf.1] scopes
      leaf.1 Anything := by
    rw [if_pos leaf.2]
    exact .advance leaf.1
  exact .peek h

private theorem sign {mark : Mark} (sign : Syntax.Sign mark) :
    Gives (Compile.expectMark mark) [sign.1] scopes () Anything :=
  (leaf sign).followed fun _ _ ↦ rfl

end Compile.Gives

namespace Syntax

variable {scopes : Scopes} {number : Float}

private theorem lookup_eq_ok {sort : VariableSort} {name : Token} {found : Option α} {value : α}
    (h : lookup sort name found = .ok value) : found = some value := by
  cases found with
  | some => exact congrArg some (Except.ok.inj h)
  | none => cases h

private theorem Operand.outcome_of_evaluate {operand : Operand} (hl : operand.token.Legible)
    (h : operand.evaluate scopes = .ok number) (active : Bool) :
    operand.outcome active scopes = .ok (some number) := by
  cases operand with
  | integer literal =>
    cases h
    simp only [outcome, show Decimal.read? literal.1.lexeme = some (numeral literal.1.lexeme) from hl (.inl literal.2)]
  | double literal =>
    cases h
    simp only [outcome, show Decimal.read? literal.1.lexeme = some (numeral literal.1.lexeme) from hl (.inr literal.2)]
  | named name => simp only [outcome, lookup_eq_ok h]

private theorem Expression.grouped_of_value {expression : Expression} (hl : ∀ token ∈ expression.tokens, token.Legible)
    (h : expression.value scopes = .ok number) (active : Bool) :
    expression.grouped Operator.apply active scopes = .ok (some number) := by
  induction expression generalizing number with
  | last operand => exact operand.outcome_of_evaluate (hl _ List.mem_cons_self) h active
  | chain operand operator sign rest ih =>
    rw [tokens, List.forall_mem_cons, List.forall_mem_cons] at hl
    obtain ⟨left, hv, h⟩ := exists_of_bind_eq_ok h
    obtain ⟨right, hr, h⟩ := exists_of_bind_eq_ok h
    cases h
    rw [grouped, operand.outcome_of_evaluate hl.1 hv, ih hl.2.2 hr]
    rfl

private theorem Operand.kind_token (operand : Operand) :
    operand.token.kind = .integer ∨ operand.token.kind = .double ∨ operand.token.kind = .identifier := by
  cases operand with
  | integer literal => exact .inl literal.2
  | double literal => exact .inr (.inl literal.2)
  | named name => exact .inr (.inr name.2)

private theorem Expression.tokens_eq (expression : Expression) :
    expression.tokens = expression.first.token :: expression.tokens.tail := by
  cases expression <;> rfl

private theorem Expression.value_of_evaluate {expression : Expression} (h : expression.evaluate scopes = .ok number) :
    expression.operands.length ≤ longestExpression ∧ expression.value scopes = .ok number := by
  rw [evaluate] at h
  split at h
  · obtain ⟨_, _, h⟩ := exists_of_bind_eq_ok h
    cases h
  · next hl => exact ⟨Nat.le_of_not_lt hl, h⟩

end Syntax

namespace Compile

variable {scopes : Scopes} (active : Bool)

private theorem number_gives {expression : Syntax.Expression} {value : Float}
    (h : expression.evaluate scopes = .ok value) :
    Gives (number active) expression.tokens scopes (some value) EndsExpression := by
  have hne : expression.tokens ≠ [] := by
    rw [expression.tokens_eq]
    exact List.cons_ne_nil _ _
  refine ⟨hne, fun hl session ending back next hs hat hn hk ↦ ?_⟩
  subst hs
  obtain ⟨hlength, hv⟩ := Syntax.Expression.value_of_evaluate h
  have hr := @run_terms Operator.apply active session ending back next (longestExpression - 1)
    expression.first.token expression hlength hat hn hk
  rw [Syntax.Expression.grouped_of_value hl hv] at hr
  rw [number, run_expression_eq _ _ hat]
  exact hr

private theorem run_resolveCoordinate {name : Token} {place : Coordinate}
    (h : Syntax.lookup .coordinate name (scopes.coordinate? name.lexeme) = .ok place) {session : Session}
    (hs : session.scopes = scopes) : (resolveCoordinate active name).run session = .ok (some place) session := by
  subst hs
  change (resolve active .coordinate name (session.scopes.coordinate? name.lexeme)).run session = _
  rw [Syntax.lookup_eq_ok h]
  rfl

private theorem projected_gives {word : Token} (opening : Syntax.Sign .openParen) (name : Syntax.Leaf .identifier)
    (closing : Syntax.Sign .closeParen) {place : Coordinate}
    (h : Syntax.lookup .coordinate name.1 (scopes.coordinate? name.1.lexeme) = .ok place) :
    Gives (component.projected active) [word, opening.1, name.1, closing.1] scopes (some place) Anything :=
  (Gives.advance word).chain ((Gives.sign opening).chain ((Gives.leaf name).chain ((Gives.sign closing).followed
    fun _ hs ↦ run_resolveCoordinate active h hs)))

private theorem component_gives {component : Syntax.Component} {value : Float}
    (h : component.evaluate scopes = .ok value) :
    Gives (Compile.component active) component.tokens scopes (some value) EndsExpression := by
  cases component with
  | first word opening name closing =>
    obtain ⟨place, hp, h⟩ := exists_of_bind_eq_ok h
    cases h
    apply Gives.peek
    rw [word.2]
    exact ((projected_gives active opening name closing hp).map (·.map Coordinate.x)).mono fun _ _ ↦ True.intro
  | second word opening name closing =>
    obtain ⟨place, hp, h⟩ := exists_of_bind_eq_ok h
    cases h
    apply Gives.peek
    rw [word.2]
    exact ((projected_gives active opening name closing hp).map (·.map Coordinate.y)).mono fun _ _ ↦ True.intro
  | expression expression =>
    have hn := number_gives active h
    change Gives _ expression.tokens scopes _ _
    rw [expression.tokens_eq] at hn ⊢
    apply Gives.peek
    obtain hk | hk | hk := expression.first.kind_token
    · rwa [hk]
    · rwa [hk]
    · rwa [hk]

private theorem coordinate_gives {coordinate : Syntax.Coordinate} {place : Coordinate}
    (h : coordinate.evaluate scopes = .ok place) :
    Gives (Compile.coordinate active) coordinate.tokens scopes (some place) Anything := by
  cases coordinate with
  | pair opening x comma y closing =>
    obtain ⟨a, hx, h⟩ := exists_of_bind_eq_ok h
    obtain ⟨b, hy, h⟩ := exists_of_bind_eq_ok h
    cases h
    apply Gives.peek
    rw [opening.2]
    refine (Gives.advance opening.1).chain ((component_gives active hx).bind ((Gives.sign comma).chain
      ((component_gives active hy).bind ((Gives.sign closing).map fun _ ↦ _) ?_)) ?_)
    · rintro _ ⟨⟩
      rw [EndsExpression, closing.2]
      rfl
    · rintro _ ⟨⟩
      rw [EndsExpression, comma.2]
      rfl
  | named name =>
    apply Gives.peek
    rw [name.2]
    exact (Gives.advance name.1).followed fun _ hs ↦ run_resolveCoordinate active h hs

end Compile

/-- A session in front of a text that begins at this place. -/
def Session.Before (session : Session) (here : Position) (text : Source) : Prop :=
  session.At (scanFrom keywords here text).ending (scanFrom keywords here text).tokens

/-- The first token of a text that begins at this place; it may be the end of the input. -/
def Token.Leads (token : Token) (here : Position) (text : Source) : Prop :=
  (scanFrom keywords here text).ending.Shows (scanFrom keywords here text).tokens token

instance (token : Token) (here : Position) (text : Source) : Decidable (token.Leads here text) :=
  inferInstanceAs (Decidable
    (((scanFrom keywords here text).tokens ++ (scanFrom keywords here text).ending.tokens).head? = some token))

/--
A reader finds a value in a text, wherever the text stands and whatever has been done, if what follows the text and the
kind of the token that comes first there are as `behind` says. Then the session is in front of what follows, and
nothing else about it has changed.
-/
def Compile.Finds (read : Compile α) (text : String) (value : α) (behind : Source → Kind → Prop) : Prop :=
  ∀ (session : Session) (here : Position) (rest : Source) (next : Token),
    session.Before here (Source.ofString text ++ rest) → next.Leads (here.afterAll text.toList) rest →
      behind rest next.kind →
        ∃ after, read.run session = .ok value after ∧ after.Before (here.afterAll text.toList) rest ∧
          after = { session with current := after.current, ahead := after.ahead }

private theorem Compile.finds_of_writes {τ : Type} {read : Compile α} {text : String} {tokens : τ → List Token}
    {good : τ → Prop} {value : α} {behind : Source → Kind → Prop} {ends : Kind → Prop}
    (hw : ∀ rest kind, behind rest kind → ends kind ∧ Writes text.toList tokens good rest)
    (hg : ∀ tree, good tree → ∀ scopes, Gives read (tokens tree) scopes value ends) :
    Finds read text value behind := by
  intro session here rest next hs hn hk
  obtain ⟨hk, hw⟩ := hw rest next.kind hk
  obtain ⟨tree, ht, hscan⟩ := hw.scans here
  have hl := scanFrom_class here (text.toList ++ rest)
  rw [Session.Before, Source.ofString_eq hw.ascii] at hs
  rw [hscan] at hs hl
  refine ⟨_, (hg tree ht session.scopes).run (fun token hm ↦ ?_) rfl hs hn hk, at_past hs hn, rfl⟩
  exact Token.legible_of_class (hl token (List.mem_append_left _ hm))

/-- Coordinates with commas between them: one, and this many more. -/
def Compile.coordinates (active : Bool) : Nat → Compile (List (Option Coordinate))
  | 0 => do
    return [← coordinate active]
  | further + 1 => do
    let first ← coordinate active
    expectMark .comma
    return first :: (← coordinates active further)

private theorem coordinates_write (active : Bool) {first : LatLon} {more : List LatLon}
    (h : ∀ position ∈ first :: more, position.Finite) :
    ∃ texts, (first :: more).mapM Script.coordinate = .ok texts ∧ ∀ rest,
      Writes (", ".intercalate texts).toList id
        (fun tokens ↦ ∀ scopes, Compile.Gives (Compile.coordinates active more.length) tokens scopes
          ((first :: more).map (some ·.place)) Anything) rest := by
  induction more generalizing first with
  | nil =>
    obtain ⟨text, ht, hw⟩ := coordinate_writes (h first List.mem_cons_self)
    refine ⟨[text], by rw [List.mapM_cons, ht]; rfl, fun rest ↦ ?_⟩
    rw [String.intercalate_singleton]
    exact (hw rest).map Syntax.Coordinate.tokens (fun _ ↦ rfl) fun tree hv scopes ↦
      (Compile.coordinate_gives active (hv scopes)).map fun place ↦ [place]
  | cons second more ih =>
    obtain ⟨hf, hm⟩ := List.forall_mem_cons.mp h
    obtain ⟨text, ht, hw⟩ := coordinate_writes hf
    obtain ⟨texts, hts, hws⟩ := ih hm
    refine ⟨text :: texts, by rw [List.mapM_cons, ht, hts]; rfl, fun rest ↦ ?_⟩
    have hn : texts ≠ [] := by
      rintro rfl
      cases mapM_eq_ok_iff.mp hts
    have he : (", ".intercalate (text :: texts)).toList =
        text.toList ++ (",".toList ++ (" ".toList ++ (", ".intercalate texts).toList)) := by
      rw [String.intercalate_cons_of_ne_nil hn]
      simp
    rw [he]
    refine ((hw _).append ((Writes.sign .comma nofun).append (.blanks _ (by decide) (hws rest)))).map
      (fun (place, comma, tokens) ↦ place.tokens ++ comma.1 :: tokens) (fun _ ↦ rfl) ?_
    rintro ⟨place, comma, tokens⟩ ⟨hp, _, hg⟩ scopes
    exact (Compile.coordinate_gives active (hp scopes)).chain ((Compile.Gives.sign comma).chain
      ((hg scopes).map fun places ↦ some first.place :: places))

/--
Numbers and positions are read back exactly, whether or not the branch is taken. A finite number has a text that is
tokenized as a numeral, or as zero, a minus and a numeral; as an expression it has the value of the number, and reading
stops at its end, in front of anything that goes on neither with the numeral nor with the expression. A position with
finite numbers has a text that is a coordinate for it, in front of anything, and so have any number of positions with
commas between them. The only change to a number is that negative zero loses its sign.
-/
theorem numbers_and_positions_read_back (active : Bool) :
    (∀ value : Float, value.isFinite = true → ∃ text tokens, Script.number value = .ok text ∧
      tokenize (Source.ofString text) =
        .ok (tokens ++ [⟨.finish, "", Position.first.afterAll text.toList⟩]) ∧ Numeric tokens ∧
      Compile.Finds (Compile.number active) text (some (plain value))
        fun rest kind ↦ Separate rest ∧ EndsExpression kind) ∧
    (∀ position : LatLon, position.Finite → ∃ text, Script.coordinate position = .ok text ∧
      Compile.Finds (Compile.coordinate active) text
        (some ⟨"coord", plain position.longitude, plain position.latitude⟩) fun _ _ ↦ True) ∧
    (∀ (first : LatLon) (more : List LatLon), (∀ position ∈ first :: more, position.Finite) →
      ∃ texts, (first :: more).mapM Script.coordinate = .ok texts ∧
        Compile.Finds (Compile.coordinates active more.length) (", ".intercalate texts)
          ((first :: more).map fun position ↦
            some ⟨"coord", plain position.longitude, plain position.latitude⟩) fun _ _ ↦ True) ∧
    ∀ value, plain value = if value = -0.0 then 0.0 else value := by
  refine ⟨fun value h ↦ ?_, fun position h ↦ ?_, fun first more h ↦ ?_, Decimal.plain_eq⟩
  · obtain ⟨text, ht, hw⟩ := numeric_writes h
    obtain ⟨tree, ⟨hn, _⟩, hs⟩ := (hw [] nofun).tokenize_eq
    refine ⟨text, tree.tokens, ht, hs, hn, ?_⟩
    exact Compile.finds_of_writes (fun rest _ hk ↦ ⟨hk.2, hw rest hk.1⟩) fun tree hv scopes ↦
      Compile.number_gives active (hv.2 scopes)
  · obtain ⟨text, ht, hw⟩ := coordinate_writes h
    refine ⟨text, ht, ?_⟩
    exact Compile.finds_of_writes (fun rest _ _ ↦ ⟨True.intro, hw rest⟩) fun tree hv scopes ↦
      Compile.coordinate_gives active (hv scopes)
  · obtain ⟨texts, ht, hw⟩ := coordinates_write active h
    exact ⟨texts, ht, Compile.finds_of_writes (fun rest _ _ ↦ ⟨True.intro, hw rest⟩) fun tokens hg ↦ hg⟩

/-- A session in front of a text at the beginning of a source, with nothing done so far. -/
def sessionBefore (text : Source) (first : Token) : Session where
  current := first
  ahead := (scan text).tokens.tail
  ending := (scan text).ending
  journal := .empty 4

private theorem before_sessionBefore (text : Source) (first : Token) {front rest : Source} (h : first.Leads .first text)
    (ht : text = front ++ rest) : (sessionBefore text first).Before .first (front ++ rest) := by
  subst ht
  exact ⟨h, rfl, rfl⟩

/-- The arguments of a line through two positions, with negative numbers. -/
def lineArguments : Source :=
  "(0 - 70.5, 0), (1, 0 - 0.0005))".toList

/-- A negative angle, one position with a negative zero and two positions are read back, each up to its end. -/
theorem numbers_and_positions_read_back_lineArguments :
    (∃ after, (Compile.number true).run (sessionBefore "0 - 15.25)".toList ⟨.integer, "0", .first⟩) =
      .ok (some (-15.25)) after ∧ after.Before ⟨1, 10⟩ ")".toList) ∧
    (∃ after, (Compile.coordinate true).run (sessionBefore lineArguments ⟨.mark .openParen, "(", .first⟩) =
      .ok (some ⟨"coord", -70.5, 0.0⟩) after ∧ after.Before ⟨1, 14⟩ ", (1, 0 - 0.0005))".toList) ∧
    ∃ after, (Compile.coordinates true 1).run (sessionBefore lineArguments ⟨.mark .openParen, "(", .first⟩) =
        .ok [some ⟨"coord", -70.5, 0.0⟩, some ⟨"coord", 1, -0.0005⟩] after ∧
      after.Before ⟨1, 31⟩ ")".toList := by
  obtain ⟨hnumber, hposition, hpositions, _⟩ := numbers_and_positions_read_back true
  have hvalues : plain (-15.25) = -15.25 ∧ plain (-70.5) = -70.5 ∧ plain (-0.0) = 0.0 ∧ plain 1 = 1 ∧
      plain (-0.0005) = -0.0005 := by decide +kernel
  obtain ⟨hangle, hwest, hzero, hone, hsouth⟩ := hvalues
  refine ⟨?_, ?_, ?_⟩
  · obtain ⟨text, _, ht, _, _, hf⟩ := hnumber (-15.25) (by decide +kernel)
    have hs : (Script.number (-15.25)).toOption = some "0 - 15.25" := by decide +kernel
    rw [ht] at hs
    cases hs
    obtain ⟨after, hr, hb, _⟩ := hf _ .first ")".toList ⟨.mark .closeParen, ")", ⟨1, 10⟩⟩
      (before_sessionBefore "0 - 15.25)".toList ⟨.integer, "0", .first⟩
        (by decide +kernel) (by decide +kernel)) (by decide +kernel) ⟨separate_cons rfl _, rfl⟩
    rw [hangle] at hr
    exact ⟨after, hr, hb⟩
  · obtain ⟨text, ht, hf⟩ := hposition ⟨-0.0, -70.5⟩ ⟨by decide +kernel, by decide +kernel⟩
    have hs : (Script.coordinate ⟨-0.0, -70.5⟩).toOption = some "(0 - 70.5, 0)" := by decide +kernel
    rw [ht] at hs
    cases hs
    obtain ⟨after, hr, hb, _⟩ := hf _ .first ", (1, 0 - 0.0005))".toList ⟨.mark .comma, ",", ⟨1, 14⟩⟩
      (before_sessionBefore lineArguments ⟨.mark .openParen, "(", .first⟩
        (by decide +kernel) (by decide +kernel)) (by decide +kernel) True.intro
    rw [hwest, hzero] at hr
    exact ⟨after, hr, hb⟩
  · obtain ⟨texts, ht, hf⟩ := hpositions ⟨-0.0, -70.5⟩ [⟨-0.0005, 1⟩] (by
      simp only [List.forall_mem_cons, LatLon.Finite]
      decide +kernel)
    have hs : (([⟨-0.0, -70.5⟩, ⟨-0.0005, 1⟩] : List LatLon).mapM Script.coordinate).toOption =
        some ["(0 - 70.5, 0)", "(1, 0 - 0.0005)"] := by decide +kernel
    rw [ht] at hs
    cases hs
    obtain ⟨after, hr, hb, _⟩ := hf _ .first ")".toList ⟨.mark .closeParen, ")", ⟨1, 31⟩⟩
      (before_sessionBefore lineArguments ⟨.mark .openParen, "(", .first⟩
        (by decide +kernel) (by decide +kernel)) (by decide +kernel) True.intro
    rw [List.map_cons, List.map_singleton, hwest, hzero, hone, hsouth] at hr
    exact ⟨after, hr, hb⟩

end Cityscape
