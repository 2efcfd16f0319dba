import Cityscape.Proofs.Evaluation

/-!
# Reading tokens as evaluating a tree

A compilation step *follows* an evaluation step on some tokens if, whatever was done before and whatever
tokens come next, it goes past exactly these tokens and does what the evaluation does. Following is kept
by sequencing, so a whole rule follows its tree as soon as each of its parts does.
-/

namespace Cityscape

variable {α β γ δ : Type}

/-- The journal after some more records. -/
def Journal.recordAll (journal : Journal) (records : List Record) : Journal :=
  records.foldl (fun journal record ↦ journal.record record.line record.message) journal

/-- Recording one more is recording it last. -/
theorem Journal.recordAll_append_singleton (journal : Journal) (records : List Record)
    (record : Record) :
    journal.recordAll (records ++ [record]) =
      (journal.recordAll records).record record.line record.message := by
  rw [recordAll, List.foldl_append]
  rfl

/-- The journal that a compilation keeps of an evaluation. -/
def Work.journal (work : Work) (capacity : Nat) : Journal :=
  (Journal.empty capacity).recordAll work.records

/-- A compilation that has done this work and has these tokens and then the last one ahead of it. -/
def Work.session (work : Work) (capacity : Nat) (last : Token) (tokens : List Token) : Session where
  current := tokens.headD last
  ahead := tokens.tail
  ending := .finish last
  scopes := work.scopes
  elements := work.elements
  features := work.elements.map Element.feature
  journal := work.journal capacity

/-- A token whose lexeme, if it is a number, can be read as one. -/
def Token.Legible (token : Token) : Prop :=
  token.kind = .integer ∨ token.kind = .double →
    Decimal.read? token.lexeme = some (Syntax.numeral token.lexeme)

variable {capacity : Nat} {last : Token}

/--
Reading `tokens` with `rest` behind them does what an evaluation does. Their results agree as `agree`
says, and a fault leaves the same elements and the same journal behind.
-/
def Follows (capacity : Nat) (last : Token) (agree : α → β → Prop) (read : Compile α)
    (tokens rest : List Token) (evaluate : Evaluate β) : Prop :=
  (∀ token ∈ tokens, token.Legible) → ∀ work, match evaluate.run work with
    | .ok b after => ∃ a, agree a b ∧
      read.run (work.session capacity last (tokens ++ rest)) = .ok a (after.session capacity last rest)
    | .error fault after => ∃ session,
      read.run (work.session capacity last (tokens ++ rest)) = .error fault session ∧
        session.elements = after.elements ∧ session.features = after.elements.map Element.feature ∧
          session.journal = after.journal capacity

/-- Results that nobody looks at agree. -/
def Ignored (_ : α) (_ : β) : Prop := True

namespace Follows

variable {agree : α → β → Prop} {agree' : γ → δ → Prop} {tokens tokens' rest : List Token}

/-- A step that reads nothing follows one that does nothing. -/
theorem pure {a : α} {b : β} (h : agree a b) :
    Follows capacity last agree (Pure.pure a) [] rest (Pure.pure b) :=
  fun _ _ ↦ ⟨a, h, rfl⟩

/-- Two steps in sequence follow two evaluations in sequence. -/
theorem bind {read : Compile α} {read' : α → Compile γ} {evaluate : Evaluate β}
    {evaluate' : β → Evaluate δ}
    (h : Follows capacity last agree read tokens (tokens' ++ rest) evaluate)
    (h' : ∀ a b, agree a b → Follows capacity last agree' (read' a) tokens' rest (evaluate' b)) :
    Follows capacity last agree' (read >>= read') (tokens ++ tokens') rest (evaluate >>= evaluate') := by
  intro legible work
  have hw := h (fun token ht ↦ legible token (List.mem_append_left _ ht)) work
  rw [List.append_assoc]
  simp only [EStateM.run, Bind.bind, EStateM.bind] at hw ⊢
  cases he : evaluate work with
  | ok b after =>
    rw [he] at hw
    obtain ⟨a, ha, hr⟩ := hw
    rw [hr]
    exact h' a b ha (fun token ht ↦ legible token (List.mem_append_right _ ht)) after
  | error fault after =>
    rw [he] at hw
    obtain ⟨session, hr, hs⟩ := hw
    rw [hr]
    exact ⟨session, rfl, hs⟩

/-- A result may be changed on both sides. -/
theorem map {read : Compile α} {evaluate : Evaluate β} {f : α → γ} {g : β → δ}
    (h : Follows capacity last agree read tokens rest evaluate)
    (hf : ∀ a b, agree a b → agree' (f a) (g b)) :
    Follows capacity last agree' (f <$> read) tokens rest (g <$> evaluate) := by
  have hb : Follows capacity last agree' (read >>= fun a ↦ Pure.pure (f a)) (tokens ++ []) rest
      (evaluate >>= fun b ↦ Pure.pure (g b)) :=
    h.bind fun a b hab ↦ .pure (hf a b hab)
  rwa [List.append_nil, bind_pure_comp, bind_pure_comp] at hb

variable {read : Compile γ} {evaluate : Evaluate δ}

/-- The first token may be taken to be legible. -/
theorem legible {token : Token}
    (h : token.Legible → Follows capacity last agree' read (token :: tokens) rest evaluate) :
    Follows capacity last agree' read (token :: tokens) rest evaluate :=
  fun legible ↦ h (legible token List.mem_cons_self) legible

/-- Going past a token and then following. -/
theorem advance {read : Token → Compile γ} (token : Token)
    (h : Follows capacity last agree' (read token) tokens rest evaluate) :
    Follows capacity last agree' (Compile.advance >>= read) (token :: tokens) rest evaluate := by
  intro legible work
  have hw := h (fun t ht ↦ legible t (List.mem_cons_of_mem _ ht)) work
  have hs : Compile.advance.run (work.session capacity last (token :: (tokens ++ rest))) =
      .ok token (work.session capacity last (tokens ++ rest)) := by
    cases tokens ++ rest <;> rfl
  simp only [EStateM.run, Bind.bind, EStateM.bind, List.cons_append] at hs hw ⊢
  rw [hs]
  exact hw

/-- Looking at the token ahead and then following. -/
theorem current {read : Token → Compile γ}
    (h : Follows capacity last agree' (read ((tokens ++ rest).headD last)) tokens rest evaluate) :
    Follows capacity last agree' (Compile.current >>= read) tokens rest evaluate :=
  h

/-- Looking at the kind of the token ahead and then following. -/
theorem peek {read : Kind → Compile γ}
    (h : Follows capacity last agree' (read ((tokens ++ rest).headD last).kind) tokens rest evaluate) :
    Follows capacity last agree' (Compile.peek >>= read) tokens rest evaluate :=
  h

/-- Going past a token of the right kind and then following. -/
theorem leaf {kind : Kind} {read : Token → Compile γ} (leaf : Syntax.Leaf kind)
    (h : Follows capacity last agree' (read leaf) tokens rest evaluate) :
    Follows capacity last agree' (Compile.expect kind >>= read) (leaf.1 :: tokens) rest evaluate := by
  have hp : Follows capacity last agree' ((if leaf.1.kind = kind then Compile.advance
      else Compile.unexpected (.kind kind)) >>= read) (leaf.1 :: tokens) rest evaluate := by
    rw [if_pos leaf.2]
    exact h.advance leaf.1
  exact hp

/-- Going past a mark and then following. -/
theorem sign {mark : Mark} {read : Unit → Compile γ} (sign : Syntax.Sign mark)
    (h : Follows capacity last agree' (read ()) tokens rest evaluate) :
    Follows capacity last agree' (Compile.expectMark mark >>= read) (sign.1 :: tokens) rest evaluate := by
  rw [Compile.expectMark, bind_assoc]
  simp only [pure_bind]
  exact h.leaf sign

/-- Going past a mark at the end. -/
theorem closing {mark : Mark} (sign : Syntax.Sign mark) :
    Follows capacity last Ignored (Compile.expectMark mark) [sign.1] rest (Pure.pure ()) := by
  have h : Follows capacity last Ignored (Compile.expectMark mark >>= fun _ ↦ Pure.pure ()) [sign.1]
      rest (Pure.pure ()) :=
    .sign sign (.pure True.intro)
  rwa [bind_pure] at h

/-- Refusing the script, whatever tokens are left. -/
theorem refuse {cause : Cause} {token : Token} :
    Follows capacity last agree' (Compile.refuse cause token) tokens rest
      (throw ⟨cause, token.position⟩) :=
  fun _ _ ↦ ⟨_, rfl, rfl, rfl, rfl⟩

/-- A note is kept in the journal. -/
theorem note (line : Nat) (message : String) :
    Follows capacity last Ignored (Compile.note line message) [] rest (Evaluate.note line message) := by
  intro _ work
  refine ⟨(), True.intro, ?_⟩
  have hj : (work.journal capacity).record line message =
      (Journal.empty capacity).recordAll (work.records ++ [⟨line, message⟩]) := by
    rw [Journal.recordAll_append_singleton, Work.journal]
  change EStateM.Result.ok () { work.session capacity last rest with
    journal := (work.journal capacity).record line message } = _
  rw [hj]
  rfl

/-- Variables change in the same way. -/
theorem modifyScopes (change : Scopes → Scopes) :
    Follows capacity last Ignored (Compile.modifyScopes change) [] rest
      (modify fun work ↦ { work with scopes := change work.scopes }) :=
  fun _ _ ↦ ⟨(), True.intro, rfl⟩

end Follows

end Cityscape
