import Cityscape.Proofs.Drawing

/-!
# Watching conditionals

A compilation can be watched: a counter is raised while the branches of a conditional are read and lowered when
they have been left, with a result or with a fault, and it alone decides whether a conditional is too deep. What
happens to conditionals and to their blocks is noted. Watching changes nothing: a script compiles to the same,
although its readers are not told how deep conditionals may still be nested. And what is noted is in order.
-/

namespace Cityscape

open Syntax (Group)

variable {α β σ : Type}

/-! ### Events -/

/-- What happens to conditionals. -/
inductive Event where
  /-- A conditional is entered at a token, while the counter stands at `depth`. -/
  | enters (token : Token) (depth : Nat)
  /-- The branches of a conditional begin to be read. -/
  | begins
  /-- A block of a conditional is opened by its brace. -/
  | opens
  /-- A block of a conditional is closed by its brace. -/
  | closes
  /-- The branches of a conditional have been left, with a result or with a fault. -/
  | ends
  /-- A conditional is left, with a result or with a fault; the counter stood at `before` and now at `after`. -/
  | leaves (before after : Nat)
  deriving DecidableEq, Repr

/-- Whether a conditional is entered. -/
def Event.isEnters : Event → Bool
  | enters .. => true
  | _ => false

/-- Whether a conditional is left. -/
def Event.isLeaves : Event → Bool
  | leaves .. => true
  | _ => false

/-- All conditionals that are entered are left, and no others. -/
def Event.Balanced (events : List Event) : Prop :=
  events.countP isEnters = events.countP isLeaves ∧
    ∀ front, front <+: events → front.countP isLeaves ≤ front.countP isEnters

/-- How many conditionals have been entered and not left, have their branches read, and have a block open. -/
structure Standing where
  inside : Nat
  branches : Nat
  blocks : Nat

/--
What an event that is in order makes of a standing. A conditional is entered while the counter stands at the number
of open blocks, no branches begin inside as many as there may be, and the counter is left as it was when the
conditional was entered.
-/
inductive Event.Step : Standing → Event → Standing → Prop where
  | enters {depth : Nat} (token : Token) (h : depth ≤ deepestNesting) :
    Step ⟨depth, depth, depth⟩ (.enters token depth) ⟨depth + 1, depth, depth⟩
  | begins {depth : Nat} (h : depth < deepestNesting) :
    Step ⟨depth + 1, depth, depth⟩ .begins ⟨depth + 1, depth + 1, depth⟩
  | opens {depth : Nat} : Step ⟨depth + 1, depth + 1, depth⟩ .opens ⟨depth + 1, depth + 1, depth + 1⟩
  | closes {depth : Nat} : Step ⟨depth + 1, depth + 1, depth + 1⟩ .closes ⟨depth + 1, depth + 1, depth⟩
  | ends {depth blocks : Nat} : Step ⟨depth + 1, depth + 1, blocks⟩ .ends ⟨depth + 1, depth, blocks⟩
  | leaves {depth blocks : Nat} : Step ⟨depth + 1, depth, blocks⟩ (.leaves depth depth) ⟨depth, depth, blocks⟩

/-- What events make of a standing, if all of them are in order. -/
inductive Event.Steps : Standing → List Event → Standing → Prop where
  | nil {standing : Standing} : Steps standing [] standing
  | cons {standing between after : Standing} {event : Event} {events : List Event}
    (h : Step standing event between) (hs : Steps between events after) : Steps standing (event :: events) after

namespace Event.Steps

variable {standing between after : Standing} {events events' : List Event}

private theorem append (h : Steps standing events between) (h' : Steps between events' after) :
    Steps standing (events ++ events') after := by
  induction h with
  | nil => exact h'
  | cons h _ ih => exact .cons h (ih h')

private theorem concat {event : Event} (h : Steps standing events between) (h' : Step between event after) :
    Steps standing (events ++ [event]) after :=
  h.append (.cons h' .nil)

/-- Events can be parted anywhere. -/
theorem of_append (h : Steps standing (events ++ events') after) :
    ∃ between, Steps standing events between ∧ Steps between events' after := by
  induction events generalizing standing with
  | nil => exact ⟨standing, .nil, h⟩
  | cons event events ih =>
    cases h with
    | cons h hs =>
      obtain ⟨between, hs, hs'⟩ := ih hs
      exact ⟨between, .cons h hs, hs'⟩

/-- What was entered was left, what has begun has ended, and what was opened was closed, or it still stands. -/
theorem count_eq (h : Steps standing events after) :
    standing.inside + events.countP isEnters = after.inside + events.countP isLeaves ∧
      standing.branches + events.count .begins = after.branches + events.count .ends ∧
      standing.blocks + events.count .opens = after.blocks + events.count .closes := by
  induction h with
  | nil => exact ⟨rfl, rfl, rfl⟩
  | cons h _ ih =>
    cases h <;> simp [List.countP_cons, isEnters, isLeaves] at ih ⊢ <;> omega

/-- There are never more branches begun than there may be. -/
theorem branches_le (h : Steps standing events after) (hs : standing.branches ≤ deepestNesting) :
    after.branches ≤ deepestNesting := by
  induction h with
  | nil => exact hs
  | cons h _ ih =>
    apply ih
    cases h with
    | begins h => exact h
    | ends => exact Nat.le_of_succ_le hs
    | enters | opens | closes | leaves => exact hs

/--
Where fewer conditionals stand entered than before, one was left with the counter at their number. Until then more
stood entered than that.
-/
theorem exists_leaves (h : Steps standing events after) {depth : Nat} (hs : depth < standing.inside)
    (ha : after.inside ≤ depth) :
    ∃ inner rest, events = inner ++ .leaves depth depth :: rest ∧
      standing.inside + inner.countP isEnters = depth + 1 + inner.countP isLeaves ∧
      ∀ front, front <+: inner → depth + front.countP isLeaves < standing.inside + front.countP isEnters := by
  induction h with
  | nil => omega
  | @cons standing next after event events h _ ih =>
    have hc := (Steps.cons h .nil).count_eq.1
    by_cases hi : depth < next.inside
    · obtain ⟨inner, rest, rfl, hinner, hfront⟩ := ih hi ha
      refine ⟨event :: inner, rest, rfl, ?_, fun front hf ↦ ?_⟩
      · simp only [List.countP_cons, List.countP_nil] at hc ⊢
        omega
      · rcases List.prefix_cons_iff.mp hf with rfl | ⟨front', rfl, hf'⟩
        · exact hs
        · have hlt := hfront front' hf'
          simp only [List.countP_cons, List.countP_nil] at hc ⊢
          omega
    · -- only leaving lowers the number
      cases h with
      | leaves =>
        dsimp only at hs hi
        obtain rfl : depth = _ := Nat.le_antisymm (Nat.le_of_lt_succ hs) (Nat.le_of_not_lt hi)
        refine ⟨[], events, rfl, rfl, fun front hf ↦ ?_⟩
        rw [List.prefix_nil.mp hf]
        exact Nat.lt_succ_self _
      | enters | begins | opens | closes | ends =>
        dsimp only at hs hi
        omega

end Event.Steps

/-! ### Watched readers -/

/-- The counter and what has happened so far. -/
structure Watch where
  depth : Nat := 0
  events : List Event := []

/-- A step of a compilation that is watched. -/
abbrev Watched := EStateM Fault (Session × Watch)

namespace Watched

/-- A step in which there is nothing to watch. -/
def plain (read : Compile α) : Watched α := fun (session, watch) ↦
  match read.run session with
  | .ok a after => .ok a (after, watch)
  | .error fault after => .error fault (after, watch)

/-- Notes an event. -/
def emit (event : Event) : Watched Unit :=
  modify fun (session, watch) ↦ (session, { watch with events := watch.events ++ [event] })

/-- The counter. -/
def depth : Watched Nat := do
  return (← get).2.depth

/--
Reads after one change of what is watched and makes another change afterwards, also if there is a fault. The second
change may depend on what there was before the first.
-/
def around (enter : Session → Watch → Watch) (leave : Watch → Watch → Watch) (read : Watched α) : Watched α :=
  fun (session, watch) ↦
    match read.run (session, enter session watch) with
    | .ok a (after, watch') => .ok a (after, leave watch watch')
    | .error fault (after, watch') => .error fault (after, leave watch watch')

/-- Reads with the counter raised by one. -/
def raised (read : Watched α) : Watched α :=
  around (fun _ watch ↦ ⟨watch.depth + 1, watch.events ++ [.begins]⟩)
    (fun _ watch ↦ ⟨watch.depth - 1, watch.events ++ [.ends]⟩) read

/-- Notes what the counter is before and after reading. -/
def noted (read : Watched α) : Watched α :=
  around (fun session watch ↦ ⟨watch.depth, watch.events ++ [.enters session.current watch.depth]⟩)
    (fun before after ↦ ⟨after.depth, after.events ++ [.leaves before.depth after.depth]⟩) read

/-- Repeats a step for as long as it gives something to go on with, `limit` times at most. -/
def iterate (step : σ → Watched (Option σ)) : Nat → σ → Watched σ
  | 0, state => pure state
  | limit + 1, state => do
    match ← step state with
    | some next => iterate step limit next
    | none => pure state

/-- Repeats a step for as long as it gives something to go on with and tokens are left. -/
def many (step : σ → Watched (Option σ)) (state : σ) : Watched σ := do
  iterate step ((← get).1.ahead.length + 2) state

/-- The operations between two braces. -/
def branch (body : Watched Unit) : Watched Unit := do
  plain (Compile.expectMark .openBrace)
  emit .opens
  body
  plain (Compile.expectMark .closeBrace)
  emit .closes

/-- The branches of a conditional whose condition holds or not. -/
def branches (active : Bool) (body : Bool → Watched Unit) (holds : Bool) : Watched Unit := do
  branch (body (active && holds))
  if (← plain Compile.peek) = .keyword .otherwise then
    let _ ← plain Compile.advance
    branch (body (active && !holds))

/-- A conditional with its keyword; the counter decides whether it is too deep. -/
def conditional (active : Bool) (body : Bool → Watched Unit) : Watched Unit := noted do
  let keyword ← plain (Compile.expectWord .onlyIf)
  if deepestNesting ≤ (← depth) then plain (Compile.refuse .deepConditional keyword)
  let holds ← plain (Compile.condition active keyword)
  raised (branches active body holds)

/-- One operation, if one comes next. -/
def operation (level : Level) (active : Bool) (body : Bool → Watched Unit) : Watched (Option Unit) := do
  match ← plain Compile.peek with
  | .keyword .declareString => some <$> plain (Compile.declareString level active)
  | .keyword .declareInt => some <$> plain (Compile.declareInt level active)
  | .keyword .declareDouble => some <$> plain (Compile.declareDouble level active)
  | .keyword .declareCoordinate => some <$> plain (Compile.declareCoordinate level active)
  | .keyword .onlyIf => some <$> conditional active body
  | _ => pure none

variable (beyond : Level → Bool → Watched Unit)

/--
All operations that come next. Where they are nested more than `bound` deep, anything at all may be done instead of
reading them: the counter does not let it come to that.
-/
def operations (level : Level) : Nat → Bool → Watched Unit
  | 0, active => beyond level active
  | bound + 1, active => many (fun _ ↦ operation level active (operations level bound)) ()

/-- A whole element of a kind. -/
def element (kind : ElementKind) : Watched Unit := do
  let keyword ← plain (Compile.expectWord kind.word)
  let name ← plain Compile.expectString
  plain (Compile.expectMark .openBrace)
  plain (Compile.modifyScopes Scopes.clearElement)
  operations beyond .element (deepestNesting + 1) true
  let element ← plain (kind.content name)
  plain (Compile.expectMark .closeBrace)
  plain (Compile.complete element keyword.position.line)
  plain (Compile.modifyScopes Scopes.clearElement)

/-- An element of the group, if one comes next. -/
def groupElement (group : Group) (next : ElementKind → σ → σ) (state : σ) : Watched (Option σ) := do
  match group.element? (← plain Compile.peek) with
  | some kind =>
    element beyond kind
    return some (next kind state)
  | none => return none

/-- The streets and institutions of a city. -/
def mandatoryElements : Watched Unit := do
  let start ← plain Compile.current
  match ← many (groupElement beyond .mandatory Compile.Mandatory.seeing) {} with
  | ⟨false, false⟩ => plain (Compile.unexpected .mandatoryElement)
  | ⟨true, true⟩ => pure ()
  | _ => plain (Compile.refuse .incompleteCity start)

/-- A whole script. -/
def city : Watched City := do
  let _ ← plain (Compile.expectWord .city)
  let name ← plain Compile.expectString
  plain (Compile.expectMark .openBrace)
  let token ← plain Compile.current
  plain (Compile.note token.position.line ("city \"" ++ name ++ "\""))
  operations beyond .city (deepestNesting + 1) true
  mandatoryElements beyond
  many (fun _ ↦ groupElement beyond .optional (fun _ _ ↦ ()) ()) ()
  plain (Compile.expectMark .closeBrace)
  let _ ← plain (Compile.expect .finish)
  let (session, _) ← get
  return session.city name

end Watched

/-- Compiles a source and watches its conditionals. -/
def watch (beyond : Level → Bool → Watched Unit) (capacity : Nat) (source : Source) : Compilation × Watch :=
  match (scan source).begins (.empty capacity) with
  | .error fault => (⟨.error fault, [], [], .empty capacity⟩, {})
  | .ok first =>
    match (Watched.city beyond).run (first, {}) with
    | .ok city (session, watch) => (session.compilation (.ok city), watch)
    | .error fault (session, watch) => (session.compilation (.error fault), watch)

/-! ### Watching changes nothing -/

/--
A watched reader that does the same as a plain one `inside` so many conditionals, while the counter stands at `depth`
and `blocks` are open. It leaves all conditionals that it enters and the counter where it was, and what happens is in
order; if it succeeds then `blocks'` are open.
-/
def Watches (inside depth blocks blocks' : Nat) (watched : Watched α) (read : Compile α) : Prop :=
  ∀ session events, ∃ new,
    match read.run session with
    | .ok a after => Event.Steps ⟨inside, depth, blocks⟩ new ⟨inside, depth, blocks'⟩ ∧
      watched.run (session, ⟨depth, events⟩) = .ok a (after, ⟨depth, events ++ new⟩)
    | .error fault after => (∃ left, Event.Steps ⟨inside, depth, blocks⟩ new ⟨inside, depth, left⟩) ∧
      watched.run (session, ⟨depth, events⟩) = .error fault (after, ⟨depth, events ++ new⟩)

namespace Watches

variable {inside depth blocks blocks' blocks'' : Nat} {watched : Watched α} {read : Compile α}

/-- A reader with nothing to watch. -/
theorem plain (read : Compile α) : Watches inside depth blocks blocks (Watched.plain read) read := by
  intro session events
  refine ⟨[], ?_⟩
  rw [List.append_nil]
  cases hr : read.run session with
  | ok a after => exact ⟨.nil, by simp only [EStateM.run, Watched.plain] at hr ⊢; rw [hr]⟩
  | error fault after => exact ⟨⟨blocks, .nil⟩, by simp only [EStateM.run, Watched.plain] at hr ⊢; rw [hr]⟩

/-- Readers in sequence. -/
theorem bind {next : α → Compile β} {watched' : α → Watched β}
    (h : Watches inside depth blocks blocks' watched read)
    (h' : ∀ a, Watches inside depth blocks' blocks'' (watched' a) (next a)) :
    Watches inside depth blocks blocks'' (watched >>= watched') (read >>= next) := by
  intro session events
  obtain ⟨new, hn⟩ := h session events
  cases hr : read.run session with
  | error fault after =>
    rw [hr] at hn
    obtain ⟨hs, hw⟩ := hn
    refine ⟨new, ?_⟩
    rw [run_bind_of_error hr]
    exact ⟨hs, run_bind_of_error hw⟩
  | ok a between =>
    rw [hr] at hn
    obtain ⟨hs, hw⟩ := hn
    obtain ⟨new', hn'⟩ := h' a between (events ++ new)
    refine ⟨new ++ new', ?_⟩
    rw [run_bind_of_ok hr, run_bind_of_ok hw, ← List.append_assoc]
    split at hn'
    · exact ⟨hs.append hn'.1, hn'.2⟩
    · obtain ⟨⟨left, hl⟩, hw'⟩ := hn'
      exact ⟨⟨left, hs.append hl⟩, hw'⟩

/-- Nothing is read. -/
theorem pure (a : α) : Watches inside depth blocks blocks (Pure.pure a) (Pure.pure a) :=
  fun _ events ↦ ⟨[], .nil, by rw [List.append_nil]; rfl⟩

private theorem map {f : α → β} (h : Watches inside depth blocks blocks' watched read) :
    Watches inside depth blocks blocks' (f <$> watched) (f <$> read) := by
  rw [map_eq_pure_bind, map_eq_pure_bind]
  exact h.bind fun a ↦ pure (f a)

private theorem emit {event : Event} (h : Event.Step ⟨inside, depth, blocks⟩ event ⟨inside, depth, blocks'⟩) :
    Watches inside depth blocks blocks' (Watched.emit event) (Pure.pure ()) :=
  fun _ _ ↦ ⟨[event], .cons h .nil, rfl⟩

private theorem emit_bind {event : Event} (h : Event.Step ⟨inside, depth, blocks⟩ event ⟨inside, depth, blocks'⟩)
    (h' : Watches inside depth blocks' blocks'' watched read) :
    Watches inside depth blocks blocks'' (Watched.emit event >>= fun _ ↦ watched) read :=
  (emit h).bind fun _ ↦ h'

private theorem refuse {cause : Cause} {token : Token} {watched : α → Watched β} :
    Watches inside depth blocks blocks' (Watched.plain (Compile.refuse cause token) >>= watched)
      (Compile.refuse cause token) :=
  fun _ _ ↦ ⟨[], ⟨blocks, .nil⟩, by rw [List.append_nil]; rfl⟩

private theorem counter {watched : Nat → Watched α} (h : Watches inside depth blocks blocks' (watched depth) read) :
    Watches inside depth blocks blocks' (Watched.depth >>= watched) read :=
  h

private theorem around {inside' depth' : Nat} {first : Session → Event} {last : Event} {enter : Session → Watch → Watch}
    {leave : Watch → Watch → Watch}
    (he : ∀ session events, enter session ⟨depth, events⟩ = ⟨depth', events ++ [first session]⟩)
    (hl : ∀ events events', leave ⟨depth, events⟩ ⟨depth', events'⟩ = ⟨depth, events' ++ [last]⟩)
    (hf : ∀ session, Event.Step ⟨inside, depth, blocks⟩ (first session) ⟨inside', depth', blocks⟩)
    (hs : ∀ left, Event.Step ⟨inside', depth', left⟩ last ⟨inside, depth, left⟩)
    (h : Watches inside' depth' blocks blocks watched read) :
    Watches inside depth blocks blocks (Watched.around enter leave watched) read := by
  intro session events
  obtain ⟨new, hn⟩ := h session (events ++ [first session])
  have ha : events ++ [first session] ++ new ++ [last] = events ++ (first session :: new ++ [last]) := by
    simp only [List.append_assoc, List.cons_append, List.nil_append]
  refine ⟨first session :: new ++ [last], ?_⟩
  simp only [EStateM.run, Watched.around, he] at hn ⊢
  split at hn
  · obtain ⟨hn, hw⟩ := hn
    simp only [hw, hl, ha, and_true]
    exact .cons (hf session) (hn.concat (hs _))
  · obtain ⟨⟨left, hn⟩, hw⟩ := hn
    simp only [hw, hl, ha, and_true]
    exact ⟨left, .cons (hf session) (hn.concat (hs left))⟩

private theorem raised (hd : depth < deepestNesting) (h : Watches (depth + 1) (depth + 1) depth depth watched read) :
    Watches (depth + 1) depth depth depth (Watched.raised watched) read :=
  around (fun _ _ ↦ rfl) (fun _ _ ↦ rfl) (fun _ ↦ .begins hd) (fun _ ↦ .ends) h

private theorem noted (hd : depth ≤ deepestNesting) (h : Watches (depth + 1) depth depth depth watched read) :
    Watches depth depth depth depth (Watched.noted watched) read :=
  around (fun _ _ ↦ rfl) (fun _ _ ↦ rfl) (fun session ↦ .enters session.current hd) (fun _ ↦ .leaves) h

private theorem iterate {step : σ → Watched (Option σ)} {step' : σ → Compile (Option σ)}
    (h : ∀ state, Watches inside depth blocks blocks (step state) (step' state)) (limit : Nat) (state : σ) :
    Watches inside depth blocks blocks (Watched.iterate step limit state) (Compile.iterate step' limit state) := by
  induction limit generalizing state with
  | zero => exact pure state
  | succ limit ih =>
    rw [Watched.iterate, Compile.iterate]
    apply (h state).bind
    intro next
    cases next with
    | some next => exact ih next
    | none => exact pure state

private theorem many {step : σ → Watched (Option σ)} {step' : σ → Compile (Option σ)}
    (h : ∀ state, Watches inside depth blocks blocks (step state) (step' state)) (state : σ) :
    Watches inside depth blocks blocks (Watched.many step state) (Compile.many step' state) :=
  fun session events ↦ iterate h (session.ahead.length + 2) state session events

end Watches

/-! ### Operations -/

variable {depth : Nat} {active : Bool} {level : Level}

private theorem branch_watches {body : Watched Unit} {body' : Compile Unit}
    (h : Watches (depth + 1) (depth + 1) (depth + 1) (depth + 1) body body') :
    Watches (depth + 1) (depth + 1) depth depth (Watched.branch body) (Compile.branch body') := by
  have hc : Watches (depth + 1) (depth + 1) (depth + 1) depth
      (Watched.plain (Compile.expectMark .closeBrace) >>= fun _ ↦ Watched.emit .closes)
      (Compile.expectMark .closeBrace) := by
    have he := (Watches.plain (Compile.expectMark .closeBrace)).bind fun _ ↦
      Watches.emit (@Event.Step.closes depth)
    rwa [bind_pure_unit] at he
  apply (Watches.plain _).bind
  intro _
  apply Watches.emit_bind .opens
  exact h.bind fun _ ↦ hc

private theorem branches_watches {body : Bool → Watched Unit} {body' : Bool → Compile Unit}
    (h : ∀ taken, Watches (depth + 1) (depth + 1) (depth + 1) (depth + 1) (body taken) (body' taken))
    (holds : Bool) :
    Watches (depth + 1) (depth + 1) depth depth (Watched.branches active body holds)
      (Compile.branches active body' holds) := by
  apply (branch_watches (h _)).bind
  intro _
  apply (Watches.plain _).bind
  intro kind
  split
  · exact (Watches.plain _).bind fun _ ↦ branch_watches (h _)
  · exact .pure ()

private theorem conditional_watches {body : Bool → Watched Unit} (hd : depth ≤ deepestNesting)
    (h : ∀ taken, depth < deepestNesting → Watches (depth + 1) (depth + 1) (depth + 1) (depth + 1) (body taken)
      (Compile.operations level (deepestNesting - (depth + 1)) taken)) :
    Watches depth depth depth depth (Watched.conditional active body)
      (Compile.expectWord .onlyIf >>= Compile.nested active level (deepestNesting - depth)) := by
  apply Watches.noted hd
  apply (Watches.plain _).bind
  intro keyword
  apply Watches.counter
  split
  next hf =>
    rw [Nat.sub_eq_zero_of_le hf]
    exact .refuse
  next hf =>
    obtain ⟨room, hr⟩ : ∃ room, deepestNesting - depth = room + 1 := ⟨deepestNesting - (depth + 1), by omega⟩
    have hb : deepestNesting - (depth + 1) = room := by omega
    rw [hb] at h
    rw [hr, Compile.nested, Compile.conditional_eq]
    apply (Watches.plain _).bind
    intro holds
    exact .raised (by omega) (branches_watches (fun taken ↦ h taken (by omega)) holds)

private theorem operation_watches {body : Bool → Watched Unit} (hd : depth ≤ deepestNesting)
    (h : ∀ taken, depth < deepestNesting → Watches (depth + 1) (depth + 1) (depth + 1) (depth + 1) (body taken)
      (Compile.operations level (deepestNesting - (depth + 1)) taken)) :
    Watches depth depth depth depth (Watched.operation level active body)
      (Compile.operation level active (Compile.nested active level (deepestNesting - depth))) := by
  apply (Watches.plain _).bind
  intro kind
  cases kind with
  | keyword word =>
    cases word with
    | declareString | declareInt | declareDouble | declareCoordinate => exact (Watches.plain _).map
    | onlyIf => exact (conditional_watches hd h).map
    | _ => exact .pure none
  | _ => exact .pure none

variable {beyond : Level → Bool → Watched Unit}

/--
Operations, with as much room for conditionals as the counter leaves. What is done beyond the bound does not
matter: by induction on the bound, which stays above what the counter lets happen.
-/
theorem operations_watches {bound : Nat} (hd : depth ≤ deepestNesting) (hb : deepestNesting < bound + depth) :
    Watches depth depth depth depth (Watched.operations beyond level bound active)
      (Compile.operations level (deepestNesting - depth) active) := by
  induction bound generalizing depth active with
  | zero => omega
  | succ bound ih =>
    rw [Compile.operations_eq]
    apply Watches.many
    intro _
    exact operation_watches hd fun taken hl ↦ ih hl (by omega)

/-! ### Elements and cities -/

private theorem element_watches (kind : ElementKind) : Watches 0 0 0 0 (Watched.element beyond kind) kind.read := by
  apply (Watches.plain _).bind
  intro keyword
  apply (Watches.plain _).bind
  intro name
  apply (Watches.plain _).bind
  intro _
  apply (Watches.plain _).bind
  intro _
  apply (operations_watches (Nat.zero_le _) (Nat.lt_succ_self _)).bind
  intro _
  apply (Watches.plain _).bind
  intro element
  apply (Watches.plain _).bind
  intro _
  apply (Watches.plain _).bind
  intro _
  exact .plain _

private theorem groupElement_watches (group : Group) (next : ElementKind → σ → σ) (state : σ) :
    Watches 0 0 0 0 (Watched.groupElement beyond group next state) (Compile.groupElement group next state) := by
  apply (Watches.plain _).bind
  intro kind
  cases group.element? kind with
  | some kind => exact (element_watches kind).bind fun _ ↦ .pure _
  | none => exact .pure none

private theorem mandatoryElements_watches :
    Watches 0 0 0 0 (Watched.mandatoryElements beyond) Compile.mandatoryElements := by
  have hm : Compile.mandatoryElement = Compile.groupElement .mandatory Compile.Mandatory.seeing :=
    funext Compile.mandatoryElement_eq
  apply (Watches.plain _).bind
  intro start
  rw [hm]
  apply (Watches.many (groupElement_watches .mandatory Compile.Mandatory.seeing) {}).bind
  rintro ⟨_ | _, _ | _⟩
  · exact .plain _
  · exact .plain _
  · exact .plain _
  · exact .pure ()

private theorem city_watches : Watches 0 0 0 0 (Watched.city beyond) Compile.city := by
  apply (Watches.plain _).bind
  intro _
  apply (Watches.plain _).bind
  intro name
  apply (Watches.plain _).bind
  intro _
  apply (Watches.plain _).bind
  intro token
  apply (Watches.plain _).bind
  intro _
  apply (operations_watches (Nat.zero_le _) (Nat.lt_succ_self _)).bind
  intro _
  apply mandatoryElements_watches.bind
  intro _
  rw [Compile.optionalElement_eq]
  apply (Watches.many (fun _ ↦ groupElement_watches .optional (fun _ _ ↦ ()) ()) ()).bind
  intro _
  apply (Watches.plain _).bind
  intro _
  apply (Watches.plain _).bind
  intro _ session events
  exact ⟨[], .nil, by rw [List.append_nil]; rfl⟩

/-- Watching a source comes to the same as compiling it, and what happens is in order. -/
theorem watch_eq (beyond : Level → Bool → Watched Unit) (capacity : Nat) (source : Source) :
    ∃ events left, Event.Steps ⟨0, 0, 0⟩ events ⟨0, 0, left⟩ ∧
      watch beyond capacity source = (compile capacity source, ⟨0, events⟩) := by
  rw [watch, compile]
  cases hb : (scan source).begins (.empty capacity) with
  | error fault =>
    rw [Scan.compile_of_begins_error hb]
    exact ⟨[], 0, .nil, rfl⟩
  | ok first =>
    obtain ⟨events, hw⟩ := @city_watches beyond first []
    rw [Scan.compile_of_begins hb]
    split at hw
    next city after hr =>
      obtain ⟨hs, hw⟩ := hw
      refine ⟨events, 0, hs, ?_⟩
      simp only [hr]
      rw [show (Watched.city beyond).run (first, {}) = _ from hw]
      rfl
    next fault after hr =>
      obtain ⟨⟨left, hs⟩, hw⟩ := hw
      refine ⟨events, left, hs, ?_⟩
      simp only [hr]
      rw [show (Watched.city beyond).run (first, {}) = _ from hw]
      rfl

end Cityscape
