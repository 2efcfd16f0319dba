import Cityscape.Proofs.Watch

/-!
# Conditionals that are too deep

What stands before the first conditional that is too deep is a part of the script in its own right: operations
that break off, at some place inside of all the conditionals that are open there. The script is refused for its
nesting exactly if there is such a conditional and what stands before it can be performed, whichever branches are
taken.
-/

namespace Cityscape

open Evaluate (value ensure note declare clearElement complete)

variable {α β : Type}

/-! ### Other faults -/

/-- Strings may hold anything, and scripts may be refused for anything but the nesting of conditionals. -/
def Standard.shallow : Standard where
  text _ := True
  cause cause := cause ≠ .deepConditional
  undefined _ _ := Cause.noConfusion
  longExpression := Cause.noConfusion
  incompleteCity := Cause.noConfusion

/-- A step that is not refused for the nesting of conditionals. -/
abbrev Shallow (evaluate : Evaluate α) : Prop :=
  evaluate.Keeps .shallow fun _ ↦ True

private theorem Standard.reads_shallow (tokens : List Token) : Standard.shallow.Reads tokens :=
  fun _ _ _ ↦ True.intro

private theorem Shallow.cause_ne {evaluate : Evaluate α} (h : Shallow evaluate) {work after : Work} {fault : Fault}
    (hr : evaluate.run work = .error fault after) : fault.cause ≠ .deepConditional := by
  have htext (scope : Scope) : scope.Holds Standard.shallow.text := fun _ _ ↦ True.intro
  have hw : work.Holds Standard.shallow.text :=
    ⟨⟨htext _, htext _⟩, fun element _ ↦ by cases element.properties <;> simp [Properties.Holds, Standard.shallow]⟩
  have hs := h work hw
  rw [hr] at hs
  exact hs

namespace Syntax

/-! ### Conditionals in reading order -/

/-- The conditionals among operations in reading order, each with the number of those around it. -/
def Operations.conditionals (enclosing : Nat) : Operations → List (Nat × Token)
  | done => []
  | declare _ rest => rest.conditionals enclosing
  | conditional condition _ yes _ rest =>
    (enclosing, condition.keyword.1) :: (yes.conditionals (enclosing + 1) ++ rest.conditionals enclosing)
  | alternative condition _ yes _ _ _ no _ rest =>
    (enclosing, condition.keyword.1) :: (yes.conditionals (enclosing + 1) ++ (no.conditionals (enclosing + 1) ++
      rest.conditionals enclosing))

/-- The conditionals of an element. -/
def Element.conditionals {group : Group} (element : Element group) : List (Nat × Token) :=
  element.operations.conditionals 0

/-- The conditionals of a city. -/
def City.conditionals (city : City) : List (Nat × Token) :=
  city.operations.conditionals 0 ++
    (city.required.flatMap Element.conditionals ++ city.optional.flatMap Element.conditionals)

/-- Whether a conditional stands inside as many others as may be open. -/
def tooDeep (conditional : Nat × Token) : Bool :=
  deepestNesting ≤ conditional.1

/--
The operations up to the first conditional that is too deep, if there is one. They break off inside of the blocks
that are open there.
-/
def Operations.before (enclosing : Nat) : Operations → Option Operations
  | done => none
  | declare declaration rest => (rest.before enclosing).map (declare declaration)
  | conditional condition opening yes closing rest =>
    if deepestNesting ≤ enclosing then some done
    else
      match yes.before (enclosing + 1) with
      | some yes => some (conditional condition opening yes closing done)
      | none => (rest.before enclosing).map (conditional condition opening yes closing)
  | alternative condition opening yes closing otherwise opening' no closing' rest =>
    if deepestNesting ≤ enclosing then some done
    else
      match yes.before (enclosing + 1), no.before (enclosing + 1) with
      | some yes, _ => some (conditional condition opening yes closing done)
      | none, some no => some (alternative condition opening yes closing otherwise opening' no closing' done)
      | none, none =>
        (rest.before enclosing).map (alternative condition opening yes closing otherwise opening' no closing')

/-- What is performed of elements up to the first conditional that is too deep, if there is one. -/
def elementsBefore {group : Group} : List (Element group) → Option (Evaluate Unit)
  | [] => none
  | element :: rest =>
    match element.operations.before 0 with
    | some before => some (do
      clearElement
      before.perform .element 0)
    | none => (elementsBefore rest).map fun before ↦ do
      element.perform
      before

/-- The record of a city. -/
def City.heading (city : City) : Evaluate Unit :=
  note (city.body.headD city.closing).position.line ("city \"" ++ city.name.1.unquoted ++ "\"")

/-- What is performed of a city up to the first conditional that is too deep, if there is one. -/
def City.before (city : City) : Option (Evaluate Unit) :=
  match city.operations.before 0, elementsBefore city.required with
  | some before, _ => some (do
    city.heading
    before.perform .city 0)
  | none, some before => some (do
    city.heading
    city.operations.perform .city 0
    before)
  | none, none => (elementsBefore city.optional).map fun before ↦ do
    city.heading
    city.operations.perform .city 0
    city.required.forM Element.perform
    ensure city.check
    before

/-! ### Breaking off -/

/-- Refuses a conditional for its nesting. -/
def refuseNesting (keyword : Token) : Evaluate α :=
  throw ⟨.deepConditional, keyword.position⟩

/--
What comes before the first of some conditionals that is too deep. If there is none, the whole is not refused for
its nesting; if there is one, the whole comes to it where what is before can be performed, which is not refused
for its nesting either.
-/
inductive BreaksOff (found : List (Nat × Token)) : Option (Evaluate Unit) → Evaluate α → Prop where
  | never {whole : Evaluate α} (hf : found.find? tooDeep = none) (h : Shallow whole) : BreaksOff found none whole
  | once {before : Evaluate Unit} {whole : Evaluate α} {enclosing : Nat} {keyword : Token}
    (hf : found.find? tooDeep = some (enclosing, keyword)) (h : Shallow before)
    (he : whole = before >>= fun _ ↦ refuseNesting keyword) : BreaksOff found (some before) whole

namespace BreaksOff

variable {found found' : List (Nat × Token)}

private theorem prepend [Inhabited α] {first : Evaluate α} {next : α → Evaluate β} (h : Shallow first)
    (before : Option (α → Evaluate Unit)) (h' : ∀ a, BreaksOff found (before.map (· a)) (next a)) :
    BreaksOff found (before.map fun before ↦ first >>= before) (first >>= next) := by
  cases before with
  | none =>
    refine .never ?_ (h.bind fun a _ ↦ ?_)
    · cases h' default with
      | never hf => exact hf
    · cases h' a with
      | never _ hs => exact hs
  | some before =>
    obtain ⟨⟨enclosing, keyword⟩, hf⟩ : ∃ deep, found.find? tooDeep = some deep := by
      cases h' default with
      | once hf => exact ⟨_, hf⟩
    refine .once hf (h.bind fun a _ ↦ ?_) ?_
    · cases h' a with
      | once _ hs => exact hs
    · rw [bind_assoc]
      refine bind_congr fun a ↦ ?_
      cases h' a with
      | once hf' _ he =>
        cases hf.symm.trans hf'
        exact he

/-- Something whose result nobody looks at is performed first. -/
theorem prepend_unit {first : Evaluate Unit} {before : Option (Evaluate Unit)} {next : Evaluate β}
    (h : Shallow first) (h' : BreaksOff found before next) :
    BreaksOff found (before.map fun before ↦ do first; before) (do first; next) := by
  cases before with
  | none => exact prepend h none fun _ ↦ h'
  | some before => exact prepend h (some fun _ ↦ before) fun _ ↦ h'

/-- What comes behind a conditional that is too deep does not matter. -/
theorem once_bind {before : Evaluate Unit} {first : Evaluate Unit} {next : Evaluate β}
    (h : BreaksOff found (some before) first) : BreaksOff (found ++ found') (some before) (do first; next) := by
  cases h with
  | @once _ _ enclosing keyword hf hs he =>
    refine .once (by rw [List.find?_append, hf]; rfl) hs ?_
    rw [he, bind_assoc]
    rfl

private theorem never_bind {first : Evaluate Unit} {before : Option (Evaluate Unit)} {next : Evaluate β}
    (h : BreaksOff found none first) (h' : BreaksOff found' before next) :
    BreaksOff (found ++ found') (before.map fun before ↦ do first; before) (do first; next) := by
  cases h with
  | never hf hs =>
    have hp := h'.prepend_unit hs
    cases hp' : before.map fun before ↦ (do first; before : Evaluate Unit) with
    | none =>
      rw [hp'] at hp
      cases hp with
      | never hf' hs' => exact .never (by rw [List.find?_append, hf, hf']; rfl) hs'
    | some before =>
      rw [hp'] at hp
      cases hp with
      | once hf' hs' he => exact .once (by rw [List.find?_append, hf, hf']; rfl) hs' he

private theorem followed {before : Option (Evaluate Unit)} {first : Evaluate Unit} {next : Evaluate β}
    (h : BreaksOff found before first) (hn : Shallow next) : BreaksOff found before (do first; next) := by
  cases h with
  | never hf hs => exact .never hf (hs.bind fun _ _ ↦ hn)
  | once hf hs he =>
    have ho : BreaksOff (found ++ []) (some _) (do first; next) := (once hf hs he).once_bind
    rwa [List.append_nil] at ho

private theorem cons {before : Option (Evaluate Unit)} {whole : Evaluate α} {conditional : Nat × Token}
    (hd : tooDeep conditional = false) (h : BreaksOff found before whole) :
    BreaksOff (conditional :: found) before whole := by
  cases h with
  | never hf hs => exact .never (by rw [List.find?_cons, hd]; exact hf) hs
  | once hf hs he => exact .once (by rw [List.find?_cons, hd]; exact hf) hs he

end BreaksOff

private theorem Condition.breaksOff (condition : Condition) (active : Bool) {enclosing : Nat}
    (hd : ¬ deepestNesting ≤ enclosing) {found : List (Nat × Token)} (before : Option (Bool → Evaluate Unit))
    {next : Bool → Evaluate Unit} (h : ∀ holds, BreaksOff found (before.map (· holds)) (next holds)) :
    BreaksOff ((enclosing, condition.keyword.1) :: found)
      (before.map fun before ↦ do
        ensure (condition.enter enclosing)
        let holds ← condition.act active
        before holds)
      (do
        ensure (condition.enter enclosing)
        let holds ← condition.act active
        next holds) := by
  have he : condition.enter enclosing = .ok () := if_neg hd
  have hp := (BreaksOff.prepend (condition.keeps active) before h).prepend_unit
    (@Evaluate.Keeps.ensure .shallow (.ok ()) True.intro)
  rw [Option.map_map] at hp
  rw [he]
  exact hp.cons (decide_eq_false hd)

private theorem Condition.breaksOff_here (condition : Condition) (active : Bool) (level : Level) {enclosing : Nat}
    (hd : deepestNesting ≤ enclosing) (found : List (Nat × Token)) (next : Bool → Evaluate Unit) :
    BreaksOff ((enclosing, condition.keyword.1) :: found) (some (Operations.done.act active level enclosing))
      (do
        ensure (condition.enter enclosing)
        let holds ← condition.act active
        next holds) := by
  have he : condition.enter enclosing = .error ⟨.deepConditional, condition.keyword.1.position⟩ := if_pos hd
  have hn : Operations.done.act active level enclosing = pure () := by cases active <;> rfl
  rw [he, hn]
  have hf : ((enclosing, condition.keyword.1) :: found).find? tooDeep = some (enclosing, condition.keyword.1) := by
    rw [List.find?_cons, show tooDeep (enclosing, condition.keyword.1) = true from decide_eq_true hd]
  exact .once hf (.pure True.intro) rfl

private theorem Operations.breaksOff (operations : Operations) (active : Bool) (level : Level) (enclosing : Nat) :
    BreaksOff (operations.conditionals enclosing)
      ((operations.before enclosing).map fun before ↦ before.act active level enclosing)
      (operations.act active level enclosing) := by
  have hdone (active : Bool) (enclosing : Nat) : done.act active level enclosing = pure () := by
    cases active <;> rfl
  induction operations generalizing active enclosing with
  | done =>
    rw [hdone]
    exact .never rfl (.pure True.intro)
  | declare declaration rest ih =>
    have hp := (ih active enclosing).prepend_unit (declaration.keeps active level (Standard.reads_shallow _))
    rw [Option.map_map] at hp
    rw [act_declare, before, Option.map_map]
    have he : (fun before : Operations ↦ before.act active level enclosing) ∘ declare declaration =
        fun before ↦ (do
          declaration.act active level
          before.act active level enclosing) := funext fun _ ↦ act_declare ..
    rwa [he]
  | conditional condition opening yes closing rest ihyes ih =>
    rw [act_conditional, before]
    split
    next hd => exact condition.breaksOff_here active level hd _ _
    next hd =>
      have hy (holds : Bool) := ihyes (active && holds) (enclosing + 1)
      cases hb : yes.before (enclosing + 1) with
      | some before =>
        simp only [hb, Option.map_some, act_conditional, hdone, bind_pure_unit] at hy ⊢
        exact condition.breaksOff active hd (some _) fun holds ↦ (hy holds).once_bind
      | none =>
        simp only [hb, Option.map_none, Option.map_map, Function.comp_def, act_conditional] at hy ⊢
        have hr := condition.breaksOff active hd ((rest.before enclosing).map fun before holds ↦ do
          yes.act (active && holds) level (enclosing + 1)
          before.act active level enclosing) fun holds ↦ by
            have hn := (hy holds).never_bind (ih active enclosing)
            rw [Option.map_map] at hn ⊢
            exact hn
        rwa [Option.map_map] at hr
  | alternative condition opening yes closing otherwise opening' no closing' rest ihyes ihno ih =>
    rw [act_alternative, before]
    split
    next hd => exact condition.breaksOff_here active level hd _ _
    next hd =>
      have hy (holds : Bool) := ihyes (active && holds) (enclosing + 1)
      have hn (holds : Bool) := ihno (active && !holds) (enclosing + 1)
      cases hb : yes.before (enclosing + 1) with
      | some before =>
        simp only [hb, Option.map_some, act_conditional, hdone, bind_pure_unit] at hy ⊢
        exact condition.breaksOff active hd (some _) fun holds ↦ (hy holds).once_bind
      | none =>
        cases hb' : no.before (enclosing + 1) with
        | some before =>
          simp only [hb, hb', Option.map_none, Option.map_some, act_alternative, hdone, bind_pure_unit] at hy hn ⊢
          exact condition.breaksOff active hd (some _) fun holds ↦ (hy holds).never_bind (hn holds).once_bind
        | none =>
          simp only [hb, hb', Option.map_none, Option.map_map, Function.comp_def, act_alternative] at hy hn ⊢
          have hr := condition.breaksOff active hd ((rest.before enclosing).map fun before holds ↦ do
            yes.act (active && holds) level (enclosing + 1)
            no.act (active && !holds) level (enclosing + 1)
            before.act active level enclosing) fun holds ↦ by
              have hr := (hy holds).never_bind ((hn holds).never_bind (ih active enclosing))
              rw [Option.map_map, Option.map_map] at hr
              rw [Option.map_map]
              exact hr
          rwa [Option.map_map] at hr

private theorem Element.shallow_tail {group : Group} (element : Element group) : Shallow (do
    let completed ← value (element.content.evaluate element.name.1.unquoted)
    complete completed element.keyword.1.position.line
    clearElement) := by
  apply (Evaluate.Keeps.value fun _ hs ↦
    element.content.allowed (Standard.reads_shallow _) hs True.intro).bind
  intro _ he
  exact (Evaluate.Keeps.complete he _).bind fun _ _ ↦ .clearElement

private theorem elements_breaksOff {group : Group} (elements : List (Element group)) :
    BreaksOff (elements.flatMap Element.conditionals) (elementsBefore elements)
      (elements.forM Element.perform) := by
  induction elements with
  | nil => exact .never rfl (.pure True.intro)
  | cons element elements ih =>
    have ho := ((element.operations.breaksOff true .element 0).prepend_unit .clearElement).followed
      element.shallow_tail
    rw [List.flatMap_cons, elementsBefore]
    change BreaksOff _ _ (element.perform >>= fun _ ↦ elements.forM Element.perform)
    have he : element.perform = ((do
        clearElement
        element.operations.act true .element 0) >>= fun _ ↦ do
          let completed ← value (element.content.evaluate element.name.1.unquoted)
          complete completed element.keyword.1.position.line
          clearElement) := rfl
    rw [← he] at ho
    cases hb : element.operations.before 0 with
    | some before =>
      rw [hb] at ho
      exact ho.once_bind
    | none =>
      rw [hb] at ho
      exact ho.never_bind ih

private theorem City.breaksOff (city : City) : BreaksOff city.conditionals city.before city.perform := by
  have ho := city.operations.breaksOff true .city 0
  have hr := elements_breaksOff city.required
  have hl : Shallow (do
      let work ← get
      return City.ofElements city.name.1.unquoted work.elements work.scopes) :=
    fun _ hw ↦ ⟨True.intro, hw⟩
  have hp := ((elements_breaksOff city.optional).followed hl).prepend_unit (.ensure city.allowed_check)
  have hh : Shallow city.heading := .note _ _
  rw [conditionals, before]
  cases hb : city.operations.before 0 with
  | some before =>
    rw [hb] at ho
    exact BreaksOff.prepend_unit hh ho.once_bind
  | none =>
    rw [hb] at ho
    cases hb' : elementsBefore city.required with
    | some before =>
      rw [hb'] at hr
      exact BreaksOff.prepend_unit hh (ho.never_bind hr.once_bind)
    | none =>
      rw [hb'] at hr
      have hw := BreaksOff.prepend_unit hh (ho.never_bind (hr.never_bind hp))
      simp only [Option.map_map] at hw
      exact hw

private theorem City.evaluation_eq_error_iff (city : City) (fault : Fault) :
    city.evaluation.result = .error fault ↔ ∃ work, city.perform.run {} = .error fault work := by
  unfold evaluation
  cases city.perform.run {} with
  | ok result work => exact ⟨nofun, nofun⟩
  | error fault' work => simp

/--
A city is refused for its nesting exactly if there is a conditional that is too deep and what stands before the
first one can be performed, and it is refused there.
-/
private theorem City.evaluation_eq_deepConditional_iff (city : City) (position : Position) :
    city.evaluation.result = .error ⟨.deepConditional, position⟩ ↔
      ∃ enclosing keyword before work, city.conditionals.find? tooDeep = some (enclosing, keyword) ∧
        position = keyword.position ∧ city.before = some before ∧ before.run {} = .ok () work := by
  rw [evaluation_eq_error_iff]
  have h := city.breaksOff
  generalize city.before = found, city.perform = whole at h
  cases h with
  | never hf hs =>
    constructor
    · rintro ⟨work, hr⟩
      exact absurd rfl (hs.cause_ne hr)
    · rintro ⟨_, _, _, _, _, _, hb, _⟩
      cases hb
  | @once before _ enclosing keyword hf hs he =>
    subst he
    cases hr : before.run {} with
    | ok _ work =>
      rw [run_bind_of_ok hr]
      constructor
      · rintro ⟨_, he⟩
        cases he
        exact ⟨enclosing, keyword, before, work, hf, rfl, rfl, hr⟩
      · rintro ⟨enclosing', keyword', _, _, hf', rfl, _, _⟩
        cases hf.symm.trans hf'
        exact ⟨work, rfl⟩
    | error fault work =>
      rw [run_bind_of_error hr]
      constructor
      · rintro ⟨_, he⟩
        cases he
        exact absurd rfl (hs.cause_ne hr)
      · rintro ⟨_, _, _, _, _, _, hb, hr'⟩
        cases hb
        cases hr.symm.trans hr'

end Syntax

/-! ### The main result -/

/--
The nesting of conditionals is bounded. Whatever the source is, watching it changes nothing, and this is seen: a
conditional is entered with the counter at the number of blocks of conditionals that are open, and never above the
deepest nesting; it is left, whether there is a fault or not, with the counter as it was; and the branches of no
more conditionals are being read than may be. If the source is acceptable, it has a tree, and it is refused for its
nesting exactly if a conditional stands inside as many others as may be open and all that stands before the first
such conditional can be performed; then it is refused there.
-/
theorem nesting_bounded (beyond : Level → Bool → Watched Unit) (capacity : Nat) (source : Source) :
    (∃ events, watch beyond capacity source = (compile capacity source, ⟨0, events⟩) ∧
      (∀ before token depth after, events = before ++ .enters token depth :: after →
        before.count .opens = before.count .closes + depth ∧ depth ≤ deepestNesting ∧
          ∃ inner rest, after = inner ++ .leaves depth depth :: rest ∧ Event.Balanced inner) ∧
      ∀ before, before <+: events → before.count .begins ≤ before.count .ends + deepestNesting) ∧
    ∀ tokens, tokenize source = .ok tokens → Grammar.Accepts (tokens.map Token.kind) →
      (∃ (city : Syntax.City) (last : Token), tokens = city.tokens ++ [last]) ∧
      ∀ (city : Syntax.City) (last : Token), tokens = city.tokens ++ [last] → ∀ position,
        (compile capacity source).result = .error ⟨.deepConditional, position⟩ ↔
          ∃ enclosing keyword before work, city.conditionals.find? Syntax.tooDeep = some (enclosing, keyword) ∧
            position = keyword.position ∧ city.before = some before ∧ before.run {} = .ok () work := by
  constructor
  · obtain ⟨events, left, hs, hw⟩ := watch_eq beyond capacity source
    refine ⟨events, hw, ?_, ?_⟩
    · rintro before token depth after rfl
      obtain ⟨between, hb, ha⟩ := hs.of_append
      have hcount := hb.count_eq.2.2
      cases ha with
      | cons h ha =>
        cases h with
        | enters _ hd =>
          obtain ⟨inner, rest, he, hinner, hfront⟩ := ha.exists_leaves (Nat.lt_succ_self depth) (Nat.zero_le depth)
          dsimp only at hcount hinner hfront
          refine ⟨by omega, hd, inner, rest, he, by omega, fun front hf ↦ ?_⟩
          have := hfront front hf
          omega
    · rintro before ⟨after, rfl⟩
      obtain ⟨between, hb, _⟩ := hs.of_append
      have hcount := hb.count_eq.2.1
      have hle := hb.branches_le (Nat.zero_le _)
      dsimp only at hcount
      omega
  · intro tokens ht ha
    refine ⟨?_, ?_⟩
    · obtain ⟨city, last, he⟩ := Syntax.City.exists_of_accepts ha
      exact ⟨city, last, he⟩
    · rintro city last rfl position
      rw [compile_eq_compilation ht capacity]
      exact city.evaluation_eq_deepConditional_iff position

/-- A script with conditionals inside of another one, in both of its branches. -/
def terracedScript : Source :=
  ("city \"A\"\x7bcoordinate p=(1,2)if(1<2)\x7bif(2<1)\x7b\x7d\x7delse\x7bif(2<1)\x7b\x7delse\x7b\x7d\x7d"
    ++ "street \"S\"\x7bbend(p,p,5)line(p,p)\x7d"
    ++ "institution \"I\"\x7baddress=\"B\"events=3 block(p,p,p,p)\x7d\x7d").toList

/-- A script with conditionals one inside the other, all but the first in a branch that is not taken. -/
def steepScript (height : Nat) : Source :=
  "city \"A\"\x7bif(1<1)\x7b".toList ++ (List.replicate height "if(a<a)\x7b".toList).flatten ++
    List.replicate height '\x7d' ++
    ("\x7dstreet \"S\"\x7bbend((1,2),(3,4),5)line((1,2),(3,4))\x7d"
      ++ "institution \"I\"\x7baddress=\"B\"events=3 block((1,2),(3,4),(5,6),(7,8))\x7d\x7d").toList

private theorem exists_tokenize_steepScript :
    ∃ tokens, tokenize (steepScript deepestNesting) = .ok tokens ∧ Grammar.Accepts (tokens.map Token.kind) := by
  have h : (tokenize (steepScript deepestNesting)).toOption.any (fun tokens ↦
      Grammar.derives [.symbol .script] (tokens.map Token.kind) 10000) = true := by
    decide +kernel
  cases ht : tokenize (steepScript deepestNesting) with
  | ok tokens =>
    rw [ht] at h
    exact ⟨tokens, rfl, Grammar.derives_sound h⟩
  | error fault =>
    rw [ht] at h
    cases h

/--
The terraced script has a tree, which is not refused for its nesting. The steep one is refused at its innermost
conditional, which stands inside of as many others as may be open, and what stands before it can be performed.
-/
theorem nesting_bounded_terracedScript :
    (∃ (city : Syntax.City) (last : Token), tokenize terracedScript = .ok (city.tokens ++ [last]) ∧
      ∀ enclosing keyword before work, city.conditionals.find? Syntax.tooDeep = some (enclosing, keyword) →
        city.before = some before → before.run {} ≠ .ok () work) ∧
    ∃ (city : Syntax.City) (last : Token), tokenize (steepScript deepestNesting) = .ok (city.tokens ++ [last]) ∧
      ∃ enclosing keyword before work, city.conditionals.find? Syntax.tooDeep = some (enclosing, keyword) ∧
        keyword.position = ⟨1, 18 + 8 * 255⟩ ∧ city.before = some before ∧ before.run {} = .ok () work := by
  constructor
  · have h : ((tokenize terracedScript).isOk && (compile 4 terracedScript).result.isOk) = true := by
      decide +kernel
    obtain ⟨hi, hi'⟩ := Bool.and_eq_true_iff.mp h
    cases ht : tokenize terracedScript with
    | error fault =>
      rw [ht] at hi
      cases hi
    | ok tokens =>
      cases hc : (compile 4 terracedScript).result with
      | error fault =>
        rw [hc] at hi'
        cases hi'
      | ok result =>
        obtain ⟨⟨city, last, rfl⟩, hn⟩ :=
          (nesting_bounded (fun _ _ ↦ pure ()) 4 terracedScript).2 _ ht (accepts_of_compile ht hc)
        refine ⟨city, last, rfl, fun enclosing keyword before work hf hb hr ↦ ?_⟩
        have hd := (hn city last rfl keyword.position).mpr ⟨enclosing, keyword, before, work, hf, rfl, hb, hr⟩
        cases hc.symm.trans hd
  · obtain ⟨tokens, ht, ha⟩ := exists_tokenize_steepScript
    obtain ⟨⟨city, last, rfl⟩, hn⟩ :=
      (nesting_bounded (fun _ _ ↦ pure ()) 4 (steepScript deepestNesting)).2 tokens ht ha
    have hc : (match (compile 4 (steepScript deepestNesting)).result with
        | .ok _ => false
        | .error fault => fault == ⟨.deepConditional, ⟨1, 18 + 8 * 255⟩⟩) = true := by
      decide +kernel
    cases hr : (compile 4 (steepScript deepestNesting)).result with
    | ok result =>
      rw [hr] at hc
      cases hc
    | error fault =>
      rw [hr] at hc
      obtain rfl := beq_iff_eq.mp hc
      obtain ⟨enclosing, keyword, before, work, hf, hp, hb, hw⟩ := (hn city last rfl _).mp hr
      exact ⟨city, last, ht, enclosing, keyword, before, work, hf, hp.symm, hb, hw⟩

end Cityscape
