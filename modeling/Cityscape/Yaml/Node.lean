import Std.Data.HashMap
import Cityscape.Yaml.Scanner

/-!
# YAML documents

A text holds at most one document, which is a scalar, a sequence or a mapping. An alias stands for a node with an
anchor and is followed only when somebody asks what it stands for, so a node may hold an alias of itself.
-/

namespace Cityscape.Yaml

/-- A value. -/
inductive Node where
  | scalar (text : String) (style : ScalarStyle) (tag : Option String)
  | sequence (items : List Node)
  | mapping (entries : List (Node × Node))
  /-- An alias, with the number of its anchor. -/
  | alias (number : Nat)
  deriving Repr

/-- What stands where nothing is written. -/
def Node.missing : Node := .scalar "" .plain none

/--
The anchors of a document. The number of an anchor is how many names were in use before it, so a name that is used
again shares its number with the next new name. A number belongs to the last node that began with it.
-/
structure Anchors where
  /-- The numbers of the names in use. -/
  names : Std.HashMap String Nat := ∅
  /-- How many nodes with an anchor have begun. -/
  begun : Nat := 0
  /-- The owners of the numbers, the last one first. -/
  owners : List (Nat × Nat) := []
  /-- The nodes with an anchor that have ended, by their place among those that have begun. -/
  nodes : List (Nat × Node) := []

namespace Anchors

/-- Begins a node with an anchor; its place among the nodes that have begun is given too. -/
def start (anchors : Anchors) (name : String) : Nat × Anchors :=
  let number := anchors.names.size
  (anchors.begun,
    { anchors with
      names := anchors.names.insert name number
      begun := anchors.begun + 1
      owners := (number, anchors.begun) :: anchors.owners })

/-- Ends the node that began at a place. -/
def finish (anchors : Anchors) (place : Nat) (node : Node) : Anchors :=
  { anchors with nodes := (place, node) :: anchors.nodes }

/-- The node that a number belongs to. -/
def get? (anchors : Anchors) (number : Nat) : Option Node := do
  anchors.nodes.lookup (← anchors.owners.lookup number)

end Anchors

/-- The document of a text. -/
structure Document where
  root : Node
  anchors : Anchors

/-- The text that handles of tags stand for unless a directive says something else. -/
def defaultHandles : List (String × String) :=
  [("!", "!"), ("!!", "tag:yaml.org,2002:")]

/-- The tokens still to be read, what handles stand for, and the anchors met so far. -/
structure Assembly where
  rest : List Token
  /-- The number of tokens, which bounds every repetition. -/
  size : Nat
  handles : List (String × String) := defaultHandles
  anchors : Anchors := {}

/-- A step of putting nodes together. -/
abbrev Assemble := StateT Assembly Option

/-- Where a node stands. -/
inductive Context where
  /-- Inside a flow collection. -/
  | flow
  /-- A block, the root or an item of a block sequence. -/
  | block
  /-- A key or a value of a block mapping, where a sequence may stand at the column of its key. -/
  | entry
  deriving DecidableEq, Repr

namespace Assemble

/-- The next token. -/
def peek? : Assemble (Option Token) := do
  return (← get).rest.head?

/-- Goes past a token. -/
def skip : Assemble Unit :=
  modify fun assembly ↦ { assembly with rest := assembly.rest.drop 1 }

/-- Goes past a token that has to come. -/
def expect (token : Token) : Assemble Unit := do
  if (← peek?) = some token then skip else failure

/-- Goes past a token if it comes, and tells whether it did. -/
def accept (token : Token) : Assemble Bool := do
  if (← peek?) = some token then
    skip
    return true
  else return false

/-- Whether one of these tokens comes. -/
def at? (tokens : List Token) : Assemble Bool := do
  return (← peek?).any tokens.contains

/-- A node, unless one of these tokens shows that none is written. -/
def optional (node : Assemble Node) (stops : List Token) : Assemble Node := do
  if ← at? stops then return .missing else node

/-- Repeats a step for as long as it gives something, `limit` times at most. -/
def collect {α : Type} (step : Bool → Assemble (Option α)) : Nat → Bool → Assemble (List α)
  | 0, _ => failure
  | limit + 1, first => do
    match ← step first with
    | some item => return item :: (← collect step limit false)
    | none => return []

/-- Repeats a step for as long as it gives something; it is told whether it is the first. -/
def many {α : Type} (step : Bool → Assemble (Option α)) : Assemble (List α) := do
  collect step ((← get).size + 2) true

/-- The items of a block sequence, up to the end of the block. -/
def blockItems (node : Assemble Node) : Assemble (List Node) :=
  many fun _ ↦ do
    if ← accept .blockEntry then some <$> optional node [.blockEntry, .blockEnd]
    else
      expect .blockEnd
      return none

/-- The items of a sequence that stands at the column of its key. -/
def levelItems (node : Assemble Node) : Assemble (List Node) :=
  many fun _ ↦ do
    if ← accept .blockEntry then
      some <$> optional node [.blockEntry, .key, .value, .blockEnd]
    else return none

/-- The entries of a block mapping, up to the end of the block. -/
def blockEntries (node : Assemble Node) : Assemble (List (Node × Node)) :=
  many fun _ ↦ do
    let stops := [Token.key, .value, .blockEnd]
    if ← accept .key then
      let key ← optional node stops
      let value ← if ← accept .value then optional node stops else pure .missing
      return some (key, value)
    else
      expect .blockEnd
      return none

/-- The comma before every item of a flow collection but the first; a last one may stand before the bracket. -/
def separate (first : Bool) (closing : Token) : Assemble Bool := do
  if ← accept closing then return false
  if !first then expect .flowEntry
  return !(← accept closing)

/-- A value in a flow collection, if a colon comes. -/
def flowValue (node : Assemble Node) (closing : Token) : Assemble Node := do
  if ← accept .value then optional node [.flowEntry, closing] else pure .missing

/--
The items of a flow sequence; one with a key is a mapping of one entry. The token that shows a key to be missing
stands for it and is passed.
-/
def flowItems (node : Assemble Node) : Assemble (List Node) :=
  many fun first ↦ do
    let closing := Token.flowSequenceEnd
    if ← separate first closing then
      if ← accept .key then
        let key ← if ← at? [.value, .flowEntry, closing] then do skip; pure .missing else node
        return some (.mapping [(key, ← flowValue node closing)])
      else some <$> node
    else return none

/-- The entries of a flow mapping. -/
def flowEntries (node : Assemble Node) : Assemble (List (Node × Node)) :=
  many fun first ↦ do
    let closing := Token.flowMappingEnd
    if ← separate first closing then
      if ← accept .key then
        let key ← optional node [.value, .flowEntry, closing]
        return some (key, ← flowValue node closing)
      else return some (← node, .missing)
    else return none

/-- An anchor, if one comes. -/
def anchor? : Assemble (Option String) := do
  match ← peek? with
  | some (.anchor name) =>
    skip
    return some name
  | _ => return none

/-- A tag, if one comes, with what its handle stands for; without a handle it is whole. -/
def tag? : Assemble (Option String) := do
  match ← peek? with
  | some (.tag name) =>
    skip
    if name.handle.isEmpty then return some name.suffix
    else match (← get).handles.lookup name.handle with
      | some meaning => return some (meaning ++ name.suffix)
      | none => failure
  | _ => return none

/-- The anchor and the tag of a node, in any order. -/
def properties : Assemble (Option String × Option String) := do
  match ← anchor? with
  | some name => return (some name, ← tag?)
  | none =>
    let tag ← tag?
    return (← if tag.isSome then anchor? else pure none, tag)

/-- The content of a node with a tag; `node` reads what it holds, and a node with properties may be empty. -/
def content (node : Context → Assemble Node) (context : Context) (hasProperties : Bool)
    (tag : Option String) : Assemble Node := do
  let inBlock := context ≠ .flow
  match ← peek? with
  | some (.scalar text style) =>
    skip
    return .scalar text style tag
  | some .flowSequenceStart => skip; return .sequence (← flowItems (node .flow))
  | some .flowMappingStart => skip; return .mapping (← flowEntries (node .flow))
  | some .blockSequenceStart =>
    if inBlock then
      skip
      return .sequence (← blockItems (node .block))
    else empty
  | some .blockMappingStart =>
    if inBlock then
      skip
      return .mapping (← blockEntries (node .entry))
    else empty
  | some .blockEntry =>
    if context = .entry then return .sequence (← levelItems (node .block)) else empty
  | _ => empty
where
  /-- A node without content. -/
  empty : Assemble Node :=
    if hasProperties then return .scalar "" .plain tag else failure

/-- A node, holding others up to `depth` deep. -/
def node : Nat → Context → Assemble Node
  | 0, _ => failure
  | depth + 1, context => do
    match ← peek? with
    | some (.alias name) =>
      skip
      match (← get).anchors.names[name]? with
      | some number => return .alias number
      | none => failure
    | _ =>
      let (name, tag) ← properties
      let content := content (node depth) context (name.isSome || tag.isSome) tag
      match name with
      | none => content
      | some name =>
        let (place, anchors) := (← get).anchors.start name
        modify fun assembly ↦ { assembly with anchors }
        let found ← content
        modify fun assembly ↦ { assembly with anchors := assembly.anchors.finish place found }
        return found

/-- The directives before a document: one version at most, and every handle at most once. -/
def directives : Assemble Unit := do
  let found ← many fun _ ↦ do
    match ← peek? with
    | some token =>
      if token.isDirective then
        skip
        return some token
      else return none
    | none => return none
  let versions := found.filterMap fun
    | .version major minor => some (major, minor)
    | _ => none
  let handles := found.filterMap fun
    | .tagHandle handle meaning => some (handle, meaning)
    | _ => none
  if 1 < versions.length || !versions.all fun (major, minor) ↦ major = 1 && (minor = 1 || minor = 2) then
    failure
  if !(handles.map Prod.fst).Nodup then failure
  modify fun assembly ↦ { assembly with handles := handles ++ defaultHandles }

/-- The root of a document; behind the mark of its start it may be missing. -/
def root : Assemble Node := do
  let depth := (← get).size + 1
  match ← peek? with
  | some token =>
    if token.isDirective || token = .documentStart then
      directives
      expect .documentStart
      match ← peek? with
      | none => return .missing
      | some token =>
        if token.isDirective || token = .documentStart || token = .documentEnd then return .missing
        else node depth .block
    else node depth .block
  | none => failure

/-- The document of a text, or nothing if there is none; marks behind it may end it, and no other may follow. -/
def document : Assemble (Option Document) := do
  if (← peek?).isNone then return none
  let root ← root
  let _ ← many fun _ ↦ do return if ← accept .documentEnd then some () else none
  if (← peek?).isSome then failure
  return some ⟨root, (← get).anchors⟩

end Assemble

/-- The document of a text: `none` when the text is malformed, `some none` when it holds no document. -/
def parse? (text : String) : Option (Option Document) := do
  let tokens ← tokens? text
  let (document, _) ← Assemble.document.run { rest := tokens, size := tokens.length }
  return document

end Cityscape.Yaml
