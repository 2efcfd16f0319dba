import Cityscape.Compile
import Cityscape.Drawing.Trace
import Cityscape.Feature.Text
import Cityscape.Files
import Cityscape.Json.Scaling
import Cityscape.Settings

/-!
# Commands

Compiling a script into a document, turning a document back into a script, and listing the tokens of a script. A
command reads and writes files and reports what is to be printed; it ends with the first failure.
-/

namespace Cityscape

/-- Why a script on file cannot be compiled. Specification, section 10.2. -/
inductive CompileFailure where
  | fault (fault : Fault)
  | access (error : AccessError)

/-- Position, stage and wording on one line; an error of access has no position. -/
def CompileFailure.describe : CompileFailure → String
  | fault f => f.describe
  | access error => "[0:0] Io: " ++ error.message

/-- What compiling a script on file leads to. -/
structure FileCompilation where
  result : Except CompileFailure City
  elements : List Element
  journal : Journal

/-- Why a document on file has no script. Specification, section 10.2. -/
inductive ScriptFailure where
  | fault (fault : Script.Fault)
  | access (error : AccessError)

/-- The wording of a fault of JSON. -/
def describeJson : Json.Fault → String
  | .malformed => "malformed JSON"
  | .truncated => "unexpected end of JSON"
  | .unfit => "not a feature collection"

/-- The wording of a failure. -/
def ScriptFailure.describe : ScriptFailure → String
  | fault (.json f) => "invalid GeoJSON: " ++ describeJson f
  | fault (.shape feature reason) => Script.describeShape feature reason
  | access error => "cannot read document: " ++ error.message

/-- Why settings cannot be read. -/
inductive SettingsFailure where
  | invalid
  | access (error : AccessError)

/-- The wording of a failure. -/
def SettingsFailure.describe : SettingsFailure → String
  | invalid => "invalid settings"
  | access error => error.message

section

variable {m : Type → Type} [Monad m] [Files m]

/-- Compiles a script and writes its document, unless the script is refused. -/
def compileFile (capacity : Nat) (script output : String) : m FileCompilation := do
  match ← Files.read script with
  | .error error => return ⟨.error (.access error), [], .empty capacity⟩
  | .ok bytes =>
    let compilation := compile capacity (.ofBytes bytes)
    let result ← match compilation.result with
      | .error fault => pure (.error (.fault fault))
      | .ok city =>
        match ← Files.writeTextInside output city.document.text with
        | .error error => pure (.error (.access error))
        | .ok () => pure (.ok city)
    return ⟨result, compilation.elements, compilation.journal⟩

/-- The script of a document on file. -/
def scriptFile (options : Script.Options) (document : String) : m (Except ScriptFailure String) := do
  match ← Files.readText document with
  | .error error => return .error (.access error)
  | .ok text =>
    match Script.ofText options text with
    | .error fault => return .error (.fault fault)
    | .ok script => return .ok script

/-- The settings on file; without a file they are as they are. Specification, section 10.4. -/
def loadSettings (path : String) : m (Except SettingsFailure Settings) := do
  if !(← Files.isThere path) then return .ok {}
  match ← Files.readText path with
  | .error error => return .error (.access error)
  | .ok text =>
    match Settings.ofText? text with
    | some settings => return .ok settings
    | none => return .error .invalid

end

/-- A command with its arguments. Specification, section 10.11. -/
inductive Command where
  | compile (script : String) (output config : Option String) (verbose traceDraw : Bool)
  | decompile (document : String) (output config : Option String)
  | tokens (script : String)
  deriving DecidableEq, Repr

/-- What a command prints and the code it ends with. -/
structure Report where
  out : String := ""
  err : String := ""
  code : UInt32 := 0
  deriving DecidableEq, Repr

/-- Lines of text. -/
def unlines (lines : List String) : String :=
  String.join (lines.map (· ++ "\n"))

/-- The same report of a command that failed. -/
def Report.failed (report : Report) (message : String) : Report :=
  { report with err := report.err ++ "error: " ++ message ++ "\n", code := 1 }

/-- The settings file inside a home directory. -/
def settingsPath (home : String) : String :=
  home ++ "/.citygeo/config.yaml"

section

variable {m : Type → Type} [Monad m] [Files m]

/-- Runs what needs settings, unless they cannot be read. -/
def withSettings (home : String) (config : Option String) (run : Settings → m Report) : m Report := do
  match ← loadSettings (config.getD (settingsPath home)) with
  | .error failure => return Report.failed {} ("failed to load config: " ++ failure.describe)
  | .ok settings => run settings

/--
Compiles a script; the journal and the drawing are reported even if it is refused. Specification, section 10.11.
-/
def runCompile (settings : Settings) (script : String) (output : Option String)
    (verbose traceDraw : Bool) : m Report := do
  let output := output.getD settings.output
  let compilation ← compileFile settings.logCapacity.toNat script output
  let strokes := compilation.elements.flatMap (·.strokes settings.projection.project)
  let report : Report := {
    out := if traceDraw then unlines (strokes.map Trace.stroke) else ""
    err := if verbose then unlines compilation.journal.render else "" }
  match compilation.result with
  | .error failure => return report.failed (script ++ ": " ++ failure.describe)
  | .ok city =>
    let summary := "compiled \"" ++ city.name ++ "\": " ++ toString city.features.length
      ++ " features -> " ++ output ++ "\n"
    return { report with out := report.out ++ summary }

/-- Turns a document into a script, which is printed or written. Specification, section 10.11. -/
def runDecompile (settings : Settings) (document : String) (output : Option String) : m Report := do
  match ← scriptFile settings.script document with
  | .error failure => return Report.failed {} (document ++ ": " ++ failure.describe)
  | .ok script =>
    match output with
    | none => return { out := script }
    | some path =>
      match ← Files.write path script.toUTF8 with
      | .ok () => return {}
      | .error error => return Report.failed {} ("failed to write " ++ path ++ ": " ++ error.message)

/-- Lists the tokens of a script. Specification, section 10.11. -/
def runTokens (script : String) : m Report := do
  match ← Files.readText script with
  | .error error => return Report.failed {} ("failed to read " ++ script ++ ": " ++ error.message)
  | .ok text =>
    match tokenize (.ofString text) with
    | .error fault => return Report.failed {} (script ++ ": " ++ (Fault.ofLexical fault).describe)
    | .ok tokens =>
      return { out := unlines (tokens.map fun t ↦ t.kind.name ++ "(\"" ++ t.lexeme ++ "\")") }

/-- Runs a command for a user with this home directory. -/
def Command.run (home : String) : Command → m Report
  | compile script output config verbose traceDraw =>
    withSettings home config fun settings ↦ runCompile settings script output verbose traceDraw
  | decompile document output config =>
    withSettings home config fun settings ↦ runDecompile settings document output
  | tokens script => runTokens script

end

/-- The arguments of a command, sorted out: those without a name, and the options. -/
structure Arguments where
  plain : List String := []
  output : Option String := none
  config : Option String := none
  verbose : Bool := false
  traceDraw : Bool := false

/-- What follows `mark` in an argument. -/
def valueAfter? (mark argument : String) : Option String :=
  if mark.toList.isPrefixOf argument.toList then
    some (String.ofList (argument.toList.drop mark.length))
  else none

/-- Stores the value of an option that has none yet. -/
def Arguments.set? (arguments : Arguments) (isOutput : Bool) (value : String) : Option Arguments :=
  if isOutput then
    if arguments.output.isSome then none else some { arguments with output := some value }
  else
    if arguments.config.isSome then none else some { arguments with config := some value }

/-- Sorts arguments out, or nothing if they are not understood. -/
def Arguments.sort? (sorted : Arguments) : List String → Option Arguments
  | [] => some sorted
  | "--" :: rest => some { sorted with plain := sorted.plain ++ rest }
  | "--verbose" :: rest =>
    if sorted.verbose then none else Arguments.sort? { sorted with verbose := true } rest
  | "--trace-draw" :: rest =>
    if sorted.traceDraw then none else Arguments.sort? { sorted with traceDraw := true } rest
  | argument :: rest =>
    if argument = "-o" ∨ argument = "--output" ∨ argument = "--config" then
      match rest with
      | [] => none
      | value :: rest =>
        if value.toList.head? = some '-' ∧ value ≠ "-" then none
        else do Arguments.sort? (← sorted.set? (argument ≠ "--config") value) rest
    else
      match valueAfter? "--output=" argument, valueAfter? "--config=" argument,
        valueAfter? "-o" argument with
      | some value, _, _ => do Arguments.sort? (← sorted.set? true value) rest
      | none, some value, _ => do Arguments.sort? (← sorted.set? false value) rest
      | none, none, some value =>
        do Arguments.sort? (← sorted.set? true ((valueAfter? "=" value).getD value)) rest
      | none, none, none =>
        if argument.toList.head? = some '-' ∧ argument ≠ "-" then none
        else Arguments.sort? { sorted with plain := sorted.plain ++ [argument] } rest

/-- The command that arguments ask for. -/
def Command.ofArguments? (arguments : List String) : Option Command := do
  match arguments with
  | [] => none
  | word :: rest =>
    let sorted ← Arguments.sort? {} rest
    match word, sorted.plain with
    | "compile", [script] =>
      return .compile script sorted.output sorted.config sorted.verbose sorted.traceDraw
    | "decompile", [document] =>
      if sorted.verbose || sorted.traceDraw then none
      else return .decompile document sorted.output sorted.config
    | "tokens", [script] =>
      if sorted.verbose || sorted.traceDraw || sorted.output.isSome || sorted.config.isSome then none
      else return .tokens script
    | _, _ => none

/-- How the program is called. -/
def usage : String :=
  "usage: citygeo compile <SCRIPT> [-o OUTPUT] [--config CONFIG] [--verbose] [--trace-draw]\n"
    ++ "       citygeo decompile <GEOJSON> [-o OUTPUT] [--config CONFIG]\n"
    ++ "       citygeo tokens <SCRIPT>\n"

/-- Runs what the arguments ask for. -/
def runArguments {m : Type → Type} [Monad m] [Files m] (home : String) (arguments : List String) :
    m Report :=
  match Command.ofArguments? arguments with
  | some command => command.run home
  | none => return { err := usage, code := 2 }

end Cityscape
