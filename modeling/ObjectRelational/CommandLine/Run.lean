import ObjectRelational.CommandLine.Show
import ObjectRelational.Json.Reader
import ObjectRelational.JsonForm.Diagnostic
import ObjectRelational.Settings.File
import ObjectRelational.Workspace.Compile

/-!
# The commands

`check` compiles a workspace document and lists all diagnostics, `show` prints one unit of it. A
command is a function of the files that it reads; what it answers is what it prints and the code
that it exits with.

* `CommandLine.Invocation` is a command with its arguments.
* `CommandLine.run` runs it.
-/

namespace ObjectRelational.CommandLine

/-- How diagnostics are listed. -/
inductive OutputFormat where
  | text
  | json
deriving DecidableEq

/-- A command. -/
inductive Command where
  | check (file : String) (format : OutputFormat)
  | showUnit (file mapping : String)
deriving DecidableEq

/-- A command, and the settings file that is named for it. -/
structure Invocation where
  command : Command
  config : Option String := none
deriving DecidableEq

/-- What a command prints and answers. -/
structure Console where
  exitCode : Nat
  stdout : String := ""
  stderr : String := ""
deriving DecidableEq

/-- The files that can be read, by path. -/
abbrev Files := String → Option String

/-- Lines, each ended. -/
def ended (lines : List String) : String := String.join (lines.map fun line => line ++ "\n")

/-- A command that ends with an error in one line. -/
def failed (line : String) : Console := { exitCode := 1, stderr := ended [line] }

/-! ## Reading files -/

/-- The settings file that is read when none is named, if it is there. -/
def defaultConfig : String := "relmap.toml"

/-- The settings of a command. -/
def settings (files : Files) : Option String → Except SettingsFault Settings
  | some path => Settings.ofFile? path (files path)
  | none =>
    match files defaultConfig with
    | none => .ok {}
    | some text => Settings.ofText? text

/-- The workspace of a document, or the line that tells why there is none. -/
def workspace (files : Files) (settings : Settings) (file : String) :
    Except String Workspace :=
  match files file with
  | none => .error s!"Error reading file '{file}': it cannot be read"
  | some text =>
    match (Json.ofText? text).bind Source.Workspace.ofJson? with
    | none => .error s!"Error parsing workspace '{file}': it is not a workspace document"
    | some source => .ok (Workspace.ofSource settings.resolution source)

/-! ## Commands -/

/-- The line of a failure. -/
def failureLine (f : UnitFailure) : String := s!"  [{f.unit}] {f.failure.diagnostic.text}"

/-- The name under which failures of the store are listed. -/
def storeUnit : String := "<store>"

/-- All failures of a compilation. -/
def failures : Outcome → List UnitFailure
  | .rejected failure => [⟨storeUnit, failure⟩]
  | .committed failures => failures

/-- What `check` prints when nothing has failed. -/
def checked (units : Nat) : OutputFormat → Console
  | .text => { exitCode := 0, stdout := ended [s!"OK: {units} mapping unit(s) resolved"] }
  | .json => { exitCode := 0, stdout := ended ["[]"] }

/-- What `check` prints when something has failed. -/
def rejected (failures : List UnitFailure) : OutputFormat → Console
  | .text => { exitCode := 1, stderr := ended ("Errors:" :: failures.map failureLine) }
  | .json =>
    { exitCode := 1, stdout := ended [(Json.ofList UnitFailure.toJson failures).indentedText] }

/-- Compiles a workspace and lists all failures. -/
def check (w : Workspace) (format : OutputFormat) : Console :=
  let (w, outcome) := w.compile
  match failures outcome with
  | [] => checked w.snapshot.units.keys.length format
  | failures => rejected failures format

/-- The line that tells which units there are in place of one that is not. -/
def missingLine (s : Snapshot) (mapping : String) : String :=
  let available := String.intercalate ", " s.units.keys
  s!"Mapping '{mapping}' is not resolved. Available: {available}"

/-- Shows a unit of a snapshot. -/
def showFrom (s : Snapshot) (mapping : String) (failures : List UnitFailure) : Console :=
  let warnings := failures.map failureLine
  match s.unit? mapping with
  | none => { exitCode := 1, stderr := ended (warnings ++ [missingLine s mapping]) }
  | some unit => { exitCode := 0, stdout := ended (unitLines unit), stderr := ended warnings }

/-- Compiles a workspace and shows one unit. Other units may fail. -/
def showUnit (w : Workspace) (mapping : String) : Console :=
  let (w, outcome) := w.compile
  match outcome with
  | .rejected failure => failed s!"Compilation error: {rejectedText failure}"
  | .committed failures => showFrom w.snapshot mapping failures

/-- Runs a command on a workspace. -/
def Command.runOn (w : Workspace) : Command → Console
  | .check _ format => CommandLine.check w format
  | .showUnit _ mapping => CommandLine.showUnit w mapping

/-- The workspace document that a command reads. -/
def Command.file : Command → String
  | .check file _ => file
  | .showUnit file _ => file

/-- Runs a command. -/
def run (files : Files) (i : Invocation) : Console :=
  match settings files i.config with
  | .error fault => failed s!"Configuration error: {fault.message}"
  | .ok settings =>
    match workspace files settings i.command.file with
    | .error line => failed line
    | .ok w => i.command.runOn w

end ObjectRelational.CommandLine
