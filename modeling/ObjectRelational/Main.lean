import ObjectRelational.CommandLine.Run

/-!
# The program

Reads the arguments and the files that they name, runs the command and prints what it answers.
-/

namespace ObjectRelational.CommandLine

/-- How the program is called. -/
def usage : String :=
  "Usage: relmap check <workspace.json> [--format text|json] [--config <relmap.toml>]\n" ++
  "       relmap show <workspace.json> <mapping> [--config <relmap.toml>]\n"

/-- Arguments, taken apart: those that are no options, and the options. -/
structure Arguments where
  plain : List String := []
  format : OutputFormat := .text
  config : Option String := none

/-- Takes arguments apart. -/
def Arguments.ofList? (a : Arguments) : List String → Option Arguments
  | [] => some a
  | "--format" :: "text" :: rest | "-f" :: "text" :: rest => { a with format := .text }.ofList? rest
  | "--format" :: "json" :: rest | "-f" :: "json" :: rest => { a with format := .json }.ofList? rest
  | "--config" :: path :: rest | "-c" :: path :: rest => { a with config := some path }.ofList? rest
  | argument :: rest =>
    if argument.startsWith "-" then none
    else { a with plain := a.plain ++ [argument] }.ofList? rest

/-- The command that the arguments call for. -/
def Arguments.invocation? (a : Arguments) : Option Invocation :=
  match a.plain with
  | ["check", file] => some ⟨.check file a.format, a.config⟩
  | ["show", file, mapping] => some ⟨.showUnit file mapping, a.config⟩
  | _ => none

/-- The files that a command may read. -/
def Invocation.paths (i : Invocation) : List String :=
  [i.command.file, i.config.getD defaultConfig]

/-- The text of a file that can be read. -/
def readText? (path : String) : IO (Option String) := do
  try return some (← IO.FS.readFile path) catch _ => return none

/-- Reads files one after the other. -/
def readAll : List String → IO (List (String × String))
  | [] => return []
  | path :: rest => do
    let others ← readAll rest
    match ← readText? path with
    | some text => return (path, text) :: others
    | none => return others

/-- Runs the program. -/
def program (arguments : List String) : IO UInt32 := do
  match (Arguments.ofList? {} arguments).bind Arguments.invocation? with
  | none =>
    IO.eprint usage
    return 2
  | some invocation =>
    let files ← readAll invocation.paths
    let console := run (fun path => files.lookup path) invocation
    IO.print console.stdout
    IO.eprint console.stderr
    return UInt32.ofNat console.exitCode

end ObjectRelational.CommandLine

/-- The program. -/
def main (arguments : List String) : IO UInt32 :=
  ObjectRelational.CommandLine.program arguments
