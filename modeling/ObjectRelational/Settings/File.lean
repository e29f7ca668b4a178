import ObjectRelational.Json.Basic
import ObjectRelational.Settings
import ObjectRelational.Toml.Reader

/-!
# Settings files

Settings are kept in a configuration document with the tables `resolution` and `logging`. Whatever
the document does not set has its default, and whatever it sets besides is ignored.
-/

namespace ObjectRelational

/-- Why settings cannot be read. -/
inductive SettingsFault where
  | missingFile (path : String)
  | malformed
  | emptyDefaultSchema
deriving DecidableEq

/-- The message of a settings fault. -/
def SettingsFault.message : SettingsFault → String
  | missingFile path => s!"Config file not found: {path}"
  | malformed => "Failed to parse config file: not a settings document"
  | emptyDefaultSchema =>
    "Invalid configuration: resolution.default_schema must not be empty"

namespace Settings

open Toml

/-- A string of a table, or its default. -/
def string? (entries : Entries) (key default : String) : Option String :=
  match entries.lookup key with
  | none => some default
  | some (.string text) => some text
  | some _ => none

/-- A boolean of a table, or its default. -/
def boolean? (entries : Entries) (key : String) (default : Bool) : Option Bool :=
  match entries.lookup key with
  | none => some default
  | some (.boolean value) => some value
  | some _ => none

/-- The entries of a table, which is empty when it is missing and cannot be a plain value. -/
def tableOrEmpty? (d : Document) (name : String) : Option Entries :=
  if (d.entries.lookup name).isSome then none else some ((d.table? name).getD [])

/-- The settings of a document. -/
def ofDocument? (d : Document) : Option Settings := do
  let resolution ← tableOrEmpty? d "resolution"
  let logging ← tableOrEmpty? d "logging"
  let default : Settings := {}
  let defaultSchema ← string? resolution "default_schema" default.resolution.defaultSchema
  let recordUsages ← boolean? resolution "record_usages" default.resolution.recordUsages
  let autoMilestoning ←
    boolean? resolution "auto_milestoning" default.resolution.autoMilestoning
  let filter ← string? logging "filter" default.logging.filter
  return ⟨⟨defaultSchema, recordUsages, autoMilestoning⟩, ⟨filter⟩⟩

/-- Reads the text of a settings file. -/
def ofText? (text : String) : Except SettingsFault Settings :=
  match (Document.ofText? text).bind ofDocument? with
  | none => .error .malformed
  | some settings => if settings.isValid then .ok settings else .error .emptyDefaultSchema

/-- Reads a settings file, given its text if it exists. -/
def ofFile? (path : String) : Option String → Except SettingsFault Settings
  | none => .error (.missingFile path)
  | some text => ofText? text

/-- The JSON form of settings. -/
def toJson (s : Settings) : Json :=
  .obj [("resolution", .obj [("default_schema", .str s.resolution.defaultSchema),
      ("record_usages", .bool s.resolution.recordUsages),
      ("auto_milestoning", .bool s.resolution.autoMilestoning)]),
    ("logging", .obj [("filter", .str s.logging.filter)])]

end Settings

end ObjectRelational
