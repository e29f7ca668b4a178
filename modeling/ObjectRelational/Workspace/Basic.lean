import ObjectRelational.Fault
import ObjectRelational.Mapping.Unit
import ObjectRelational.Model.Registry
import ObjectRelational.Settings
import ObjectRelational.Source.Workspace

/-!
# Workspaces

A workspace holds the sources as they are now, and the snapshot that the last compilation committed.
Editing changes the sources only.

* `Entry` is the state of a unit in a snapshot. It tells by numbers which compilation made it and
  which one built its store; what the unit means does not depend on them.
* `Snapshot` is what a compilation commits, `Outcome` what it reports.
-/

namespace ObjectRelational

/-- The state of a unit. -/
structure Entry where
  unit : MappingUnit
  /-- The number of the compilation that resolved the unit. -/
  revision : Nat
  /-- The number of the compilation that built the store of the unit. -/
  storeRevision : Nat
  /-- The fingerprint of all that the unit was resolved from. -/
  fingerprint : String

/-- The result of a compilation that was committed. -/
structure Snapshot where
  store : Store := {}
  /-- The number of the compilation that built the store. -/
  storeRevision : Nat := 0
  /-- The fingerprint of the databases that the store was built from. -/
  storeFingerprint : Option String := none
  /-- The states of the units, by name. -/
  units : OrderedMap String Entry := .empty

/-- The resolved unit of a name. -/
def Snapshot.unit? (s : Snapshot) (name : String) : Option MappingUnit :=
  (s.units.find? name).map (·.unit)

/-- A workspace. -/
structure Workspace where
  model : ObjectModel
  settings : ResolutionSettings
  /-- The sources of the databases, by name. -/
  databases : OrderedMap String Source.Database := .empty
  /-- The sources of the units, by name. -/
  mappings : OrderedMap String Source.Mapping := .empty
  snapshot : Snapshot := {}
  /-- How many compilations have been committed. -/
  compilations : Nat := 0

namespace Workspace

/-- Adds a database, in place of one of the same name. -/
def upsertDatabase (w : Workspace) (source : Source.Database) : Workspace :=
  { w with databases := w.databases.insert source.name.value source }

/-- Removes the database of a name. -/
def removeDatabase (w : Workspace) (name : String) : Workspace :=
  { w with databases := w.databases.erase name }

/-- Adds a unit, in place of one of the same name. -/
def upsertMapping (w : Workspace) (source : Source.Mapping) : Workspace :=
  { w with mappings := w.mappings.insert source.name.value source }

/-- Removes the unit of a name. -/
def removeMapping (w : Workspace) (name : String) : Workspace :=
  { w with mappings := w.mappings.erase name }

/-- The workspace of a document; nothing is compiled yet. -/
def ofSource (settings : ResolutionSettings) (source : Source.Workspace) : Workspace :=
  let empty : Workspace := { model := .ofDefinition source.model, settings := settings }
  source.mappings.foldl upsertMapping (source.databases.foldl upsertDatabase empty)

end Workspace

/-- A failure of a unit. -/
structure UnitFailure where
  unit : String
  failure : Failure
deriving DecidableEq

/-- How a compilation ends. -/
inductive Outcome where
  /-- There is no store, and nothing is committed. -/
  | rejected (failure : Failure)
  /-- The snapshot is committed; units that fail keep their last state. -/
  | committed (failures : List UnitFailure)
deriving DecidableEq

/-- What is said of a store that cannot be built. -/
def rejectedText (failure : Failure) : String := s!"Store error: {failure.diagnostic.text}"

/-- What is said of units that failed. -/
def failedText (failures : List UnitFailure) : String :=
  s!"{failures.length} mapping unit(s) failed to compile"

end ObjectRelational
