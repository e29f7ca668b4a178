import ObjectRelational.Fingerprint
import ObjectRelational.JsonForm.Workspace
import ObjectRelational.Mapping.IncludeGraph
import ObjectRelational.Mapping.Resolution
import ObjectRelational.Workspace.Basic

/-!
# Compiling a workspace

A compilation is one transaction. The store is built anew only when the databases have changed; then
the units are compiled, each behind the units it includes. A unit whose fingerprint is the one that
it had keeps its state. A unit that fails keeps its last state too, and blocks the units that
include it. Without a store nothing is committed.

* `Compilation.compileUnit` compiles one unit, `Compilation.run` all of them.
* `Workspace.compile` commits the result.
-/

namespace ObjectRelational

/-- A store, the compilation that built it, and the fingerprint of what it was built from. -/
structure BuiltStore where
  store : Store
  revision : Nat
  fingerprint : String

/-- What stays the same while the units of a workspace are compiled. -/
structure Compilation where
  environment : Environment
  /-- The units and their includes. -/
  graph : IncludeGraph
  /-- The sources of the units, by name. -/
  sources : OrderedMap String Source.Mapping
  /-- What was committed before. -/
  previous : Snapshot
  built : BuiltStore
  /-- The number of the compilation. -/
  revision : Nat

/-- The units that are compiled so far. -/
structure Progress where
  /-- The states of the units. -/
  entries : OrderedMap String Entry := .empty
  /-- The failures, in the order in which they were found. -/
  failures : List UnitFailure := []

namespace Progress

/-- Has the unit of a name failed? -/
def hasFailed (p : Progress) (name : String) : Bool := p.failures.any fun f => f.unit = name

/-- The resolved unit of a name. -/
def unit? (p : Progress) (name : String) : Option MappingUnit :=
  (p.entries.find? name).map (·.unit)

end Progress

namespace Compilation

/-- Is the store the one that was committed before? -/
def keepsStore (c : Compilation) : Bool := c.previous.storeFingerprint = some c.built.fingerprint

/-- The fingerprints that the state of a unit depends on: of the store, of its source and of the
units that it includes. -/
def dependencies (c : Compilation) (p : Progress) (source : Source.Mapping) : List String :=
  c.built.fingerprint :: Fingerprint.ofJson source.toJson ::
    source.includes.filterMap fun i =>
      (p.entries.find? i.mapping.value).map (·.fingerprint)

/-- The state that a unit had, if nothing that it depends on has changed. -/
def unchanged? (c : Compilation) (name fingerprint : String) : Option Entry :=
  if c.keepsStore then (c.previous.units.find? name).filter fun e => e.fingerprint = fingerprint
  else none

/-- The first include of a unit that has failed. -/
def blocker? (p : Progress) (source : Source.Mapping) : Option Source.Include :=
  source.includes.find? fun i => p.hasFailed i.mapping.value

/-- The state of a unit: the one that it had, or else the unit resolved anew. -/
def freshOrUnchanged (c : Compilation) (p : Progress) (source : Source.Mapping) :
    Resolved Entry :=
  let fingerprint := Fingerprint.combine (c.dependencies p source)
  match c.unchanged? source.name.value fingerprint with
  | some entry => .ok entry
  | none => do
    let unit ← MappingUnit.resolve c.environment p.unit? source
    return ⟨unit, c.revision, c.built.revision, fingerprint⟩

/-- Compiles a unit: its includes have to be sound, and none of them may have failed. -/
def compileUnit (c : Compilation) (p : Progress) (source : Source.Mapping) : Resolved Entry := do
  c.graph.validate source
  match blocker? p source with
  | some blocker =>
    (Fault.blockedByInclude source.name.value blocker.mapping.value).found blocker.span
  | none => c.freshOrUnchanged p source

/-- The states when a unit has failed: it keeps the state that it had. -/
def retain (c : Compilation) (entries : OrderedMap String Entry) (name : String) :
    OrderedMap String Entry :=
  match c.previous.units.find? name with
  | some entry => entries.insert name entry
  | none => entries

/-- Goes on with one unit. -/
def advance (c : Compilation) (p : Progress) (name : String) : Progress :=
  match c.sources.find? name with
  | none => p
  | some source =>
    match c.compileUnit p source with
    | .ok entry => { p with entries := p.entries.insert name entry }
    | .error failure =>
      { entries := c.retain p.entries name, failures := p.failures ++ [⟨name, failure⟩] }

/-- Compiles all units, each behind those that it includes. -/
def run (c : Compilation) : Progress := c.graph.compileOrder.foldl c.advance {}

end Compilation

namespace Workspace

/-- The fingerprint of the databases. -/
def storeFingerprint (w : Workspace) : String :=
  Fingerprint.ofJson (.ofList Source.Database.toJson w.databases.values)

/-- The store of a compilation: the one there is when the databases are the same, or a new one. -/
def buildStore (w : Workspace) : Resolved BuiltStore :=
  let fingerprint := w.storeFingerprint
  if w.snapshot.storeFingerprint = some fingerprint then
    .ok ⟨w.snapshot.store, w.snapshot.storeRevision, fingerprint⟩
  else
    (Store.build w.settings w.databases.values).map fun store =>
      ⟨store, w.compilations + 1, fingerprint⟩

/-- The compilation of the units against a store. -/
def compilation (w : Workspace) (built : BuiltStore) : Compilation where
  environment := ⟨w.model, built.store, w.settings⟩
  graph := .ofUnits w.mappings.values
  sources := w.mappings
  previous := w.snapshot
  built := built
  revision := w.compilations + 1

/-- The snapshot that a compilation commits. -/
def snapshotOf (built : BuiltStore) (p : Progress) : Snapshot :=
  ⟨built.store, built.revision, some built.fingerprint, p.entries⟩

/-- Compiles the sources as they are now. -/
def compile (w : Workspace) : Workspace × Outcome :=
  match w.buildStore with
  | .error failure => (w, .rejected failure)
  | .ok built =>
    let p := (w.compilation built).run
    ({ w with snapshot := snapshotOf built p, compilations := w.compilations + 1 },
      .committed p.failures)

end Workspace

end ObjectRelational
