import ObjectRelational.Mapping.Property
import ObjectRelational.Mapping.Temporal
import ObjectRelational.Store.View

/-!
# Resolving relational mappings

A relational mapping of a class starts from one main table: the table of the mapping that it
extends, the one that it names, or the only one that its property expressions start from.

* `Scope.inherited?` checks what a mapping extends, `Scope.inferMainTable` finds the common table.
* `Scope.setImplementation` resolves a mapping.
-/

namespace ObjectRelational

/-- What a relational mapping is resolved as. -/
structure Header where
  id : String
  className : String
  root : Bool
  declaredRoot : Bool
  superId : Option Name
  span : Span

/-- What a mapping takes from the one that it extends: its main table, and the class that it
maps. -/
structure Inherited where
  mainTable : TableAlias
  className : String

namespace Scope

/-! ## Extended mappings -/

/-- What there is to take from a mapping, of which the unit's own ones are given. Parts of the
unit's own mappings can be extended, parts of included ones cannot. -/
def superMapping? (s : Scope) (own : List ClassMapping) (id : String) : Option Inherited :=
  match findImplementation? own id with
  | some implementation => some ⟨implementation.mainTable, implementation.className⟩
  | none =>
    (s.includedMappings.find? fun e => e.declared.id = id).map fun e =>
      ⟨e.implementation.mainTable, e.declared.className⟩

/-- All databases that a mapping names are the one of its main table. -/
def checkMarkers (s : Scope) (header : Header) (database : DatabaseId) :
    List Name → Resolved Unit
  | [] => .ok ()
  | marker :: rest => do
    if (← s.databaseNamed marker) = database then s.checkMarkers header database rest
    else (Fault.inconsistentDatabases header.className).found marker.span

/-- A mapping can extend another one of its own class or of a superclass, and then names no main
table. -/
def checkSuper (s : Scope) (own : List ClassMapping) (header : Header) (superId : Name)
    (body : Source.RelationalMapping) : Resolved Inherited :=
  if superId.value = header.id then (Fault.selfExtension superId.value).found superId.span
  else
    match body.mainTable with
    | some table => (Fault.explicitMainTableOnExtends header.id).found table.table.span
    | none =>
      match s.superMapping? own superId.value with
      | none => (Fault.unknownSuperMapping superId.value s.unit).found superId.span
      | some inherited =>
        if s.model.isAncestorOrSelf inherited.className header.className then do
          s.checkMarkers header inherited.mainTable.database
            (Source.markersOfMappings body.propertyMappings)
          return inherited
        else
          (Fault.invalidSuperClass header.id header.className superId.value
            inherited.className).found superId.span

/-- What a mapping inherits, if it extends another one. -/
def inherited? (s : Scope) (own : List ClassMapping) (header : Header)
    (body : Source.RelationalMapping) : Resolved (Option Inherited) :=
  match header.superId with
  | none => .ok none
  | some superId => (s.checkSuper own header superId body).map some

/-! ## The main table -/

/-- The database of a mapping that extends nothing and names no main table: the first one that its
properties name. -/
def markedDatabase (s : Scope) (header : Header) (body : Source.RelationalMapping) :
    Resolved DatabaseId :=
  match Source.markersOfMappings body.propertyMappings with
  | marker :: _ => s.databaseNamed marker
  | [] =>
    if body.propertyMappings.isEmpty then
      (Fault.mainTableNotFound header.className).found header.span
    else (Fault.missingDatabase header.className).found header.span

/-- The database in which a mapping looks names up. -/
def defaultDatabase (s : Scope) (header : Header) (body : Source.RelationalMapping)
    (inherited : Option Inherited) : Resolved DatabaseId :=
  match inherited, body.mainTable with
  | some inherited, _ => .ok inherited.mainTable.database
  | none, some table => s.databaseNamed table.database
  | none, none => s.markedDatabase header body

/-- Adds aliases of tables that are new. -/
def addTables (known : List TableAlias) : List TableAlias → List TableAlias
  | [] => known
  | root :: rest =>
    if known.any fun t => t.table = root.table then addTables known rest
    else addTables (known ++ [root]) rest

/-- The tables that expressions start from, each once. -/
def rootTables (r : Resolver) (known : List TableAlias) :
    List Source.Operation → Resolved (List TableAlias)
  | [] => .ok known
  | operation :: rest => do
    let roots ← r.inferRoots operation
    rootTables r (addTables known roots) rest

/-- The one table that all property expressions start from. -/
def inferMainTable (r : Resolver) (header : Header) (body : Source.RelationalMapping) :
    Resolved TableAlias := do
  match ← rootTables r [] (Source.operationsOfAll body.propertyMappings) with
  | [] => (Fault.mainTableNotFound header.className).found header.span
  | [main] => return main
  | tables =>
    (Fault.mainTableAmbiguous header.className (r.store.describeAll tables)).found header.span

/-- The main table of a mapping. -/
def mainTable (r : Resolver) (header : Header) (body : Source.RelationalMapping)
    (inherited : Option Inherited) : Recorded TableAlias :=
  match inherited, body.mainTable with
  | some inherited, _ => pure inherited.mainTable
  | none, some table => r.tableRef table
  | none, none => Recorded.ofResult (inferMainTable r header body)

/-! ## The mapping -/

/-- A mapping that extends one of another class maps the values that its own class adds. -/
def checkNewProperties (s : Scope) (header : Header) (mappings : List PropertyMapping) :
    Resolved Unit :=
  match s.model.class? header.className with
  | none => .ok ()
  | some c =>
    match c.properties.find? fun p =>
      p.type.isDataType && !mappings.any fun m => m.property = p.name with
    | none => .ok ()
    | some p =>
      (Fault.unmappedNewProperty p.name header.className header.id).found header.span

/-- Checks the properties of a mapping that extends another one. -/
def checkExtension (s : Scope) (header : Header) (inherited : Option Inherited)
    (mappings : List PropertyMapping) : Resolved Unit :=
  match inherited with
  | none => .ok ()
  | some inherited =>
    if inherited.className = header.className then .ok () else s.checkNewProperties header mappings

/-- The mapping of the versions of a temporal class, unless it is there or not wanted. -/
def milestoning? (s : Scope) (header : Header) (main : TableAlias)
    (mappings : List PropertyMapping) : Option PropertyMapping :=
  if s.settings.autoMilestoning && !mappings.any fun m => m.property = Temporal.propertyName then do
    let temporal ← (← s.model.class? header.className).temporal
    let milestoning ← (← s.store.table? main.table).milestoning
    let versions ← Temporal.versions? milestoning temporal
    return Temporal.embeddedMapping header.id main header.span versions
  else none

/-- Resolves a relational mapping; `own` are the unit's own mappings that are resolved already. -/
def setImplementation (s : Scope) (own : List ClassMapping) (header : Header)
    (body : Source.RelationalMapping) : Recorded SetImplementation := do
  let inherited ← s.inherited? own header body
  let database ← s.defaultDatabase header body inherited
  let r := s.resolverIn database
  let main ← mainTable r header body inherited
  let filter ← r.filter? main body.filter
  let groupBy ← r.resolveAll (some main) body.groupBy
  let primaryKey ← r.resolveAll (some main) body.primaryKey
  let declared ← s.mappings r ⟨header.id, header.className, main⟩ [] body.propertyMappings
  s.checkExtension header inherited declared
  return {
    id := header.id
    className := header.className
    root := header.root
    declaredRoot := header.declaredRoot
    superId := header.superId.map (·.value)
    mainTable := main
    distinct := body.distinct
    filter := filter
    groupBy := groupBy
    primaryKey := primaryKey
    propertyMappings := declared ++ (s.milestoning? header main declared).toList
    span := header.span }

end Scope

end ObjectRelational
