import ObjectRelational.Recorded
import ObjectRelational.Store.Visibility

/-!
# Resolving expressions

Expressions are resolved against a store, seen from a default database. Looking a name up records
nothing; resolving it records one usage for every name that is written.

* `Resolver.lookupTable` and its companions find what a name denotes.
* `Resolver.inferRoots` finds the tables that an expression starts from without resolving it, where
  `Resolver.inferSource` walks a join path back from its end.
* `Resolver.resolve` resolves an expression; `Resolver.steps` threads the joins of a path, each from
  the table where the one before ended.
-/

namespace ObjectRelational

/-- A path has to end on the table that is claimed for its end; a path without joins claims
nothing. -/
def Store.checkEnd (store : Store) (steps : List JoinStep) (claimed : TableAlias) (span : Span) :
    Resolved Unit :=
  match steps.getLast? with
  | none => .ok ()
  | some last =>
    if last.target = claimed.table then .ok ()
    else
      (Fault.joinNotConnected last.name (store.describe last.source last.database)
        (store.describeAlias claimed) (store.describe last.target last.database)).found span

/-- What expressions are resolved against. -/
structure Resolver where
  store : Store
  /-- The database in which names are looked up that are not addressed in another one. -/
  database : DatabaseId
  /-- The schema of tables that are written without one. -/
  defaultSchema : String
  /-- The far side of the self join whose condition is resolved. -/
  selfJoinTarget : Option TableAlias := none

/-- The name of the far side of a self join. -/
def selfJoinAlias (table : String) : String := "t_" ++ table

namespace Resolver

/-! ## Lookups -/

/-- The database of a name. -/
def lookupDatabase (r : Resolver) (name : Name) : Resolved DatabaseId :=
  match r.store.databaseNamed? name.value with
  | some id => .ok id
  | none => (Fault.unknownDatabase name.value).found name.span

/-- The database that an element is addressed in: the one named, or the default one. -/
def lookupAddressed (r : Resolver) : Option Name → Resolved DatabaseId
  | some name => r.lookupDatabase name
  | none => .ok r.database

/-- The table that is written as `[database] schema.table`. -/
def lookupTable (r : Resolver) (database schema : Option Name) (table : Name) :
    Resolved TableAlias := do
  let id ← r.lookupAddressed database
  let schemaName := match schema with
    | some s => s.value
    | none => r.defaultSchema
  if r.store.hasSchema id schemaName then
    match r.store.findTable? id schemaName table.value with
    | some found => return ⟨table.value, found, id⟩
    | none =>
      (Fault.unknownTable table.value schemaName (r.store.databaseName id)).found table.span
  else
    let span := match schema with
      | some s => s.span
      | none => table.span
    (Fault.unknownSchema schemaName (r.store.databaseName id)).found span

/-- The join that is written as `[database] @name`, and the database that it is addressed in. -/
def lookupJoin (r : Resolver) (reference : Source.JoinReference) :
    Resolved (JoinId × Join × DatabaseId) := do
  let id ← r.lookupAddressed reference.database
  match r.store.findJoin? id reference.name.value with
  | none =>
    (Fault.unknownJoin reference.name.value (r.store.databaseName id)).found reference.name.span
  | some join =>
    match r.store.join? join with
    | none =>
      (Fault.unknownJoin reference.name.value (r.store.databaseName id)).found reference.name.span
    | some found => return (join, found, id)

/-! ## Inferring where an expression starts -/

/-- Goes back along joins, the last one first, from the table where they end. -/
def walkBack (r : Resolver) (cursor : TableId) : List Source.JoinReference → Resolved TableId
  | [] => .ok cursor
  | reference :: rest => do
    let (_, join, database) ← r.lookupJoin reference
    match join.otherSide? cursor with
    | some before => r.walkBack before rest
    | none =>
      (Fault.joinMissingSourceTable reference.name.value (r.store.describe cursor database)).found
        reference.name.span

/-- The table that a path starts from when it ends on `terminal`; none when the expression at its
end starts from no table. -/
def sourceFromEnd (r : Resolver) (joins : List Source.JoinReference)
    (terminal : Option TableAlias) : Resolved (Option TableAlias) :=
  match terminal with
  | none => .ok none
  | some terminal => do
    let cursor ← r.walkBack terminal.table joins.reverse
    let database ← match joins.head? with
      | some first => r.lookupAddressed first.database
      | none => .ok terminal.database
    return some ⟨r.store.tableName cursor, cursor, database⟩

mutual

/-- The tables that the parts of an expression start from, in order and with repetitions. -/
def sources (r : Resolver) : Source.Operation → Resolved (List TableAlias)
  | .column reference => do
    return [← r.lookupTable reference.database reference.schema reference.table]
  | .joinPath joins target => do
    return (← r.sourceOfPath joins target).toList
  | .function _ arguments => r.sourcesOfAll arguments
  | .targetColumn _ => .ok []
  | .literal _ => .ok []

/-- The table that a path starts from, found by walking back from the expression at its end. -/
def sourceOfPath (r : Resolver) (joins : List Source.JoinReference) :
    Option Source.Operation → Resolved (Option TableAlias)
  | none => .ok none
  | some target => do r.sourceFromEnd joins (← r.sources target).head?

/-- The tables that expressions start from. -/
def sourcesOfAll (r : Resolver) : List Source.Operation → Resolved (List TableAlias)
  | [] => .ok []
  | argument :: rest => do return (← r.sources argument) ++ (← r.sourcesOfAll rest)

end

/-- The tables that an expression starts from, each once. -/
def inferRoots (r : Resolver) (operation : Source.Operation) : Resolved (List TableAlias) :=
  (r.sources operation).map List.eraseDups

/-- The table that a join path starts from, if the expression at its end tells. -/
def inferSource (r : Resolver) (path : Source.JoinPath) : Resolved (Option TableAlias) :=
  r.sourceOfPath path.joins path.target

/-- The tables of column references. -/
def tablesOf (r : Resolver) : List Source.ColumnReference → Resolved (List TableId)
  | [] => .ok []
  | reference :: rest => do
    let found ← r.lookupTable reference.database reference.schema reference.table
    return found.table :: (← r.tablesOf rest)

/-- The tables whose columns an expression names directly, each once. -/
def referencedTables (r : Resolver) (operation : Source.Operation) : Resolved (List TableId) :=
  (r.tablesOf operation.directColumns).map List.eraseDups

/-! ## Resolving names -/

/-- Resolves the database that an element is addressed in. -/
def addressed (r : Resolver) (marker : Option Name) : Recorded DatabaseId := do
  let id ← r.lookupAddressed marker
  match marker with
  | some name => Recorded.record (.database name.value) name.span
  | none => pure ()
  return id

/-- Resolves a table. -/
def table (r : Resolver) (database schema : Option Name) (table : Name) : Recorded TableAlias := do
  let found ← r.lookupTable database schema table
  let _ ← r.addressed database
  Recorded.record (r.store.tableSymbol found.table) table.span
  return found

/-- Resolves a table reference. -/
def tableRef (r : Resolver) (reference : Source.TableReference) : Recorded TableAlias :=
  r.table (some reference.database) reference.schema reference.table

/-- Resolves a column of a table. -/
def columnOf (r : Resolver) (owner : TableAlias) (column : Name) : Recorded ColumnRef := do
  if ((r.store.table? owner.table).bind fun t => t.column? column.value).isSome then
    Recorded.record (r.store.columnSymbol owner.table column.value) column.span
    return ⟨owner, column.value⟩
  else
    (Fault.unknownColumn column.value (r.store.tableName owner.table)).found column.span

/-- Resolves a column reference. -/
def column (r : Resolver) (reference : Source.ColumnReference) : Recorded ColumnRef := do
  let owner ← r.table reference.database reference.schema reference.table
  r.columnOf owner reference.column

/-! ## Resolving paths and expressions -/

/-- The step along a join from one table to another. -/
def stepAlong (r : Resolver) (reference : Source.JoinReference) (id : JoinId) (join : Join)
    (database : DatabaseId) (source target : TableId) : JoinStep where
  join := id
  name := join.name
  database := database
  joinType := reference.joinType
  source := source
  target := target
  targetAlias := if join.selfJoin then selfJoinAlias (r.store.tableName target)
    else r.store.tableName target

/-- Threads joins from a table: each one has to lead on from the table where the one before it
ended. -/
def steps (r : Resolver) (cursor : TableId) : List Source.JoinReference → Recorded (List JoinStep)
  | [] => pure []
  | reference :: rest => do
    let (id, join, database) ← r.lookupJoin reference
    let _ ← r.addressed reference.database
    Recorded.record (.join (r.store.databaseName join.database) join.name) reference.name.span
    match join.otherSide? cursor with
    | none =>
      (Fault.joinMissingSourceTable join.name (r.store.describe cursor database)).found
        reference.name.span
    | some next =>
      let following ← r.steps next rest
      return r.stepAlong reference id join database cursor next :: following

/-- The table where steps from `source` end, under the name that it has there. -/
def endAlias (source : TableAlias) (steps : List JoinStep) : TableAlias :=
  match steps.getLast? with
  | none => source
  | some step => ⟨step.targetAlias, step.target, step.database⟩

/-- Where a path starts: on the table given, or else on the one inferred from its end. -/
def startOf (r : Resolver) (path : Source.JoinPath) : Option TableAlias → Resolved TableAlias
  | some source => .ok source
  | none => do
    match ← r.inferSource path, path.joins.head? with
    | some source, _ => return source
    | none, some first => (Fault.joinPathWithoutSource first.name.value).found first.name.span
    | none, none => (Fault.joinPathWithoutSource "").found {}

/-- The expression at the end of a path has to start from the table where the path ends. A path
without joins ends on its own table. -/
def checkClaimedEnd (r : Resolver) (joins : List Source.JoinReference) (steps : List JoinStep)
    (reached : TableAlias) (operation : Operation) : Resolved Unit :=
  match operation.rootAliases.find? fun a => a.table ≠ reached.table, joins.getLast? with
  | some claimed, some last => r.store.checkEnd steps claimed last.name.span
  | _, _ => .ok ()

/-- Behind a self join, the table is known by the name of the far side. -/
def renameFarSide (r : Resolver) (steps : List JoinStep) (operation : Operation) : Operation :=
  match steps.getLast? with
  | none => operation
  | some step =>
    match r.store.join? step.join with
    | some join =>
      if join.selfJoin then operation.renameAlias step.target step.targetAlias else operation
    | none => operation

mutual

/-- Resolves an expression. Its paths start on `source`, or where their ends tell. -/
def resolve (r : Resolver) (source : Option TableAlias) : Source.Operation → Recorded Operation
  | .column reference => do
    return .column (← r.column reference)
  | .targetColumn column =>
    match r.selfJoinTarget with
    | some target => do return .column (← r.columnOf target column)
    | none => Recorded.ofResult (Fault.misplacedTargetColumn.found column.span)
  | .joinPath joins target => do
    return (← r.resolvePath source joins target).toOperation
  | .literal value => pure (.literal value)
  | .function name arguments => do
    return .function name.value (← r.resolveAll source arguments)

/-- Resolves a path of joins and the expression at its end. -/
def resolvePath (r : Resolver) (source : Option TableAlias) (joins : List Source.JoinReference) :
    Option Source.Operation → Recorded JoinChain
  | none => do
    let start ← r.startOf ⟨joins, none⟩ source
    return ⟨start, ← r.steps start.table joins, none⟩
  | some target => do
    let start ← r.startOf ⟨joins, some target⟩ source
    let steps ← r.steps start.table joins
    let reached := endAlias start steps
    let operation ← r.resolve (some reached) target
    r.checkClaimedEnd joins steps reached operation
    return ⟨start, steps, some (r.renameFarSide steps operation)⟩

/-- Resolves expressions one after the other. -/
def resolveAll (r : Resolver) (source : Option TableAlias) :
    List Source.Operation → Recorded (List Operation)
  | [] => pure []
  | argument :: rest => do
    let first ← r.resolve source argument
    let others ← r.resolveAll source rest
    return first :: others

end

/-- Resolves a join path. -/
def joinPath (r : Resolver) (source : Option TableAlias) (path : Source.JoinPath) :
    Recorded JoinChain := r.resolvePath source path.joins path.target

/-- Resolves the joins that lead to a filter; they need a table to start from. -/
def filterJoins (r : Resolver) (source : Option TableAlias) :
    List Source.JoinReference → Recorded (List JoinStep)
  | [] => pure []
  | first :: rest =>
    match source with
    | some source => r.steps source.table (first :: rest)
    | none =>
      Recorded.ofResult ((Fault.joinPathWithoutSource first.name.value).found first.name.span)

/-- Resolves a filter reference. -/
def filter (r : Resolver) (source : Option TableAlias) (reference : Source.FilterReference) :
    Recorded FilterPointer := do
  let joins ← r.filterJoins source reference.joins
  let database ← r.addressed reference.database
  let unknown := Fault.unknownFilter reference.name.value (r.store.databaseName database)
  match r.store.findFilter? database reference.name.value with
  | none => unknown.found reference.name.span
  | some id =>
    match r.store.filter? id with
    | none => unknown.found reference.name.span
    | some found =>
      Recorded.record (.filter (r.store.databaseName found.database) reference.name.value)
        reference.name.span
      return ⟨id, reference.name.value, database, joins⟩

end Resolver

end ObjectRelational
