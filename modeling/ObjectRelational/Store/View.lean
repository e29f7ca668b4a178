import ObjectRelational.Store.Resolution

/-!
# Views

A view is rooted at exactly one main table, which its column expressions tell. Everything else of
the view is then resolved from there.

* `Resolver.viewRoots` finds the tables that the columns start from.
* `Resolver.view` resolves a view.
* `ViewColumn.dataType` is the type that mappings over the view see.
-/

namespace ObjectRelational

open Resolver

/-! ## Types of view columns -/

mutual

/-- The type of the values of an expression: that of the column, and for anything computed a type
that names it. -/
def Operation.dataType (store : Store) : Operation → DataType
  | .column reference =>
    match (store.table? reference.tableAlias.table).bind fun t => t.column? reference.column with
    | some column => column.dataType
    | none => .other reference.column
  | .join _ _ target => dataTypeOfTarget store target
  | .literal (.integer _) => .bigInt
  | .literal (.float _) => .double
  | .literal (.boolean _) => .bit
  | .literal (.string _) => .varchar 256
  | .literal .null => .varchar 256
  | .function name _ => .other name

/-- The type of what a path ends on. -/
def dataTypeOfTarget (store : Store) : Option Operation → DataType
  | none => .other "JOIN"
  | some target => Operation.dataType store target

end

/-- The type of a view column. -/
def ViewColumn.dataType (store : Store) (column : ViewColumn) : DataType :=
  column.operation.dataType store

namespace Resolver

/-! ## The main table -/

/-- Is the table declared in the resolver's database, or in one that it includes? -/
def seesTable (r : Resolver) (table : TableId) : Bool :=
  match r.store.table? table with
  | none => false
  | some t => t.database = r.database || r.store.includesTransitively r.database t.database

/-- The fault of a view over a table that its database does not see. -/
def tableNotVisible (r : Resolver) (view : Name) (table : TableId) : Fault :=
  let owner := match r.store.table? table with
    | some t => r.store.databaseName t.database
    | none => ""
  .viewTableNotVisible view.value (r.store.tableName table) owner (r.store.databaseName r.database)

/-- Adds tables that are new; the database of the view has to see every one of them. -/
def addViewRoots (r : Resolver) (view : Name) (column : Name) (roots : List TableAlias) :
    List TableAlias → Resolved (List TableAlias)
  | [] => .ok roots
  | root :: rest =>
    if r.seesTable root.table then
      if roots.any fun known => known.table = root.table then
        r.addViewRoots view column roots rest
      else r.addViewRoots view column (roots ++ [root]) rest
    else (r.tableNotVisible view root.table).found column.span

/-- The tables that the columns of a view start from, each once. -/
def viewRoots (r : Resolver) (view : Name) (roots : List TableAlias) :
    List Source.ViewColumn → Resolved (List TableAlias)
  | [] => .ok roots
  | column :: rest => do
    let found ← r.inferRoots column.operation
    let roots ← r.addViewRoots view column.name roots found
    r.viewRoots view roots rest

/-- The one table that the columns of a view start from. -/
def viewMainTable (r : Resolver) (view : Source.View) : Resolved TableAlias := do
  match ← r.viewRoots view.name [] view.columns with
  | [] => (Fault.viewWithoutMainTable view.name.value).found view.span
  | [main] => return main
  | roots =>
    (Fault.viewMultipleMainTables view.name.value (r.store.describeAll roots)).found view.span

/-! ## The parts of a view -/

/-- Resolves a column of a view, which must not be a path to objects. -/
def viewColumn (r : Resolver) (view : Name) (main : TableAlias) (column : Source.ViewColumn) :
    Recorded ViewColumn := do
  let operation ← r.resolve (some main) column.operation
  if operation.isBareJoin then
    (Fault.viewColumnWithoutTarget column.name.value view.value).found column.name.span
  else return ⟨column.name.value, operation, column.primaryKey⟩

/-- Resolves a group-by expression of a view, which must read its columns from the main table. -/
def viewGroupBy (r : Resolver) (view : Source.View) (main : TableAlias)
    (expression : Source.Operation) : Recorded Operation := do
  let operation ← r.resolve (some main) expression
  match operation.directColumns.find? fun c => c.tableAlias.table ≠ main.table with
  | some column =>
    (Fault.viewGroupByColumn column.column view.name.value (r.store.tableName main.table)).found
      view.span
  | none => return operation

/-- Resolves an optional filter from a table. -/
def filter? (r : Resolver) (main : TableAlias) :
    Option Source.FilterReference → Recorded (Option FilterPointer)
  | none => pure none
  | some reference => do return some (← r.filter (some main) reference)

/-- Resolves a view: its main table, its columns, its filter and its grouping, in this order. -/
def view (r : Resolver) (view : Source.View) : Recorded View := do
  let main ← r.viewMainTable view
  let columns ← Recorded.forAll (r.viewColumn view.name main) view.columns
  let filter ← r.filter? main view.filter
  let groupBy ← Recorded.forAll (r.viewGroupBy view main) view.groupBy
  return ⟨main, view.distinct, filter, groupBy, columns⟩

end Resolver

end ObjectRelational
