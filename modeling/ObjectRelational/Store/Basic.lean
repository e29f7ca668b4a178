import ObjectRelational.Store.Milestoning
import ObjectRelational.Store.Operation
import ObjectRelational.Store.Usage

/-!
# Stores

A store holds the validated databases of a workspace. Databases, tables, joins and filters are kept
in one list for each kind and refer to each other by their positions in it, so that databases can
include each other in cycles.

* `Store` and its parts: `Database`, `Schema`, `Table`, `Column`, `View`, `Join`, `Filter`.
* `Join.otherSide?` is where a join leads from one of its tables.
* `Store.describe` is how diagnostics name a table.
-/

namespace ObjectRelational

/-- A column of a table or view. -/
structure Column where
  name : String
  dataType : DataType
  nullable : Bool
  primaryKey : Bool
  /-- The table that the column belongs to. -/
  table : TableId
deriving DecidableEq

/-- A column of a view. -/
structure ViewColumn where
  name : String
  operation : Operation
  primaryKey : Bool

/-- A view: columns computed from one main table. -/
structure View where
  mainTable : TableAlias
  distinct : Bool
  filter : Option FilterPointer
  groupBy : List Operation
  columns : List ViewColumn

/-- A table or view. -/
structure Table where
  name : String
  schema : String
  /-- The database that declares the table. -/
  database : DatabaseId
  columns : List Column
  milestoning : Option Milestoning
  /-- The definition of a view; a physical table has none. -/
  view : Option View
  span : Span

namespace Table

/-- The column of a name; of equal names the first one. -/
def column? (t : Table) (name : String) : Option Column := t.columns.find? fun c => c.name = name

/-- The columns of the primary key. -/
def primaryKey (t : Table) : List Column := t.columns.filter (·.primaryKey)

end Table

/-- A schema: its tables and then its views, by name. -/
structure Schema where
  name : String
  tables : List (String × TableId)
deriving DecidableEq

/-- The table or view of a name. -/
def Schema.table? (s : Schema) (name : String) : Option TableId := s.tables.lookup name

/-- A database; schemas, joins and filters in the order of their declaration. -/
structure Database where
  name : String
  includes : List DatabaseId
  schemas : List Schema
  joins : List (String × JoinId)
  filters : List (String × FilterId)
  span : Span
deriving DecidableEq

/-- The schema of a name. -/
def Database.schema? (d : Database) (name : String) : Option Schema :=
  d.schemas.find? fun s => s.name = name

/-- A join. -/
structure Join where
  name : String
  database : DatabaseId
  condition : Operation
  /-- The tables that the condition names, each once. -/
  tables : List TableId
  selfJoin : Bool
  span : Span

namespace Join

/-- Is the table one of the join's? -/
def contains (j : Join) (table : TableId) : Bool := table ∈ j.tables

/-- The table that is reached along the join from one of its tables. -/
def otherSide? (j : Join) (table : TableId) : Option TableId :=
  if j.selfJoin then if j.contains table then some table else none
  else
    match j.tables with
    | [a, b] => if a = table then some b else if b = table then some a else none
    | _ => none

end Join

/-- A filter. -/
structure Filter where
  name : String
  database : DatabaseId
  condition : Operation
  /-- The tables that the condition names, each once. -/
  tables : List TableId
  span : Span

/-- A store. -/
structure Store where
  databases : List Database := []
  tables : List Table := []
  joins : List Join := []
  filters : List Filter := []
  /-- The references found while the store was built. -/
  usages : Usages := .empty

namespace Store

instance : Inhabited Store := ⟨{}⟩

/-! ## Elements by handle -/

/-- The database of a handle. -/
def database? (store : Store) (id : DatabaseId) : Option Database := store.databases[id.index]?

/-- The table of a handle. -/
def table? (store : Store) (id : TableId) : Option Table := store.tables[id.index]?

/-- The join of a handle. -/
def join? (store : Store) (id : JoinId) : Option Join := store.joins[id.index]?

/-- The filter of a handle. -/
def filter? (store : Store) (id : FilterId) : Option Filter := store.filters[id.index]?

/-- The handles of all databases. -/
def databaseIds (store : Store) : List DatabaseId :=
  (List.range store.databases.length).map DatabaseId.mk

/-- The database of a name. -/
def databaseNamed? (store : Store) (name : String) : Option DatabaseId :=
  (store.databases.findIdx? fun d => d.name = name).map DatabaseId.mk

/-! ## Names -/

/-- The name of a database; handles of the store always have one. -/
def databaseName (store : Store) (id : DatabaseId) : String :=
  match store.database? id with
  | some d => d.name
  | none => ""

/-- The name of a table; handles of the store always have one. -/
def tableName (store : Store) (id : TableId) : String :=
  match store.table? id with
  | some t => t.name
  | none => ""

/-- The schema that need not be written. -/
def impliedSchema : String := "default"

/-- A table as it is named in diagnostics: `[database]schema.table`, without the implied schema. -/
def describe (store : Store) (table : TableId) (database : DatabaseId) : String :=
  match store.table? table with
  | none => ""
  | some t =>
    if t.schema = impliedSchema then s!"[{store.databaseName database}]{t.name}"
    else s!"[{store.databaseName database}]{t.schema}.{t.name}"

/-- An aliased table as it is named in diagnostics. -/
def describeAlias (store : Store) (a : TableAlias) : String :=
  store.describe a.table a.database

/-- Aliased tables as they are listed in diagnostics. -/
def describeAll (store : Store) (aliases : List TableAlias) : String :=
  String.intercalate ", " (aliases.map store.describeAlias)

/-- The symbol of a table, in the database that declares it. -/
def tableSymbol (store : Store) (id : TableId) : Symbol :=
  match store.table? id with
  | some t => .table (store.databaseName t.database) t.schema t.name
  | none => .table "" "" ""

/-- The symbol of a column, in the database that declares its table. -/
def columnSymbol (store : Store) (id : TableId) (column : String) : Symbol :=
  match store.table? id with
  | some t => .column (store.databaseName t.database) t.schema t.name column
  | none => .column "" "" "" column

end Store

end ObjectRelational
