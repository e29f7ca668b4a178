import ObjectRelational.Settings
import ObjectRelational.Store.View

/-!
# Building a store

A store is built in phases, each of which looks up only what the phases before it have registered:
databases, their includes, schemas with tables and the names of views, joins and filters, and at
last the views. The first failure ends the build.

* `Store.assemble` runs the phases and records the usages.
* `Store.build` is the store with the usages that its settings ask for.
-/

namespace ObjectRelational

namespace Store

/-- The fault of a second declaration of a name, at that name. -/
def duplicate {α : Type} (kind : DeclarationKind) (name : Name) (container : String) : Resolved α :=
  (Fault.duplicate kind name.value container).found name.span

/-- Changes one database. -/
def modifyDatabase (store : Store) (id : DatabaseId) (f : Database → Database) : Store :=
  { store with databases := store.databases.modify id.index f }

/-- Changes one table. -/
def modifyTable (store : Store) (id : TableId) (f : Table → Table) : Store :=
  { store with tables := store.tables.modify id.index f }

/-- Does every item with its position in a list, starting from a store. -/
def forEach {α : Type} (act : Store → DatabaseId → α → Recorded Store) (store : Store)
    (items : List α) : Recorded Store :=
  items.zipIdx.foldlM (fun store item => act store ⟨item.2⟩ item.1) store

/-! ## Databases and includes -/

/-- Registers a database by name. -/
def addDatabase (store : Store) (source : Source.Database) : Resolved Store :=
  if (store.databaseNamed? source.name.value).isSome then
    duplicate .database source.name "the store model"
  else
    let database : Database := ⟨source.name.value, [], [], [], [], source.span⟩
    .ok { store with databases := store.databases ++ [database] }

/-- Finds the databases that a database includes; each counts once, and every mention is used. -/
def resolveIncludes (store : Store) (owner : Name) (found : List DatabaseId) :
    List Name → Recorded (List DatabaseId)
  | [] => pure found
  | name :: rest =>
    match store.databaseNamed? name.value with
    | none =>
      Recorded.ofResult ((Fault.unknownIncludedDatabase owner.value name.value).found name.span)
    | some id => do
      Recorded.record (.database name.value) name.span
      store.resolveIncludes owner (if id ∈ found then found else found ++ [id]) rest

/-- Registers the includes of a database. -/
def addIncludes (store : Store) (id : DatabaseId) (source : Source.Database) : Recorded Store := do
  let includes ← store.resolveIncludes source.name [] source.includes
  return store.modifyDatabase id fun d => { d with includes := includes }

/-! ## Schemas, tables and the names of views -/

/-- The columns of a table, whose names have to differ. A column of the primary key is never
null. -/
def tableColumns (id : TableId) (table : Name) (seen : List String) :
    List Source.Column → Resolved (List Column)
  | [] => .ok []
  | column :: rest => do
    let name := column.name
    if name.value ∈ seen then duplicate .column name table.value
    else
      let others ← tableColumns id table (name.value :: seen) rest
      let nullable := column.nullable && !column.primaryKey
      return ⟨name.value, column.dataType, nullable, column.primaryKey, id⟩ :: others

/-- A store in the making, with the views whose definitions are still to be resolved. -/
structure Draft where
  store : Store
  pendingViews : List (TableId × DatabaseId × Source.View) := []

/-- The handle of the next table. -/
def nextTable (store : Store) : TableId := ⟨store.tables.length⟩

/-- Registers a table and adds it to the names of its schema. -/
def addTable (database : DatabaseId) (schema container : String)
    (state : Store × List (String × TableId)) (source : Source.Table) :
    Resolved (Store × List (String × TableId)) := do
  let (store, names) := state
  if (names.lookup source.name.value).isSome then duplicate .table source.name container
  else
    let id := store.nextTable
    let columns ← tableColumns id source.name [] source.columns
    let milestoning ← Milestoning.ofClauses? source.name.value source.milestoning
      (columns.map fun c => (c.name, c.dataType))
    let table : Table :=
      ⟨source.name.value, schema, database, columns, milestoning, none, source.span⟩
    return ({ store with tables := store.tables ++ [table] }, names ++ [(source.name.value, id)])

/-- Registers the name of a view, so that joins and later views can use it. -/
def addViewName (database : DatabaseId) (schema container : String)
    (state : Draft × List (String × TableId)) (source : Source.View) :
    Resolved (Draft × List (String × TableId)) := do
  let (draft, names) := state
  if (names.lookup source.name.value).isSome then duplicate .view source.name container
  else
    let store := draft.store
    let id := store.nextTable
    let table : Table := ⟨source.name.value, schema, database, [], none, none, source.span⟩
    return (⟨{ store with tables := store.tables ++ [table] },
        draft.pendingViews ++ [(id, database, source)]⟩,
      names ++ [(source.name.value, id)])

/-- Is a schema of the name declared in the database itself? -/
def declaresSchema (store : Store) (id : DatabaseId) (name : String) : Bool :=
  ((store.database? id).bind fun d => d.schema? name).isSome

/-- Registers a schema: its tables and then the names of its views. -/
def addSchema (database : DatabaseId) (owner : Name) (draft : Draft) (source : Source.Schema) :
    Resolved Draft := do
  let name := source.name.value
  if draft.store.declaresSchema database name then duplicate .schema source.name owner.value
  else
    let container := s!"{owner.value}.{name}"
    let (store, names) ← source.tables.foldlM (addTable database name container) (draft.store, [])
    let withTables : Draft := { draft with store := store }
    let (draft, names) ←
      source.views.foldlM (addViewName database name container) (withTables, names)
    return { draft with
      store := draft.store.modifyDatabase database fun d =>
        { d with schemas := d.schemas ++ [⟨name, names⟩] } }

/-- Registers the schemas of a database. -/
def addSchemas (draft : Draft) (item : Source.Database × Nat) : Resolved Draft :=
  item.1.schemas.foldlM (addSchema ⟨item.2⟩ item.1.name) draft

/-! ## Joins and filters -/

/-- The resolver of the expressions of a database. -/
def resolverIn (store : Store) (defaultSchema : String) (database : DatabaseId) : Resolver :=
  { store := store, database := database, defaultSchema := defaultSchema }

/-- The far side of the self joins of a table. -/
def farSide (store : Store) (database : DatabaseId) (table : TableId) : TableAlias :=
  ⟨selfJoinAlias (store.tableName table), table, database⟩

/-- Resolves the condition of a join. A join names two tables; a self join names one, and its far
side by a placeholder. -/
def resolveJoin (store : Store) (defaultSchema : String) (database : DatabaseId)
    (source : Source.Join) : Recorded Join := do
  let r := store.resolverIn defaultSchema database
  let tables ← r.referencedTables source.condition
  let name := source.name.value
  if source.condition.usesTarget then
    match tables with
    | [table] =>
      let r := { r with selfJoinTarget := some (store.farSide database table) }
      let condition ← r.resolve none source.condition
      return ⟨name, database, condition, tables, true, source.span⟩
    | _ => (Fault.selfJoinTableCount tables.length).found source.span
  else if tables.length = 2 then
    let condition ← r.resolve none source.condition
    return ⟨name, database, condition, tables, false, source.span⟩
  else (Fault.joinTableCount name tables.length).found source.span

/-- Does the database itself declare a join of the name? -/
def declaresJoin (store : Store) (id : DatabaseId) (name : String) : Bool :=
  ((store.database? id).bind fun d => d.joins.lookup name).isSome

/-- Does the database itself declare a filter of the name? -/
def declaresFilter (store : Store) (id : DatabaseId) (name : String) : Bool :=
  ((store.database? id).bind fun d => d.filters.lookup name).isSome

/-- Registers a join. -/
def addJoin (defaultSchema : String) (database : DatabaseId) (owner : Name) (store : Store)
    (source : Source.Join) : Recorded Store := do
  let name := source.name.value
  if store.declaresJoin database name then duplicate .join source.name owner.value
  else
    let join ← store.resolveJoin defaultSchema database source
    let id : JoinId := ⟨store.joins.length⟩
    let store := { store with joins := store.joins ++ [join] }
    return store.modifyDatabase database fun d => { d with joins := d.joins ++ [(name, id)] }

/-- Resolves the condition of a filter. -/
def resolveFilter (store : Store) (defaultSchema : String) (database : DatabaseId)
    (source : Source.Filter) : Recorded Filter := do
  let r := store.resolverIn defaultSchema database
  let tables ← r.referencedTables source.condition
  let condition ← r.resolve none source.condition
  return ⟨source.name.value, database, condition, tables, source.span⟩

/-- Registers a filter. -/
def addFilter (defaultSchema : String) (database : DatabaseId) (owner : Name) (store : Store)
    (source : Source.Filter) : Recorded Store := do
  let name := source.name.value
  if store.declaresFilter database name then duplicate .filter source.name owner.value
  else
    let filter ← store.resolveFilter defaultSchema database source
    let id : FilterId := ⟨store.filters.length⟩
    let store := { store with filters := store.filters ++ [filter] }
    return store.modifyDatabase database fun d => { d with filters := d.filters ++ [(name, id)] }

/-- Registers the joins and then the filters of a database. -/
def addJoinsAndFilters (defaultSchema : String) (store : Store) (id : DatabaseId)
    (source : Source.Database) : Recorded Store := do
  let store ← source.joins.foldlM (addJoin defaultSchema id source.name) store
  source.filters.foldlM (addFilter defaultSchema id source.name) store

/-! ## Views -/

/-- The columns that a view has as a table. -/
def viewColumns (store : Store) (table : TableId) (view : View) : List Column :=
  view.columns.map fun c => ⟨c.name, c.dataType store, !c.primaryKey, c.primaryKey, table⟩

/-- Resolves a view whose name is registered. -/
def defineView (defaultSchema : String) (store : Store)
    (pending : TableId × DatabaseId × Source.View) : Recorded Store := do
  let (table, database, source) := pending
  let view ← (store.resolverIn defaultSchema database).view source
  let columns := store.viewColumns table view
  return store.modifyTable table fun t => { t with columns := columns, view := some view }

/-! ## All phases -/

/-- Runs all phases of a build. -/
def assemble (defaultSchema : String) (sources : List Source.Database) : Recorded Store := do
  let store ← (sources.foldlM addDatabase {} : Resolved Store)
  let store ← store.forEach addIncludes sources
  let draft ← (sources.zipIdx.foldlM addSchemas ⟨store, []⟩ : Resolved Draft)
  let store ← draft.store.forEach (addJoinsAndFilters defaultSchema) sources
  draft.pendingViews.foldlM (defineView defaultSchema) store

/-- The usages to keep of those recorded. -/
def keptUsages (settings : ResolutionSettings) (recorded : List Usage) : Usages :=
  if settings.recordUsages then Usages.ofList recorded else .empty

/-- Builds the store of a list of databases. -/
def build (settings : ResolutionSettings) (sources : List Source.Database) : Resolved Store :=
  let built := assemble settings.defaultSchema sources
  built.result.map fun store => { store with usages := keptUsages settings built.usages }

end Store

end ObjectRelational
