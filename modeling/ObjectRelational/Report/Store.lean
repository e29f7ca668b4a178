import ObjectRelational.Report.Operation
import ObjectRelational.Store.Basic

/-!
# Reports of stores
-/

namespace ObjectRelational

/-! ## Milestoning and views -/

/-- The report of processing time. -/
def ProcessingMilestoning.report (p : ProcessingMilestoning) : Json :=
  .obj [("in_column", .str p.inColumn), ("out_column", .str p.outColumn),
    ("out_is_inclusive", .bool p.outIsInclusive),
    ("infinity_date", .ofOption .str p.infinityDate)]

/-- The report of business time. -/
def BusinessMilestoning.report (b : BusinessMilestoning) : Json :=
  .obj [("from_column", .str b.fromColumn), ("thru_column", .str b.thruColumn),
    ("thru_is_inclusive", .bool b.thruIsInclusive),
    ("infinity_date", .ofOption .str b.infinityDate)]

/-- The report of a business snapshot. -/
def BusinessSnapshotMilestoning.report (s : BusinessSnapshotMilestoning) : Json :=
  .obj [("snapshot_date_column", .str s.snapshotDateColumn),
    ("infinity_date", .ofOption .str s.infinityDate)]

/-- The report of milestoning. -/
def Milestoning.report : Milestoning → Json
  | processing p => .tagged "processing" p.report
  | business b => .tagged "business" b.report
  | businessSnapshot s => .tagged "business_snapshot" s.report
  | bitemporal p b =>
    .tagged "bitemporal" (.obj [("processing", p.report), ("business", b.report)])

/-- The report of a view column. -/
def ViewColumn.report (c : ViewColumn) : Json :=
  .obj [("name", .str c.name), ("operation", c.operation.report),
    ("primary_key", .bool c.primaryKey)]

/-- The report of a view. -/
def View.report (v : View) : Json :=
  .obj [("main_table", v.mainTable.report), ("distinct", .bool v.distinct),
    ("filter", .ofOption FilterPointer.report v.filter),
    ("group_by", .ofList Operation.report v.groupBy),
    ("columns", .ofList ViewColumn.report v.columns)]

/-! ## Tables -/

/-- The report of a column. -/
def Column.report (c : Column) : Json :=
  .obj [("name", .str c.name), ("type", .str c.dataType.text), ("data_type", c.dataType.toJson),
    ("nullable", .bool c.nullable), ("primary_key", .bool c.primaryKey),
    ("table", c.table.report)]

/-- The report of a table or view. -/
def Table.report (id : TableId) (t : Table) : Json :=
  .obj [("id", id.report), ("name", .str t.name), ("schema", .str t.schema),
    ("database", t.database.report), ("columns", .ofList Column.report t.columns),
    ("primary_key", .strings (t.primaryKey.map (·.name))),
    ("milestoning", .ofOption Milestoning.report t.milestoning),
    ("milestoning_columns", .ofOption (fun m => .strings m.columns) t.milestoning),
    ("view", .ofOption View.report t.view), ("span", t.span.report)]

/-! ## Usages -/

/-- The report of usages: for every symbol its kind, its text and the places where it is used. -/
def Usages.report (u : Usages) : Json :=
  .ofList (fun e => .arr [.str e.1.kindText, .str e.1.text, .ofList Span.report e.2]) u.entries

/-- The report of one usage. -/
def Usage.report (u : Usage) : Json :=
  .arr [.str u.symbol.kindText, .str u.symbol.text, u.span.report]

/-! ## Databases -/

/-- The report of a join. -/
def Join.report (id : JoinId) (j : Join) : Json :=
  .obj [("id", id.report), ("name", .str j.name), ("database", j.database.report),
    ("condition", j.condition.report), ("tables", .ofList TableId.report j.tables),
    ("self_join", .bool j.selfJoin), ("span", j.span.report)]

/-- The report of a filter. -/
def Filter.report (id : FilterId) (f : Filter) : Json :=
  .obj [("id", id.report), ("name", .str f.name), ("database", f.database.report),
    ("condition", f.condition.report), ("tables", .ofList TableId.report f.tables),
    ("span", f.span.report)]

namespace Store

/-- The names of databases. -/
def namesOf (store : Store) (databases : List DatabaseId) : List String :=
  databases.map store.databaseName

/-- The report of a schema with its tables and views. -/
def schemaReport (store : Store) (s : Schema) : Json :=
  .obj [("name", .str s.name),
    ("tables", .arr (s.tables.filterMap fun t => (store.table? t.2).map (Table.report t.2)))]

/-- The report of a database. -/
def databaseReport (store : Store) (id : DatabaseId) (d : Database) : Json :=
  .obj [("id", id.report), ("name", .str d.name), ("includes", .strings (store.namesOf d.includes)),
    ("schemas", .ofList store.schemaReport d.schemas),
    ("joins", .arr (d.joins.filterMap fun j => (store.join? j.2).map (Join.report j.2))),
    ("filters", .arr (d.filters.filterMap fun f => (store.filter? f.2).map (Filter.report f.2))),
    ("span", d.span.report)]

/-- The report of a store. -/
def report (store : Store) : Json :=
  .obj [("databases", .arr (store.databaseIds.filterMap fun id =>
      (store.database? id).map (store.databaseReport id))),
    ("usages", store.usages.report)]

end Store

end ObjectRelational
