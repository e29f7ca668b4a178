import ObjectRelational.JsonForm.Operation
import ObjectRelational.Source.Database

/-!
# The JSON form of databases
-/

namespace ObjectRelational.Source

open Json

/-- The JSON form of a column. -/
def Column.toJson (c : Column) : Json :=
  .obj [("name", Name.toJson c.name), ("data_type", c.dataType.toJson),
    ("nullable", .bool c.nullable), ("primary_key", .bool c.primaryKey)]

/-- A column; it is nullable unless it says otherwise. -/
def Column.ofJson? : Decoder Column :=
  record? ["name", "data_type", "nullable", "primary_key"] fun json => do
  return {
    name := ← required? "name" Name.ofJson? json
    dataType := ← required? "data_type" DataType.ofJson? json
    nullable := ← defaulted? "nullable" true bool? json
    primaryKey := ← defaulted? "primary_key" false bool? json }

/-- The JSON form of a milestoning argument. -/
def MilestoningArgument.toJson (a : MilestoningArgument) : Json :=
  .obj [("key", Name.toJson a.key), ("value", Name.toJson a.value)]

/-- A milestoning argument. -/
def MilestoningArgument.ofJson? : Decoder MilestoningArgument :=
  record? ["key", "value"] fun json => do
  return {
    key := ← required? "key" Name.ofJson? json
    value := ← required? "value" Name.ofJson? json }

/-- The JSON form of a milestoning clause. -/
def MilestoningClause.toJson (c : MilestoningClause) : Json :=
  .obj [("keyword", Name.toJson c.keyword),
    ("arguments", .ofList MilestoningArgument.toJson c.arguments), ("span", c.span.toJson)]

/-- A milestoning clause. -/
def MilestoningClause.ofJson? : Decoder MilestoningClause :=
  record? ["keyword", "arguments", "span"] fun json => do
  return {
    keyword := ← required? "keyword" Name.ofJson? json
    arguments := ← listOrEmpty? "arguments" MilestoningArgument.ofJson? json
    span := ← spanOrDefault? json }

/-- The JSON form of a table. -/
def Table.toJson (t : Table) : Json :=
  .obj [("name", Name.toJson t.name), ("columns", .ofList Column.toJson t.columns),
    ("milestoning", .ofList MilestoningClause.toJson t.milestoning), ("span", t.span.toJson)]

/-- A table. -/
def Table.ofJson? : Decoder Table :=
  record? ["name", "columns", "milestoning", "span"] fun json => do
  return {
    name := ← required? "name" Name.ofJson? json
    columns := ← listOrEmpty? "columns" Column.ofJson? json
    milestoning := ← listOrEmpty? "milestoning" MilestoningClause.ofJson? json
    span := ← spanOrDefault? json }

/-- The JSON form of a view column. -/
def ViewColumn.toJson (c : ViewColumn) : Json :=
  .obj [("name", Name.toJson c.name), ("operation", c.operation.toJson),
    ("primary_key", .bool c.primaryKey)]

/-- A view column. -/
def ViewColumn.ofJson? : Decoder ViewColumn :=
  record? ["name", "operation", "primary_key"] fun json => do
  return {
    name := ← required? "name" Name.ofJson? json
    operation := ← required? "operation" Operation.ofJson? json
    primaryKey := ← defaulted? "primary_key" false bool? json }

/-- The JSON form of a view. -/
def View.toJson (v : View) : Json :=
  .obj [("name", Name.toJson v.name), ("distinct", .bool v.distinct),
    ("filter", .ofOption FilterReference.toJson v.filter),
    ("group_by", .ofList Operation.toJson v.groupBy),
    ("columns", .ofList ViewColumn.toJson v.columns), ("span", v.span.toJson)]

/-- A view. -/
def View.ofJson? : Decoder View :=
  record? ["name", "distinct", "filter", "group_by", "columns", "span"] fun json => do
  return {
    name := ← required? "name" Name.ofJson? json
    distinct := ← defaulted? "distinct" false bool? json
    filter := ← optional? "filter" FilterReference.ofJson? json
    groupBy := ← listOrEmpty? "group_by" Operation.ofJson? json
    columns := ← listOrEmpty? "columns" ViewColumn.ofJson? json
    span := ← spanOrDefault? json }

/-- The JSON form of a schema. -/
def Schema.toJson (s : Schema) : Json :=
  .obj [("name", Name.toJson s.name), ("tables", .ofList Table.toJson s.tables),
    ("views", .ofList View.toJson s.views)]

/-- A schema. -/
def Schema.ofJson? : Decoder Schema := record? ["name", "tables", "views"] fun json => do
  return {
    name := ← required? "name" Name.ofJson? json
    tables := ← listOrEmpty? "tables" Table.ofJson? json
    views := ← listOrEmpty? "views" View.ofJson? json }

/-- The JSON form of a join. -/
def Join.toJson (j : Join) : Json :=
  .obj [("name", Name.toJson j.name), ("condition", j.condition.toJson), ("span", j.span.toJson)]

/-- A join. -/
def Join.ofJson? : Decoder Join := record? ["name", "condition", "span"] fun json => do
  return {
    name := ← required? "name" Name.ofJson? json
    condition := ← required? "condition" Operation.ofJson? json
    span := ← spanOrDefault? json }

/-- The JSON form of a filter. -/
def Filter.toJson (f : Filter) : Json :=
  .obj [("name", Name.toJson f.name), ("condition", f.condition.toJson), ("span", f.span.toJson)]

/-- A filter. -/
def Filter.ofJson? : Decoder Filter := record? ["name", "condition", "span"] fun json => do
  return {
    name := ← required? "name" Name.ofJson? json
    condition := ← required? "condition" Operation.ofJson? json
    span := ← spanOrDefault? json }

/-- The JSON form of a database. -/
def Database.toJson (d : Database) : Json :=
  .obj [("name", Name.toJson d.name), ("includes", .ofList Name.toJson d.includes),
    ("schemas", .ofList Schema.toJson d.schemas), ("joins", .ofList Join.toJson d.joins),
    ("filters", .ofList Filter.toJson d.filters), ("span", d.span.toJson)]

/-- A database. -/
def Database.ofJson? : Decoder Database :=
  record? ["name", "includes", "schemas", "joins", "filters", "span"] fun json => do
  return {
    name := ← required? "name" Name.ofJson? json
    includes := ← listOrEmpty? "includes" Name.ofJson? json
    schemas := ← listOrEmpty? "schemas" Schema.ofJson? json
    joins := ← listOrEmpty? "joins" Join.ofJson? json
    filters := ← listOrEmpty? "filters" Filter.ofJson? json
    span := ← spanOrDefault? json }

end ObjectRelational.Source
