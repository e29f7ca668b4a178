import ObjectRelational.Source.Operation
import ObjectRelational.Types

/-!
# Databases as they are written

A database declares schemas of tables and views, and joins and filters over them. It can include
other databases, whose elements it then sees.
-/

namespace ObjectRelational.Source

/-- A column of a table. -/
structure Column where
  name : Name
  dataType : DataType
  nullable : Bool := true
  primaryKey : Bool := false
deriving DecidableEq

/-- An argument of a milestoning clause: `key = value`. -/
structure MilestoningArgument where
  key : Name
  value : Name
deriving DecidableEq

/-- A milestoning clause of a table: `keyword(key = value, ...)`. -/
structure MilestoningClause where
  keyword : Name
  arguments : List MilestoningArgument := []
  span : Span := {}
deriving DecidableEq

/-- A table. -/
structure Table where
  name : Name
  columns : List Column := []
  milestoning : List MilestoningClause := []
  span : Span := {}
deriving DecidableEq

/-- A column of a view. -/
structure ViewColumn where
  name : Name
  operation : Operation
  primaryKey : Bool := false

/-- A view: columns computed from one main table. -/
structure View where
  name : Name
  distinct : Bool := false
  filter : Option FilterReference := none
  groupBy : List Operation := []
  columns : List ViewColumn := []
  span : Span := {}

/-- A schema. -/
structure Schema where
  name : Name
  tables : List Table := []
  views : List View := []

/-- A join: a condition over two tables, or over a table and itself. -/
structure Join where
  name : Name
  condition : Operation
  span : Span := {}

/-- A filter: a condition on the rows of tables. -/
structure Filter where
  name : Name
  condition : Operation
  span : Span := {}

/-- A database. -/
structure Database where
  name : Name
  includes : List Name := []
  schemas : List Schema := []
  joins : List Join := []
  filters : List Filter := []
  span : Span := {}

end ObjectRelational.Source
