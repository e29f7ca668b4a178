import ObjectRelational.Literal
import ObjectRelational.Span

/-!
# Expressions as they are written

Relational expressions whose databases, tables, columns and joins are still plain names.
-/

namespace ObjectRelational.Source

/-- A column: `[database] schema.table.column`. -/
structure ColumnReference where
  database : Option Name := none
  schema : Option Name := none
  table : Name
  column : Name
deriving DecidableEq

/-- A table: `[database] schema.table`. -/
structure TableReference where
  database : Name
  schema : Option Name := none
  table : Name
deriving DecidableEq

/-- A join of a path: `[database] @name`, perhaps with a kind. -/
structure JoinReference where
  database : Option Name := none
  name : Name
  joinType : Option JoinType := none
deriving DecidableEq

/-- A filter: `[database] @join > @join | [database] name`. -/
structure FilterReference where
  database : Option Name := none
  joins : List JoinReference := []
  name : Name
deriving DecidableEq

/-- A relational expression. -/
inductive Operation where
  | column (reference : ColumnReference)
  /-- A column of the far side of a self join. -/
  | targetColumn (column : Name)
  /-- A path of joins, and the expression evaluated on the table where it ends, if there is one. -/
  | joinPath (joins : List JoinReference) (target : Option Operation)
  | literal (value : Literal)
  | function (name : Name) (arguments : List Operation)

/-- A path of joins and the expression evaluated where it ends, if there is one. -/
structure JoinPath where
  joins : List JoinReference
  target : Option Operation := none

namespace Operation

mutual

/-- Does the expression name a column of the far side of a self join? Join paths are not
searched. -/
def usesTarget : Operation → Bool
  | targetColumn _ => true
  | function _ arguments => anyUsesTarget arguments
  | _ => false

/-- Does one of the expressions name such a column? -/
def anyUsesTarget : List Operation → Bool
  | [] => false
  | argument :: rest => usesTarget argument || anyUsesTarget rest

end

mutual

/-- The columns that the expression names directly, not through a join path, in order. -/
def directColumns : Operation → List ColumnReference
  | column reference => [reference]
  | function _ arguments => directColumnsOfAll arguments
  | _ => []

/-- The columns that the expressions name directly. -/
def directColumnsOfAll : List Operation → List ColumnReference
  | [] => []
  | argument :: rest => directColumns argument ++ directColumnsOfAll rest

end

/-- The databases that the joins of a path are addressed in explicitly, in order. -/
def joinMarkers (joins : List JoinReference) : List Name :=
  joins.filterMap fun join => join.database

mutual

/-- The databases that are named explicitly in the expression, in order. -/
def markers : Operation → List Name
  | column reference => reference.database.toList
  | joinPath joins target => joinMarkers joins ++ markersOfTarget target
  | function _ arguments => markersOfAll arguments
  | targetColumn _ => []
  | literal _ => []

/-- The databases named in the expression at the end of a path. -/
def markersOfTarget : Option Operation → List Name
  | none => []
  | some target => markers target

/-- The databases named in the expressions. -/
def markersOfAll : List Operation → List Name
  | [] => []
  | argument :: rest => markers argument ++ markersOfAll rest

end

end Operation

end ObjectRelational.Source
