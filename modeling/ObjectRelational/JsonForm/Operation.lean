import ObjectRelational.JsonForm.Types
import ObjectRelational.Source.Operation

/-!
# The JSON form of expressions
-/

namespace ObjectRelational.Source

open Json

/-- The JSON form of an optional name. -/
def optionalName (name : Option Name) : Json := .ofOption Name.toJson name

/-- The JSON form of a column reference. -/
def ColumnReference.toJson (r : ColumnReference) : Json :=
  .obj [("database", optionalName r.database), ("schema", optionalName r.schema),
    ("table", Name.toJson r.table), ("column", Name.toJson r.column)]

/-- A column reference. -/
def ColumnReference.ofJson? : Decoder ColumnReference :=
  record? ["database", "schema", "table", "column"] fun json => do
  return {
    database := ← optional? "database" Name.ofJson? json
    schema := ← optional? "schema" Name.ofJson? json
    table := ← required? "table" Name.ofJson? json
    column := ← required? "column" Name.ofJson? json }

/-- The JSON form of a table reference. -/
def TableReference.toJson (r : TableReference) : Json :=
  .obj [("database", Name.toJson r.database), ("schema", optionalName r.schema),
    ("table", Name.toJson r.table)]

/-- A table reference. -/
def TableReference.ofJson? : Decoder TableReference :=
  record? ["database", "schema", "table"] fun json => do
  return {
    database := ← required? "database" Name.ofJson? json
    schema := ← optional? "schema" Name.ofJson? json
    table := ← required? "table" Name.ofJson? json }

/-- The JSON form of a join reference. -/
def JoinReference.toJson (r : JoinReference) : Json :=
  .obj [("database", optionalName r.database), ("name", Name.toJson r.name),
    ("join_type", .ofOption JoinType.toJson r.joinType)]

/-- A join reference. -/
def JoinReference.ofJson? : Decoder JoinReference :=
  record? ["database", "name", "join_type"] fun json => do
  return {
    database := ← optional? "database" Name.ofJson? json
    name := ← required? "name" Name.ofJson? json
    joinType := ← optional? "join_type" JoinType.ofJson? json }

/-- The JSON form of a filter reference. -/
def FilterReference.toJson (r : FilterReference) : Json :=
  .obj [("database", optionalName r.database), ("joins", .ofList JoinReference.toJson r.joins),
    ("name", Name.toJson r.name)]

/-- A filter reference. -/
def FilterReference.ofJson? : Decoder FilterReference :=
  record? ["database", "joins", "name"] fun json => do
  return {
    database := ← optional? "database" Name.ofJson? json
    joins := ← listOrEmpty? "joins" JoinReference.ofJson? json
    name := ← required? "name" Name.ofJson? json }

namespace Operation

mutual

/-- The JSON form of an expression. -/
def toJson : Operation → Json
  | column reference => .tagged "column" reference.toJson
  | targetColumn name => .tagged "target_column" (Name.toJson name)
  | joinPath joins target =>
    .tagged "join_path"
      (.obj [("joins", .ofList JoinReference.toJson joins), ("target", targetToJson target)])
  | literal value => .tagged "literal" value.toJson
  | function name arguments =>
    .tagged "function" (.obj [("name", Name.toJson name), ("args", .arr (allToJson arguments))])

/-- The JSON form of the expression at the end of a path. -/
def targetToJson : Option Operation → Json
  | none => .null
  | some target => toJson target

/-- The JSON forms of expressions. -/
def allToJson : List Operation → List Json
  | [] => []
  | argument :: rest => toJson argument :: allToJson rest

end

/-- An expression nested at most `fuel` deep. -/
def decode? : (fuel : Nat) → Decoder Operation
  | 0, _ => none
  | fuel + 1, json =>
    match variant? json with
    | some ("column", some data) => (ColumnReference.ofJson? data).map column
    | some ("target_column", some data) => (Name.ofJson? data).map targetColumn
    | some ("join_path", some data) =>
      record? ["joins", "target"] (fun data => do
        return joinPath (← required? "joins" (list? JoinReference.ofJson?) data)
          (← optional? "target" (decode? fuel) data)) data
    | some ("literal", some data) => (Literal.ofJson? data).map literal
    | some ("function", some data) =>
      object? (fun data => do
        return function (← required? "name" Name.ofJson? data)
          (← listOrEmpty? "args" (decode? fuel) data)) data
    | _ => none

/-- An expression. An expression inside another one stands deeper in the JSON value, so its depth
is enough fuel. -/
def ofJson? : Decoder Operation := fun json => decode? json.depth json

end Operation

/-- The JSON form of a join path. -/
def JoinPath.toJson (p : JoinPath) : Json :=
  .obj [("joins", .ofList JoinReference.toJson p.joins),
    ("target", Operation.targetToJson p.target)]

/-- A join path. -/
def JoinPath.ofJson? : Decoder JoinPath := record? ["joins", "target"] fun json => do
  return {
    joins := ← required? "joins" (list? JoinReference.ofJson?) json
    target := ← optional? "target" Operation.ofJson? json }

end ObjectRelational.Source
