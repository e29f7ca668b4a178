import ObjectRelational.Diagnostic
import ObjectRelational.JsonForm.Types
import ObjectRelational.Store.Operation

/-!
# Reports of resolved expressions

A report is the JSON form in which something resolved is shown. A handle is its number, a place in a
source is written in one text.
-/

namespace ObjectRelational

/-- The report of a place. -/
def Span.report (s : Span) : Json := .str s.text

/-- The report of a diagnostic. -/
def Diagnostic.report (d : Diagnostic) : Json :=
  .obj [("error", .str d.kind.text), ("message", .str d.message), ("span", d.span.report)]

/-- The report of a database handle. -/
def DatabaseId.report (id : DatabaseId) : Json := .nat id.index

/-- The report of a table handle. -/
def TableId.report (id : TableId) : Json := .nat id.index

/-- The report of a join handle. -/
def JoinId.report (id : JoinId) : Json := .nat id.index

/-- The report of a filter handle. -/
def FilterId.report (id : FilterId) : Json := .nat id.index

/-- The report of an aliased table. -/
def TableAlias.report (a : TableAlias) : Json :=
  .obj [("name", .str a.name), ("table", a.table.report), ("database", a.database.report)]

/-- The report of a column reference. -/
def ColumnRef.report (c : ColumnRef) : Json :=
  .obj [("alias", c.tableAlias.report), ("column", .str c.column)]

/-- The report of a step along a join. -/
def JoinStep.report (s : JoinStep) : Json :=
  .obj [("join", s.join.report), ("name", .str s.name), ("database", s.database.report),
    ("join_type", .ofOption JoinType.toJson s.joinType), ("from", s.source.report),
    ("to", s.target.report), ("alias", .str s.targetAlias)]

/-- The report of a filter pointer. -/
def FilterPointer.report (f : FilterPointer) : Json :=
  .obj [("filter", f.filter.report), ("name", .str f.name), ("database", f.database.report),
    ("joins", .ofList JoinStep.report f.joins)]

/-- The members of the report of a path of joins. -/
def pathReport (source : TableAlias) (steps : List JoinStep) (target : Json) : Json :=
  .obj [("source", source.report), ("steps", .ofList JoinStep.report steps), ("target", target)]

namespace Operation

mutual

/-- The report of an expression. -/
def report : Operation → Json
  | column reference => .tagged "column" reference.report
  | join source steps target => .tagged "join" (pathReport source steps (reportTarget target))
  | literal value => .tagged "literal" value.toJson
  | function name arguments =>
    .tagged "function" (.obj [("name", .str name), ("args", .arr (reportAll arguments))])

/-- The report of what is evaluated at the end of a path. -/
def reportTarget : Option Operation → Json
  | none => .null
  | some target => report target

/-- The reports of expressions. -/
def reportAll : List Operation → List Json
  | [] => []
  | argument :: rest => report argument :: reportAll rest

end

end Operation

/-- The report of a join chain. -/
def JoinChain.report (c : JoinChain) : Json :=
  pathReport c.source c.steps (Operation.reportTarget c.target)

end ObjectRelational
