import ObjectRelational.Literal
import ObjectRelational.OrderedMap

/-!
# Resolved expressions

Expressions whose names have become handles of a store. A handle is the number of an element of its
kind; a table is always addressed together with the database that it is reached through.

* `Operation` is an expression, `JoinChain` a path of joins with what is evaluated at its end.
* `rootAliases` are the tables an expression starts from, `directColumns` the columns it reads
  there.
* `mapDatabases` maps every database that an expression mentions, `databases` lists them.
-/

namespace ObjectRelational

/-! ## Handles -/

/-- The handle of a database. -/
structure DatabaseId where
  index : Nat
deriving DecidableEq

instance : LT DatabaseId := ⟨fun a b => a.index < b.index⟩

instance : DecidableLT DatabaseId := fun a b => inferInstanceAs (Decidable (a.index < b.index))

instance : KeyOrder DatabaseId where
  irrefl := fun a => Nat.lt_irrefl a.index
  trans := fun _ _ _ => Nat.lt_trans
  connected := fun a b hab hba => by
    cases a; cases b
    exact congrArg DatabaseId.mk (Nat.le_antisymm (Nat.le_of_not_lt hba) (Nat.le_of_not_lt hab))

/-- The handle of a table or view. -/
structure TableId where
  index : Nat
deriving DecidableEq

/-- The handle of a join. -/
structure JoinId where
  index : Nat
deriving DecidableEq

/-- The handle of a filter. -/
structure FilterId where
  index : Nat
deriving DecidableEq

/-- A table, the database it is reached through, and the name it has in an expression. -/
structure TableAlias where
  name : String
  table : TableId
  database : DatabaseId
deriving DecidableEq

/-- Reaches the table through another database. -/
def TableAlias.mapDatabase (f : DatabaseId → DatabaseId) (a : TableAlias) : TableAlias :=
  { a with database := f a.database }

/-! ## Expressions -/

/-- A column of an aliased table. -/
structure ColumnRef where
  tableAlias : TableAlias
  column : String
deriving DecidableEq

/-- A join that a path goes along. -/
structure JoinStep where
  join : JoinId
  name : String
  /-- The database that the join was addressed through. -/
  database : DatabaseId
  joinType : Option JoinType
  /-- The table that the step leaves. -/
  source : TableId
  /-- The table that the step reaches. -/
  target : TableId
  /-- The name of the table reached. -/
  targetAlias : String
deriving DecidableEq

/-- Addresses the join through another database. -/
def JoinStep.mapDatabase (f : DatabaseId → DatabaseId) (step : JoinStep) : JoinStep :=
  { step with database := f step.database }

/-- A relational expression. -/
inductive Operation where
  | column (reference : ColumnRef)
  /-- A path of joins, and what is evaluated on the table where it ends, if anything. -/
  | join (source : TableAlias) (steps : List JoinStep) (target : Option Operation)
  | literal (value : Literal)
  | function (name : String) (arguments : List Operation)

/-- A path of joins from a table, and what is evaluated on the table where it ends, if anything. -/
structure JoinChain where
  source : TableAlias
  steps : List JoinStep
  target : Option Operation

/-- The chain as an expression. -/
def JoinChain.toOperation (chain : JoinChain) : Operation :=
  .join chain.source chain.steps chain.target

/-- The table where a path from `source` ends. -/
def stepsEnd (source : TableId) (steps : List JoinStep) : TableId :=
  match steps.getLast? with
  | none => source
  | some step => step.target

/-- The table where a chain ends. -/
def JoinChain.endTable (chain : JoinChain) : TableId := stepsEnd chain.source.table chain.steps

/-- A filter, and the joins that lead to the tables it is about. -/
structure FilterPointer where
  filter : FilterId
  name : String
  database : DatabaseId
  joins : List JoinStep
deriving DecidableEq

namespace Operation

/-- The chain that an expression is, if it is one. -/
def chain? : Operation → Option JoinChain
  | join source steps target => some ⟨source, steps, target⟩
  | _ => none

/-- Is the expression a path without anything evaluated at its end? Such a path stands for
objects. -/
def isBareJoin : Operation → Bool
  | join _ _ none => true
  | _ => false

mutual

/-- The tables that the parts of an expression start from, in order and with repetitions. -/
def roots : Operation → List TableAlias
  | column reference => [reference.tableAlias]
  | join source _ _ => [source]
  | literal _ => []
  | function _ arguments => rootsOfAll arguments

/-- The tables that expressions start from. -/
def rootsOfAll : List Operation → List TableAlias
  | [] => []
  | argument :: rest => roots argument ++ rootsOfAll rest

end

/-- The tables that an expression starts from, each once. -/
def rootAliases (operation : Operation) : List TableAlias := operation.roots.eraseDups

mutual

/-- The columns that an expression reads directly, not at the end of a path. -/
def directColumns : Operation → List ColumnRef
  | column reference => [reference]
  | function _ arguments => directColumnsOfAll arguments
  | join _ _ _ => []
  | literal _ => []

/-- The columns that expressions read directly. -/
def directColumnsOfAll : List Operation → List ColumnRef
  | [] => []
  | argument :: rest => directColumns argument ++ directColumnsOfAll rest

end

/-! ## Mapping databases -/

mutual

/-- Maps every alias, and every database that a join is addressed through. -/
def mapAliases (f : TableAlias → TableAlias) (g : DatabaseId → DatabaseId) : Operation → Operation
  | column reference => column { reference with tableAlias := f reference.tableAlias }
  | join source steps target =>
    join (f source) (steps.map (JoinStep.mapDatabase g)) (mapAliasesOfTarget f g target)
  | literal value => literal value
  | function name arguments => function name (mapAliasesOfAll f g arguments)

/-- Maps what is evaluated at the end of a path. -/
def mapAliasesOfTarget (f : TableAlias → TableAlias) (g : DatabaseId → DatabaseId) :
    Option Operation → Option Operation
  | none => none
  | some target => some (mapAliases f g target)

/-- Maps expressions. -/
def mapAliasesOfAll (f : TableAlias → TableAlias) (g : DatabaseId → DatabaseId) :
    List Operation → List Operation
  | [] => []
  | argument :: rest => mapAliases f g argument :: mapAliasesOfAll f g rest

end

/-- Maps every database of an expression; tables and alias names stay. -/
def mapDatabases (f : DatabaseId → DatabaseId) : Operation → Operation :=
  mapAliases (TableAlias.mapDatabase f) f

/-- Gives all aliases of a table another name. -/
def renameAlias (table : TableId) (name : String) : Operation → Operation :=
  mapAliases (fun a => if a.table = table then { a with name := name } else a) id

mutual

/-- The databases that an expression mentions, in order and with repetitions. -/
def databases : Operation → List DatabaseId
  | column reference => [reference.tableAlias.database]
  | join source steps target =>
    source.database :: (steps.map (·.database) ++ databasesOfTarget target)
  | literal _ => []
  | function _ arguments => databasesOfAll arguments

/-- The databases that the end of a path mentions. -/
def databasesOfTarget : Option Operation → List DatabaseId
  | none => []
  | some target => databases target

/-- The databases that expressions mention. -/
def databasesOfAll : List Operation → List DatabaseId
  | [] => []
  | argument :: rest => databases argument ++ databasesOfAll rest

end

end Operation

namespace JoinChain

/-- Maps every database of a chain. -/
def mapDatabases (f : DatabaseId → DatabaseId) (chain : JoinChain) : JoinChain where
  source := chain.source.mapDatabase f
  steps := chain.steps.map (JoinStep.mapDatabase f)
  target := Operation.mapAliasesOfTarget (TableAlias.mapDatabase f) f chain.target

/-- The databases that a chain mentions. -/
def databases (chain : JoinChain) : List DatabaseId := chain.toOperation.databases

end JoinChain

namespace FilterPointer

/-- Maps every database of a filter pointer. -/
def mapDatabases (f : DatabaseId → DatabaseId) (pointer : FilterPointer) : FilterPointer :=
  { pointer with
    database := f pointer.database
    joins := pointer.joins.map (JoinStep.mapDatabase f) }

/-- The databases that a filter pointer mentions. -/
def databases (pointer : FilterPointer) : List DatabaseId :=
  pointer.database :: pointer.joins.map (·.database)

end FilterPointer

end ObjectRelational
