import ObjectRelational.Number.Binary64

/-!
# Literals and kinds of joins

What expressions share before and after their names are resolved.
-/

namespace ObjectRelational

/-- A literal of an expression. -/
inductive Literal where
  | string (value : String)
  | integer (value : Int64)
  | float (value : Binary64)
  | boolean (value : Bool)
  | null
deriving DecidableEq

/-- Which rows a join keeps. -/
inductive JoinType where
  | inner
  | leftOuter
  | rightOuter
  | fullOuter
deriving DecidableEq

end ObjectRelational
