/-!
# Configuration documents

A configuration document holds entries, each a key with a value, and tables of such entries. Keys
and tables are named once.
-/

namespace ObjectRelational.Toml

/-- A value. -/
inductive Value where
  | string (text : String)
  | integer (value : Int)
  | boolean (value : Bool)
deriving DecidableEq

/-- The entries of a table, in the order in which they are written. -/
abbrev Entries := List (String × Value)

/-- A document. -/
structure Document where
  /-- The entries that stand before all tables. -/
  entries : Entries := []
  tables : List (String × Entries) := []
deriving DecidableEq

namespace Document

/-- The table of a name. -/
def table? (d : Document) (name : String) : Option Entries := d.tables.lookup name

/-- Is the name taken by an entry outside of all tables, or by a table? -/
def isTaken (d : Document) (name : String) : Bool :=
  (d.entries.lookup name).isSome || (d.table? name).isSome

end Document

end ObjectRelational.Toml
