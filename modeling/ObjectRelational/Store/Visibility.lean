import ObjectRelational.Graph.Search
import ObjectRelational.Store.Basic

/-!
# What a database sees

A database sees its own elements and those of all databases it includes, directly or not. A name is
looked up in the nearest database that declares it.

* `Store.visibleDatabases` lists the databases that a database sees, nearest first.
* `Store.includesTransitively` asks for a path of at least one include.
* `Store.findTable?`, `Store.findJoin?` and `Store.findFilter?` are the lookups.
-/

namespace ObjectRelational.Store

/-- The databases that a database includes itself. -/
def includesOf (store : Store) (id : DatabaseId) : List DatabaseId :=
  match store.database? id with
  | some d => d.includes
  | none => []

/-- A database and all that it includes, directly or not: nearest first and each once. -/
def visibleDatabases (store : Store) (id : DatabaseId) : List DatabaseId :=
  Graph.reachable store.databases.length store.includesOf [id]

/-- Does one database lead to another through one or more includes? -/
def includesTransitively (store : Store) (id other : DatabaseId) : Bool :=
  other ∈ Graph.reachable store.databases.length store.includesOf (store.includesOf id)

/-- The first thing that a visible database declares. -/
def findVisible? {α : Type} (store : Store) (id : DatabaseId) (declared : Database → Option α) :
    Option α :=
  (store.visibleDatabases id).findSome? fun d => (store.database? d).bind declared

/-- The table or view that a name denotes in a schema, seen from a database. -/
def findTable? (store : Store) (id : DatabaseId) (schema name : String) : Option TableId :=
  store.findVisible? id fun d => (d.schema? schema).bind fun s => s.table? name

/-- The join that a name denotes, seen from a database. -/
def findJoin? (store : Store) (id : DatabaseId) (name : String) : Option JoinId :=
  store.findVisible? id fun d => d.joins.lookup name

/-- The filter that a name denotes, seen from a database. -/
def findFilter? (store : Store) (id : DatabaseId) (name : String) : Option FilterId :=
  store.findVisible? id fun d => d.filters.lookup name

/-- Does the database see a schema of a name? -/
def hasSchema (store : Store) (id : DatabaseId) (schema : String) : Bool :=
  (store.findVisible? id fun d => d.schema? schema).isSome

end ObjectRelational.Store
