import ObjectRelational.Store.Operation

/-!
# Store substitution

An include can replace databases of the unit that it includes. A substitution is the finite map from
the databases replaced to those that stand for them; it acts on every database, and leaves those
alone that it does not name.

* `Substitution.apply` is the action.
* `Substitution.andThen` composes two substitutions, the inner one first.
-/

namespace ObjectRelational

/-- The databases that are replaced, and what stands for each. -/
structure Substitution where
  replacements : OrderedMap DatabaseId DatabaseId := .empty
deriving DecidableEq

namespace Substitution

/-- The substitution that replaces nothing. -/
def identity : Substitution := {}

instance : Inhabited Substitution := ⟨identity⟩

/-- The database that stands for a database. -/
def apply (s : Substitution) (database : DatabaseId) : DatabaseId :=
  (s.replacements.find? database).getD database

/-- Replaces one more database. -/
def insert (s : Substitution) (replaced substitute : DatabaseId) : Substitution :=
  ⟨s.replacements.insert replaced substitute⟩

/-- Is nothing replaced? -/
def isEmpty (s : Substitution) : Bool := s.replacements.isEmpty

/-- The databases that are replaced, in the order of their handles. -/
def domain (s : Substitution) : List DatabaseId := s.replacements.keys

/-- The replacements, in the order of the databases replaced. -/
def pairs (s : Substitution) : List (DatabaseId × DatabaseId) := s.replacements.entries

/-- The substitution that applies `s` first and `outer` to what comes out. -/
def andThen (s outer : Substitution) : Substitution :=
  ⟨outer.pairs.foldl (fun m e => m.insertIfNew e.1 e.2) (s.replacements.mapValues outer.apply)⟩

end Substitution

end ObjectRelational
