import ObjectRelational.Mapping.Effective
import ObjectRelational.Fault

/-!
# Root mappings

Every class that is mapped has one root mapping, counted over a unit and all it includes. A class
that is mapped once needs no mark; otherwise exactly one of its mappings is marked.
-/

namespace ObjectRelational.Roots

/-- A mapping that could be the root of its class. -/
structure Candidate where
  className : String
  id : String
  marked : Bool
deriving DecidableEq

/-- A unit's own class mapping as a candidate. -/
def ofSource (m : Source.ClassMapping) : Candidate := ⟨m.className.value, m.mappingId, m.root⟩

/-- An included class mapping as a candidate. -/
def ofIncluded (e : Effective ClassMapping) : Candidate :=
  ⟨e.declared.className, e.declared.id, e.declared.declaredRoot⟩

/-- The candidates of a unit: its own mappings and then those it includes. -/
def candidates (own : List Source.ClassMapping) (included : List IncludedUnit) : List Candidate :=
  own.map ofSource ++ (includedClassMappings included).map ofIncluded

/-- The candidates of one class. -/
def ofClass (all : List Candidate) (className : String) : List Candidate :=
  all.filter fun c => c.className = className

/-- The root among the candidates of a class: the only one, or the only marked one. -/
def elect? : List Candidate → Option Candidate
  | [only] => some only
  | several =>
    match several.filter (·.marked) with
    | [marked] => some marked
    | _ => none

/-- The fault of a class without exactly one root. -/
def wrongCount (className : String) (candidates : List Candidate) : Fault :=
  .rootCount className candidates.length (candidates.filter (·.marked)).length

/-- Where a wrong count is reported: at the first of the unit's own mappings of the class. -/
def span (unitSpan : Span) (own : List Source.ClassMapping) (className : String) : Span :=
  match own.find? fun m => m.className.value = className with
  | some m => m.span
  | none => unitSpan

/-- Adds the root of one class. -/
def addRoot (unitSpan : Span) (own : List Source.ClassMapping) (all : List Candidate)
    (roots : OrderedMap String String) (className : String) :
    Resolved (OrderedMap String String) :=
  match elect? (ofClass all className) with
  | some root => .ok (roots.insert className root.id)
  | none =>
    (wrongCount className (ofClass all className)).found (span unitSpan own className)

/-- The ids of the root mappings of all classes that a unit maps. The classes are checked in the
order of their paths. -/
def resolve (unitSpan : Span) (own : List Source.ClassMapping) (included : List IncludedUnit) :
    Resolved (OrderedMap String String) :=
  let all := candidates own included
  (OrderedSet.ofList (all.map (·.className))).toList.foldlM (addRoot unitSpan own all) .empty

end ObjectRelational.Roots
