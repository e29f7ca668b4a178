import ObjectRelational.Fault
import ObjectRelational.Graph.Components
import ObjectRelational.Graph.Cycle
import ObjectRelational.OrderedMap
import ObjectRelational.Source.Mapping

/-!
# The graph of includes

The units of a workspace and the includes between them. Units are compiled behind the units that
they include; a unit that lies on a cycle, or includes what is not there, cannot be compiled.

* `IncludeGraph.compileOrder` is the order in which units are compiled.
* `IncludeGraph.validate` checks the includes of one unit.
-/

namespace ObjectRelational

/-- An include between two units, with its place among the includes of a unit. -/
structure IncludeEdge where
  index : Nat
  target : String
deriving DecidableEq

/-- The names of the units, each once, and the includes that lead from them to others of them. -/
structure IncludeGraph where
  nodes : List (String × List IncludeEdge)
deriving DecidableEq

namespace IncludeGraph

/-- The includes of one unit that lead to a unit of the given names. -/
def edgesOf (names : List String) (unit : Source.Mapping) : List IncludeEdge :=
  (unit.includes.zipIdx.map fun i => ⟨i.2, i.1.mapping.value⟩).filter fun e => e.target ∈ names

/-- The graph of units. Units of one name are one node, with the includes of all of them. -/
def ofUnits (units : List Source.Mapping) : IncludeGraph :=
  let names := (units.map fun u => u.name.value).eraseDups
  ⟨names.map fun name =>
    (name, (units.filter fun u => u.name.value = name).flatMap (edgesOf names))⟩

/-- The names of the units. -/
def names (g : IncludeGraph) : List String := g.nodes.map (·.1)

/-- Is there a unit of the name? -/
def contains (g : IncludeGraph) (name : String) : Bool := (g.nodes.lookup name).isSome

/-- The includes of the units of a name, in order. -/
def edges (g : IncludeGraph) (name : String) : List IncludeEdge :=
  (g.nodes.lookup name).getD []

/-- The units that the units of a name include; a walk through the graph follows the last include
first. -/
def latestFirst (g : IncludeGraph) (name : String) : List String :=
  (g.edges name).reverse.map (·.target)

/-- The place of a name among the names. -/
def position (g : IncludeGraph) (name : String) : Nat := g.names.idxOf name

/-- Includes at an earlier place come first, and of includes at one place that of the earlier
unit. -/
def comesBefore (g : IncludeGraph) (a b : IncludeEdge) : Bool :=
  a.index < b.index || a.index = b.index && g.position a.target ≤ g.position b.target

/-- The units that the units of a name include, by the place of the include. -/
def inOrder (g : IncludeGraph) (name : String) : List String :=
  ((g.edges name).mergeSort g.comesBefore).map (·.target)

/-- The names of the units, each behind those that it includes. The members of a cycle are listed
together, by name. -/
def compileOrder (g : IncludeGraph) : List String :=
  (Graph.components g.names g.latestFirst).flatMap fun component =>
    (OrderedSet.ofList component).toList

/-- A cycle of includes through a unit, from the unit back to it. -/
def cycle? (g : IncludeGraph) (name : String) : Option (List String) :=
  if g.contains name then Graph.cycleThrough? g.names.length g.inOrder name else none

/-- A unit may include others, each once, but not itself. -/
def checkIncludes (g : IncludeGraph) (unit : String) (seen : List String) :
    List Source.Include → Resolved Unit
  | [] => .ok ()
  | i :: rest =>
    let target := i.mapping.value
    if target = unit then (Fault.circularInclude unit [unit, unit]).found i.span
    else if !g.contains target then (Fault.unknownMapping target unit).found i.mapping.span
    else if target ∈ seen then (Fault.duplicateInclude unit target).found i.span
    else g.checkIncludes unit (target :: seen) rest

/-- Checks the includes of a unit, and then that no cycle leads through it. -/
def validate (g : IncludeGraph) (unit : Source.Mapping) : Resolved Unit := do
  g.checkIncludes unit.name.value [] unit.includes
  match g.cycle? unit.name.value with
  | some cycle => (Fault.circularInclude unit.name.value cycle).found unit.span
  | none => return ()

end IncludeGraph

end ObjectRelational
