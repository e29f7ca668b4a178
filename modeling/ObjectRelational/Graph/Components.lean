import ObjectRelational.Graph.Search

/-!
# Strongly connected components

A depth-first walk finishes a node after everything it reaches, except for the nodes it shares a
cycle with. Listing every strongly connected component at the point where the last of its members
is finished therefore puts a node behind all that it depends on.

* `postorder` is the order in which the walk finishes the nodes.
* `components` lists the components, each where its last member finishes.
-/

namespace ObjectRelational.Graph

variable {α : Type} [DecidableEq α]

/-- What a depth-first walk has seen, and what it has finished, in that order. -/
structure Walk (α : Type) where
  /-- The nodes the walk has entered. -/
  seen : List α := []
  /-- The nodes the walk has left, first one first. -/
  finished : List α := []

/-- Enters a node that was not seen, walks its successors and then finishes it. A walk never goes
deeper than there are nodes, which is what `depth` counts down from. -/
def visit (next : α → List α) : (depth : Nat) → Walk α → α → Walk α
  | 0, walk, _ => walk
  | depth + 1, walk, node =>
    if node ∈ walk.seen then walk
    else
      let inner := (next node).foldl (visit next depth) { walk with seen := node :: walk.seen }
      { inner with finished := inner.finished ++ [node] }

/-- The nodes in the order in which a depth-first walk through all of them finishes them. -/
def postorder (nodes : List α) (next : α → List α) : List α :=
  (nodes.foldl (visit next nodes.length) {}).finished

/-- For every node, the nodes that it reaches in zero or more steps. -/
def closures (nodes : List α) (next : α → List α) : List (α × List α) :=
  nodes.map fun node => (node, reachable nodes.length next [node])

/-- Does one node reach another, according to a table of closures? -/
def reaches (table : List (α × List α)) (a b : α) : Bool :=
  match table.lookup a with
  | some closure => b ∈ closure
  | none => false

/-- Two nodes that reach each other lie on a common cycle, or are the same. -/
def connected (table : List (α × List α)) (a b : α) : Bool := reaches table a b && reaches table b a

/-- The classes of an equivalence between nodes, each listed where the last of its members stands
in `order`. -/
def classesAlong (nodes : List α) (equivalent : α → α → Bool) : (order : List α) → List (List α)
  | [] => []
  | node :: rest =>
    if rest.any (equivalent node) then classesAlong nodes equivalent rest
    else nodes.filter (equivalent node) :: classesAlong nodes equivalent rest

/-- The strongly connected components, each behind the components it reaches. -/
def components (nodes : List α) (next : α → List α) : List (List α) :=
  classesAlong nodes (connected (closures nodes next)) (postorder nodes next)

end ObjectRelational.Graph
