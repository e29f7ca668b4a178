/-!
# Strongly connected components in one walk

A depth-first walk can collect the components while it goes on. It keeps the nodes that are in no
component yet on a stack, in the order in which it entered them, and finds for every node the lowest
place on the stack that the nodes entered behind it lead back to. A node from which nothing leads
below its own place takes all that was entered behind it off the stack, as a component.

* `stackVisit` visits a node, `stackComponents` walks through all of them.
-/

namespace ObjectRelational.Graph

variable {α : Type} [DecidableEq α]

/-- What a walk has seen, and what it has collected. -/
structure StackWalk (α : Type) where
  /-- The nodes the walk has entered. -/
  seen : List α := []
  /-- Those of them that are in no component yet, the one entered first in front. -/
  stack : List α := []
  /-- The components, in the order in which they were found. -/
  components : List (List α) := []

namespace StackWalk

/-- Enters a node. -/
def enter (walk : StackWalk α) (node : α) : StackWalk α :=
  { walk with seen := node :: walk.seen, stack := walk.stack ++ [node] }

/-- Leaves the node that was entered at a place of the stack, from where nothing leads below `low`.
Answers the lowest place that what stays on the stack leads to. -/
def leave (walk : StackWalk α) (place low : Nat) : StackWalk α × Nat :=
  if low < place then (walk, low)
  else
    ({ walk with
        stack := walk.stack.take place
        components := walk.components ++ [walk.stack.drop place] }, place)

end StackWalk

/-- Visits a node, and lowers the lowest place found so far to the one that the node leads to. A walk
never goes deeper than there are nodes, which is what `depth` counts down from, so that every node is
seen when the depth is used up. -/
def stackVisit (next : α → List α) : (depth : Nat) → StackWalk α × Nat → α → StackWalk α × Nat
  | 0, (walk, low), node => (walk, min low (walk.stack.idxOf node))
  | depth + 1, (walk, low), node =>
    if node ∈ walk.seen then (walk, min low (walk.stack.idxOf node))
    else
      let place := walk.stack.length
      let inner := (next node).foldl (stackVisit next depth) (walk.enter node, place)
      let left := inner.1.leave place inner.2
      (left.1, min low left.2)

/-- The strongly connected components, each behind the components it reaches. -/
def stackComponents (nodes : List α) (next : α → List α) : List (List α) :=
  (nodes.foldl (stackVisit next nodes.length) ({}, 0)).1.components

end ObjectRelational.Graph
