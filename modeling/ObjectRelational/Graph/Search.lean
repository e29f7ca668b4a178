/-!
# Breadth-first search

The nodes that a graph reaches from a few starting nodes, nearest first and each once. A graph is
the function that lists the successors of a node.

* `reachable` is the search, by recursion.
* `QueueSearch` is the same search as a loop, which takes one node of the queue in each round.
-/

namespace ObjectRelational.Graph

variable {α : Type} [DecidableEq α]

/-- The first `bound` nodes that a breadth-first walk visits, when `seen` have been visited and
`queue` are waiting. Every step but the last visits a node that is not in `seen`, so a bound that
is at least the number of nodes lets the walk end by itself. -/
def breadthFirst (next : α → List α) : (bound : Nat) → (queue seen : List α) → List α
  | 0, _, _ => []
  | bound + 1, queue, seen =>
    match queue.dropWhile (· ∈ seen) with
    | [] => []
    | node :: rest => node :: breadthFirst next bound (rest ++ next node) (node :: seen)

/-- Everything reached from `starts` in zero or more steps, for a graph with `size` nodes. -/
def reachable (size : Nat) (next : α → List α) (starts : List α) : List α :=
  breadthFirst next size starts []

/-! ## The search as a loop -/

/-- A search under way. -/
structure QueueSearch (α : Type) where
  /-- The nodes that wait, some of them perhaps visited by now. -/
  queue : List α
  /-- The nodes that were visited, the last one first. -/
  visited : List α := []

namespace QueueSearch

/-- One round of the loop that lists what is reached. Comes to the search that goes on, or to the list
when nothing waits any more. -/
def visit (next : α → List α) (s : QueueSearch α) : QueueSearch α ⊕ List α :=
  match s.queue with
  | [] => .inr s.visited.reverse
  | node :: rest =>
    if node ∈ s.visited then .inl ⟨rest, s.visited⟩
    else .inl ⟨rest ++ next node, node :: s.visited⟩

/-- One round of the loop that looks for a node. Comes to the search that goes on, or to the answer whether
the node is reached, as soon as it is met. -/
def seek (next : α → List α) (goal : α) (s : QueueSearch α) : QueueSearch α ⊕ Bool :=
  match s.queue with
  | [] => .inr false
  | node :: rest =>
    if node = goal then .inr true
    else if node ∈ s.visited then .inl ⟨rest, s.visited⟩
    else .inl ⟨rest ++ next node, node :: s.visited⟩

end QueueSearch

end ObjectRelational.Graph
