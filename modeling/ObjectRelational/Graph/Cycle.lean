/-!
# Cycles through a node

The depth-first search for a path that leads from a node back to itself.

* `cycleThrough?` is the search, by recursion.
* `CycleSearch` is the same search as a loop with a stack of its own.
-/

namespace ObjectRelational.Graph

variable {α : Type} [DecidableEq α]

/-- Follows `node` at the end of `path`, whose last node comes first. Fails with the cycle when it
is back at `start`; otherwise answers the nodes explored in vain. A path never grows longer than
there are nodes, which is what `depth` counts down from. -/
def searchCycle (next : α → List α) (start : α) :
    (depth : Nat) → (path explored : List α) → α → Except (List α) (List α)
  | 0, _, explored, _ => .ok explored
  | depth + 1, path, explored, node =>
    if node = start then .error (node :: path).reverse
    else if node ∈ path ∨ node ∈ explored then .ok explored
    else
      ((next node).foldlM (searchCycle next start depth (node :: path)) explored).map (node :: ·)

/-- A cycle through `start`, from `start` to `start`, for a graph with `size` nodes. -/
def cycleThrough? (size : Nat) (next : α → List α) (start : α) : Option (List α) :=
  match (next start).foldlM (searchCycle next start size [start]) [] with
  | .error cycle => some cycle
  | .ok _ => none

/-! ## The search as a loop -/

/-- A search under way. -/
structure CycleSearch (α : Type) where
  /-- The nodes of the path, the last one first, each with the successors that are still to be
  followed. -/
  frames : List (α × List α)
  /-- The nodes explored in vain. -/
  explored : List α := []

namespace CycleSearch

/-- The search when it starts. -/
def begin (next : α → List α) (start : α) : CycleSearch α := { frames := [(start, next start)] }

/-- One round of the loop follows the next successor of the last node of the path. Comes to the search
that goes on, or to the answer: the cycle, or nothing when the path is used up. -/
def round (next : α → List α) (start : α) (s : CycleSearch α) : CycleSearch α ⊕ Option (List α) :=
  match s.frames with
  | [] => .inr none
  | (node, []) :: outer => .inl ⟨outer, node :: s.explored⟩
  | (node, child :: rest) :: outer =>
    let path := node :: outer.map (·.1)
    if child = start then .inr (some (child :: path).reverse)
    else if child ∈ path ∨ child ∈ s.explored then .inl ⟨(node, rest) :: outer, s.explored⟩
    else .inl ⟨(child, next child) :: (node, rest) :: outer, s.explored⟩

end CycleSearch

end ObjectRelational.Graph
