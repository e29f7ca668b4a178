import ObjectRelational.Fault
import ObjectRelational.Source.Mapping

/-!
# The order of extended mappings

A class mapping is resolved behind the mapping of the same unit that it extends, if there is one. A
chain of extended mappings must not come back to one of its own.

* `Extension.order` is the order, by recursion.
* `Extension.Walk` comes to the same order in rounds, over the places of the mappings, of which it keeps
  how far it has come with each.
-/

namespace ObjectRelational.Extension

/-- Is a mapping of the id in the list? -/
def hasId (l : List Source.ClassMapping) (id : String) : Bool := l.any fun m => m.mappingId = id

/-- The mapping that a mapping extends, if it is one of `all`. -/
def parent? (all : List Source.ClassMapping) (m : Source.ClassMapping) :
    Option Source.ClassMapping :=
  m.superId.bind fun superId => all.find? fun p => p.mappingId = superId.value

/-- Does a mapping extend itself? -/
def extendsItself (m : Source.ClassMapping) : Option Name :=
  m.superId.filter fun superId => superId.value = m.mappingId

/-- The ids from a mapping of a path up to it again; the end of the path comes first. -/
def cycleIds (path : List Source.ClassMapping) (m : Source.ClassMapping) : List String :=
  ((path.map (·.mappingId)).reverse.dropWhile fun id => id ≠ m.mappingId) ++ [m.mappingId]

/-- Follows a mapping up to one that is ordered already, or that extends no other. Answers the
mappings that were passed, the last one first. There are no more of them than mappings, so that a
depth greater than that is never used up. -/
def climb (all done : List Source.ClassMapping) :
    (depth : Nat) → (path : List Source.ClassMapping) → Source.ClassMapping →
      Resolved (List Source.ClassMapping)
  | 0, path, _ => .ok path
  | depth + 1, path, m =>
    if hasId done m.mappingId then .ok path
    else if hasId path m.mappingId then (Fault.extendsCycle (cycleIds path m)).found m.span
    else
      match extendsItself m, parent? all m with
      | some superId, _ => (Fault.selfExtension m.mappingId).found superId.span
      | none, none => .ok (m :: path)
      | none, some p => climb all done depth (m :: path) p

/-- Orders mappings behind those that are ordered already. -/
def orderFrom (all done : List Source.ClassMapping) :
    List Source.ClassMapping → Resolved (List Source.ClassMapping)
  | [] => .ok done
  | m :: rest => do
    let path ← climb all done (all.length + 1) [] m
    orderFrom all (done ++ path) rest

/-- The mappings of a unit, each behind the one that it extends. -/
def order (all : List Source.ClassMapping) : Resolved (List Source.ClassMapping) :=
  orderFrom all [] all

/-! ## The order as a walk over places -/

/-- How far a walk has come with a mapping. -/
inductive Visit where
  | fresh
  /-- It is on the way up. -/
  | passed
  | ordered
deriving DecidableEq

/-- A walk under way over the places of mappings. -/
structure Walk (all : List Source.ClassMapping) where
  visits : Fin all.length → Visit := fun _ => .fresh
  /-- The way up, the last place first. -/
  path : List (Fin all.length) := []
  /-- The place that the way up has come to, unless it is at its end. -/
  current : Option (Fin all.length) := none
  order : List (Fin all.length) := []
  /-- How many places the walk has started from. -/
  started : Nat := 0

namespace Walk

variable {all : List Source.ClassMapping}

/-- The place of the mapping that one extends; of several mappings of one id, the place of the last. -/
def superPlace? (all : List Source.ClassMapping) (i : Fin all.length) : Option (Fin all.length) :=
  (all.get i).superId.bind fun superId =>
    (List.finRange all.length).reverse.find? fun j => (all.get j).mappingId = superId.value

/-- The ids from a place of the way up to it again. -/
def cycleIds (path : List (Fin all.length)) (i : Fin all.length) : List String :=
  (path.reverse.dropWhile fun j => j ≠ i).map (fun j => (all.get j).mappingId) ++
    [(all.get i).mappingId]

/-- The walk takes up a place that it has not been at. -/
def pass (w : Walk all) (i : Fin all.length) : Walk all :=
  { w with
    visits := fun j => if j = i then .passed else w.visits j
    path := i :: w.path
    current := superPlace? all i }

/-- At the end of the way up, what was passed is ordered, the last place first. -/
def settle (w : Walk all) : Walk all :=
  { w with
    visits := fun j => if j ∈ w.path then .ordered else w.visits j
    path := []
    order := w.order ++ w.path }

/-- One round of the walk. Comes to the walk that goes on, or to the answer. -/
def round (w : Walk all) : Walk all ⊕ Resolved (List (Fin all.length)) :=
  match w.current with
  | none =>
    let settled := w.settle
    if h : w.started < all.length then
      .inl { settled with current := some ⟨w.started, h⟩, started := w.started + 1 }
    else .inr (.ok settled.order)
  | some i =>
    match w.visits i with
    | .ordered => .inl { w with current := none }
    | .passed => .inr ((Fault.extendsCycle (cycleIds w.path i)).found (all.get i).span)
    | .fresh =>
      match extendsItself (all.get i) with
      | some superId => .inr ((Fault.selfExtension (all.get i).mappingId).found superId.span)
      | none => .inl (w.pass i)

end Walk

end ObjectRelational.Extension
