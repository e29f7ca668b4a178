/-!
# Maps with ordered keys

A finite map kept as the list of its entries in strictly ascending key order. Two maps with the
same entries are therefore equal, and listing a map needs no sorting.

* `KeyOrder` is what a type of keys has to bring along: a strict total order.
* `OrderedMap.insert`, `OrderedMap.erase`, `OrderedMap.find?` are the operations; the order of the
  entries is a field of the type, so every operation keeps it.
* `OrderedSet` is the map to `Unit`, used for sets that are listed in order.
-/

namespace ObjectRelational

/-- The order of the keys is strict and total. -/
class KeyOrder (κ : Type) [LT κ] : Prop where
  /-- No key is below itself. -/
  irrefl : ∀ a : κ, ¬ a < a
  /-- The order is transitive. -/
  trans : ∀ a b c : κ, a < b → b < c → a < c
  /-- Keys that are not ordered are equal. -/
  connected : ∀ a b : κ, ¬ a < b → ¬ b < a → a = b

instance : KeyOrder String where
  irrefl := String.lt_irrefl
  trans := fun _ _ _ => String.lt_trans
  connected := fun _ _ hab hba => String.le_antisymm hba hab

/-- A finite map as the list of its entries in ascending key order. -/
structure OrderedMap (κ ν : Type) [LT κ] where
  /-- The entries, by ascending key. -/
  entries : List (κ × ν)
  /-- No key is repeated, and the keys ascend. -/
  ascending : entries.Pairwise fun a b => a.1 < b.1

namespace OrderedMap

variable {κ ν μ : Type} [LT κ]

instance [DecidableEq κ] [DecidableEq ν] : DecidableEq (OrderedMap κ ν) := fun a b =>
  match a, b with
  | ⟨as, _⟩, ⟨bs, _⟩ =>
    if h : as = bs then .isTrue (by subst h; rfl)
    else .isFalse fun h' => h (congrArg OrderedMap.entries h')

/-- The map without entries. -/
def empty : OrderedMap κ ν := ⟨[], .nil⟩

instance : EmptyCollection (OrderedMap κ ν) := ⟨empty⟩

instance : Inhabited (OrderedMap κ ν) := ⟨empty⟩

/-- The keys, ascending. -/
def keys (m : OrderedMap κ ν) : List κ := m.entries.map (·.1)

/-- The values, by ascending key. -/
def values (m : OrderedMap κ ν) : List ν := m.entries.map (·.2)

/-- Has the map no entries? -/
def isEmpty (m : OrderedMap κ ν) : Bool := m.entries.isEmpty

/-- Applies a function to every value. -/
def mapValues (f : ν → μ) (m : OrderedMap κ ν) : OrderedMap κ μ :=
  ⟨m.entries.map fun e => (e.1, f e.2), m.ascending.map _ fun _ _ h => h⟩

section Find

variable [DecidableEq κ]

/-- The value of a key. -/
def find? (m : OrderedMap κ ν) (key : κ) : Option ν := m.entries.lookup key

/-- Is the key in the map? -/
def contains (m : OrderedMap κ ν) (key : κ) : Bool := (m.find? key).isSome

/-- Removes a key and its value. -/
def erase (m : OrderedMap κ ν) (key : κ) : OrderedMap κ ν :=
  ⟨m.entries.filter fun e => e.1 ≠ key, m.ascending.filter _⟩

end Find

section Insert

variable [DecidableLT κ]

/-- Puts an entry at its place, over an entry of the same key. -/
def insertEntry (key : κ) (value : ν) : List (κ × ν) → List (κ × ν)
  | [] => [(key, value)]
  | e :: rest =>
    if key < e.1 then (key, value) :: e :: rest
    else if e.1 < key then e :: insertEntry key value rest
    else (key, value) :: rest

/-- An entry of the result is the new entry or was there before. -/
theorem mem_insertEntry {key : κ} {value : ν} {a : κ × ν} {l : List (κ × ν)}
    (h : a ∈ insertEntry key value l) : a = (key, value) ∨ a ∈ l := by
  induction l with
  | nil => exact .inl (List.mem_singleton.1 h)
  | cons e rest ih =>
    unfold insertEntry at h
    split at h
    · exact (List.mem_cons.1 h).imp id id
    · split at h
      · rcases List.mem_cons.1 h with h | h
        · exact .inr (h ▸ List.mem_cons_self)
        · exact (ih h).imp id (List.mem_cons_of_mem _)
      · exact (List.mem_cons.1 h).imp id (List.mem_cons_of_mem _)

/-- Insertion keeps the order of the keys. -/
theorem insertEntry_ascending [KeyOrder κ] (key : κ) (value : ν) {l : List (κ × ν)}
    (h : l.Pairwise fun a b => a.1 < b.1) :
    (insertEntry key value l).Pairwise fun a b => a.1 < b.1 := by
  induction l with
  | nil => exact List.pairwise_singleton _ _
  | cons e rest ih =>
    obtain ⟨hhead, htail⟩ := List.pairwise_cons.1 h
    unfold insertEntry
    split
    · rename_i hlt
      refine List.pairwise_cons.2 ⟨fun a ha => ?_, h⟩
      rcases List.mem_cons.1 ha with rfl | ha
      · exact hlt
      · exact KeyOrder.trans _ _ _ hlt (hhead a ha)
    · rename_i hnlt
      split
      · rename_i hgt
        refine List.pairwise_cons.2 ⟨fun a ha => ?_, ih htail⟩
        rcases mem_insertEntry ha with rfl | ha
        · exact hgt
        · exact hhead a ha
      · rename_i hngt
        have hkey : key = e.1 := KeyOrder.connected _ _ hnlt hngt
        exact List.pairwise_cons.2 ⟨fun a ha => hkey ▸ hhead a ha, htail⟩

variable [KeyOrder κ]

/-- Binds a key to a value, over an older value of the key. -/
def insert (m : OrderedMap κ ν) (key : κ) (value : ν) : OrderedMap κ ν :=
  ⟨insertEntry key value m.entries, insertEntry_ascending key value m.ascending⟩

variable [DecidableEq κ]

/-- Binds a key to a value unless it has one. -/
def insertIfNew (m : OrderedMap κ ν) (key : κ) (value : ν) : OrderedMap κ ν :=
  if m.contains key then m else m.insert key value

/-- The map of a list of entries; of entries with one key the last counts. -/
def ofList (l : List (κ × ν)) : OrderedMap κ ν :=
  l.foldl (fun m e => m.insert e.1 e.2) empty

end Insert

end OrderedMap

/-- A finite set, listed in ascending order. -/
abbrev OrderedSet (κ : Type) [LT κ] := OrderedMap κ Unit

/-- The set of the elements of a list. -/
def OrderedSet.ofList {κ : Type} [LT κ] [DecidableLT κ] [KeyOrder κ] (l : List κ) : OrderedSet κ :=
  l.foldl (fun s a => OrderedMap.insert s a ()) .empty

/-- The elements, ascending. -/
def OrderedSet.toList {κ : Type} [LT κ] (s : OrderedSet κ) : List κ := OrderedMap.keys s

end ObjectRelational
