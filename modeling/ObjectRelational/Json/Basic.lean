import ObjectRelational.Number.Binary64

/-!
# JSON values

A JSON document as a tree. Integers and floating-point numbers are kept apart, and an object keeps
its members in the order in which they are written.
-/

namespace ObjectRelational

/-- A JSON value. -/
inductive Json where
  | null
  | bool (value : Bool)
  | int (value : Int)
  | float (value : Binary64)
  | str (value : String)
  | arr (items : List Json)
  | obj (members : List (String × Json))

namespace Json

instance : Inhabited Json := ⟨null⟩

/-- The JSON of a natural number. -/
def nat (n : Nat) : Json := int n

/-- The text of an optional value, or null. -/
def ofOption {α : Type} (encode : α → Json) : Option α → Json
  | none => null
  | some a => encode a

/-- An array of encoded values. -/
def ofList {α : Type} (encode : α → Json) (items : List α) : Json := arr (items.map encode)

/-- An array of strings. -/
def strings (items : List String) : Json := ofList str items

/-- The value of a variant that carries data: an object whose one key is the variant's name. -/
def tagged (name : String) (value : Json) : Json := obj [(name, value)]

/-- The member of an object with the given key; no other value has members. -/
def member? (key : String) : Json → Option Json
  | obj members => members.lookup key
  | _ => none

mutual

/-- How deep arrays and objects are nested. -/
def depth : Json → Nat
  | arr items => depthOfItems items + 1
  | obj members => depthOfMembers members + 1
  | _ => 0

/-- The depth of the deepest item. -/
def depthOfItems : List Json → Nat
  | [] => 0
  | item :: rest => max (depth item) (depthOfItems rest)

/-- The depth of the deepest member. -/
def depthOfMembers : List (String × Json) → Nat
  | [] => 0
  | (_, value) :: rest => max (depth value) (depthOfMembers rest)

end

end Json

end ObjectRelational
