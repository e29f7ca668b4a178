import ObjectRelational.Json.Basic

/-!
# Decoding JSON values

How the parts of a value are found in its JSON form. A structure is an object whose unknown members
are ignored, or an array of its fields in order. A variant without data is its name, one with data
an object with that one key.

* `Decoder` finds a value, `record?` a structure, `variant?` a variant.
* `required?`, `optional?` and `defaulted?` find the fields of a structure.
-/

namespace ObjectRelational.Json

/-- A decoder finds a value in its JSON form, or does not. -/
abbrev Decoder (α : Type) := Json → Option α

/-- A boolean. -/
def bool? : Decoder Bool
  | bool value => some value
  | _ => none

/-- A string. -/
def str? : Decoder String
  | str value => some value
  | _ => none

/-- A floating-point number; an integer stands for the nearest one. -/
def float? : Decoder Binary64
  | float value => some value
  | int value => Binary64.nearest? (value < 0) value.natAbs 1
  | _ => none

/-- An unsigned integer of 8 bits. -/
def uint8? : Decoder UInt8
  | int value => if 0 ≤ value ∧ value < UInt8.size then some (UInt8.ofNat value.toNat) else none
  | _ => none

/-- An unsigned integer of 32 bits. -/
def uint32? : Decoder UInt32
  | int value => if 0 ≤ value ∧ value < UInt32.size then some (UInt32.ofNat value.toNat) else none
  | _ => none

/-- A signed integer of 64 bits. -/
def int64? : Decoder Int64
  | int value =>
    if Int64.minValue.toInt ≤ value ∧ value ≤ Int64.maxValue.toInt then some (Int64.ofInt value)
    else none
  | _ => none

/-- The items of an array. -/
def items? : Decoder (List Json)
  | arr items => some items
  | _ => none

/-- All items decoded, if all can be. -/
def allOf {α : Type} (decode : Decoder α) : List Json → Option (List α)
  | [] => some []
  | item :: rest =>
    match decode item with
    | none => none
    | some a => (allOf decode rest).map (a :: ·)

/-- A list of values. -/
def list? {α : Type} (decode : Decoder α) : Decoder (List α)
  | arr items => allOf decode items
  | _ => none

/-- A value, or null for none. -/
def nullable? {α : Type} (decode : Decoder α) : Decoder (Option α)
  | null => some none
  | json => (decode json).map some

/-- The parts are members of an object, and nothing else has any. -/
def object? {α : Type} (decode : Decoder α) : Decoder α
  | obj members => decode (obj members)
  | _ => none

/-- A structure with the given fields. An object has them as members in any order, perhaps among
others; an array has them in order and nothing else, and fields at the end may be missing. -/
def record? {α : Type} (fields : List String) (decode : Decoder α) : Decoder α
  | obj members => decode (obj members)
  | arr items =>
    if items.length ≤ fields.length then decode (obj (fields.zip items)) else none
  | _ => none

/-- A member that has to be there. -/
def required? {α : Type} (key : String) (decode : Decoder α) : Decoder α := fun json =>
  (json.member? key).bind decode

/-- A member that may be missing or null. -/
def optional? {α : Type} (key : String) (decode : Decoder α) : Decoder (Option α) := fun json =>
  match json.member? key with
  | none => some none
  | some value => nullable? decode value

/-- A member that has a default. -/
def defaulted? {α : Type} (key : String) (default : α) (decode : Decoder α) : Decoder α :=
  fun json =>
  match json.member? key with
  | none => some default
  | some value => decode value

/-- A list that is empty when it is missing. -/
def listOrEmpty? {α : Type} (key : String) (decode : Decoder α) : Decoder (List α) :=
  defaulted? key [] (list? decode)

/-- The name of a variant and its data, if it has any; null is no data. -/
def variant? : Json → Option (String × Option Json)
  | str name => some (name, none)
  | obj [(name, null)] => some (name, none)
  | obj [(name, value)] => some (name, some value)
  | _ => none

end ObjectRelational.Json
