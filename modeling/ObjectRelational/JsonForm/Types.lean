import ObjectRelational.Json.Decode
import ObjectRelational.Literal
import ObjectRelational.Span
import ObjectRelational.Types

/-!
# The JSON form of names, types and literals

For every type an encoder and a decoder. A structure is written as an object with one member for
each of its fields, in the order of their declaration and never left out; a variant without data as
a string, one with data as an object with one member.
-/

namespace ObjectRelational

open Json

/-! ## Positions and names -/

/-- The JSON form of a position. -/
def Span.toJson (s : Span) : Json :=
  .obj [("source_id", .str s.sourceId), ("start_line", .nat s.startLine.toNat),
    ("start_column", .nat s.startColumn.toNat), ("end_line", .nat s.endLine.toNat),
    ("end_column", .nat s.endColumn.toNat)]

/-- A position; all five members have to be there. -/
def Span.ofJson? : Decoder Span :=
  record? ["source_id", "start_line", "start_column", "end_line", "end_column"] fun json => do
  return {
    sourceId := ← required? "source_id" str? json
    startLine := ← required? "start_line" uint32? json
    startColumn := ← required? "start_column" uint32? json
    endLine := ← required? "end_line" uint32? json
    endColumn := ← required? "end_column" uint32? json }

/-- A position that is the default when it is missing. -/
def spanOrDefault? : Decoder Span := defaulted? "span" {} Span.ofJson?

/-- The JSON form of a name. -/
def Name.toJson (n : Name) : Json := .obj [("value", .str n.value), ("span", n.span.toJson)]

/-- A name. -/
def Name.ofJson? : Decoder Name := record? ["value", "span"] fun json => do
  return { value := ← required? "value" str? json, span := ← spanOrDefault? json }

/-! ## Types -/

namespace DataType

/-- The JSON form of a column type. -/
def toJson : DataType → Json
  | integer => .str "integer"
  | bigInt => .str "big_int"
  | smallInt => .str "small_int"
  | tinyInt => .str "tiny_int"
  | float => .str "float"
  | double => .str "double"
  | decimal p s => .tagged "decimal" (.arr [.nat p.toNat, .nat s.toNat])
  | numeric p s => .tagged "numeric" (.arr [.nat p.toNat, .nat s.toNat])
  | varchar n => .tagged "varchar" (.nat n.toNat)
  | char n => .tagged "char" (.nat n.toNat)
  | bit => .str "bit"
  | date => .str "date"
  | timestamp => .str "timestamp"
  | other name => .tagged "other" (.str name)

/-- Precision and scale, as an array of two. -/
def precisionAndScale? (make : UInt8 → UInt8 → DataType) : Decoder DataType
  | .arr [p, s] => do return make (← uint8? p) (← uint8? s)
  | _ => none

/-- A column type. -/
def ofJson? : Decoder DataType := fun json =>
  match variant? json with
  | some ("integer", none) => some integer
  | some ("big_int", none) => some bigInt
  | some ("small_int", none) => some smallInt
  | some ("tiny_int", none) => some tinyInt
  | some ("float", none) => some float
  | some ("double", none) => some double
  | some ("decimal", some data) => precisionAndScale? decimal data
  | some ("numeric", some data) => precisionAndScale? numeric data
  | some ("varchar", some data) => (uint32? data).map varchar
  | some ("char", some data) => (uint32? data).map char
  | some ("bit", none) => some bit
  | some ("date", none) => some date
  | some ("timestamp", none) => some timestamp
  | some ("other", some data) => (str? data).map other
  | _ => none

end DataType

/-- The JSON form of a primitive type is its name. -/
def PrimitiveType.toJson (t : PrimitiveType) : Json := .str t.text

/-- A primitive type. -/
def PrimitiveType.ofJson? : Decoder PrimitiveType := fun json =>
  match variant? json with
  | some (name, none) => PrimitiveType.ofName? name
  | _ => none

/-- The JSON form of a multiplicity. -/
def Multiplicity.toJson (m : Multiplicity) : Json :=
  .obj [("lower", .nat m.lower.toNat), ("upper", .ofOption (fun n => .nat n.toNat) m.upper)]

/-- A multiplicity. An array has to give both bounds. -/
def Multiplicity.ofJson? : Decoder Multiplicity
  | .arr [_] => none
  | json => record? ["lower", "upper"] (fun json => do
    return {
      lower := ← required? "lower" uint32? json
      upper := ← optional? "upper" uint32? json }) json

/-- The JSON form of a property type. -/
def PropertyType.toJson : PropertyType → Json
  | primitive type => .tagged "primitive" type.toJson
  | ofClass path => .tagged "class" (.str path)
  | enumeration path => .tagged "enumeration" (.str path)

/-- A property type. -/
def PropertyType.ofJson? : Decoder PropertyType := fun json =>
  match variant? json with
  | some ("primitive", some data) => (PrimitiveType.ofJson? data).map primitive
  | some ("class", some data) => (str? data).map ofClass
  | some ("enumeration", some data) => (str? data).map enumeration
  | _ => none

/-! ## Literals and kinds of joins -/

/-- The JSON form of a literal. -/
def Literal.toJson : Literal → Json
  | string value => .tagged "string" (.str value)
  | integer value => .tagged "integer" (.int value.toInt)
  | float value => .tagged "float" (.float value)
  | boolean value => .tagged "boolean" (.bool value)
  | null => .str "null"

/-- A literal. -/
def Literal.ofJson? : Decoder Literal := fun json =>
  match variant? json with
  | some ("string", some data) => (str? data).map string
  | some ("integer", some data) => (int64? data).map integer
  | some ("float", some data) => (float? data).map float
  | some ("boolean", some data) => (bool? data).map boolean
  | some ("null", none) => some null
  | _ => none

/-- The JSON form of a kind of join. -/
def JoinType.toJson : JoinType → Json
  | inner => .str "inner"
  | leftOuter => .str "left_outer"
  | rightOuter => .str "right_outer"
  | fullOuter => .str "full_outer"

/-- A kind of join. -/
def JoinType.ofJson? : Decoder JoinType := fun json =>
  match variant? json with
  | some ("inner", none) => some inner
  | some ("left_outer", none) => some leftOuter
  | some ("right_outer", none) => some rightOuter
  | some ("full_outer", none) => some fullOuter
  | _ => none

end ObjectRelational
