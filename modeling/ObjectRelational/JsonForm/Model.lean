import ObjectRelational.JsonForm.Types
import ObjectRelational.Model.Basic

/-!
# The JSON form of object models
-/

namespace ObjectRelational.Model

open Json

/-- The JSON form of a property. -/
def Property.toJson (p : Property) : Json :=
  .obj [("name", .str p.name), ("property_type", p.type.toJson),
    ("multiplicity", p.multiplicity.toJson), ("owner", .str p.owner)]

/-- A property. -/
def Property.ofJson? : Decoder Property :=
  record? ["name", "property_type", "multiplicity", "owner"] fun json => do
  return {
    name := ← required? "name" str? json
    type := ← required? "property_type" PropertyType.ofJson? json
    multiplicity := ← defaulted? "multiplicity" {} Multiplicity.ofJson? json
    owner := ← defaulted? "owner" "" str? json }

/-- The JSON form of a qualified property. -/
def QualifiedProperty.toJson (p : QualifiedProperty) : Json :=
  .obj [("name", .str p.name), ("return_type", p.returnType.toJson), ("owner", .str p.owner)]

/-- A qualified property. -/
def QualifiedProperty.ofJson? : Decoder QualifiedProperty :=
  record? ["name", "return_type", "owner"] fun json => do
  return {
    name := ← required? "name" str? json
    returnType := ← required? "return_type" PropertyType.ofJson? json
    owner := ← defaulted? "owner" "" str? json }

/-- The JSON form of a temporal stereotype. -/
def Temporal.toJson : Temporal → Json
  | business => .str "business"
  | processing => .str "processing"
  | bitemporal => .str "bitemporal"

/-- A temporal stereotype. -/
def Temporal.ofJson? : Decoder Temporal := fun json =>
  match variant? json with
  | some ("business", none) => some business
  | some ("processing", none) => some processing
  | some ("bitemporal", none) => some bitemporal
  | _ => none

/-- The JSON form of a class. -/
def Class.toJson (c : Class) : Json :=
  .obj [("path", .str c.path), ("generalizations", .strings c.generalizations),
    ("properties", .ofList Property.toJson c.properties),
    ("qualified_properties", .ofList QualifiedProperty.toJson c.qualifiedProperties),
    ("temporal", .ofOption Temporal.toJson c.temporal)]

/-- The fields of a class. -/
def classFields : List String :=
  ["path", "generalizations", "properties", "qualified_properties", "temporal"]

/-- A class. -/
def Class.ofJson? : Decoder Class := record? classFields fun json => do
  return {
    path := ← required? "path" str? json
    generalizations := ← listOrEmpty? "generalizations" str? json
    properties := ← listOrEmpty? "properties" Property.ofJson? json
    qualifiedProperties := ← listOrEmpty? "qualified_properties" QualifiedProperty.ofJson? json
    temporal := ← optional? "temporal" Temporal.ofJson? json }

/-- The JSON form of an association; its ends are an array of two. -/
def Association.toJson (a : Association) : Json :=
  .obj [("path", .str a.path), ("properties", .arr [a.first.toJson, a.second.toJson]),
    ("qualified_properties", .ofList QualifiedProperty.toJson a.qualifiedProperties)]

/-- Exactly two properties. -/
def propertyPair? : Decoder (Property × Property)
  | .arr [first, second] => do return (← Property.ofJson? first, ← Property.ofJson? second)
  | _ => none

/-- An association. -/
def Association.ofJson? : Decoder Association :=
  record? ["path", "properties", "qualified_properties"] fun json => do
  let (first, second) ← required? "properties" propertyPair? json
  return {
    path := ← required? "path" str? json
    first := first
    second := second
    qualifiedProperties := ← listOrEmpty? "qualified_properties" QualifiedProperty.ofJson? json }

/-- The JSON form of an enumeration. -/
def Enumeration.toJson (e : Enumeration) : Json :=
  .obj [("path", .str e.path), ("values", .strings e.values)]

/-- An enumeration. -/
def Enumeration.ofJson? : Decoder Enumeration := record? ["path", "values"] fun json => do
  return {
    path := ← required? "path" str? json
    values := ← required? "values" (list? str?) json }

/-- The JSON form of a function. -/
def FunctionSignature.toJson (f : FunctionSignature) : Json :=
  .obj [("name", .str f.name), ("parameter", f.parameter.toJson),
    ("return_type", f.returnType.toJson)]

/-- A function. -/
def FunctionSignature.ofJson? : Decoder FunctionSignature :=
  record? ["name", "parameter", "return_type"] fun json => do
  return {
    name := ← required? "name" str? json
    parameter := ← required? "parameter" PrimitiveType.ofJson? json
    returnType := ← required? "return_type" PrimitiveType.ofJson? json }

/-- The JSON form of an object model. -/
def Definition.toJson (d : Definition) : Json :=
  .obj [("classes", .ofList Class.toJson d.classes),
    ("associations", .ofList Association.toJson d.associations),
    ("enumerations", .ofList Enumeration.toJson d.enumerations),
    ("functions", .ofList FunctionSignature.toJson d.functions)]

/-- An object model. -/
def Definition.ofJson? : Decoder Definition :=
  record? ["classes", "associations", "enumerations", "functions"] fun json => do
  return {
    classes := ← listOrEmpty? "classes" Class.ofJson? json
    associations := ← listOrEmpty? "associations" Association.ofJson? json
    enumerations := ← listOrEmpty? "enumerations" Enumeration.ofJson? json
    functions := ← listOrEmpty? "functions" FunctionSignature.ofJson? json }

end ObjectRelational.Model
