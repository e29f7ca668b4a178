import ObjectRelational.JsonForm.Operation
import ObjectRelational.Source.Mapping

/-!
# The JSON form of mapping units
-/

namespace ObjectRelational.Source

open Json

/-! ## Includes -/

/-- The JSON form of a store substitution. -/
def StoreSubstitution.toJson (s : StoreSubstitution) : Json :=
  .obj [("original", Name.toJson s.replaced), ("substitute", Name.toJson s.substitute)]

/-- A store substitution. -/
def StoreSubstitution.ofJson? : Decoder StoreSubstitution :=
  record? ["original", "substitute"] fun json => do
  return {
    replaced := ← required? "original" Name.ofJson? json
    substitute := ← required? "substitute" Name.ofJson? json }

/-- The JSON form of an include. -/
def Include.toJson (i : Include) : Json :=
  .obj [("mapping", Name.toJson i.mapping),
    ("substitutions", .ofList StoreSubstitution.toJson i.substitutions), ("span", i.span.toJson)]

/-- An include. -/
def Include.ofJson? : Decoder Include := record? ["mapping", "substitutions", "span"] fun json => do
  return {
    mapping := ← required? "mapping" Name.ofJson? json
    substitutions := ← listOrEmpty? "substitutions" StoreSubstitution.ofJson? json
    span := ← spanOrDefault? json }

/-! ## Property mappings -/

/-- The JSON form of the type of a local property. -/
def LocalProperty.toJson (p : LocalProperty) : Json :=
  .obj [("property_type", p.type.toJson), ("multiplicity", p.multiplicity.toJson)]

/-- The type of a local property. -/
def LocalProperty.ofJson? : Decoder LocalProperty :=
  record? ["property_type", "multiplicity"] fun json => do
  return {
    type := ← required? "property_type" PrimitiveType.ofJson? json
    multiplicity := ← defaulted? "multiplicity" {} Multiplicity.ofJson? json }

/-- The JSON form of the rest of an embedded mapping. -/
def Otherwise.toJson (o : Otherwise) : Json :=
  .obj [("target_id", Name.toJson o.targetId), ("join", o.join.toJson)]

/-- The rest of an embedded mapping. -/
def Otherwise.ofJson? : Decoder Otherwise := record? ["target_id", "join"] fun json => do
  return {
    targetId := ← required? "target_id" Name.ofJson? json
    join := ← required? "join" JoinPath.ofJson? json }

mutual

/-- The JSON form of a property mapping. -/
def PropertyMapping.toJson : PropertyMapping → Json
  | ⟨property, sourceId, targetId, localType, body, span⟩ =>
    .obj [("property", Name.toJson property), ("source_id", optionalName sourceId),
      ("target_id", optionalName targetId), ("local", .ofOption LocalProperty.toJson localType),
      ("body", PropertyBody.toJson body), ("span", span.toJson)]

/-- The JSON form of what a property is mapped to. -/
def PropertyBody.toJson : PropertyBody → Json
  | .relational operation enumerationMapping =>
    .tagged "relational" (.obj [("operation", operation.toJson),
      ("enumeration_mapping", optionalName enumerationMapping)])
  | .embedded primaryKey propertyMappings otherwise =>
    .tagged "embedded" (.obj [("primary_key", .ofList Operation.toJson primaryKey),
      ("property_mappings", .arr (mappingsToJson propertyMappings)),
      ("otherwise", .ofOption Otherwise.toJson otherwise)])
  | .inline targetId => .tagged "inline" (Name.toJson targetId)

/-- The JSON forms of property mappings. -/
def mappingsToJson : List PropertyMapping → List Json
  | [] => []
  | m :: rest => PropertyMapping.toJson m :: mappingsToJson rest

end

/-- The fields of a property mapping. -/
def propertyMappingFields : List String :=
  ["property", "source_id", "target_id", "local", "body", "span"]

/-- A property mapping nested at most `fuel` deep. -/
def PropertyMapping.decode? : (fuel : Nat) → Decoder PropertyMapping
  | 0, _ => none
  | fuel + 1, json => record? propertyMappingFields (fun json => do
    return {
      property := ← required? "property" Name.ofJson? json
      sourceId := ← optional? "source_id" Name.ofJson? json
      targetId := ← optional? "target_id" Name.ofJson? json
      localType := ← optional? "local" LocalProperty.ofJson? json
      body := ← required? "body" (fun body =>
        match variant? body with
        | some ("relational", some data) =>
          object? (fun data => do
            return .relational (← required? "operation" Operation.ofJson? data)
              (← optional? "enumeration_mapping" Name.ofJson? data)) data
        | some ("embedded", some data) =>
          record? ["primary_key", "property_mappings", "otherwise"] (fun data => do
            return .embedded (← listOrEmpty? "primary_key" Operation.ofJson? data)
              (← listOrEmpty? "property_mappings" (PropertyMapping.decode? fuel) data)
              (← optional? "otherwise" Otherwise.ofJson? data)) data
        | some ("inline", some data) => (Name.ofJson? data).map .inline
        | _ => none) json
      span := ← spanOrDefault? json }) json

/-- A property mapping. A mapping inside another one stands deeper in the JSON value, so its depth
is enough fuel. -/
def PropertyMapping.ofJson? : Decoder PropertyMapping := fun json =>
  PropertyMapping.decode? json.depth json

/-! ## Class mappings -/

/-- The JSON form of a relational mapping. -/
def RelationalMapping.toJson (m : RelationalMapping) : Json :=
  .obj [("main_table", .ofOption TableReference.toJson m.mainTable),
    ("filter", .ofOption FilterReference.toJson m.filter), ("distinct", .bool m.distinct),
    ("group_by", .ofList Operation.toJson m.groupBy),
    ("primary_key", .ofList Operation.toJson m.primaryKey),
    ("property_mappings", .ofList PropertyMapping.toJson m.propertyMappings)]

/-- The fields of a relational mapping. -/
def relationalMappingFields : List String :=
  ["main_table", "filter", "distinct", "group_by", "primary_key", "property_mappings"]

/-- A relational mapping. -/
def RelationalMapping.ofJson? : Decoder RelationalMapping :=
  record? relationalMappingFields fun json => do
  return {
    mainTable := ← optional? "main_table" TableReference.ofJson? json
    filter := ← optional? "filter" FilterReference.ofJson? json
    distinct := ← defaulted? "distinct" false bool? json
    groupBy := ← listOrEmpty? "group_by" Operation.ofJson? json
    primaryKey := ← listOrEmpty? "primary_key" Operation.ofJson? json
    propertyMappings := ← listOrEmpty? "property_mappings" PropertyMapping.ofJson? json }

/-- The JSON form of a property path. -/
def PropertyPath.toJson (p : PropertyPath) : Json :=
  .obj [("properties", .ofList Name.toJson p.properties), ("span", p.span.toJson)]

/-- A property path. -/
def PropertyPath.ofJson? : Decoder PropertyPath := record? ["properties", "span"] fun json => do
  return {
    properties := ← required? "properties" (list? Name.ofJson?) json
    span := ← spanOrDefault? json }

/-- The JSON form of an aggregated value. -/
def AggregateValue.toJson (v : AggregateValue) : Json :=
  .obj [("map_fn", v.mapFunction.toJson), ("aggregate_fn", Name.toJson v.aggregateFunction)]

/-- An aggregated value. -/
def AggregateValue.ofJson? : Decoder AggregateValue :=
  record? ["map_fn", "aggregate_fn"] fun json => do
  return {
    mapFunction := ← required? "map_fn" PropertyPath.ofJson? json
    aggregateFunction := ← required? "aggregate_fn" Name.ofJson? json }

/-- The JSON form of an aggregate specification. -/
def AggregateSpecification.toJson (s : AggregateSpecification) : Json :=
  .obj [("can_aggregate", .bool s.canAggregate),
    ("group_by_functions", .ofList PropertyPath.toJson s.groupByFunctions),
    ("aggregate_values", .ofList AggregateValue.toJson s.aggregateValues)]

/-- An aggregate specification. -/
def AggregateSpecification.ofJson? : Decoder AggregateSpecification :=
  record? ["can_aggregate", "group_by_functions", "aggregate_values"] fun json => do
  return {
    canAggregate := ← defaulted? "can_aggregate" false bool? json
    groupByFunctions := ← listOrEmpty? "group_by_functions" PropertyPath.ofJson? json
    aggregateValues := ← listOrEmpty? "aggregate_values" AggregateValue.ofJson? json }

/-- The JSON form of a pre-aggregated view. -/
def AggregateView.toJson (v : AggregateView) : Json :=
  .obj [("model_operation", v.modelOperation.toJson),
    ("aggregate_mapping", v.aggregateMapping.toJson), ("span", v.span.toJson)]

/-- A pre-aggregated view. -/
def AggregateView.ofJson? : Decoder AggregateView :=
  record? ["model_operation", "aggregate_mapping", "span"] fun json => do
  return {
    modelOperation := ← required? "model_operation" AggregateSpecification.ofJson? json
    aggregateMapping := ← required? "aggregate_mapping" RelationalMapping.ofJson? json
    span := ← spanOrDefault? json }

/-- The JSON form of the body of a class mapping. -/
def ClassBody.toJson : ClassBody → Json
  | relational mapping => .tagged "relational" mapping.toJson
  | aggregationAware main views =>
    .tagged "aggregation_aware"
      (.obj [("main_mapping", main.toJson), ("views", .ofList AggregateView.toJson views)])

/-- The body of a class mapping. -/
def ClassBody.ofJson? : Decoder ClassBody := fun json =>
  match variant? json with
  | some ("relational", some data) => (RelationalMapping.ofJson? data).map relational
  | some ("aggregation_aware", some data) =>
    record? ["main_mapping", "views"] (fun data => do
      return aggregationAware (← required? "main_mapping" RelationalMapping.ofJson? data)
        (← listOrEmpty? "views" AggregateView.ofJson? data)) data
  | _ => none

/-- The JSON form of a class mapping. -/
def ClassMapping.toJson (m : ClassMapping) : Json :=
  .obj [("class", Name.toJson m.className), ("id", optionalName m.id), ("root", .bool m.root),
    ("extends", optionalName m.superId), ("body", m.body.toJson), ("span", m.span.toJson)]

/-- A class mapping. -/
def ClassMapping.ofJson? : Decoder ClassMapping :=
  record? ["class", "id", "root", "extends", "body", "span"] fun json => do
  return {
    className := ← required? "class" Name.ofJson? json
    id := ← optional? "id" Name.ofJson? json
    root := ← defaulted? "root" false bool? json
    superId := ← optional? "extends" Name.ofJson? json
    body := ← required? "body" ClassBody.ofJson? json
    span := ← spanOrDefault? json }

/-! ## Association and enumeration mappings -/

/-- The JSON form of an association mapping. -/
def AssociationMapping.toJson (m : AssociationMapping) : Json :=
  .obj [("association", Name.toJson m.association), ("id", optionalName m.id),
    ("property_mappings", .ofList PropertyMapping.toJson m.propertyMappings),
    ("span", m.span.toJson)]

/-- An association mapping. -/
def AssociationMapping.ofJson? : Decoder AssociationMapping :=
  record? ["association", "id", "property_mappings", "span"] fun json => do
  return {
    association := ← required? "association" Name.ofJson? json
    id := ← optional? "id" Name.ofJson? json
    propertyMappings := ← listOrEmpty? "property_mappings" PropertyMapping.ofJson? json
    span := ← spanOrDefault? json }

/-- The JSON form of a column value of an enumeration. -/
def EnumSource.toJson : EnumSource → Json
  | string value => .tagged "string" (.str value)
  | integer value => .tagged "integer" (.int value.toInt)

/-- A column value of an enumeration. -/
def EnumSource.ofJson? : Decoder EnumSource := fun json =>
  match variant? json with
  | some ("string", some data) => (str? data).map string
  | some ("integer", some data) => (int64? data).map integer
  | _ => none

/-- The JSON form of the column values of an enumeration value. -/
def EnumValueMapping.toJson (m : EnumValueMapping) : Json :=
  .obj [("value", Name.toJson m.value), ("sources", .ofList EnumSource.toJson m.sources)]

/-- The column values of an enumeration value. -/
def EnumValueMapping.ofJson? : Decoder EnumValueMapping :=
  record? ["value", "sources"] fun json => do
  return {
    value := ← required? "value" Name.ofJson? json
    sources := ← required? "sources" (list? EnumSource.ofJson?) json }

/-- The JSON form of an enumeration mapping. -/
def EnumerationMapping.toJson (m : EnumerationMapping) : Json :=
  .obj [("enumeration", Name.toJson m.enumeration), ("id", optionalName m.id),
    ("values", .ofList EnumValueMapping.toJson m.values), ("span", m.span.toJson)]

/-- An enumeration mapping. -/
def EnumerationMapping.ofJson? : Decoder EnumerationMapping :=
  record? ["enumeration", "id", "values", "span"] fun json => do
  return {
    enumeration := ← required? "enumeration" Name.ofJson? json
    id := ← optional? "id" Name.ofJson? json
    values := ← listOrEmpty? "values" EnumValueMapping.ofJson? json
    span := ← spanOrDefault? json }

/-! ## Units -/

/-- The JSON form of a mapping unit. -/
def Mapping.toJson (m : Mapping) : Json :=
  .obj [("name", Name.toJson m.name), ("includes", .ofList Include.toJson m.includes),
    ("class_mappings", .ofList ClassMapping.toJson m.classMappings),
    ("association_mappings", .ofList AssociationMapping.toJson m.associationMappings),
    ("enumeration_mappings", .ofList EnumerationMapping.toJson m.enumerationMappings),
    ("span", m.span.toJson)]

/-- The fields of a mapping unit. -/
def mappingFields : List String :=
  ["name", "includes", "class_mappings", "association_mappings", "enumeration_mappings", "span"]

/-- A mapping unit. -/
def Mapping.ofJson? : Decoder Mapping := record? mappingFields fun json => do
  return {
    name := ← required? "name" Name.ofJson? json
    includes := ← listOrEmpty? "includes" Include.ofJson? json
    classMappings := ← listOrEmpty? "class_mappings" ClassMapping.ofJson? json
    associationMappings := ← listOrEmpty? "association_mappings" AssociationMapping.ofJson? json
    enumerationMappings := ← listOrEmpty? "enumeration_mappings" EnumerationMapping.ofJson? json
    span := ← spanOrDefault? json }

end ObjectRelational.Source
