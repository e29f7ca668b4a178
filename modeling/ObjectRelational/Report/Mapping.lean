import ObjectRelational.JsonForm.Mapping
import ObjectRelational.Mapping.Basic
import ObjectRelational.Report.Operation

/-!
# Reports of resolved mappings
-/

namespace ObjectRelational

/-- The report of an optional id. -/
def idReport (id : Option String) : Json := .ofOption .str id

/-- The report of the way to the properties that an embedded mapping leaves out. -/
def Otherwise.report (o : Otherwise) : Json :=
  .obj [("target_id", .str o.targetId), ("join", o.join.report)]

mutual

/-- The report of a property mapping. -/
def PropertyMapping.report : PropertyMapping → Json
  | ⟨property, sourceId, targetId, localType, value, span⟩ =>
    .obj [("property", .str property), ("source_id", .str sourceId),
      ("target_id", idReport targetId),
      ("local", .ofOption Source.LocalProperty.toJson localType), ("value", value.report),
      ("span", span.report)]

/-- The report of what a property is mapped to. -/
def PropertyValue.report : PropertyValue → Json
  | .relational operation transformer =>
    .tagged "relational"
      (.obj [("operation", operation.report), ("transformer", idReport transformer)])
  | .embedded id className primaryKey propertyMappings otherwise =>
    .tagged "embedded"
      (.obj [("id", .str id), ("class", .str className),
        ("primary_key", .ofList Operation.report primaryKey),
        ("property_mappings", .arr (reportsOfMappings propertyMappings)),
        ("otherwise", .ofOption Otherwise.report otherwise)])
  | .inline targetId => .tagged "inline" (.obj [("target_id", .str targetId)])

/-- The reports of property mappings. -/
def reportsOfMappings : List PropertyMapping → List Json
  | [] => []
  | m :: rest => m.report :: reportsOfMappings rest

end

/-- The report of a relational mapping. -/
def SetImplementation.report (s : SetImplementation) : Json :=
  .obj [("id", .str s.id), ("class", .str s.className), ("root", .bool s.root),
    ("declared_root", .bool s.declaredRoot), ("super_id", idReport s.superId),
    ("main_table", s.mainTable.report), ("distinct", .bool s.distinct),
    ("filter", .ofOption FilterPointer.report s.filter),
    ("group_by", .ofList Operation.report s.groupBy),
    ("primary_key", .ofList Operation.report s.primaryKey),
    ("property_mappings", .arr (reportsOfMappings s.propertyMappings)), ("span", s.span.report)]

/-- The report of a property path. -/
def PropertyPath.report (p : PropertyPath) : Json :=
  .obj [("properties", .strings p.properties), ("return_type", p.returnType.toJson)]

/-- The report of a value that is aggregated. -/
def AggregateValue.report (v : AggregateValue) : Json :=
  .obj [("map_fn", v.mapFunction.report), ("aggregate_fn", .str v.aggregateFunction)]

/-- The report of what a view can answer. -/
def AggregateSpecification.report (s : AggregateSpecification) : Json :=
  .obj [("can_aggregate", .bool s.canAggregate),
    ("group_by_functions", .ofList PropertyPath.report s.groupByFunctions),
    ("aggregate_values", .ofList AggregateValue.report s.aggregateValues)]

/-- The report of an aggregate at its place among the aggregates. -/
def Aggregate.report (a : Aggregate × Nat) : Json :=
  .obj [("index", .nat a.2), ("specification", a.1.specification.report),
    ("set_implementation", a.1.implementation.report)]

/-- The report of an aggregation-aware mapping. -/
def AggregationAware.report (a : AggregationAware) : Json :=
  .obj [("id", .str a.id), ("class", .str a.className), ("root", .bool a.root),
    ("declared_root", .bool a.declaredRoot), ("main", a.main.report),
    ("aggregates", .ofList Aggregate.report a.aggregates.zipIdx), ("span", a.span.report)]

/-- The report of a class mapping. -/
def ClassMapping.report : ClassMapping → Json
  | relational s => .tagged "relational" s.report
  | aggregationAware a => .tagged "aggregation_aware" a.report

/-- The report of an association mapping. -/
def AssociationMapping.report (m : AssociationMapping) : Json :=
  .obj [("id", .str m.id), ("association", .str m.association),
    ("property_mappings", .arr (reportsOfMappings m.propertyMappings)), ("span", m.span.report)]

/-- The report of an enumeration value and the column values that stand for it. -/
def enumValueReport (v : String × List Source.EnumSource) : Json :=
  .arr [.str v.1, .ofList Source.EnumSource.toJson v.2]

/-- The report of an enumeration mapping. -/
def EnumerationMapping.report (m : EnumerationMapping) : Json :=
  .obj [("id", .str m.id), ("enumeration", .str m.enumeration),
    ("values", .ofList enumValueReport m.values), ("span", m.span.report)]

end ObjectRelational
