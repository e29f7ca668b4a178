import ObjectRelational.Source.Operation
import ObjectRelational.Text.Identifier
import ObjectRelational.Types

/-!
# Mapping units as they are written

A mapping unit maps classes, associations and enumerations of the object model onto databases. It
can include other units, with some of their databases substituted by others.
-/

namespace ObjectRelational.Source

/-- The substitution of one database by another: `replaced -> substitute`. -/
structure StoreSubstitution where
  replaced : Name
  substitute : Name
deriving DecidableEq

/-- An include of another unit. -/
structure Include where
  mapping : Name
  substitutions : List StoreSubstitution := []
  span : Span := {}
deriving DecidableEq

/-- The type of a property that exists in a mapping only. -/
structure LocalProperty where
  type : PrimitiveType
  multiplicity : Multiplicity := {}
deriving DecidableEq

/-- Where an embedded mapping goes for the properties that it does not map. -/
structure Otherwise where
  targetId : Name
  join : JoinPath

mutual

/-- The mapping of one property: `name[sourceId, targetId]: body`. -/
structure PropertyMapping where
  property : Name
  sourceId : Option Name
  targetId : Option Name
  /-- Given for a property that exists in the mapping only. -/
  localType : Option LocalProperty
  body : PropertyBody
  span : Span

/-- What a property is mapped to. -/
inductive PropertyBody where
  /-- An expression, perhaps transformed by an enumeration mapping. -/
  | relational (operation : Operation) (enumerationMapping : Option Name)
  /-- A mapping of the object's own properties onto the same row. -/
  | embedded (primaryKey : List Operation) (propertyMappings : List PropertyMapping)
      (otherwise : Option Otherwise)
  /-- The mapping with the given id, applied to the same row. -/
  | inline (targetId : Name)

end

/-- A relational mapping of a class. -/
structure RelationalMapping where
  mainTable : Option TableReference := none
  filter : Option FilterReference := none
  distinct : Bool := false
  groupBy : List Operation := []
  primaryKey : List Operation := []
  propertyMappings : List PropertyMapping := []

/-- A path of properties: `$this.a.b`. -/
structure PropertyPath where
  properties : List Name
  span : Span := {}
deriving DecidableEq

/-- A value that is aggregated: a path, and the function applied to its values. -/
structure AggregateValue where
  mapFunction : PropertyPath
  aggregateFunction : Name
deriving DecidableEq

/-- What a pre-aggregated view can answer. -/
structure AggregateSpecification where
  canAggregate : Bool := false
  groupByFunctions : List PropertyPath := []
  aggregateValues : List AggregateValue := []
deriving DecidableEq

/-- A pre-aggregated view of a class. -/
structure AggregateView where
  modelOperation : AggregateSpecification
  aggregateMapping : RelationalMapping
  span : Span := {}

/-- How a class is mapped. -/
inductive ClassBody where
  | relational (mapping : RelationalMapping)
  | aggregationAware (main : RelationalMapping) (views : List AggregateView)

/-- A mapping of a class: `*class[id] extends [superId]: body`. -/
structure ClassMapping where
  className : Name
  id : Option Name := none
  root : Bool := false
  superId : Option Name := none
  body : ClassBody
  span : Span := {}

/-- A mapping of the ends of an association. -/
structure AssociationMapping where
  association : Name
  id : Option Name := none
  propertyMappings : List PropertyMapping := []
  span : Span := {}

/-- A value of a column that stands for an enumeration value. -/
inductive EnumSource where
  | string (value : String)
  | integer (value : Int64)
deriving DecidableEq

namespace EnumSource

/-- The value as it is written in a mapping: strings in single quotes. -/
def text : EnumSource → String
  | string value => s!"'{value}'"
  | integer value => toString value.toInt

/-- Are both strings, or both integers? -/
def sameKind : EnumSource → EnumSource → Bool
  | string _, string _ => true
  | integer _, integer _ => true
  | _, _ => false

end EnumSource

/-- The column values that stand for one enumeration value. -/
structure EnumValueMapping where
  value : Name
  sources : List EnumSource
deriving DecidableEq

/-- A mapping of the values of an enumeration. -/
structure EnumerationMapping where
  enumeration : Name
  id : Option Name := none
  values : List EnumValueMapping := []
  span : Span := {}
deriving DecidableEq

/-- A mapping unit. -/
structure Mapping where
  name : Name
  includes : List Include := []
  classMappings : List ClassMapping := []
  associationMappings : List AssociationMapping := []
  enumerationMappings : List EnumerationMapping := []
  span : Span := {}

/-! ## Ids -/

/-- An explicit id, or the one made from the element's path. -/
def idOr (id : Option Name) (path : Name) : String :=
  match id with
  | some id => id.value
  | none => defaultId path.value

/-- The id of a class mapping. -/
def ClassMapping.mappingId (m : ClassMapping) : String := idOr m.id m.className

/-- The id of an association mapping. -/
def AssociationMapping.mappingId (m : AssociationMapping) : String := idOr m.id m.association

/-- The id of an enumeration mapping. -/
def EnumerationMapping.mappingId (m : EnumerationMapping) : String := idOr m.id m.enumeration

/-- The id of the main part of an aggregation-aware mapping. -/
def mainId (id : String) : String := id ++ "_Main"

/-- The id of one of the aggregates of an aggregation-aware mapping. -/
def aggregateId (id : String) (index : Nat) : String := id ++ "_Aggregate_" ++ toString index

/-- The ids of the parts that a class mapping is split into. -/
def ClassMapping.generatedIds (m : ClassMapping) : List String :=
  match m.body with
  | .relational _ => []
  | .aggregationAware _ views =>
    mainId m.mappingId :: (List.range views.length).map (aggregateId m.mappingId)

/-! ## Walks through property mappings -/

mutual

/-- The expressions that properties are mapped to, those of embedded mappings included. -/
def PropertyMapping.operations : PropertyMapping → List Operation
  | ⟨_, _, _, _, body, _⟩ => PropertyBody.operations body

/-- The expressions of a body. -/
def PropertyBody.operations : PropertyBody → List Operation
  | .relational operation _ => [operation]
  | .embedded _ propertyMappings _ => operationsOfAll propertyMappings
  | .inline _ => []

/-- The expressions of a list of property mappings, in order. -/
def operationsOfAll : List PropertyMapping → List Operation
  | [] => []
  | m :: rest => PropertyMapping.operations m ++ operationsOfAll rest

end

mutual

/-- The databases that are named explicitly, in order. -/
def PropertyMapping.markers : PropertyMapping → List Name
  | ⟨_, _, _, _, body, _⟩ => PropertyBody.markers body

/-- The databases named in a body. At the end of an embedded mapping only the joins count. -/
def PropertyBody.markers : PropertyBody → List Name
  | .relational operation _ => operation.markers
  | .embedded primaryKey propertyMappings otherwise =>
    Operation.markersOfAll primaryKey ++ markersOfMappings propertyMappings ++
      match otherwise with
      | none => []
      | some otherwise => Operation.joinMarkers otherwise.join.joins
  | .inline _ => []

/-- The databases named in a list of property mappings. -/
def markersOfMappings : List PropertyMapping → List Name
  | [] => []
  | m :: rest => PropertyMapping.markers m ++ markersOfMappings rest

end

end ObjectRelational.Source
