import ObjectRelational.Source.Mapping
import ObjectRelational.Store.Operation

/-!
# Resolved mappings

What the mappings of a unit mean: every table, join and filter is a handle of the store, every
reference to another mapping an id.

* `PropertyMapping` and `PropertyValue` map one property.
* `SetImplementation` is a relational mapping of a class, `ClassMapping` one as it is declared: such
  a mapping, or one that is split into a main mapping and aggregates.
* `mapDatabases` maps every database that a mapping mentions, `databases` lists them.
-/

namespace ObjectRelational

/-! ## Property mappings -/

/-- Where an embedded mapping goes for the properties that it does not map. -/
structure Otherwise where
  targetId : String
  join : JoinChain

mutual

/-- The mapping of one property. -/
structure PropertyMapping where
  property : String
  /-- The mapping that the property is navigated from. -/
  sourceId : String
  /-- The mapping that the property leads to. -/
  targetId : Option String
  /-- Given for a property that exists in the mapping only. -/
  localType : Option Source.LocalProperty
  value : PropertyValue
  span : Span

/-- What a property is mapped to. -/
inductive PropertyValue where
  /-- An expression, perhaps transformed by an enumeration mapping. -/
  | relational (operation : Operation) (transformer : Option String)
  /-- A mapping of the object's own properties onto the same row. -/
  | embedded (id className : String) (primaryKey : List Operation)
      (propertyMappings : List PropertyMapping) (otherwise : Option Otherwise)
  /-- The mapping with the given id, applied to the same row. -/
  | inline (targetId : String)

end

/-- Maps every database of the way to other properties. -/
def Otherwise.mapDatabases (f : DatabaseId → DatabaseId) (o : Otherwise) : Otherwise :=
  { o with join := o.join.mapDatabases f }

mutual

/-- Maps every database of a property mapping; all else stays. -/
def PropertyMapping.mapDatabases (f : DatabaseId → DatabaseId) :
    PropertyMapping → PropertyMapping
  | ⟨property, sourceId, targetId, localType, value, span⟩ =>
    ⟨property, sourceId, targetId, localType, value.mapDatabases f, span⟩

/-- Maps every database of a value. -/
def PropertyValue.mapDatabases (f : DatabaseId → DatabaseId) : PropertyValue → PropertyValue
  | .relational operation transformer => .relational (operation.mapDatabases f) transformer
  | .embedded id className primaryKey propertyMappings otherwise =>
    .embedded id className (primaryKey.map (Operation.mapDatabases f))
      (mapDatabasesOfMappings f propertyMappings) (otherwise.map (Otherwise.mapDatabases f))
  | .inline targetId => .inline targetId

/-- Maps every database of property mappings. -/
def mapDatabasesOfMappings (f : DatabaseId → DatabaseId) :
    List PropertyMapping → List PropertyMapping
  | [] => []
  | m :: rest => m.mapDatabases f :: mapDatabasesOfMappings f rest

end

mutual

/-- The databases that a property mapping mentions, in order and with repetitions. -/
def PropertyMapping.databases : PropertyMapping → List DatabaseId
  | ⟨_, _, _, _, value, _⟩ => value.databases

/-- The databases that a value mentions. -/
def PropertyValue.databases : PropertyValue → List DatabaseId
  | .relational operation _ => operation.databases
  | .embedded _ _ primaryKey propertyMappings otherwise =>
    primaryKey.flatMap Operation.databases ++ databasesOfMappings propertyMappings ++
      match otherwise with
      | none => []
      | some otherwise => otherwise.join.databases
  | .inline _ => []

/-- The databases that property mappings mention. -/
def databasesOfMappings : List PropertyMapping → List DatabaseId
  | [] => []
  | m :: rest => m.databases ++ databasesOfMappings rest

end

/-! ## Class mappings -/

/-- A relational mapping of a class: the set of its objects as rows of a main table. -/
structure SetImplementation where
  id : String
  className : String
  /-- Is it the root mapping of its class in the unit that declares it? -/
  root : Bool
  /-- Is it marked as a root? -/
  declaredRoot : Bool
  /-- The mapping that it extends. -/
  superId : Option String
  mainTable : TableAlias
  distinct : Bool
  filter : Option FilterPointer
  groupBy : List Operation
  primaryKey : List Operation
  propertyMappings : List PropertyMapping
  span : Span

namespace SetImplementation

/-- Is a property of the name mapped? -/
def mapsProperty (s : SetImplementation) (property : String) : Bool :=
  s.propertyMappings.any fun m => m.property = property

/-- The databases that the mapping mentions, in order and with repetitions. -/
def databases (s : SetImplementation) : List DatabaseId :=
  s.mainTable.database :: (s.filter.toList.flatMap FilterPointer.databases ++
    s.groupBy.flatMap Operation.databases ++ s.primaryKey.flatMap Operation.databases ++
    databasesOfMappings s.propertyMappings)

end SetImplementation

/-- A path of properties, and the type of what it leads to. -/
structure PropertyPath where
  properties : List String
  returnType : PropertyType
deriving DecidableEq

/-- A value that is aggregated, and the function that aggregates it. -/
structure AggregateValue where
  mapFunction : PropertyPath
  aggregateFunction : String
deriving DecidableEq

/-- What a pre-aggregated view can answer. -/
structure AggregateSpecification where
  canAggregate : Bool
  groupByFunctions : List PropertyPath
  aggregateValues : List AggregateValue
deriving DecidableEq

/-- A pre-aggregated view of a class. -/
structure Aggregate where
  specification : AggregateSpecification
  implementation : SetImplementation

/-- A class mapping that is split into a main mapping and pre-aggregated views. -/
structure AggregationAware where
  id : String
  className : String
  root : Bool
  declaredRoot : Bool
  main : SetImplementation
  aggregates : List Aggregate
  span : Span

/-- A class mapping. -/
inductive ClassMapping where
  | relational (implementation : SetImplementation)
  | aggregationAware (mapping : AggregationAware)

namespace ClassMapping

/-- The id of the mapping. -/
def id : ClassMapping → String
  | relational s => s.id
  | aggregationAware a => a.id

/-- The class that is mapped. -/
def className : ClassMapping → String
  | relational s => s.className
  | aggregationAware a => a.className

/-- Is it the root mapping of its class in the unit that declares it? -/
def root : ClassMapping → Bool
  | relational s => s.root
  | aggregationAware a => a.root

/-- Is it marked as a root? -/
def declaredRoot : ClassMapping → Bool
  | relational s => s.declaredRoot
  | aggregationAware a => a.declaredRoot

/-- The relational mapping that queries run against: the mapping itself, or its main part. -/
def setImplementation : ClassMapping → SetImplementation
  | relational s => s
  | aggregationAware a => a.main

/-- The parts that a mapping is split into: the main part and then the aggregates. -/
def subImplementations : ClassMapping → List SetImplementation
  | relational _ => []
  | aggregationAware a => a.main :: a.aggregates.map (·.implementation)

/-- All relational mappings that a class mapping is made of. -/
def implementations : ClassMapping → List SetImplementation
  | relational s => [s]
  | aggregationAware a => subImplementations (aggregationAware a)

/-- The relational mapping that an id denotes: the mapping's own id, or that of one of its parts. -/
def findImplementation? (m : ClassMapping) (id : String) : Option SetImplementation :=
  if m.id = id then some m.setImplementation
  else m.subImplementations.find? fun s => s.id = id

/-- The databases that the mapping mentions, in order and with repetitions. -/
def databases (m : ClassMapping) : List DatabaseId :=
  m.implementations.flatMap SetImplementation.databases

/-- The ids that the mapping takes: its own and those of its parts. -/
def ids (m : ClassMapping) : List String := m.id :: m.subImplementations.map (·.id)

end ClassMapping

/-- The relational mapping that an id denotes among class mappings. -/
def findImplementation? (mappings : List ClassMapping) (id : String) : Option SetImplementation :=
  mappings.findSome? fun m => m.findImplementation? id

/-! ## Association and enumeration mappings -/

/-- A mapping of the properties of an association. -/
structure AssociationMapping where
  id : String
  association : String
  propertyMappings : List PropertyMapping
  span : Span

/-- Maps every database of an association mapping. -/
def AssociationMapping.mapDatabases (f : DatabaseId → DatabaseId) (m : AssociationMapping) :
    AssociationMapping :=
  { m with propertyMappings := mapDatabasesOfMappings f m.propertyMappings }

/-- The databases that an association mapping mentions. -/
def AssociationMapping.databases (m : AssociationMapping) : List DatabaseId :=
  databasesOfMappings m.propertyMappings

/-- A mapping of the values of an enumeration. -/
structure EnumerationMapping where
  id : String
  enumeration : String
  /-- For every value, the column values that stand for it. -/
  values : List (String × List Source.EnumSource)
  span : Span
deriving DecidableEq

/-- The enumeration value that a column value stands for: the first one that lists it. -/
def EnumerationMapping.valueOf? (m : EnumerationMapping) (source : Source.EnumSource) :
    Option String :=
  (m.values.find? fun v => source ∈ v.2).map (·.1)

end ObjectRelational
