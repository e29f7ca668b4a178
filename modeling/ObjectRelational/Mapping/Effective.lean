import ObjectRelational.Mapping.Unit

/-!
# The effective view of a unit

A unit shows its own mappings and those of all units it includes, with the substitution of the
include path applied. The included mappings stay as they are; only what is read off them is
substituted.

* `Effective` is a mapping together with the way it is seen.
* `MappingUnit.classMapping?`, `MappingUnit.setImplementation?` and their companions look an id up,
  first among the unit's own mappings.
-/

namespace ObjectRelational

/-- A mapping as a unit sees it: its own, or one of an included unit. -/
structure Effective (α : Type) where
  /-- The mapping as its own unit resolved it. -/
  declared : α
  /-- The substitution that applies to a mapping of an included unit. -/
  substitution : Option Substitution
  /-- The name of the unit that declares the mapping. -/
  unit : String

namespace Effective

variable {α β : Type}

/-- Does the mapping belong to the unit that looks at it? -/
def isLocal (e : Effective α) : Bool := e.substitution.isNone

/-- A database as it is seen through the include. -/
def substitute (e : Effective α) (database : DatabaseId) : DatabaseId :=
  match e.substitution with
  | none => database
  | some s => s.apply database

/-- Another mapping that is seen in the same way. -/
def withDeclared (e : Effective α) (declared : β) : Effective β :=
  ⟨declared, e.substitution, e.unit⟩

/-- The relational mapping that queries run against. -/
def implementation (e : Effective ClassMapping) : Effective SetImplementation :=
  e.withDeclared e.declared.setImplementation

/-- The parts that a class mapping is split into. -/
def subImplementations (e : Effective ClassMapping) : List (Effective SetImplementation) :=
  e.declared.subImplementations.map e.withDeclared

/-- The main table, reached through the substituted database. -/
def mainTable (e : Effective SetImplementation) : TableAlias :=
  e.declared.mainTable.mapDatabase e.substitute

/-- The property mappings, substituted. -/
def propertyMappings (e : Effective SetImplementation) : List PropertyMapping :=
  match e.substitution with
  | none => e.declared.propertyMappings
  | some s => mapDatabasesOfMappings s.apply e.declared.propertyMappings

/-- The set of the databases seen in place of some databases. -/
def substituteAll (e : Effective α) (databases : List DatabaseId) : OrderedSet DatabaseId :=
  .ofList (databases.map e.substitute)

end Effective

/-- A mapping as its own unit sees it. -/
def MappingUnit.seenLocally {α : Type} (u : MappingUnit) (declared : α) : Effective α :=
  ⟨declared, none, u.name⟩

/-- A mapping of an included unit as it is seen from outside. -/
def IncludedUnit.seen {α : Type} (i : IncludedUnit) (declared : α) : Effective α :=
  ⟨declared, some i.substitution, i.unit.name⟩

/-- The class mappings of included units. -/
def includedClassMappings (included : List IncludedUnit) : List (Effective ClassMapping) :=
  included.flatMap fun i => i.unit.classMappings.map i.seen

/-- The association mappings of included units, substituted. -/
def includedAssociationMappings (included : List IncludedUnit) : List AssociationMapping :=
  included.flatMap fun i =>
    i.unit.associationMappings.map (AssociationMapping.mapDatabases i.substitution.apply)

/-- The enumeration mappings of included units. -/
def includedEnumerationMappings (included : List IncludedUnit) : List EnumerationMapping :=
  included.flatMap fun i => i.unit.enumerationMappings

/-- The relational mapping that an id denotes among class mappings as they are seen. -/
def findEffective? (mappings : List (Effective ClassMapping)) (id : String) :
    Option (Effective SetImplementation) :=
  mappings.findSome? fun e => (e.declared.findImplementation? id).map e.withDeclared

namespace MappingUnit

/-- The class mappings of a unit and of all it includes. -/
def effectiveClassMappings (u : MappingUnit) : List (Effective ClassMapping) :=
  u.classMappings.map u.seenLocally ++ includedClassMappings u.flattened

/-- The class mapping of an id. -/
def classMapping? (u : MappingUnit) (id : String) : Option (Effective ClassMapping) :=
  u.effectiveClassMappings.find? fun e => e.declared.id = id

/-- The root mapping of a class. -/
def rootClassMapping? (u : MappingUnit) (className : String) : Option (Effective ClassMapping) :=
  (u.roots.find? className).bind u.classMapping?

/-- The relational mapping of an id, which may be that of a part. -/
def setImplementation? (u : MappingUnit) (id : String) : Option (Effective SetImplementation) :=
  findEffective? u.effectiveClassMappings id

/-- The association mappings of a unit and of all it includes, substituted. -/
def effectiveAssociationMappings (u : MappingUnit) : List AssociationMapping :=
  u.associationMappings ++ includedAssociationMappings u.flattened

/-- The association mapping of an id. -/
def associationMapping? (u : MappingUnit) (id : String) : Option AssociationMapping :=
  u.effectiveAssociationMappings.find? fun a => a.id = id

/-- The enumeration mappings of a unit and of all it includes. -/
def effectiveEnumerationMappings (u : MappingUnit) : List EnumerationMapping :=
  u.enumerationMappings ++ includedEnumerationMappings u.flattened

/-- The enumeration mapping of an id. -/
def enumerationMapping? (u : MappingUnit) (id : String) : Option EnumerationMapping :=
  u.effectiveEnumerationMappings.find? fun e => e.id = id

/-- The databases that the class and association mappings seen from a unit mention. -/
def referencedDatabases (u : MappingUnit) : OrderedSet DatabaseId :=
  .ofList ((u.effectiveClassMappings.flatMap fun e => e.declared.databases.map e.substitute) ++
    u.effectiveAssociationMappings.flatMap AssociationMapping.databases)

end MappingUnit

end ObjectRelational
