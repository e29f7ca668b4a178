import ObjectRelational.Mapping.Effective
import ObjectRelational.Mapping.Include
import ObjectRelational.Settings
import ObjectRelational.Store.Resolution

/-!
# What a mapping refers to

The mappings of a unit refer to classes, databases and to each other by name. A scope holds all that
they can refer to: the object model, the store, the ids of the unit's own class mappings, whether
resolved yet or not, and the mappings of the units it includes.
-/

namespace ObjectRelational

/-- What units are resolved against. -/
structure Environment where
  model : ObjectModel
  store : Store
  settings : ResolutionSettings

/-- What the class mappings of a unit can refer to. -/
structure Scope extends Environment where
  /-- The name of the unit. -/
  unit : String
  /-- All units that the unit includes. -/
  included : List IncludedUnit
  /-- The unit's own enumeration mappings. -/
  enumerationMappings : List EnumerationMapping
  /-- The classes that the unit's own mappings map, by the ids of mappings and parts. -/
  classes : List (String × String)
  /-- The ids of the root mappings, by class. -/
  roots : OrderedMap String String

/-- The resolver of the expressions of a mapping. -/
def Environment.resolverIn (e : Environment) (database : DatabaseId) : Resolver :=
  { store := e.store, database := database, defaultSchema := e.settings.defaultSchema }

/-- The database of a name. -/
def Environment.databaseNamed (e : Environment) (name : Name) : Resolved DatabaseId :=
  match e.store.databaseNamed? name.value with
  | some id => .ok id
  | none => (Fault.unknownDatabase name.value).found name.span

namespace Scope

/-- The class mappings of the included units. -/
def includedMappings (s : Scope) : List (Effective ClassMapping) :=
  includedClassMappings s.included

/-- The class that the mapping of an id maps. -/
def classOf? (s : Scope) (id : String) : Option String :=
  match s.classes.lookup id with
  | some className => some className
  | none => (findEffective? s.includedMappings id).map (·.declared.className)

/-- The main table of the mapping of an id, of which the unit's own ones are given. -/
def mainTableOf? (s : Scope) (own : List ClassMapping) (id : String) : Option TableAlias :=
  match findImplementation? own id with
  | some implementation => some implementation.mainTable
  | none => (findEffective? s.includedMappings id).map (·.mainTable)

/-- The enumeration mapping of an id. -/
def enumerationMapping? (s : Scope) (id : String) : Option EnumerationMapping :=
  (s.enumerationMappings ++ includedEnumerationMappings s.included).find? fun e => e.id = id

/-- The target of a property has to be a mapping of the property's class or of a subclass. -/
def checkTarget (s : Scope) (target : Name) (property : Model.Property) (owner : String) :
    Resolved Unit :=
  match s.classOf? target.value with
  | none => (Fault.unknownTargetMapping target.value property.name owner).found target.span
  | some targetClass =>
    let expected := property.type.classPath
    if s.model.isAncestorOrSelf expected targetClass then .ok ()
    else
      (Fault.incompatibleTargetMapping target.value targetClass property.name expected).found
        target.span

/-- The enumeration mapping that transforms a property has to map the property's enumeration. -/
def transformer (s : Scope) (property : Model.Property) (name : Name) : Resolved String :=
  match property.type with
  | .enumeration expected =>
    match s.enumerationMapping? name.value with
    | none => (Fault.unknownEnumerationMapping name.value).found name.span
    | some mapping =>
      if mapping.enumeration = expected then .ok name.value
      else
        (Fault.enumerationMappingMismatch name.value mapping.enumeration property.name
          expected).found name.span
  | _ => (Fault.transformerOnNonEnumeration property.name).found name.span

end Scope

end ObjectRelational
