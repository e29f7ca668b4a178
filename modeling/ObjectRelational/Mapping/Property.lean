import ObjectRelational.Mapping.Scope
import ObjectRelational.Recorded

/-!
# Resolving property mappings

A property of a primitive type or an enumeration is mapped to an expression, a property that holds
objects to a path of joins, to an embedded mapping or to another mapping of the same row. A local
property exists in the mapping only and holds values.

* `Scope.value` resolves the body of a property that the class has, `Scope.localValue` that of a
  local property.
* `Scope.mappings` resolves the mappings of one level, which map every property at most once.
-/

namespace ObjectRelational

/-- A resolved body: the mapping that it leads to, and the value. -/
structure ResolvedBody where
  targetId : Option String
  value : PropertyValue

/-- A body that leads to no other mapping. -/
def ResolvedBody.plain (value : PropertyValue) : ResolvedBody := ⟨none, value⟩

/-- Where a property is mapped: the mapping and the class that own it, and the main table that its
expressions start from. -/
structure PropertyOwner where
  id : String
  className : String
  main : TableAlias

namespace PropertyOwner

/-- The fault of a value that is mapped to a path without an end. -/
def mappedToJoin {α : Type} (o : PropertyOwner) (property : Name) : Resolved α :=
  (Fault.dataPropertyMappedToJoin property.value o.className).found property.span

/-- The fault of a value that is mapped by an embedded or inline mapping. -/
def nestedMapping {α : Type} (o : PropertyOwner) (property : Name) : Resolved α :=
  (Fault.nestedMappingOnDataProperty property.value o.className).found property.span

/-- The id of the mapping embedded for a property. -/
def embeddedId (o : PropertyOwner) (property : String) : String := o.id ++ "_" ++ property

end PropertyOwner

namespace Scope

/-- The property that a name denotes on a class. -/
def propertyNamed (s : Scope) (o : PropertyOwner) (name : Name) : Resolved Model.Property :=
  match s.model.findProperty? o.className name.value with
  | some property => .ok property
  | none => (Fault.unknownProperty name.value o.className).found name.span

/-- Resolves an expression that stands for a value. -/
def dataOperation (r : Resolver) (o : PropertyOwner) (property : Name)
    (source : Source.Operation) : Recorded Operation := do
  let operation ← r.resolve (some o.main) source
  if operation.isBareJoin then o.mappedToJoin property else return operation

/-- Resolves the body of a local property: an expression that is not transformed. -/
def localValue (r : Resolver) (o : PropertyOwner) (property : Name) :
    Source.PropertyBody → Recorded PropertyValue
  | .relational source none => do return .relational (← dataOperation r o property source) none
  | .relational _ (some transformer) =>
    Recorded.ofResult
      ((Fault.transformerOnNonEnumeration property.value).found transformer.span)
  | .embedded _ _ _ => Recorded.ofResult (o.nestedMapping property)
  | .inline _ => Recorded.ofResult (o.nestedMapping property)

/-- The transformer of a property, if one is named. -/
def transformer? (s : Scope) (property : Model.Property) : Option Name → Resolved (Option String)
  | none => .ok none
  | some name => (s.transformer property name).map some

/-- The mapping that a join leads to: the one that is named, or else the root of the property's
class. -/
def joinTarget (s : Scope) (o : PropertyOwner) (property : Model.Property) :
    Option Name → Resolved (Option String)
  | some target => (s.checkTarget target property o.id).map fun _ => some target.value
  | none => .ok (property.type.classPath?.bind s.roots.find?)

/-- Resolves a body that is an expression. -/
def relationalValue (s : Scope) (r : Resolver) (o : PropertyOwner) (name : Name)
    (property : Model.Property) (targetId : Option Name) (source : Source.Operation)
    (enumerationMapping : Option Name) : Recorded ResolvedBody := do
  let operation ← r.resolve (some o.main) source
  if property.type.isDataType then
    if operation.isBareJoin then o.mappedToJoin name
    else
      let transformer ← s.transformer? property enumerationMapping
      return .plain (.relational operation transformer)
  else
    match enumerationMapping with
    | some transformer => (Fault.transformerOnNonEnumeration name.value).found transformer.span
    | none =>
      if operation.isBareJoin then
        let target ← s.joinTarget o property targetId
        return ⟨target, .relational operation none⟩
      else (Fault.objectPropertyMappedToColumn name.value o.className).found name.span

/-- Resolves the way to the properties that an embedded mapping leaves out. -/
def otherwise? (s : Scope) (r : Resolver) (o : PropertyOwner) (property : Model.Property) :
    Option Source.Otherwise → Recorded (Option Otherwise)
  | none => pure none
  | some source => do
    s.checkTarget source.targetId property o.id
    let join ← r.joinPath (some o.main) source.join
    return some ⟨source.targetId.value, join⟩

/-- Resolves a body that names another mapping of the same row. -/
def inlineValue (s : Scope) (o : PropertyOwner) (name : Name) (property : Model.Property)
    (target : Name) : Resolved ResolvedBody := do
  if property.type.isDataType then o.nestedMapping name
  else
    s.checkTarget target property o.id
    return ⟨some target.value, .inline target.value⟩

/-- On one level a property is mapped once, from the mapping that owns the level. -/
def checkHead (o : PropertyOwner) (seen : List String) (property : Name) (sourceId : Option Name) :
    Resolved Unit :=
  if property.value ∈ seen then
    (Fault.duplicatePropertyMapping property.value o.className).found property.span
  else
    match sourceId with
    | none => .ok ()
    | some source =>
      if source.value = o.id then .ok ()
      else (Fault.invalidSourceId source.value property.value o.id).found source.span

mutual

/-- Resolves the mapping of a property. -/
def mapping (s : Scope) (r : Resolver) (o : PropertyOwner) :
    Source.PropertyMapping → Recorded PropertyMapping
  | ⟨name, _, _, some localType, body, span⟩ => do
    let value ← localValue r o name body
    return ⟨name.value, o.id, none, some localType, value, span⟩
  | ⟨name, _, targetId, none, body, span⟩ => do
    let property ← s.propertyNamed o name
    let resolved ← s.value r o name property targetId body
    return ⟨name.value, o.id, resolved.targetId, none, resolved.value, span⟩

/-- Resolves the body of a property that the class has. -/
def value (s : Scope) (r : Resolver) (o : PropertyOwner) (name : Name)
    (property : Model.Property) (targetId : Option Name) :
    Source.PropertyBody → Recorded ResolvedBody
  | .relational source enumerationMapping =>
    s.relationalValue r o name property targetId source enumerationMapping
  | .embedded primaryKey propertyMappings otherwise =>
    match property.type.classPath? with
    | none => Recorded.ofResult (o.nestedMapping name)
    | some className => do
      let id := o.embeddedId name.value
      let primaryKey ← r.resolveAll (some o.main) primaryKey
      let propertyMappings ← s.mappings r ⟨id, className, o.main⟩ [] propertyMappings
      let otherwise ← s.otherwise? r o property otherwise
      return ⟨some id, .embedded id className primaryKey propertyMappings otherwise⟩
  | .inline target => Recorded.ofResult (s.inlineValue o name property target)

/-- Resolves the property mappings of one level, on which `seen` are mapped already. -/
def mappings (s : Scope) (r : Resolver) (o : PropertyOwner) (seen : List String) :
    List Source.PropertyMapping → Recorded (List PropertyMapping)
  | [] => pure []
  | m :: rest => do
    checkHead o seen m.property m.sourceId
    let first ← s.mapping r o m
    let others ← s.mappings r o (m.property.value :: seen) rest
    return first :: others

end

end Scope

end ObjectRelational
