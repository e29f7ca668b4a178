import ObjectRelational.Mapping.Class

/-!
# Resolving association mappings

A property of an association is mapped between two class mappings: the two that are named, or else
the root mappings of the classes at its ends. It is mapped to a path of joins from the main table of
the one to the main table of the other.

* `Binding` is a property with its ends, `Scope.checkBinding` says which ends fit.
* `Scope.associationMapping` resolves a mapping.
-/

namespace ObjectRelational

/-- What a class mapping offers as an end of an association. -/
structure EndMapping where
  className : String
  mainTable : TableAlias
  /-- Does the mapping itself map the property? -/
  mapsProperty : Bool

/-- A property that is mapped between two class mappings. -/
structure Binding where
  /-- The id of the association mapping. -/
  association : String
  property : Model.Property
  /-- The class that the property is navigated from. -/
  owner : String
  sourceId : String
  source : EndMapping
  targetId : String
  target : EndMapping

namespace Scope

/-- The id of an end: the one that is named, or that of the root mapping of a class. -/
def endId (s : Scope) (explicit : Option Name) (className : String) : String :=
  match explicit with
  | some id => id.value
  | none => (s.roots.find? className).getD (defaultId className)

/-- The end that an id denotes for a property: one of the unit's own mappings, or an included
one. -/
def endMapping? (s : Scope) (own : List ClassMapping) (id property : String) :
    Option EndMapping :=
  match findImplementation? own id with
  | some i => some ⟨i.className, i.mainTable, i.mapsProperty property⟩
  | none =>
    (findEffective? s.includedMappings id).map fun e =>
      ⟨e.declared.className, e.mainTable, e.declared.mapsProperty property⟩

/-- Where an end is named, or else where the property is. -/
def endSpan (explicit : Option Name) (source : Source.PropertyMapping) : Span :=
  match explicit with
  | some id => id.span
  | none => source.property.span

/-- The property of an association that a name denotes; a qualified property cannot be mapped. -/
def associationProperty (association : Model.Association) (id : String) (name : Name) :
    Resolved Model.Property :=
  if (association.qualifiedProperty? name.value).isSome then
    (Fault.qualifiedPropertyMapped name.value id).found name.span
  else
    match association.property? name.value with
    | none => (Fault.unknownProperty name.value association.path).found name.span
    | some property => .ok property

/-- Finds the ends of a property. -/
def binding (s : Scope) (own : List ClassMapping) (association : Model.Association) (id : String)
    (source : Source.PropertyMapping) : Resolved Binding := do
  let name := source.property.value
  let property ← associationProperty association id source.property
  let owner := (association.ownerOf? name).getD ""
  let sourceId := s.endId source.sourceId owner
  match s.endMapping? own sourceId name with
  | none =>
    (Fault.unknownAssociationSource sourceId name id).found (endSpan source.sourceId source)
  | some sourceEnd =>
    let targetId := s.endId source.targetId property.type.classPath
    match s.endMapping? own targetId name with
    | none =>
      (Fault.unknownAssociationTarget targetId name id).found (endSpan source.targetId source)
    | some targetEnd => return ⟨id, property, owner, sourceId, sourceEnd, targetId, targetEnd⟩

/-- The source maps the class that the property is navigated from, or a subclass; the target maps
the class of the property, a subclass or a superclass; and the source does not map the property
itself. -/
def checkBinding (s : Scope) (b : Binding) (source : Source.PropertyMapping) : Resolved Unit :=
  let name := source.property.value
  let expected := b.property.type.classPath
  if !s.model.isAncestorOrSelf b.owner b.source.className then
    (Fault.associationSourceMismatch b.association b.sourceId b.source.className name).found
      (endSpan source.sourceId source)
  else if !s.model.isAncestorOrSelf expected b.target.className &&
      !s.model.isAncestorOrSelf b.target.className expected then
    (Fault.associationTargetMismatch b.association b.targetId b.target.className name
      expected).found (endSpan source.targetId source)
  else if b.source.mapsProperty then
    (Fault.propertyMappedTwice name b.association b.sourceId).found source.property.span
  else .ok ()

/-- The fault of a property that is not mapped to a path of joins. -/
def notJoined {α : Type} (id : String) (source : Source.PropertyMapping) : Resolved α :=
  (Fault.associationPropertyNotJoin source.property.value id).found source.property.span

/-- Resolves the path between two ends. -/
def bindingPath (s : Scope) (b : Binding) (source : Source.PropertyMapping) :
    Recorded Operation :=
  match source.body with
  | .relational expression none => do
    let r := s.resolverIn b.source.mainTable.database
    let operation ← r.resolve (some b.source.mainTable) expression
    match operation with
    | .join _ steps none =>
      s.store.checkEnd steps b.target.mainTable source.span
      return operation
    | _ => notJoined b.association source
  | _ => Recorded.ofResult (notJoined b.association source)

/-- Resolves the mapping of a property of an association. -/
def associationPropertyMapping (s : Scope) (own : List ClassMapping)
    (association : Model.Association) (id : String) (source : Source.PropertyMapping) :
    Recorded PropertyMapping := do
  let b ← s.binding own association id source
  s.checkBinding b source
  let operation ← s.bindingPath b source
  return ⟨source.property.value, b.sourceId, some b.targetId, none, .relational operation none,
    source.span⟩

/-- Resolves the properties of an association mapping, of which `seen` are mapped already. -/
def associationPropertyMappings (s : Scope) (own : List ClassMapping)
    (association : Model.Association) (id : String) (seen : List String) :
    List Source.PropertyMapping → Recorded (List PropertyMapping)
  | [] => pure []
  | m :: rest =>
    let name := m.property
    if name.value ∈ seen then
      Recorded.ofResult ((Fault.duplicateAssociationProperty name.value id).found name.span)
    else do
      let first ← s.associationPropertyMapping own association id m
      let others ← s.associationPropertyMappings own association id (name.value :: seen) rest
      return first :: others

/-- Resolves an association mapping. -/
def associationMapping (s : Scope) (own : List ClassMapping) (source : Source.AssociationMapping) :
    Recorded AssociationMapping :=
  match s.model.association? source.association.value with
  | none =>
    Recorded.ofResult
      ((Fault.unknownType source.association.value).found source.association.span)
  | some association => do
    let id := source.mappingId
    let mappings ← s.associationPropertyMappings own association id [] source.propertyMappings
    return ⟨id, source.association.value, mappings, source.span⟩

end Scope

end ObjectRelational
