import ObjectRelational.Mapping.Association
import ObjectRelational.Mapping.Enumeration
import ObjectRelational.Store.Build

/-!
# Resolving units

A unit is resolved in phases: its includes, its enumeration mappings, its class mappings and its
association mappings. Included units are taken as they are; only the state of the unit itself is
made.
-/

namespace ObjectRelational.MappingUnit

/-- Resolves an include: the unit has to be there, and its substitutions have to be sound. -/
def resolveInclude (e : Environment) (compiled : String → Option MappingUnit) (unit : String)
    (source : Source.Include) : Resolved IncludedUnit :=
  match compiled source.mapping.value with
  | none => (Fault.unknownMapping source.mapping.value unit).found source.mapping.span
  | some included => do
    let substitution ← Include.substitution e.store e.model source
    Include.checkMentioned unit source substitution included e.store
    return ⟨included, substitution⟩

/-- The mappings of a unit that can record usages. -/
def resolveMappings (s : Scope) (source : Source.Mapping) :
    Recorded (List ClassMapping × List AssociationMapping) := do
  let classMappings ← s.classMappings source.classMappings
  let associationMappings ←
    Recorded.forAll (s.associationMapping classMappings) source.associationMappings
  return (classMappings, associationMappings)

/-- Resolves a unit; the units that it includes are compiled already. -/
def resolve (e : Environment) (compiled : String → Option MappingUnit) (source : Source.Mapping) :
    Resolved MappingUnit := do
  let name := source.name.value
  let includes ← source.includes.mapM (resolveInclude e compiled name)
  let flattened ← Include.flatten name source.span includes
  Include.checkIds source flattened
  let enumerationMappings ←
    source.enumerationMappings.mapM (EnumerationMapping.resolve e.model)
  let s ← Scope.ofClasses e source flattened enumerationMappings
  let recorded := resolveMappings s source
  let (classMappings, associationMappings) ← recorded.result
  return {
    name := name
    classMappings := classMappings
    associationMappings := associationMappings
    enumerationMappings := enumerationMappings
    includes := includes
    flattened := flattened
    roots := s.roots
    usages := Store.keptUsages e.settings recorded.usages
    store := e.store
    span := source.span }

end ObjectRelational.MappingUnit
