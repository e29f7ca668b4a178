import ObjectRelational.Mapping.Basic
import ObjectRelational.Store.Basic
import ObjectRelational.Substitution

/-!
# Mapping units

A resolved unit holds the mappings that it declares itself, and the units that it includes as they
are, each with the substitution that applies to it. Nothing of an included unit is copied.
-/

namespace ObjectRelational

mutual

/-- A resolved mapping unit. -/
structure MappingUnit where
  name : String
  classMappings : List ClassMapping
  associationMappings : List AssociationMapping
  enumerationMappings : List EnumerationMapping
  /-- The units that are included directly, in the order of their declaration. -/
  includes : List IncludedUnit
  /-- All units that are included, directly or not, each once. -/
  flattened : List IncludedUnit
  /-- The id of the root mapping of every class that is mapped. -/
  roots : OrderedMap String String
  usages : Usages
  /-- The store that all handles of the unit refer to. -/
  store : Store
  span : Span

/-- A unit as it is included: with a substitution of its databases. -/
structure IncludedUnit where
  unit : MappingUnit
  substitution : Substitution

end

/-- The units that an included unit includes itself, as they are seen through it. -/
def IncludedUnit.inner (i : IncludedUnit) : List IncludedUnit :=
  i.unit.includes.map fun inner => ⟨inner.unit, inner.substitution.andThen i.substitution⟩

/-- The ids that a unit itself takes. -/
def MappingUnit.ids (u : MappingUnit) : List String :=
  u.classMappings.flatMap ClassMapping.ids ++ u.associationMappings.map (·.id) ++
    u.enumerationMappings.map (·.id)

end ObjectRelational
