import ObjectRelational.Mapping.Effective

/-!
# Showing a unit as text

The lines that tell which tables the classes of a unit are mapped to, and what its associations and
enumerations are mapped to.
-/

namespace ObjectRelational.CommandLine

/-- How a property is mapped, in one word. -/
def valueWord : PropertyValue → String
  | .relational _ _ => "relational"
  | .embedded _ _ _ _ _ => "embedded"
  | .inline _ => "inline"

/-- The line of a property mapping. -/
def propertyLine (m : PropertyMapping) : String :=
  match m.targetId with
  | some target => s!"      {m.property} -> {target} ({valueWord m.value})"
  | none => s!"      {m.property} ({valueWord m.value})"

/-- Where a mapping comes from that is not the unit's own. -/
def originText (e : Effective ClassMapping) : String :=
  if e.isLocal then "" else s!" (from {e.unit})"

/-- The line of a class mapping; a root is marked. -/
def classLine (store : Store) (e : Effective ClassMapping) : String :=
  let mark := if e.declared.root then "*" else " "
  let table := store.describeAlias e.implementation.mainTable
  s!"  {mark}{e.declared.className} [{e.declared.id}] on {table}{originText e}"

/-- The line of an aggregate. -/
def aggregateLine (store : Store) (a : Aggregate) : String :=
  s!"      aggregate {a.implementation.id} on {store.describeAlias a.implementation.mainTable}"

/-- The lines of the aggregates of a class mapping. -/
def aggregateLines (store : Store) : ClassMapping → List String
  | .relational _ => []
  | .aggregationAware a => a.aggregates.map (aggregateLine store)

/-- The lines of a class mapping. -/
def classLines (store : Store) (e : Effective ClassMapping) : List String :=
  classLine store e ::
    (e.implementation.propertyMappings.map propertyLine ++ aggregateLines store e.declared)

/-- The line of a property of an association. -/
def endLine (m : PropertyMapping) : String :=
  let target := m.targetId.getD "?"
  s!"      {m.property}[{m.sourceId}, {target}]"

/-- The lines of an association mapping. -/
def associationLines (m : AssociationMapping) : List String :=
  s!"  - {m.association} [{m.id}]" :: m.propertyMappings.map endLine

/-- The line of an enumeration value. -/
def valueLine (v : String × List Source.EnumSource) : String :=
  let sources := String.intercalate ", " (v.2.map Source.EnumSource.text)
  s!"      {v.1}: [{sources}]"

/-- The lines of an enumeration mapping. -/
def enumerationLines (m : EnumerationMapping) : List String :=
  s!"  - {m.enumeration} [{m.id}]" :: m.values.map valueLine

/-- A part of the text, left out when there is nothing in it. -/
def titled (title : String) (lines : List String) : List String :=
  if lines.isEmpty then [] else "" :: title :: lines

/-- The lines that show a unit. -/
def unitLines (u : MappingUnit) : List String :=
  [s!"Mapping: {u.name}", "", "Class mappings:"] ++
    u.effectiveClassMappings.flatMap (classLines u.store) ++
    titled "Association mappings:" (u.effectiveAssociationMappings.flatMap associationLines) ++
    titled "Enumeration mappings:" (u.enumerationMappings.flatMap enumerationLines)

end ObjectRelational.CommandLine
