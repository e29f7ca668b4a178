import ObjectRelational.Mapping.Effective
import ObjectRelational.Report.Mapping
import ObjectRelational.Report.Store

/-!
# Reports of mapping units

A unit is shown with its own mappings, with all that it includes, and with its effective view.
Databases are named through the store of the unit.
-/

namespace ObjectRelational

/-- The report of a substitution: pairs of names. -/
def Substitution.report (store : Store) (s : Substitution) : Json :=
  .ofList (fun p => .strings [store.databaseName p.1, store.databaseName p.2]) s.pairs

/-- The report of included units. -/
def includesReport (store : Store) (included : List IncludedUnit) : Json :=
  .ofList (fun i => .arr [.str i.unit.name, i.substitution.report store]) included

/-- The report of databases by their names, in the order of their handles. -/
def databasesReport (store : Store) (databases : OrderedSet DatabaseId) : Json :=
  .strings (store.namesOf databases.toList)

namespace Effective

/-- The report of property mappings, of which only the substituted ones are shown. -/
def substitutedReport (e : Effective SetImplementation) : Json :=
  if e.isLocal then .null else .arr (reportsOfMappings e.propertyMappings)

/-- The report of the databases that a mapping mentions, as they are seen. -/
def mentionedReport {α : Type} (store : Store) (e : Effective α) (databases : List DatabaseId) :
    Json :=
  databasesReport store (e.substituteAll databases)

/-- The report of a relational mapping as it is seen. -/
def implementationReport (store : Store) (e : Effective SetImplementation) : Json :=
  .obj [("id", .str e.declared.id), ("class", .str e.declared.className), ("unit", .str e.unit),
    ("is_local", .bool e.isLocal), ("main_table", .str (store.describeAlias e.mainTable)),
    ("referenced_databases", e.mentionedReport store e.declared.databases),
    ("property_mappings", e.substitutedReport)]

/-- The report of a class mapping as it is seen. -/
def classReport (store : Store) (e : Effective ClassMapping) : Json :=
  .obj [("id", .str e.declared.id), ("class", .str e.declared.className),
    ("root", .bool e.declared.root), ("declared_root", .bool e.declared.declaredRoot),
    ("super_id", idReport e.declared.setImplementation.superId), ("unit", .str e.unit),
    ("is_local", .bool e.isLocal),
    ("main_table", .str (store.describeAlias e.implementation.mainTable)),
    ("referenced_databases", e.mentionedReport store e.declared.databases),
    ("property_mappings", e.implementation.substitutedReport),
    ("sub_implementations", .ofList (implementationReport store) e.subImplementations)]

end Effective

namespace MappingUnit

/-- The report of the association mappings of a unit that includes others. -/
def associationsReport (u : MappingUnit) : Json :=
  if u.flattened.isEmpty then .null
  else .ofList AssociationMapping.report u.effectiveAssociationMappings

/-- The report of a unit. -/
def report (u : MappingUnit) : Json :=
  .obj [("name", .str u.name), ("class_mappings", .ofList ClassMapping.report u.classMappings),
    ("association_mappings", .ofList AssociationMapping.report u.associationMappings),
    ("enumeration_mappings", .ofList EnumerationMapping.report u.enumerationMappings),
    ("includes", includesReport u.store u.includes),
    ("flattened", includesReport u.store u.flattened),
    ("roots", .obj (u.roots.entries.map fun e => (e.1, .str e.2))), ("usages", u.usages.report),
    ("effective", .ofList (Effective.classReport u.store) u.effectiveClassMappings),
    ("effective_associations", u.associationsReport),
    ("referenced_databases", databasesReport u.store u.referencedDatabases),
    ("span", u.span.report)]

end MappingUnit

end ObjectRelational
