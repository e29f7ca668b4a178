import ObjectRelational.Diagnostic

/-!
# Faults

Every cause for which a store or a mapping unit is rejected, with its message. A fault becomes a
`Failure` with the place where it was found.
-/

namespace ObjectRelational

/-- What is declared twice. -/
inductive DeclarationKind where
  | database
  | schema
  | table
  | view
  | column
  | join
  | filter
deriving DecidableEq

/-- The kind in words. -/
def DeclarationKind.text : DeclarationKind → String
  | database => "database"
  | schema => "schema"
  | table => "table"
  | view => "view"
  | column => "column"
  | join => "join"
  | filter => "filter"

/-- Why milestoning clauses contradict each other. -/
inductive MilestoningConflict where
  /-- An argument is given twice in one clause. -/
  | repeatedArgument (argument : String)
  /-- A clause is given twice. -/
  | repeatedClause (keyword : String)
  /-- A snapshot date is given beside a range of dates. -/
  | snapshotWithRange
  /-- A business snapshot is given beside processing milestoning. -/
  | snapshotWithProcessing
deriving DecidableEq

/-- The contradiction in words. -/
def MilestoningConflict.text : MilestoningConflict → String
  | repeatedArgument argument => s!"{argument} is specified more than once"
  | repeatedClause keyword => s!"{keyword} milestoning is specified more than once"
  | snapshotWithRange =>
    "BUS_SNAPSHOT_DATE can't be combined with BUS_FROM, BUS_THRU or THRU_IS_INCLUSIVE"
  | snapshotWithProcessing =>
    "business snapshot milestoning can't be combined with processing milestoning"

/-- A cause for rejecting a store or a mapping unit. -/
inductive Fault where
  -- names in stores
  | unknownDatabase (name : String)
  | unknownIncludedDatabase (database included : String)
  | unknownSchema (schema database : String)
  | unknownTable (table schema database : String)
  | unknownColumn (column table : String)
  | unknownJoin (join database : String)
  | unknownFilter (filter database : String)
  | duplicate (kind : DeclarationKind) (name container : String)
  | selfJoinTableCount (count : Nat)
  | joinTableCount (join : String) (count : Nat)
  | misplacedTargetColumn
  -- milestoning
  | unknownMilestoningKeyword (keyword : String)
  | unknownMilestoningArgument (keyword argument : String)
  | missingMilestoningArgument (keyword argument : String)
  | conflictingMilestoning (conflict : MilestoningConflict)
  | invalidMilestoningValue (argument value : String)
  | snapshotColumnType (table column found : String)
  -- views
  | viewWithoutMainTable (view : String)
  | viewMultipleMainTables (view tables : String)
  | viewTableNotVisible (view table owner database : String)
  | viewGroupByColumn (column view table : String)
  | viewColumnWithoutTarget (column view : String)
  -- join paths
  | joinMissingSourceTable (join table : String)
  | joinNotConnected (join source target actual : String)
  | joinPathWithoutSource (join : String)
  -- includes and store substitution
  | unknownMapping (mapping includer : String)
  | circularInclude (mapping : String) (cycle : List String)
  | duplicateInclude (mapping included : String)
  | duplicateMappingId (id mapping : String)
  | notAStore (name : String)
  | unknownStore (name : String)
  | substituteDoesNotInclude (replaced substitute : String)
  | multipleSubstitutions (replaced : String)
  | replacedAndSubstitute (store : String)
  | substitutionNotInIncluded (outer replaced inner : String)
  | ambiguousIncludePaths (included mapping : String)
  | blockedByInclude (mapping included : String)
  -- class mappings
  | unknownType (path : String)
  | rootCount (className : String) (mappings roots : Nat)
  | unknownProperty (property element : String)
  | duplicatePropertyMapping (property className : String)
  | dataPropertyMappedToJoin (property className : String)
  | objectPropertyMappedToColumn (property className : String)
  | nestedMappingOnDataProperty (property className : String)
  | unknownTargetMapping (id property mapping : String)
  | incompatibleTargetMapping (id targetClass property propertyType : String)
  | invalidSourceId (sourceId property mapping : String)
  | mainTableNotFound (className : String)
  | mainTableAmbiguous (className tables : String)
  | inconsistentDatabases (className : String)
  | explicitMainTableOnExtends (id : String)
  | unknownSuperMapping (id mapping : String)
  | selfExtension (id : String)
  | invalidSuperClass (id className superId superClass : String)
  | extendsCycle (cycle : List String)
  | unmappedNewProperty (property className id : String)
  | missingDatabase (className : String)
  -- enumeration mappings
  | unknownEnumerationMapping (id : String)
  | enumerationMappingMismatch (id enumeration property propertyType : String)
  | transformerOnNonEnumeration (property : String)
  | unknownEnumValue (value enumeration : String)
  | duplicateEnumValue (value id : String)
  | mixedEnumSourceTypes (id : String)
  -- association mappings
  | qualifiedPropertyMapped (property association : String)
  | unknownAssociationSource (id property association : String)
  | unknownAssociationTarget (id property association : String)
  | associationSourceMismatch (association id className property : String)
  | associationTargetMismatch (association id className property propertyType : String)
  | propertyMappedTwice (property association id : String)
  | duplicateAssociationProperty (property association : String)
  | associationPropertyNotJoin (property association : String)
  -- aggregation-aware mappings
  | aggregateUnknownProperty (property className : String)
  | aggregateFunctionNotFound (name argument : String)
deriving DecidableEq

namespace Fault

/-- Names along a cycle. -/
def arrows (names : List String) : String := String.intercalate " -> " names

/-- Where to find the ends of an association mapping. -/
def associationEndHint : String :=
  "Make sure that you have specified a valid Class mapping id as the source id and target id, " ++
    "using the syntax 'property[sourceId, targetId]: ...'."

/-- The message of a fault. -/
def message : Fault → String
  | unknownDatabase name => s!"The database '{name}' can't be found"
  | unknownIncludedDatabase database included =>
    s!"The database '{included}' included by '{database}' can't be found"
  | unknownSchema schema database =>
    s!"The schema '{schema}' can't be found in the database '{database}'"
  | unknownTable table schema database =>
    s!"The table '{table}' can't be found in the schema '{schema}' in the database '{database}'"
  | unknownColumn column table => s!"The column '{column}' can't be found in the table '{table}'"
  | unknownJoin join database =>
    s!"The join '{join}' has not been found in the database '{database}'"
  | unknownFilter filter database =>
    s!"The filter '{filter}' has not been found in the database '{database}'"
  | duplicate kind name container => s!"Duplicate {kind.text} '{name}' in {container}"
  | selfJoinTableCount count => s!"A self join can only contain 1 table, found {count}"
  | joinTableCount join count =>
    s!"The join '{join}' must reference exactly 2 tables, found {count}"
  | misplacedTargetColumn =>
    "The \x7btarget\x7d placeholder can only be used inside a self join"
  | unknownMilestoningKeyword keyword =>
    s!"Unknown milestoning type '{keyword}', expected one of: business, processing"
  | unknownMilestoningArgument keyword argument =>
    s!"Unknown {keyword} milestoning argument '{argument}'"
  | missingMilestoningArgument keyword argument =>
    s!"Milestoning error: {keyword} milestoning requires {argument}"
  | conflictingMilestoning conflict => s!"Milestoning error: {conflict.text}"
  | invalidMilestoningValue argument value =>
    s!"Invalid value '{value}' for milestoning argument {argument}"
  | snapshotColumnType table column found =>
    s!"Milestoning error: the BUS_SNAPSHOT_DATE column '{column}' of table '{table}' must be of " ++
      s!"type DATE, found {found}"
  | viewWithoutMainTable view => s!"Unable to determine the main table for view '{view}'"
  | viewMultipleMainTables view tables =>
    s!"View '{view}' must be rooted at exactly one main table, found: {tables}"
  | viewTableNotVisible view table owner database =>
    s!"The table '{table}' used by view '{view}' belongs to database '{owner}', which is " ++
      s!"neither '{database}' nor included by it"
  | viewGroupByColumn column view table =>
    s!"The groupBy column '{column}' of view '{view}' does not belong to the main table '{table}'"
  | viewColumnWithoutTarget column view =>
    s!"The column '{column}' of view '{view}' must end with a column expression"
  | joinMissingSourceTable join table =>
    s!"Mapping error: the join {join} does not contain the source table {table}"
  | joinNotConnected join source target actual =>
    s!"Mapping error: the join {join} does not connect from the table {source} to the table " ++
      s!"{target}; instead it connects to {actual}"
  | joinPathWithoutSource join =>
    s!"Unable to determine the source table of the join chain starting with '{join}'"
  | unknownMapping mapping includer =>
    s!"The mapping '{mapping}' included by '{includer}' can't be found"
  | circularInclude mapping cycle => s!"Circular include in mapping {mapping}: {arrows cycle}"
  | duplicateInclude mapping included =>
    s!"Mapping '{mapping}' includes mapping '{included}' more than once"
  | duplicateMappingId id mapping =>
    s!"Duplicate mapping found with id: '{id}' in mapping {mapping}"
  | notAStore name => s!"Store substitution error: '{name}' is not a store"
  | unknownStore name => s!"Store substitution error: the store '{name}' can't be found"
  | substituteDoesNotInclude replaced substitute =>
    s!"Store substitution error: '{substitute}' does not include '{replaced}'"
  | multipleSubstitutions replaced =>
    s!"Store substitution error: multiple substitutions for {replaced}"
  | replacedAndSubstitute store =>
    s!"Store substitution error: {store} appears both as an original and a substitute"
  | substitutionNotInIncluded outer replaced inner =>
    s!"Store Substitution Error in mapping [{outer}] as [{replaced}] does not exist in included " ++
      s!"mapping [{inner}]"
  | ambiguousIncludePaths included mapping =>
    s!"Mapping '{included}' is reachable from '{mapping}' through include paths with different " ++
      "store substitutions"
  | blockedByInclude mapping included =>
    s!"Mapping '{mapping}' cannot be compiled because its included mapping '{included}' has errors"
  | unknownType path => s!"Can't find the type '{path}'"
  | rootCount className mappings roots =>
    s!"The class '{className}' is mapped by {mappings} set implementations and has {roots} " ++
      "roots. There should be exactly one root set implementation for the class, which is " ++
      "marked with a '*' in the mapping definition."
  | unknownProperty property element =>
    s!"The property '{property}' is unknown in the Element '{element}'"
  | duplicatePropertyMapping property className =>
    s!"Duplicate mappings found for the property '{property}' in the mapping for class " ++
      s!"{className}, the property should have one mapping."
  | dataPropertyMappedToJoin property className =>
    s!"The property '{property}' of class '{className}' is a primitive property and must be " ++
      "mapped to a column or an expression, not to a join"
  | objectPropertyMappedToColumn property className =>
    s!"The property '{property}' of class '{className}' is not a primitive property and must be " ++
      "mapped through a join"
  | nestedMappingOnDataProperty property className =>
    s!"The property '{property}' of class '{className}' is a primitive property and can't use " ++
      "an embedded or inline mapping"
  | unknownTargetMapping id property mapping =>
    s!"Unable to find target class mapping (id:{id}) for property '{property}' in class mapping " ++
      s!"'{mapping}'"
  | incompatibleTargetMapping id targetClass property propertyType =>
    s!"The class mapping '{id}' maps '{targetClass}', which is not compatible with the type " ++
      s!"'{propertyType}' of property '{property}'"
  | invalidSourceId sourceId property mapping =>
    s!"The source id '{sourceId}' of property '{property}' must be the id of its class mapping " ++
      s!"'{mapping}'"
  | mainTableNotFound className =>
    s!"Can't find the main table for class '{className}'. Please specify a main table using the " ++
      "~mainTable directive."
  | mainTableAmbiguous className tables =>
    s!"Can't find the main table for class '{className}'. Found tables {tables}. Please specify " ++
      "a main table using the ~mainTable directive."
  | inconsistentDatabases className =>
    s!"Can't find the main table for class '{className}'. Inconsistent database definitions for " ++
      "the mapping."
  | explicitMainTableOnExtends id =>
    s!"Cannot specify main table explicitly for extended mapping [{id}]"
  | unknownSuperMapping id mapping =>
    s!"Can't find the extended class mapping '{id}' in mapping '{mapping}'"
  | selfExtension id => s!"Extend mapping id cannot reference self '{id}'"
  | invalidSuperClass id className superId superClass =>
    s!"Class mapping '{id}' for class '{className}' cannot extend '{superId}', which maps " ++
      s!"'{superClass}', not a superclass of '{className}'"
  | extendsCycle cycle => s!"Cycle detected in class mapping extends: {arrows cycle}"
  | unmappedNewProperty property className id =>
    s!"The property '{property}' is declared by class '{className}' but is not mapped by the " ++
      s!"extending mapping '{id}'"
  | missingDatabase className =>
    s!"Unable to determine the database for the mapping of class '{className}'"
  | unknownEnumerationMapping id => s!"Can't find enumeration mapping '{id}'"
  | enumerationMappingMismatch id enumeration property propertyType =>
    s!"The enumeration mapping '{id}' maps '{enumeration}', but the property '{property}' has " ++
      s!"type '{propertyType}'"
  | transformerOnNonEnumeration property =>
    s!"The property '{property}' is not an enumeration and can't use an enumeration mapping"
  | unknownEnumValue value enumeration =>
    s!"The enum value '{value}' can't be found in the enumeration {enumeration}"
  | duplicateEnumValue value id =>
    s!"The enum value '{value}' is mapped more than once in enumeration mapping '{id}'"
  | mixedEnumSourceTypes id =>
    s!"Only one type of source value is allowed in enumeration mapping '{id}'"
  | qualifiedPropertyMapped property association =>
    s!"The qualified property '{property}' of association '{association}' can't be the target " ++
      "of a mapping"
  | unknownAssociationSource id property association =>
    s!"Unable to find source class mapping (id:{id}) for property '{property}' in Association " ++
      s!"mapping '{association}'. {associationEndHint}"
  | unknownAssociationTarget id property association =>
    s!"Unable to find target class mapping (id:{id}) for property '{property}' in Association " ++
      s!"mapping '{association}'. {associationEndHint}"
  | associationSourceMismatch association id className property =>
    s!"Association mapping '{association}': the source class mapping '{id}' maps '{className}', " ++
      s!"which does not declare the property '{property}'"
  | associationTargetMismatch association id className property propertyType =>
    s!"Association mapping '{association}': the target class mapping '{id}' maps '{className}', " ++
      s!"which is not compatible with the type '{propertyType}' of property '{property}'"
  | propertyMappedTwice property association id =>
    s!"The property '{property}' is mapped twice: in the association mapping '{association}' " ++
      s!"and in the class mapping '{id}'"
  | duplicateAssociationProperty property association =>
    s!"The property '{property}' is mapped more than once in the association mapping " ++
      s!"'{association}'"
  | associationPropertyNotJoin property association =>
    s!"The property '{property}' in association mapping '{association}' must be mapped through " ++
      "a join"
  | aggregateUnknownProperty property className =>
    s!"Can't find the property '{property}' in the class {className}"
  | aggregateFunctionNotFound name argument =>
    s!"The system can't find a match for the function: {name}(_:{argument}[*])"

/-- Milestoning clauses that break their grammar are malformed text; every other fault is one of
meaning. -/
def kind : Fault → ErrorKind
  | unknownMilestoningKeyword _ | unknownMilestoningArgument _ _ | missingMilestoningArgument _ _
  | conflictingMilestoning _ | invalidMilestoningValue _ _ => .parse
  | _ => .compilation

end Fault

/-- A fault and the place where it was found. -/
structure Failure where
  fault : Fault
  span : Span
deriving DecidableEq

/-- The diagnostic that reports a failure. -/
def Failure.diagnostic (f : Failure) : Diagnostic := ⟨f.fault.kind, f.fault.message, f.span⟩

/-- What a step of a resolution answers: a value, or the failure that it stopped with. -/
abbrev Resolved (α : Type) := Except Failure α

/-- Stops with a fault found at a place. -/
def Fault.found {α : Type} (fault : Fault) (span : Span) : Resolved α := .error ⟨fault, span⟩

end ObjectRelational
