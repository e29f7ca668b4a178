import ObjectRelational.Mapping.Aggregation
import ObjectRelational.Mapping.Extension
import ObjectRelational.Mapping.Roots

/-!
# Resolving the class mappings of a unit

Class mappings are resolved together: first their classes are found, then the root of every class,
then an order in which extended mappings come first; and when all are resolved, the paths of joins
are checked against the main tables that they have to end on.

* `Scope.classMappings` runs these steps.
* `Scope.checkJoinEnds` is the last of them.
-/

namespace ObjectRelational.Scope

/-! ## Ids and roots -/

/-- Every class that is mapped is in the model. -/
def checkClasses (model : ObjectModel) : List Source.ClassMapping → Resolved Unit
  | [] => .ok ()
  | m :: rest =>
    if (model.class? m.className.value).isSome then checkClasses model rest
    else (Fault.unknownType m.className.value).found m.className.span

/-- The classes that mappings map, by the ids of the mappings and of their parts. -/
def classesById (own : List Source.ClassMapping) : List (String × String) :=
  own.flatMap fun m =>
    (m.generatedIds ++ [m.mappingId]).map fun id => (id, m.className.value)

/-- The scope of the class mappings of a unit. -/
def ofClasses (environment : Environment) (unit : Source.Mapping) (included : List IncludedUnit)
    (enumerationMappings : List EnumerationMapping) : Resolved Scope := do
  checkClasses environment.model unit.classMappings
  let roots ← Roots.resolve unit.span unit.classMappings included
  return {
    toEnvironment := environment
    unit := unit.name.value
    included := included
    enumerationMappings := enumerationMappings
    classes := classesById unit.classMappings
    roots := roots }

/-! ## The mappings -/

/-- What a class mapping is resolved as. -/
def header (s : Scope) (source : Source.ClassMapping) : Header where
  id := source.mappingId
  className := source.className.value
  root := s.roots.find? source.className.value = some source.mappingId
  declaredRoot := source.root
  superId := source.superId
  span := source.span

/-- Resolves a class mapping; `own` are the unit's own mappings that are resolved already. -/
def classMapping (s : Scope) (own : List ClassMapping) (source : Source.ClassMapping) :
    Recorded ClassMapping :=
  match source.body with
  | .relational body => do
    return .relational (← s.setImplementation own (s.header source) body)
  | .aggregationAware main views => do
    return .aggregationAware (← s.aggregationAware own (s.header source) main views)

/-- Resolves class mappings behind those that are resolved already. -/
def resolveFrom (s : Scope) (own : List ClassMapping) :
    List Source.ClassMapping → Recorded (List ClassMapping)
  | [] => pure own
  | source :: rest => do
    let mapping ← s.classMapping own source
    s.resolveFrom (own ++ [mapping]) rest

/-- The resolved mappings in the order of their declaration. -/
def asDeclared (sources : List Source.ClassMapping) (resolved : List ClassMapping) :
    List ClassMapping :=
  sources.filterMap fun source => resolved.find? fun m => m.id = source.mappingId

/-! ## Ends of joins -/

/-- The path to the mapping of an id has to end on its main table. -/
def checkEnd (s : Scope) (own : List ClassMapping) (steps : List JoinStep) (id : String)
    (span : Span) : Resolved Unit :=
  match s.mainTableOf? own id with
  | none => .ok ()
  | some target => s.store.checkEnd steps target span

mutual

/-- Checks the paths of a property mapping. -/
def checkJoinEnd (s : Scope) (own : List ClassMapping) : PropertyMapping → Resolved Unit
  | ⟨_, _, targetId, _, value, span⟩ => s.checkValueEnd own targetId span value

/-- Checks the paths of a value that leads to a mapping. -/
def checkValueEnd (s : Scope) (own : List ClassMapping) (targetId : Option String) (span : Span) :
    PropertyValue → Resolved Unit
  | .relational operation _ =>
    match operation, targetId with
    | .join _ steps none, some id => s.checkEnd own steps id span
    | _, _ => .ok ()
  | .embedded _ _ _ propertyMappings otherwise => do
    s.checkJoinEnds own propertyMappings
    match otherwise with
    | none => return ()
    | some otherwise => s.checkEnd own otherwise.join.steps otherwise.targetId span
  | .inline _ => .ok ()

/-- Checks the paths of property mappings. -/
def checkJoinEnds (s : Scope) (own : List ClassMapping) : List PropertyMapping → Resolved Unit
  | [] => .ok ()
  | m :: rest => do
    s.checkJoinEnd own m
    s.checkJoinEnds own rest

end

/-- Checks the paths of relational mappings. -/
def checkImplementations (s : Scope) (own : List ClassMapping) :
    List SetImplementation → Resolved Unit
  | [] => .ok ()
  | i :: rest => do
    s.checkJoinEnds own i.propertyMappings
    s.checkImplementations own rest

/-- Resolves the class mappings of a unit. -/
def classMappings (s : Scope) (sources : List Source.ClassMapping) :
    Recorded (List ClassMapping) := do
  let order ← Extension.order sources
  let resolved ← s.resolveFrom [] order
  let mappings := asDeclared sources resolved
  s.checkImplementations mappings (mappings.flatMap ClassMapping.implementations)
  return mappings

end ObjectRelational.Scope
