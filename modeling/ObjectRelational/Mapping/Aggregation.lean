import ObjectRelational.Mapping.SetImplementation

/-!
# Aggregation-aware mappings

An aggregation-aware mapping is split into a main mapping and one mapping for each pre-aggregated
view. What a view can answer is told by paths of properties from the class that is mapped.
-/

namespace ObjectRelational

namespace PropertyPath

/-- The type that a path leads to from a type. Only objects have properties to go on with. -/
def walk (model : ObjectModel) (start : PropertyType) : List Name → Resolved PropertyType
  | [] => .ok start
  | step :: rest =>
    match start.classPath?.bind fun path => model.findProperty? path step.value with
    | none => (Fault.aggregateUnknownProperty step.value start.text).found step.span
    | some property => walk model property.type rest

/-- Resolves a path that starts from a class. -/
def resolve (model : ObjectModel) (className : String) (source : Source.PropertyPath) :
    Resolved PropertyPath := do
  let returnType ← walk model (.ofClass className) source.properties
  return ⟨source.properties.map (·.value), returnType⟩

end PropertyPath

namespace AggregateSpecification

/-- Resolves a value that is aggregated: its function has to take what the path leads to. -/
def resolveValue (model : ObjectModel) (className : String) (source : Source.AggregateValue) :
    Resolved AggregateValue := do
  let path ← PropertyPath.resolve model className source.mapFunction
  let name := source.aggregateFunction
  if (model.findFunction? name.value path.returnType).isNone then
    (Fault.aggregateFunctionNotFound name.value path.returnType.text).found name.span
  else return ⟨path, name.value⟩

/-- Resolves what a view can answer. -/
def resolve (model : ObjectModel) (className : String) (source : Source.AggregateSpecification) :
    Resolved AggregateSpecification := do
  let paths ← source.groupByFunctions.mapM (PropertyPath.resolve model className)
  let values ← source.aggregateValues.mapM (resolveValue model className)
  return ⟨source.canAggregate, paths, values⟩

end AggregateSpecification

namespace Scope

/-- The header of the main part of a mapping. -/
def mainHeader (header : Header) : Header :=
  { header with id := Source.mainId header.id, root := false, declaredRoot := false }

/-- The header of the part for a view. -/
def aggregateHeader (header : Header) (index : Nat) (span : Span) : Header :=
  ⟨Source.aggregateId header.id index, header.className, false, false, none, span⟩

/-- Resolves a view at its place among the views. -/
def aggregate (s : Scope) (own : List ClassMapping) (header : Header)
    (view : Source.AggregateView × Nat) : Recorded Aggregate := do
  let specification ←
    AggregateSpecification.resolve s.model header.className view.1.modelOperation
  let implementation ←
    s.setImplementation own (aggregateHeader header view.2 view.1.span) view.1.aggregateMapping
  return ⟨specification, implementation⟩

/-- Resolves an aggregation-aware mapping: the main mapping and then the views. -/
def aggregationAware (s : Scope) (own : List ClassMapping) (header : Header)
    (main : Source.RelationalMapping) (views : List Source.AggregateView) :
    Recorded AggregationAware := do
  let main ← s.setImplementation own (mainHeader header) main
  let aggregates ← Recorded.forAll (s.aggregate own header) views.zipIdx
  return ⟨header.id, header.className, header.root, header.declaredRoot, main, aggregates,
    header.span⟩

end Scope

end ObjectRelational
