import ObjectRelational.Fault
import ObjectRelational.Mapping.Basic
import ObjectRelational.Model.Registry

/-!
# Resolving enumeration mappings

Every value that is mapped has to be one of the enumeration, at most once, and all column values of
a mapping are of one kind.
-/

namespace ObjectRelational.EnumerationMapping

/-- The column values of a mapping are of the kind of the first one. -/
def checkKinds (id : String) (first : Option Source.EnumSource) (span : Span)
    (sources : List Source.EnumSource) : Resolved Unit :=
  match first with
  | none => .ok ()
  | some first =>
    if sources.all first.sameKind then .ok () else (Fault.mixedEnumSourceTypes id).found span

/-- Resolves the values of a mapping. `first` is the first column value before them. -/
def resolveValues (enumeration : Model.Enumeration) (path id : String) (seen : List String)
    (first : Option Source.EnumSource) :
    List Source.EnumValueMapping → Resolved (List (String × List Source.EnumSource))
  | [] => .ok []
  | m :: rest => do
    let value := m.value.value
    if value ∉ enumeration.values then (Fault.unknownEnumValue value path).found m.value.span
    else if value ∈ seen then (Fault.duplicateEnumValue value id).found m.value.span
    else
      let first := first.or m.sources.head?
      checkKinds id first m.value.span m.sources
      let others ← resolveValues enumeration path id (value :: seen) first rest
      return (value, m.sources) :: others

/-- Resolves an enumeration mapping. -/
def resolve (model : ObjectModel) (source : Source.EnumerationMapping) :
    Resolved EnumerationMapping :=
  let path := source.enumeration.value
  match model.enumeration? path with
  | none => (Fault.unknownType path).found source.enumeration.span
  | some enumeration => do
    let id := source.mappingId
    let values ← resolveValues enumeration path id [] none source.values
    return ⟨id, path, values, source.span⟩

end ObjectRelational.EnumerationMapping
