import ObjectRelational.Proofs.Mapping.Scope
import ObjectRelational.Proofs.Store.Path

/-!
# What association mappings bind

A property of an association is bound between two relational mappings that the unit shows. Where it is
bound to joins, these lead from the main table of the one to the main table of the other; a path
without joins is taken as it is.

* `MappingUnit.Binds`: what holds of a property that is bound.
* `bindings_join`: it holds of every property that a resolved unit binds.
* `not_all_bindings_join`: without joins the two main tables can be different ones.
-/

namespace ObjectRelational

/-- A property of an association is bound in a unit: its source and its target are relational mappings
that the unit shows, the source maps the class of the opposite end or a subclass, and does not map the
property itself; and the property is bound to a path that starts on the main table of the source, goes
on step by step and, if there are any steps, ends on the main table of the target. -/
structure MappingUnit.Binds (u : MappingUnit) (model : ObjectModel)
    (association : Model.Association) (m : PropertyMapping) (source target : Effective SetImplementation)
    (chain : JoinChain) : Prop where
  shownSource : u.setImplementation? m.sourceId = some source
  shownTarget : ∃ targetId, m.targetId = some targetId ∧ u.setImplementation? targetId = some target
  owner : ∃ atEnd, association.endNamed? m.property = some atEnd ∧ model.isAncestorOrSelf
    (association.propertyAt atEnd.opposite).type.classPath source.declared.className = true
  unmapped : source.declared.mapsProperty m.property = false
  value : m.value = .relational chain.toOperation none
  bare : chain.target = none
  start : chain.source = source.mainTable
  threads : Threads chain.source.table chain.steps chain.endTable
  finish : chain.steps ≠ [] → chain.endTable = target.mainTable.table

namespace Scope

variable {s : Scope} {own : List ClassMapping} {association : Model.Association} {id : String}
  {source : Source.PropertyMapping} {b : Binding}

/-- Only a property of the association is bound. -/
theorem exists_end_of_associationProperty {name : Name} {property : Model.Property}
    (h : associationProperty association id name = .ok property) :
    ∃ atEnd, association.endNamed? name.value = some atEnd := by
  unfold associationProperty at h
  split at h
  · exact absurd h (found_ne_ok _ _ _)
  · split at h
    · exact absurd h (found_ne_ok _ _ _)
    · rename_i found hfound
      obtain ⟨atEnd, hend, -⟩ := Option.map_eq_some_iff.1 hfound
      exact ⟨atEnd, hend⟩

/-- A binding belongs to the class of the opposite end, and its ends are what is found under their
ids. -/
theorem ends_of_binding (h : s.binding own association id source = .ok b) :
    (∃ atEnd, association.endNamed? source.property.value = some atEnd ∧
        b.owner = (association.propertyAt atEnd.opposite).type.classPath) ∧
      s.endMapping? own b.sourceId source.property.value = some b.source ∧
      s.endMapping? own b.targetId source.property.value = some b.target := by
  unfold binding at h
  obtain ⟨property, hproperty, h⟩ := bind_eq_ok_iff.1 h
  obtain ⟨atEnd, hend⟩ := exists_end_of_associationProperty hproperty
  dsimp only at h
  split at h
  · exact absurd h (found_ne_ok _ _ _)
  · rename_i sourceEnd hsource
    split at h
    · exact absurd h (found_ne_ok _ _ _)
    · rename_i targetEnd htarget
      obtain rfl := pure_eq_ok_iff.1 h
      refine ⟨⟨atEnd, hend, ?_⟩, hsource, htarget⟩
      simp [Model.Association.ownerOf?, hend, PropertyType.classPath]

theorem checks_of_checkBinding (h : s.checkBinding b source = .ok ()) :
    s.model.isAncestorOrSelf b.owner b.source.className = true ∧ b.source.mapsProperty = false := by
  unfold checkBinding at h
  dsimp only at h
  split at h
  · exact absurd h (found_ne_ok _ _ _)
  · split at h
    · exact absurd h (found_ne_ok _ _ _)
    · split at h
      · exact absurd h (found_ne_ok _ _ _)
      · simp_all

/-- The path of a binding goes step by step from the source to the target, if it has steps. -/
theorem path_of_bindingPath {operation : Operation}
    (h : (s.bindingPath b source).result = .ok operation) : ∃ chain : JoinChain,
      operation = chain.toOperation ∧ chain.target = none ∧ chain.source = b.source.mainTable ∧
      Threads chain.source.table chain.steps chain.endTable ∧
      (chain.steps ≠ [] → chain.endTable = b.target.mainTable.table) := by
  unfold bindingPath at h
  split at h
  · simp only [Recorded.result_bind_eq_ok_iff] at h
    obtain ⟨resolved, hresolved, h⟩ := h
    split at h
    · rename_i start steps
      simp only [Recorded.result_bind_eq_ok_iff, Recorded.result_pure] at h
      obtain ⟨_, hend, h⟩ := h
      obtain rfl := Except.ok.inj h
      obtain ⟨rfl, hthreads⟩ := Resolver.threads_of_resolve hresolved
      exact ⟨⟨_, steps, none⟩, rfl, rfl, rfl, hthreads,
        fun hsteps => Store.endTable_of_checkEnd hend hsteps _⟩
    · exact absurd h (found_ne_ok _ _ _)
  · exact absurd h (found_ne_ok _ _ _)

theorem binds_of_associationPropertyMapping {u : MappingUnit} (hincluded : s.included = u.flattened)
    {m : PropertyMapping}
    (h : (s.associationPropertyMapping u.classMappings association id source).result = .ok m) :
    ∃ sourceEnd targetEnd chain, u.Binds s.model association m sourceEnd targetEnd chain := by
  simp only [associationPropertyMapping, Recorded.result_bind_eq_ok_iff, Recorded.result_pure] at h
  obtain ⟨b, hb, _, hcheck, operation, hoperation, h⟩ := h
  obtain rfl := Except.ok.inj h
  obtain ⟨⟨atEnd, hend, howner⟩, hsource, htarget⟩ := ends_of_binding hb
  obtain ⟨hancestor, hunmapped⟩ := checks_of_checkBinding hcheck
  obtain ⟨chain, rfl, hbare, hstart, hthreads, hfinish⟩ := path_of_bindingPath hoperation
  rw [endMapping?_eq hincluded] at hsource htarget
  obtain ⟨sourceEnd, hsourceEnd, hsourceEq⟩ := Option.map_eq_some_iff.1 hsource
  obtain ⟨targetEnd, htargetEnd, htargetEq⟩ := Option.map_eq_some_iff.1 htarget
  rw [← hsourceEq] at hancestor hunmapped hstart
  rw [← htargetEq] at hfinish
  rw [howner] at hancestor
  exact ⟨sourceEnd, targetEnd, chain, hsourceEnd, ⟨_, rfl, htargetEnd⟩, ⟨atEnd, hend, hancestor⟩,
    hunmapped, rfl, hbare, hstart, hthreads, hfinish⟩

theorem exists_of_mem_associationPropertyMappings {seen : List String}
    {sources : List Source.PropertyMapping} {mappings : List PropertyMapping}
    (h : (s.associationPropertyMappings own association id seen sources).result = .ok mappings) :
    ∀ m ∈ mappings, ∃ source ∈ sources,
      (s.associationPropertyMapping own association id source).result = .ok m := by
  induction sources generalizing seen mappings with
  | nil =>
    obtain rfl := Except.ok.inj h
    simp
  | cons first rest ih =>
    unfold associationPropertyMappings at h
    dsimp only at h
    split at h
    · exact absurd h (found_ne_ok _ _ _)
    · simp only [Recorded.result_bind_eq_ok_iff, Recorded.result_pure] at h
      obtain ⟨m, hm, others, hothers, h⟩ := h
      obtain rfl := Except.ok.inj h
      intro m' hm'
      rcases List.mem_cons.1 hm' with rfl | hm'
      · exact ⟨first, List.mem_cons_self, hm⟩
      · obtain ⟨source, hsource, hresolved⟩ := ih hothers m' hm'
        exact ⟨source, List.mem_cons_of_mem _ hsource, hresolved⟩

/-- An association mapping binds every property that it maps. -/
theorem binds_of_associationMapping {u : MappingUnit} (hincluded : s.included = u.flattened)
    {source : Source.AssociationMapping} {m : AssociationMapping}
    (h : (s.associationMapping u.classMappings source).result = .ok m) :
    ∃ association, s.model.association? m.association = some association ∧
      ∀ p ∈ m.propertyMappings, ∃ sourceEnd targetEnd chain,
        u.Binds s.model association p sourceEnd targetEnd chain := by
  unfold associationMapping at h
  split at h
  · exact absurd h (found_ne_ok _ _ _)
  · rename_i association hassociation
    obtain ⟨mappings, hmappings, hm⟩ := Recorded.result_bind_eq_ok_iff.1 h
    obtain rfl := Except.ok.inj hm
    refine ⟨association, hassociation, fun p hp => ?_⟩
    obtain ⟨_, -, hp⟩ := exists_of_mem_associationPropertyMappings hmappings p hp
    exact binds_of_associationPropertyMapping hincluded hp

end Scope

/-- Every property that an association mapping of a resolved unit maps is bound. -/
theorem bindings_join {e : Environment} {compiled : String → Option MappingUnit}
    {source : Source.Mapping} {unit : MappingUnit}
    (h : MappingUnit.resolve e compiled source = .ok unit) :
    ∀ m ∈ unit.associationMappings, ∃ association,
      e.model.association? m.association = some association ∧
      ∀ p ∈ m.propertyMappings, ∃ sourceEnd targetEnd chain,
        unit.Binds e.model association p sourceEnd targetEnd chain := by
  obtain ⟨s, hresolved⟩ := MappingUnit.resolvedFrom_of_resolve h
  intro m hm
  obtain ⟨written, -, hmapping⟩ := exists_of_mem_right hresolved.associationMappings hm
  have hmodel : s.model = e.model := by rw [hresolved.scope]
  have hincluded : s.included = unit.flattened := by rw [hresolved.scope]
  rw [← hmodel]
  exact Scope.binds_of_associationMapping hincluded hmapping

/-! ## Employment -/

/-- Persons are employed by firms, which have legal names. -/
def employmentModel : ObjectModel := .ofDefinition {
  classes := [
    { path := "Firm", properties := [{ name := "legalName", type := .primitive .string }] },
    { path := "Person" }]
  associations := [{
    path := "Employment"
    first := { name := "firm", type := .ofClass "Firm" }
    second := { name := "employee", type := .ofClass "Person" } }] }

/-- There are a table of firms and a table of persons, and a join connects them by the name of the
firm. -/
def employmentDatabase : Source.Database where
  name := ⟨"db", {}⟩
  schemas := [⟨⟨"default", {}⟩, [
    { name := ⟨"FIRM", {}⟩, columns := [{ name := ⟨"NAME", {}⟩, dataType := .varchar 80 }] },
    { name := ⟨"PERSON", {}⟩, columns := [{ name := ⟨"FIRM", {}⟩, dataType := .varchar 80 }] }], []⟩]
  joins := [{
    name := ⟨"Employment", {}⟩
    condition := .function ⟨"equal", {}⟩ [
      .column { table := ⟨"FIRM", {}⟩, column := ⟨"NAME", {}⟩ },
      .column { table := ⟨"PERSON", {}⟩, column := ⟨"FIRM", {}⟩ }] }]

/-- What employment is resolved against. -/
def employmentEnvironment : Environment where
  model := employmentModel
  store := match Store.build {} [employmentDatabase] with
    | .ok store => store
    | .error _ => {}
  settings := {}

/-- A class is mapped to a table, with mappings of its properties. -/
def mappingOnto (className table : String) (mappings : List Source.PropertyMapping) :
    Source.ClassMapping where
  className := ⟨className, {}⟩
  body := .relational {
    mainTable := some ⟨⟨"db", {}⟩, none, ⟨table, {}⟩⟩
    propertyMappings := mappings }

/-- Both classes are mapped to their tables, and the firm of a person to a path of joins. -/
def employmentSource (joins : List Source.JoinReference) : Source.Mapping where
  name := ⟨"employment", {}⟩
  classMappings := [mappingOnto "Firm" "FIRM" [], mappingOnto "Person" "PERSON" []]
  associationMappings := [{
    association := ⟨"Employment", {}⟩
    propertyMappings :=
      [⟨⟨"firm", {}⟩, none, none, none, .relational (.joinPath joins none) none, {}⟩] }]

/-- Along the join the firm of a person is bound. -/
theorem bindings_join_of_employment :
    ∃ unit, MappingUnit.resolve employmentEnvironment (fun _ => none)
        (employmentSource [{ name := ⟨"Employment", {}⟩ }]) = .ok unit ∧
      (unit.associationMappings.map fun m => m.propertyMappings.map (·.targetId)) = [[some "Firm"]] ∧
      ∀ m ∈ unit.associationMappings, ∃ association,
        employmentModel.association? m.association = some association ∧
        ∀ p ∈ m.propertyMappings, ∃ sourceEnd targetEnd chain,
          unit.Binds employmentModel association p sourceEnd targetEnd chain := by
  have hresolves : ∃ unit, MappingUnit.resolve employmentEnvironment (fun _ => none)
      (employmentSource [{ name := ⟨"Employment", {}⟩ }]) = .ok unit ∧
      (unit.associationMappings.map fun m => m.propertyMappings.map (·.targetId)) =
        [[some "Firm"]] := by
    with_unfolding_all exact ⟨_, rfl, rfl⟩
  obtain ⟨unit, hunit, htargets⟩ := hresolves
  exact ⟨unit, hunit, htargets, bindings_join hunit⟩

/-- Without a join the firm of a person is bound all the same, on the table of persons. So a property
that is bound need not lead to the main table of its target. -/
theorem not_all_bindings_join :
    ¬ ∀ (e : Environment) (compiled : String → Option MappingUnit) (source : Source.Mapping)
      (unit : MappingUnit), MappingUnit.resolve e compiled source = .ok unit →
      ∀ m ∈ unit.associationMappings, ∀ p ∈ m.propertyMappings, ∀ (chain : JoinChain) (id : String)
        (target : Effective SetImplementation), p.value = .relational chain.toOperation none →
          p.targetId = some id → unit.setImplementation? id = some target →
          chain.endTable = target.mainTable.table := by
  intro h
  have hend := h employmentEnvironment (fun _ => none) (employmentSource []) _
    (by with_unfolding_all rfl) _ List.mem_cons_self _ List.mem_cons_self
    ⟨⟨"PERSON", ⟨1⟩, ⟨0⟩⟩, [], none⟩ "Firm" _ (by with_unfolding_all rfl)
    (by with_unfolding_all rfl) (by with_unfolding_all rfl)
  revert hend
  with_unfolding_all decide

end ObjectRelational
