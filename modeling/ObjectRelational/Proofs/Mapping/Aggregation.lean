import ObjectRelational.Proofs.Mapping.DeclarationOrder
import ObjectRelational.Proofs.Mapping.Ids

/-!
# Aggregation-aware mappings

An aggregation-aware mapping of an accepted unit is split into a main part and one part for each view. All
parts are found under ids made from that of the mapping, by the unit itself and by every unit that includes
it. What a view can answer is told by paths that lead from the class through properties that are there, and
by functions that are there for what the paths lead to.

* `PropertyPath.Leads`: a path leads through properties. `PropertyPath.walk_eq_ok_iff`: so it does exactly
  when it resolves.
* `AggregateSpecification.ResolvedAs`: what a view can answer, as it is written. `resolve_eq_ok_iff`: it
  resolves to exactly that.
* `Scope.specifications_of_classMapping`: the views of a mapping have resolved specifications, in order.
* `aggregation_split`: how a mapping is split.
-/

namespace ObjectRelational

variable {model : ObjectModel} {className : String}

/-! ## Paths of properties -/

namespace PropertyPath

/-- From a type, names lead through the properties that are found for them. Only a class has properties to
go on with, so that all properties of a path but the last one are of classes. -/
inductive Leads (model : ObjectModel) : PropertyType → List String → List Model.Property → Prop
  | nil (start : PropertyType) : Leads model start [] []
  | cons {path name : String} {property : Model.Property} {names : List String}
      {properties : List Model.Property} (hfound : model.findProperty? path name = some property)
      (hrest : Leads model property.type names properties) :
      Leads model (.ofClass path) (name :: names) (property :: properties)

/-- A path can be walked exactly when it leads through properties. It comes to the type of the last one, or
to where it starts from if there is none. -/
theorem walk_eq_ok_iff {start type : PropertyType} {steps : List Name} :
    walk model start steps = .ok type ↔ ∃ properties,
      Leads model start (steps.map (·.value)) properties ∧
        type = (properties.map (·.type)).getLastD start := by
  induction steps generalizing start with
  | nil =>
    constructor
    · intro h
      exact ⟨[], .nil start, (Except.ok.inj h).symm⟩
    · rintro ⟨_, ⟨⟩, rfl⟩
      rfl
  | cons step rest ih =>
    unfold walk
    constructor
    · intro h
      split at h
      · exact absurd h (found_ne_ok _ _ _)
      · rename_i property hfound
        obtain ⟨path, hpath, hfound⟩ := Option.bind_eq_some_iff.1 hfound
        obtain ⟨properties, hleads, rfl⟩ := ih.1 h
        -- only a class has led to the property
        cases start with
        | ofClass path' =>
          obtain rfl := Option.some.inj hpath
          exact ⟨property :: properties, .cons hfound hleads, by rw [List.map_cons, List.getLastD_cons]⟩
        | primitive _ => cases hpath
        | enumeration _ => cases hpath
    · rintro ⟨_, hleads, rfl⟩
      cases hleads with
      | cons hfound hrest =>
        simp only [PropertyType.classPath?, Option.bind_some, hfound]
        exact ih.2 ⟨_, hrest, by rw [List.map_cons, List.getLastD_cons]⟩

/-- A path has the names that are written, and the type that they lead to from the class. -/
structure ResolvedAs (model : ObjectModel) (className : String) (source : Source.PropertyPath)
    (path : PropertyPath) : Prop where
  names : path.properties = source.properties.map (·.value)
  leads : ∃ properties, Leads model (.ofClass className) path.properties properties ∧
    path.returnType = (properties.map (·.type)).getLastD (.ofClass className)

theorem resolve_eq_ok_iff {source : Source.PropertyPath} {path : PropertyPath} :
    resolve model className source = .ok path ↔ path.ResolvedAs model className source := by
  simp only [resolve, bind_eq_ok_iff, pure_eq_ok_iff, walk_eq_ok_iff]
  constructor
  · rintro ⟨_, ⟨properties, hleads, rfl⟩, rfl⟩
    exact ⟨rfl, properties, hleads, rfl⟩
  · rintro ⟨hnames, properties, hleads, htype⟩
    exact ⟨_, ⟨properties, hnames ▸ hleads, rfl⟩, by rw [← hnames, ← htype]⟩

end PropertyPath

/-! ## What a view can answer -/

/-- A value has the path that is written, and the name of a function that is there for what the path leads
to. -/
structure AggregateValue.ResolvedAs (model : ObjectModel) (className : String)
    (source : Source.AggregateValue) (value : AggregateValue) : Prop where
  path : value.mapFunction.ResolvedAs model className source.mapFunction
  name : value.aggregateFunction = source.aggregateFunction.value
  function : ∃ f, model.findFunction? value.aggregateFunction value.mapFunction.returnType = some f ∧
    f.name = value.aggregateFunction

namespace AggregateSpecification

theorem name_of_findFunction? {name : String} {type : PropertyType} {f : Model.FunctionSignature}
    (h : model.findFunction? name type = some f) : f.name = name := by
  have hfound := List.find?_some h
  simp only [Bool.and_eq_true, decide_eq_true_eq] at hfound
  exact hfound.1

theorem resolveValue_eq_ok_iff {source : Source.AggregateValue} {value : AggregateValue} :
    resolveValue model className source = .ok value ↔ value.ResolvedAs model className source := by
  simp only [resolveValue, bind_eq_ok_iff, PropertyPath.resolve_eq_ok_iff]
  constructor
  · rintro ⟨path, hpath, h⟩
    split at h
    · exact absurd h (found_ne_ok _ _ _)
    · rename_i hfunction
      obtain rfl := Except.ok.inj h
      obtain ⟨f, hf⟩ := Option.isSome_iff_exists.1 (Option.isSome_iff_ne_none.2 (by simpa using hfunction))
      exact ⟨hpath, rfl, f, hf, name_of_findFunction? hf⟩
  · rintro ⟨hpath, hname, f, hf, -⟩
    refine ⟨value.mapFunction, hpath, ?_⟩
    rw [← hname, hf]
    rfl

/-- A specification has a path for every one that is written and a value for every one, in order. -/
structure ResolvedAs (model : ObjectModel) (className : String) (source : Source.AggregateSpecification)
    (specification : AggregateSpecification) : Prop where
  canAggregate : specification.canAggregate = source.canAggregate
  paths : List.Forall₂ (PropertyPath.ResolvedAs model className) source.groupByFunctions
    specification.groupByFunctions
  values : List.Forall₂ (AggregateValue.ResolvedAs model className) source.aggregateValues
    specification.aggregateValues

theorem resolve_eq_ok_iff {source : Source.AggregateSpecification}
    {specification : AggregateSpecification} : resolve model className source = .ok specification ↔
      specification.ResolvedAs model className source := by
  simp only [resolve, bind_eq_ok_iff, pure_eq_ok_iff, mapM_eq_ok_iff, PropertyPath.resolve_eq_ok_iff,
    resolveValue_eq_ok_iff]
  constructor
  · rintro ⟨paths, hpaths, values, hvalues, rfl⟩
    exact ⟨rfl, hpaths, hvalues⟩
  · rintro ⟨hcan, hpaths, hvalues⟩
    exact ⟨_, hpaths, _, hvalues, by rw [← hcan]⟩

end AggregateSpecification

/-! ## How a mapping is split -/

/-- The views of an aggregation-aware mapping have the specifications that theirs resolve to, in order. -/
theorem Scope.specifications_of_classMapping {s : Scope} {own : List ClassMapping}
    {source : Source.ClassMapping} {m : ClassMapping} (h : (s.classMapping own source).result = .ok m)
    {main : Source.RelationalMapping} {views : List Source.AggregateView}
    (hbody : source.body = .aggregationAware main views) :
    ∃ a : AggregationAware, m = .aggregationAware a ∧ List.Forall₂ (fun view aggregate =>
        aggregate.specification.ResolvedAs s.model source.className.value view.modelOperation)
      views a.aggregates := by
  unfold classMapping at h
  simp only [hbody, aggregationAware, Recorded.result_bind_eq_ok_iff, Recorded.result_pure,
    Except.ok.injEq] at h
  obtain ⟨_, ⟨i, -, aggregates, haggregates, rfl⟩, rfl⟩ := h
  refine ⟨_, rfl, ?_⟩
  rw [← List.zipIdx_map_fst 0 views, List.forall₂_map_left_iff]
  refine (Recorded.result_forAll_eq_ok_iff.1 haggregates).imp fun view aggregate hview => ?_
  simp only [Scope.aggregate, Recorded.result_bind_eq_ok_iff, Recorded.result_pure,
    Recorded.result_monadLift, Except.ok.injEq] at hview
  obtain ⟨specification, hspecification, implementation, -, rfl⟩ := hview
  exact AggregateSpecification.resolve_eq_ok_iff.1 hspecification

/-- An aggregation-aware mapping of a unit that resolves is one of the mappings of the unit. Its views have
the specifications that are written, in order. An accepted unit that shows the mapping, as its own or through
what it includes, finds it under its id; and its parts are a main one and one for each view, in order and of
the class that is mapped, each of which is found under its own id with the same substitution. -/
theorem aggregation_split {e : Environment} {compiled : String → Option MappingUnit}
    {source : Source.Mapping} {declaring : MappingUnit}
    (h : MappingUnit.resolve e compiled source = .ok declaring) {written : Source.ClassMapping}
    (hwritten : written ∈ source.classMappings) {main : Source.RelationalMapping}
    {views : List Source.AggregateView} (hbody : written.body = .aggregationAware main views) :
    ∃ a : AggregationAware, ClassMapping.aggregationAware a ∈ declaring.classMappings ∧
      a.id = written.mappingId ∧ a.className = written.className.value ∧
      List.Forall₂ (fun view aggregate => aggregate.specification.ResolvedAs e.model
        written.className.value view.modelOperation) views a.aggregates ∧
      ∀ u : MappingUnit, u.Accepted → ∀ x : Effective ClassMapping,
        (declaring = u ∧ x = declaring.seenLocally (.aggregationAware a) ∨
          ∃ i ∈ u.flattened, i.unit = declaring ∧ x = i.seen (.aggregationAware a)) →
        u.classMapping? written.mappingId = some x ∧
        (x.subImplementations.map (·.declared.id)) = Source.mainId written.mappingId ::
          (List.range views.length).map (Source.aggregateId written.mappingId) ∧
        ∀ part ∈ x.subImplementations, part.declared.className = written.className.value ∧
          part.substitution = x.substitution ∧ part.unit = declaring.name ∧
          u.setImplementation? part.declared.id = some part := by
  obtain ⟨s, hresolved⟩ := MappingUnit.resolvedFrom_of_resolve h
  have hsolution := Scope.solution_of_classMappings hresolved.resolved
    (MappingUnit.mappingIds_nodup hresolved.ids) hresolved.uniqueIds
  obtain ⟨m, hm, hmapping⟩ := exists_of_mem_left hsolution.resolved hwritten
  have hclass := Scope.resolvedClass_of_classMapping hmapping
  obtain ⟨a, rfl, hspecifications⟩ := Scope.specifications_of_classMapping hmapping hbody
  have hmodel : s.model = e.model := by rw [hresolved.scope]
  refine ⟨a, hm, hclass.id, hclass.className, hmodel ▸ hspecifications, fun u hu x hx => ?_⟩
  -- in either way the unit shows the mapping, with its parts as they are declared
  have hseen : x ∈ u.effectiveClassMappings ∧ x.declared = .aggregationAware a ∧
      x.unit = declaring.name := by
    rw [MappingUnit.mem_effectiveClassMappings_iff]
    rcases hx with ⟨rfl, rfl⟩ | ⟨i, hi, rfl, rfl⟩
    · exact ⟨.inl ⟨_, hm, rfl⟩, rfl, rfl⟩
    · exact ⟨.inr ⟨i, hi, _, hm, rfl⟩, rfl, rfl⟩
  obtain ⟨hmem, hdeclared, hunit⟩ := hseen
  have hfound := hu.unambiguous.classMapping x hmem
  rw [hdeclared, hclass.id] at hfound
  refine ⟨hfound, ?_, fun part hpart => ?_⟩
  · have hids := (List.cons.inj hclass.ids).2
    simp only [Source.ClassMapping.generatedIds, hbody] at hids
    rw [← hids, Effective.subImplementations, List.map_map, hdeclared]
    rfl
  · obtain ⟨i, hi, rfl⟩ := List.mem_map.1 hpart
    have himplementation := x.declared.subImplementations_subset hi
    refine ⟨?_, rfl, hunit, hu.unambiguous.setImplementation x hmem i himplementation⟩
    rw [hdeclared] at himplementation
    exact hclass.className_of_mem i himplementation

/-! ## Persons, by their firms and all at once -/

/-- A path of properties that are given by their names. -/
def pathOf (names : List String) : Source.PropertyPath := ⟨names.map fun name => ⟨name, {}⟩, {}⟩

/-- Persons are counted by the names of their firms, of which the first one is known, and all at once. -/
def countingViews : List Source.AggregateView :=
  [⟨⟨true, [pathOf ["firm", "legalName"]],
      [⟨pathOf [], ⟨"count", {}⟩⟩, ⟨pathOf ["firm", "legalName"], ⟨"min", {}⟩⟩]⟩, personTable, {}⟩,
    ⟨⟨true, [], [⟨pathOf [], ⟨"count", {}⟩⟩]⟩, personTable, {}⟩]

/-- A mapping of persons with these views. -/
def countedPersons : Source.ClassMapping where
  className := ⟨"Person", {}⟩
  id := some ⟨"people", {}⟩
  body := .aggregationAware personTable countingViews

/-- A unit that maps persons. -/
def countingSource : Source.Mapping where
  name := ⟨"persons", {}⟩
  classMappings := [countedPersons]

/-- A unit that includes it. -/
def countingIncluded : Source.Mapping where
  name := ⟨"outer", {}⟩
  includes := [{ mapping := ⟨"persons", {}⟩ }]

/-- The unit that includes persons finds the main part and both views. What a view can answer leads through
the firm of a person, which an association contributes. -/
theorem aggregation_split_of_persons :
    ∃ outer, MappingUnit.resolve employmentEnvironment (compiledOnly countingSource) countingIncluded =
        .ok outer ∧
      ∃ a x, outer.classMapping? "people" = some x ∧ x.declared = .aggregationAware a ∧
        x.isLocal = false ∧
        List.Forall₂ (fun view aggregate => aggregate.specification.ResolvedAs employmentModel "Person"
          view.modelOperation) countingViews a.aggregates ∧
        (x.subImplementations.map (·.declared.id)) =
          ["people_Main", "people_Aggregate_0", "people_Aggregate_1"] ∧
        ∀ part ∈ x.subImplementations, part.declared.className = "Person" ∧
          outer.setImplementation? part.declared.id = some part := by
  have hdeclaring : ∃ declaring, MappingUnit.resolve employmentEnvironment (fun _ => none)
      countingSource = .ok declaring := by
    with_unfolding_all exact ⟨_, rfl⟩
  have houter : ∃ outer, MappingUnit.resolve employmentEnvironment (compiledOnly countingSource)
      countingIncluded = .ok outer ∧
      outer.flattened.map (fun i => some i.unit) = [compiledOnly countingSource "persons"] := by
    with_unfolding_all exact ⟨_, rfl, rfl⟩
  obtain ⟨declaring, hdeclaring⟩ := hdeclaring
  obtain ⟨outer, houter, hflattened⟩ := houter
  have hcompiled : compiledOnly countingSource "persons" = some declaring := by
    rw [compiledOnly, hdeclaring]
    exact if_pos rfl
  obtain ⟨i, hi, hunit⟩ : ∃ i ∈ outer.flattened, some i.unit = some declaring := by
    rw [← hcompiled, ← List.mem_map, hflattened]
    exact List.mem_singleton_self _
  obtain ⟨a, -, -, -, hspecifications, hshown⟩ :=
    aggregation_split hdeclaring (List.mem_singleton_self countedPersons) rfl
  obtain ⟨hfound, hids, hparts⟩ := hshown outer (accepted_of_compiledOnly houter).1 _
    (.inr ⟨i, hi, Option.some.inj hunit, rfl⟩)
  refine ⟨outer, houter, a, _, hfound, rfl, rfl, hspecifications, hids, fun part hpart => ?_⟩
  obtain ⟨hclass, -, -, himplementation⟩ := hparts part hpart
  exact ⟨hclass, himplementation⟩

end ObjectRelational
