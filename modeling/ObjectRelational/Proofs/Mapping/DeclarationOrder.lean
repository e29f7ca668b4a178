import ObjectRelational.Proofs.Mapping.Roots
import ObjectRelational.Proofs.Mapping.Solution

/-!
# The order in which class mappings are declared

The class mappings of a unit may be declared in any order: what they resolve to is the same, and so are
the roots and all other mappings of the unit. Whether the unit resolves does not depend on the order
either, as long as no class mapping extends a part of another one. A mapping that does has to come behind
the other one, as extended mappings are put first only when they are extended under their own ids.

* `Roots.resolve_of_perm`, `Scope.ofClasses_of_perm`, `Include.checkIds_of_perm`: what is found before the
  class mappings are resolved.
* `Scope.classMappings_agree`: two orders in which they resolve give the same.
  `Scope.exists_classMappings_of_perm`: when they resolve in one order, they do in all others.
* `declaration_order_independent`: so it is for the unit.
* `not_all_orders_accepted`: a mapping that extends a part.
-/

namespace ObjectRelational

variable {sources sources' : List Source.ClassMapping}

/-! ## Roots -/

namespace Roots

theorem eq_singleton_iff_of_perm {α : Type} {l l' : List α} (h : l'.Perm l) (a : α) :
    l' = [a] ↔ l = [a] := by
  constructor
  · rintro rfl
    exact (List.singleton_perm.1 h).symm
  · rintro rfl
    exact List.perm_singleton.1 h

/-- The one that is elected is the only one, or the only marked one of several. -/
theorem elect?_eq_some_iff {l : List Candidate} {c : Candidate} : elect? l = some c ↔
    l = [c] ∨ (∀ only, l ≠ [only]) ∧ l.filter (·.marked) = [c] := by
  unfold elect?
  split
  · simp
  · rename_i hseveral
    split
    · rename_i marked hone
      simp only [hone, List.cons.injEq, and_true, Option.some.injEq]
      exact ⟨fun hc => .inr ⟨hseveral, hc⟩, fun hc => hc.elim (fun h => absurd h (hseveral c)) (·.2)⟩
    · rename_i hnone
      simpa using ⟨hseveral c, fun _ => hnone c⟩

/-- Who is elected does not depend on the order of the candidates. -/
theorem elect?_of_perm {l l' : List Candidate} (h : l'.Perm l) : elect? l' = elect? l := by
  ext c
  simp only [elect?_eq_some_iff, ne_eq, eq_singleton_iff_of_perm h,
    eq_singleton_iff_of_perm (h.filter (·.marked))]

theorem addRoot_of_perm {unitSpan : Span} {all all' : List Candidate} (h : all'.Perm all)
    {roots roots' : OrderedMap String String} {className : String}
    (hroots : addRoot unitSpan sources all roots className = .ok roots') :
    addRoot unitSpan sources' all' roots className = .ok roots' := by
  have hclass : (ofClass all' className).Perm (ofClass all className) := h.filter _
  unfold addRoot at hroots ⊢
  rw [elect?_of_perm hclass]
  split at hroots
  · exact hroots
  · exact absurd hroots (found_ne_ok _ _ _)

/-- The roots that are elected do not depend on the order of the mappings. -/
theorem resolve_of_perm {unitSpan : Span} {included : List IncludedUnit}
    (h : sources'.Perm sources) {roots : OrderedMap String String}
    (hroots : Roots.resolve unitSpan sources included = .ok roots) :
    Roots.resolve unitSpan sources' included = .ok roots := by
  have hcandidates : (candidates sources' included).Perm (candidates sources included) :=
    (h.map _).append_right _
  have hclasses : OrderedSet.ofList ((candidates sources' included).map (·.className)) =
      OrderedSet.ofList ((candidates sources included).map (·.className)) := by
    refine OrderedMap.ext_find? fun className => ?_
    unfold OrderedSet.ofList
    rw [OrderedSet.find?_foldl_insert, OrderedSet.find?_foldl_insert]
    simp only [(hcandidates.map (·.className)).mem_iff]
  unfold Roots.resolve at hroots ⊢
  simp only [hclasses] at hroots ⊢
  generalize (OrderedSet.ofList ((candidates sources included).map (·.className))).toList = classes
    at hroots
  generalize (OrderedMap.empty : OrderedMap String String) = start at hroots ⊢
  induction classes generalizing start with
  | nil => exact hroots
  | cons className rest ih =>
    rw [List.foldlM_cons] at hroots ⊢
    obtain ⟨next, hnext, hrest⟩ := bind_eq_ok_iff.1 hroots
    exact bind_eq_ok_iff.2 ⟨next, addRoot_of_perm hcandidates hnext, ih next hrest⟩

end Roots

/-! ## Ids and classes -/

/-- A unit with its class mappings declared in another way. -/
def Source.Mapping.withClassMappings (source : Source.Mapping)
    (classMappings : List Source.ClassMapping) : Source.Mapping :=
  { source with classMappings := classMappings }

theorem Include.checkIds_eq_ok_iff {source : Source.Mapping} {flattened : List IncludedUnit} :
    Include.checkIds source flattened = .ok () ↔
      ((Include.declaredIds source).map (·.id) ++ flattened.flatMap fun i => i.unit.ids).Nodup := by
  refine ⟨Include.nodup_of_checkIds, fun h => ?_⟩
  refine bind_eq_ok_iff.2 ⟨(), Include.checkDistinct_eq_ok_iff.2 ⟨?_, by simp⟩,
    Include.checkDistinct_eq_ok_iff.2 ⟨?_, by simp⟩⟩
  · exact (List.nodup_append.1 h).1
  · simpa [Function.comp_def] using h

theorem Include.checkIds_of_perm {source : Source.Mapping} {flattened : List IncludedUnit}
    (h : sources'.Perm source.classMappings) (hids : Include.checkIds source flattened = .ok ()) :
    Include.checkIds (source.withClassMappings sources') flattened = .ok () := by
  rw [Include.checkIds_eq_ok_iff] at hids ⊢
  refine (List.Perm.append_right _ (List.Perm.map _ ?_)).nodup_iff.2 hids
  exact ((h.flatMap_right _).append_right _).append_right _

namespace Scope

variable {s : Scope} {mappings mappings' : List ClassMapping}

theorem checkClasses_eq_ok_iff {model : ObjectModel} : checkClasses model sources = .ok () ↔
    ∀ m ∈ sources, (model.class? m.className.value).isSome := by
  induction sources with
  | nil => simp [checkClasses]
  | cons m rest ih =>
    unfold checkClasses
    split
    · rename_i hclass
      simp [ih, hclass]
    · rename_i hclass
      simp [hclass]

/-- The scope of a unit does not depend on the order of its class mappings, but for how it lists the
classes that ids map. -/
theorem ofClasses_of_perm {e : Environment} {source : Source.Mapping}
    {flattened : List IncludedUnit} {enumerationMappings : List EnumerationMapping}
    (h : sources'.Perm source.classMappings)
    (hs : Scope.ofClasses e source flattened enumerationMappings = .ok s) :
    Scope.ofClasses e (source.withClassMappings sources') flattened enumerationMappings =
      .ok (s.withClasses (classesById sources')) := by
  unfold ofClasses at hs ⊢
  simp only [bind_eq_ok_iff, pure_eq_ok_iff] at hs ⊢
  obtain ⟨_, hclasses, roots, hroots, rfl⟩ := hs
  refine ⟨(), checkClasses_eq_ok_iff.2 fun m hm => ?_, roots, Roots.resolve_of_perm h hroots, rfl⟩
  exact checkClasses_eq_ok_iff.1 hclasses m (h.subset hm)

/-- Where ids are unique, the class that an id maps does not depend on the order either. -/
theorem lookup_classesById_of_perm (h : sources'.Perm sources)
    (hids : (sources.flatMap fun m => m.generatedIds ++ [m.mappingId]).Nodup) (id : String) :
    (classesById sources').lookup id = (classesById sources).lookup id := by
  refine lookup_of_perm (h.flatMap_right _) ?_ id
  simpa [classesById, List.map_flatMap, Function.comp_def] using hids

/-! ## Class mappings -/

/-- When class mappings are resolved in two orders, each is resolved to the same in both. -/
theorem classMappings_agree (h : sources'.Perm sources)
    (hnodup : (sources.map (·.mappingId)).Nodup) (hids : s.UniqueIds mappings)
    (hmappings : (s.classMappings sources).result = .ok mappings)
    (hmappings' : (s.classMappings sources').result = .ok mappings') :
    ∃ resolve : Source.ClassMapping → Option ClassMapping,
      sources.map resolve = mappings.map some ∧ sources'.map resolve = mappings'.map some := by
  have hsolution := solution_of_classMappings hmappings hnodup hids
  have hnodup' : (sources'.map (·.mappingId)).Nodup := (h.map _).nodup_iff.2 hnodup
  have hsubset : mappings' ⊆ mappings := by
    have hparts := hmappings'
    unfold classMappings at hparts
    simp only [Recorded.result_bind_eq_ok_iff, Recorded.result_pure, Recorded.result_monadLift,
      Except.ok.injEq] at hparts
    obtain ⟨ordered, horder, resolved, hresolved, _, -, rfl⟩ := hparts
    have hordered : ordered ⊆ sources :=
      List.Subset.trans (Extension.order_complete horder).1 h.subset
    intro m hm
    exact hsolution.subset_of_resolveFrom hordered (List.nil_subset _) hresolved
      ((mem_asDeclared_iff horder hresolved).1 hm)
  exact ⟨_, hsolution.map_find? (List.Subset.refl _) (forall₂_classMappings hnodup hmappings),
    hsolution.map_find? hsubset (forall₂_classMappings hnodup' hmappings')⟩

/-- So the resolved mappings are listed in the order of the sources. -/
theorem perm_of_agree {resolve : Source.ClassMapping → Option ClassMapping}
    (h : sources'.Perm sources) (hmappings : sources.map resolve = mappings.map some)
    (hmappings' : sources'.map resolve = mappings'.map some) : mappings'.Perm mappings := by
  have hmap := h.map resolve
  rw [hmappings, hmappings'] at hmap
  exact (List.map_perm_map_iff fun _ _ => Option.some.inj).1 hmap

/-- When class mappings are resolved in one order, they are in every other, provided that none extends a
part of another one. -/
theorem exists_classMappings_of_perm (h : sources'.Perm sources) (hparts : ExtendsNoPart sources)
    (hnodup : (sources.map (·.mappingId)).Nodup) (hids : s.UniqueIds mappings)
    (hmappings : (s.classMappings sources).result = .ok mappings) :
    ∃ mappings', (s.classMappings sources').result = .ok mappings' := by
  have hsolution := solution_of_classMappings hmappings hnodup hids
  have hclasses := forall₂_classMappings hnodup hmappings
  have hnodup' : (sources'.map (·.mappingId)).Nodup := (h.map _).nodup_iff.2 hnodup
  have hchecked := checkImplementations_of_classMappings hmappings
  unfold classMappings at hmappings
  simp only [Recorded.result_bind_eq_ok_iff, Recorded.result_pure, Recorded.result_monadLift,
    Except.ok.injEq] at hmappings
  obtain ⟨ordered, horder, -⟩ := hmappings
  obtain ⟨ordered', horder'⟩ := Extension.exists_order_of_perm h hnodup horder
  have hfirst := (Extension.superFirst_of_order horder').of_perm h hnodup
  obtain ⟨resolved, hsubset, hresolved, -⟩ := hsolution.exists_resolveFrom hclasses hparts hnodup
    hfirst (List.Subset.trans (Extension.order_complete horder').1 h.subset)
  have hmapped := hsolution.map_find? (fun m hm => hsubset ((mem_asDeclared_iff horder' hresolved).1 hm))
    (forall₂_asDeclared hnodup' horder' hresolved)
  have hperm := perm_of_agree h (hsolution.map_find? (List.Subset.refl _) hclasses) hmapped
  -- the joins end where they did, as ids denote what they did
  have hchecked' : s.checkImplementations (asDeclared sources' resolved)
      ((asDeclared sources' resolved).flatMap ClassMapping.implementations) = .ok () := by
    rw [← withClasses_classes s, checkImplementations_congr
      (findImplementation?_of_perm hids.nodup hperm), checkImplementations_eq_ok_iff]
    intro i hi
    exact checkImplementations_eq_ok_iff.1 hchecked i ((hperm.flatMap_right _).subset hi)
  refine ⟨asDeclared sources' resolved, ?_⟩
  unfold classMappings
  simp only [Recorded.result_bind_eq_ok_iff, Recorded.result_pure, Recorded.result_monadLift,
    Except.ok.injEq]
  exact ⟨ordered', horder', resolved, hresolved, (), hchecked', rfl⟩

end Scope

/-! ## Units -/

namespace MappingUnit

variable {e : Environment} {compiled : String → Option MappingUnit} {source : Source.Mapping}
  {unit unit' : MappingUnit} {s s' : Scope}

theorem sourceIds_nodup {flattened : List IncludedUnit}
    (h : Include.checkIds source flattened = .ok ()) :
    (source.classMappings.flatMap fun m => m.generatedIds ++ [m.mappingId]).Nodup := by
  have hdeclared := (List.nodup_append.1 (Include.nodup_of_checkIds h)).1
  simp only [Include.declaredIds, List.map_append, List.map_flatMap, List.map_map, Function.comp_def,
    List.map_id_fun', id_eq] at hdeclared
  simpa using (List.nodup_append.1 (List.nodup_append.1 hdeclared).1).1

namespace ResolvedFrom

theorem uniqueIds (h : ResolvedFrom e compiled source unit s) : s.UniqueIds unit.classMappings := by
  have hdistinct : unit.DistinctIds := h.ids_nodup
  have hids := hdistinct.classIds_nodup
  have hincluded : s.includedMappings = includedClassMappings unit.flattened := by
    rw [h.scope]
    rfl
  rw [effectiveClassMappings, List.flatMap_append, List.flatMap_map] at hids
  rw [Scope.UniqueIds, hincluded]
  exact hids.sublist ((List.Sublist.refl _).append
    (map_sublist_flatMap fun e _ => by simp [ClassMapping.ids]))

/-- What is found before the class mappings are resolved does not depend on their order. -/
theorem agree (h : ResolvedFrom e compiled source unit s)
    (h' : ResolvedFrom e compiled (source.withClassMappings sources') unit' s')
    (hperm : sources'.Perm source.classMappings) :
    unit'.enumerationMappings = unit.enumerationMappings ∧ unit'.roots = unit.roots ∧
      s' = s.withClasses (Scope.classesById sources') := by
  have hincludes : unit'.includes = unit.includes :=
    Except.ok.inj ((mapM_eq_ok_iff.2 h'.includes).symm.trans (mapM_eq_ok_iff.2 h.includes))
  have hflattened : unit'.flattened = unit.flattened := by
    have hsame := h'.flattened
    rw [hincludes] at hsame
    exact Except.ok.inj (hsame.symm.trans h.flattened)
  have henumerations : unit'.enumerationMappings = unit.enumerationMappings :=
    Except.ok.inj ((mapM_eq_ok_iff.2 h'.enumerationMappings).symm.trans
      (mapM_eq_ok_iff.2 h.enumerationMappings))
  have hroots : unit'.roots = unit.roots := by
    have hsame := h'.roots
    rw [hflattened] at hsame
    exact Except.ok.inj (hsame.symm.trans (Roots.resolve_of_perm hperm h.roots))
  refine ⟨henumerations, hroots, ?_⟩
  rw [h'.scope, h.scope, hflattened, henumerations, hroots]
  rfl

end ResolvedFrom

/-- In the scope of a unit its class mappings are resolved in another order to the same mappings, and so
are its association mappings. -/
theorem ResolvedFrom.exists_mappings_of_perm (h : ResolvedFrom e compiled source unit s)
    (hperm : sources'.Perm source.classMappings) (hparts : Scope.ExtendsNoPart source.classMappings) :
    ∃ mappings, (resolveMappings (s.withClasses (Scope.classesById sources'))
      (source.withClassMappings sources')).result = .ok mappings := by
  have hnodup := mappingIds_nodup h.ids
  have hclasses : ∀ id, (Scope.classesById sources').lookup id = s.classes.lookup id := by
    rw [h.scope]
    exact Scope.lookup_classesById_of_perm hperm (sourceIds_nodup h.ids)
  obtain ⟨mappings', hmappings'⟩ :=
    Scope.exists_classMappings_of_perm hperm hparts hnodup h.uniqueIds h.resolved
  obtain ⟨resolve, hmapped, hmapped'⟩ :=
    Scope.classMappings_agree hperm hnodup h.uniqueIds h.resolved hmappings'
  have hown := findImplementation?_of_perm h.uniqueIds.nodup
    (Scope.perm_of_agree hperm hmapped hmapped')
  have hassociations := Recorded.result_forAll_eq_ok_iff.2 h.associationMappings
  refine ⟨(mappings', unit.associationMappings), Recorded.result_bind_eq_ok_iff.2
    ⟨mappings', ?_, Recorded.result_bind_eq_ok_iff.2 ⟨unit.associationMappings, ?_, rfl⟩⟩⟩
  · rw [Scope.classMappings_withClasses hclasses]
    exact hmappings'
  · rw [funext (Scope.associationMapping_congr hown)]
    exact hassociations

/-- A unit whose class mappings extend no parts of each other is resolved with its class mappings in
another order too. -/
theorem exists_resolve_of_perm (hperm : sources'.Perm source.classMappings)
    (hparts : Scope.ExtendsNoPart source.classMappings)
    (h : resolve e compiled source = .ok unit) :
    ∃ unit', resolve e compiled (source.withClassMappings sources') = .ok unit' := by
  obtain ⟨s, hresolved⟩ := resolvedFrom_of_resolve h
  obtain ⟨mappings, hmappings⟩ := hresolved.exists_mappings_of_perm hperm hparts
  unfold resolve at h ⊢
  simp only [bind_eq_ok_iff, pure_eq_ok_iff] at h ⊢
  obtain ⟨includes, hincludes, flattened, hflattened, _, hids, enumerationMappings, henumerations,
    s₀, hs, _, -, rfl⟩ := h
  have hscope : s₀ = s := by
    rw [hresolved.scope]
    unfold Scope.ofClasses at hs
    simp only [bind_eq_ok_iff, pure_eq_ok_iff] at hs
    obtain ⟨_, -, roots, -, rfl⟩ := hs
    rfl
  rw [hscope] at hs
  exact ⟨_, includes, hincludes, flattened, hflattened, (), Include.checkIds_of_perm hperm hids,
    enumerationMappings, henumerations, _, Scope.ofClasses_of_perm hperm hs, mappings, hmappings, rfl⟩

end MappingUnit

/-- A unit and the same unit with its class mappings declared in another order: when both resolve, each
class mapping is resolved to the same in both, and the roots, the association mappings and the
enumeration mappings are equal; and when no class mapping extends a part of another one, both resolve or
neither does. -/
theorem declaration_order_independent (e : Environment) (compiled : String → Option MappingUnit)
    (source : Source.Mapping) (sources' : List Source.ClassMapping)
    (hperm : sources'.Perm source.classMappings) :
    (∀ unit unit', MappingUnit.resolve e compiled source = .ok unit →
      MappingUnit.resolve e compiled (source.withClassMappings sources') = .ok unit' →
      (∃ resolve : Source.ClassMapping → Option ClassMapping,
        source.classMappings.map resolve = unit.classMappings.map some ∧
          sources'.map resolve = unit'.classMappings.map some) ∧
      unit'.roots = unit.roots ∧ unit'.associationMappings = unit.associationMappings ∧
      unit'.enumerationMappings = unit.enumerationMappings) ∧
    (Scope.ExtendsNoPart source.classMappings →
      ((∃ unit, MappingUnit.resolve e compiled source = .ok unit) ↔
        ∃ unit', MappingUnit.resolve e compiled (source.withClassMappings sources') = .ok unit')) := by
  refine ⟨fun unit unit' h h' => ?_, fun hparts => ⟨?_, ?_⟩⟩
  · obtain ⟨s, hresolved⟩ := MappingUnit.resolvedFrom_of_resolve h
    obtain ⟨s', hresolved'⟩ := MappingUnit.resolvedFrom_of_resolve h'
    obtain ⟨henumerations, hroots, rfl⟩ := hresolved.agree hresolved' hperm
    have hclasses := Scope.lookup_classesById_of_perm hperm (MappingUnit.sourceIds_nodup hresolved.ids)
    have hmappings' := hresolved'.resolved
    rw [Scope.classMappings_withClasses (by rw [hresolved.scope]; exact hclasses)] at hmappings'
    obtain ⟨resolve, hmapped, hmapped'⟩ := Scope.classMappings_agree hperm
      (MappingUnit.mappingIds_nodup hresolved.ids) hresolved.uniqueIds hresolved.resolved hmappings'
    have hown := findImplementation?_of_perm hresolved.uniqueIds.nodup
      (Scope.perm_of_agree hperm hmapped hmapped')
    refine ⟨⟨resolve, hmapped, hmapped'⟩, hroots, ?_, henumerations⟩
    have hassociations := Recorded.result_forAll_eq_ok_iff.2 hresolved.associationMappings
    have hassociations' := Recorded.result_forAll_eq_ok_iff.2 hresolved'.associationMappings
    rw [funext (Scope.associationMapping_congr hown)] at hassociations'
    exact Except.ok.inj (hassociations'.symm.trans hassociations)
  · rintro ⟨unit, h⟩
    exact MappingUnit.exists_resolve_of_perm hperm hparts h
  · rintro ⟨unit', h'⟩
    have hback : source.classMappings.Perm (source.withClassMappings sources').classMappings :=
      hperm.symm
    have hresolves := MappingUnit.exists_resolve_of_perm hback (hparts.of_perm hback) h'
    exact hresolves

/-! ## Two mappings of persons -/

/-- Persons are mapped by a root, and by a mapping that extends another one. -/
def extendingSource (root : Source.ClassBody) (superId : String) : Source.Mapping where
  name := ⟨"persons", {}⟩
  classMappings := [
    { className := ⟨"Person", {}⟩, id := some ⟨"all", {}⟩, root := true, body := root },
    { className := ⟨"Person", {}⟩, id := some ⟨"some", {}⟩, superId := some ⟨superId, {}⟩,
      body := .relational {} }]

/-- The table of persons. -/
def personTable : Source.RelationalMapping where
  mainTable := some ⟨⟨"db", {}⟩, none, ⟨"PERSON", {}⟩⟩

/-- A mapping that extends the root may be declared in front of it. -/
theorem declaration_order_independent_of_extending :
    let source := extendingSource (.relational personTable) "all"
    ∃ unit unit', MappingUnit.resolve employmentEnvironment (fun _ => none) source = .ok unit ∧
      MappingUnit.resolve employmentEnvironment (fun _ => none)
        (source.withClassMappings source.classMappings.reverse) = .ok unit' ∧
      (∃ resolve : Source.ClassMapping → Option ClassMapping,
        source.classMappings.map resolve = unit.classMappings.map some ∧
          source.classMappings.reverse.map resolve = unit'.classMappings.map some) ∧
      unit'.roots = unit.roots := by
  intro source
  have hresolves : ∃ unit, MappingUnit.resolve employmentEnvironment (fun _ => none) source =
      .ok unit := by
    with_unfolding_all exact ⟨_, rfl⟩
  have hparts : Scope.ExtendsNoPart source.classMappings := by
    simp [Scope.ExtendsNoPart, source, extendingSource, Source.ClassMapping.generatedIds]
  obtain ⟨hagree, haccept⟩ := declaration_order_independent employmentEnvironment (fun _ => none)
    source source.classMappings.reverse (List.reverse_perm _)
  obtain ⟨unit, h⟩ := hresolves
  obtain ⟨unit', h'⟩ := (haccept hparts).1 ⟨unit, h⟩
  obtain ⟨hclasses, hroots, -, -⟩ := hagree unit unit' h h'
  exact ⟨unit, unit', h, h', hclasses, hroots⟩

/-- A mapping that extends the main part of an aggregation-aware root may not. -/
theorem not_all_orders_accepted :
    ¬ ∀ (e : Environment) (compiled : String → Option MappingUnit) (source : Source.Mapping)
      (sources' : List Source.ClassMapping), sources'.Perm source.classMappings →
      ((∃ unit, MappingUnit.resolve e compiled source = .ok unit) ↔
        ∃ unit', MappingUnit.resolve e compiled (source.withClassMappings sources') = .ok unit') := by
  intro h
  let source := extendingSource (.aggregationAware personTable []) "all_Main"
  have hresolves : ∃ unit, MappingUnit.resolve employmentEnvironment (fun _ => none) source =
      .ok unit := by
    with_unfolding_all exact ⟨_, rfl⟩
  have hfails : MappingUnit.resolve employmentEnvironment (fun _ => none)
      (source.withClassMappings source.classMappings.reverse) =
        .error ⟨.unknownSuperMapping "all_Main" "persons", {}⟩ := by
    with_unfolding_all rfl
  obtain ⟨unit', h'⟩ := (h employmentEnvironment (fun _ => none) source
    source.classMappings.reverse (List.reverse_perm _)).1 hresolves
  rw [hfails] at h'
  cases h'

end ObjectRelational
