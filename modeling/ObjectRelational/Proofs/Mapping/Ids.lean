import ObjectRelational.Proofs.Mapping.View

/-!
# Ids of a unit

Ids come from names, from the paths of classes and from suffixes of generated parts, over three kinds of
mappings and all units that are included. An accepted unit takes none of them twice, so an id is all that
is needed to find what has it, and the two ways of looking up a class mapping agree.

* `MappingUnit.Unambiguous`: what ids are good for in a unit.
* `MappingUnit.Accepted.unambiguous`: in an accepted unit they are.
-/

namespace ObjectRelational

/-! ## Parts of a class mapping -/

namespace ClassMapping

variable {m : ClassMapping} {i : SetImplementation}

/-- When the ids of a mapping are distinct, each relational mapping that it is made of is found under
its own id. -/
theorem findImplementation?_of_mem (hm : m.ids.Nodup) (hi : i ∈ m.implementations) :
    m.findImplementation? i.id = some i := by
  obtain ⟨hown, hparts⟩ := List.nodup_cons.1 hm
  cases m with
  | relational s =>
    obtain rfl := List.mem_singleton.1 hi
    exact if_pos rfl
  | aggregationAware a =>
    have hmem : i.id ∈ (a.main :: a.aggregates.map (·.implementation)).map (·.id) :=
      List.mem_map_of_mem hi
    have hne : (aggregationAware a).id ≠ i.id := fun heq => hown (heq ▸ hmem)
    rw [findImplementation?, if_neg hne]
    refine find?_eq_some_of_unique hi (by simp) fun j hj hid => ?_
    exact List.inj_on_of_nodup_map hparts hj hi (by simpa using hid)

/-- The parts of a mapping have the ids that are generated from its own. -/
def HasGeneratedIds : ClassMapping → Prop
  | relational _ => True
  | aggregationAware a => a.main.id = Source.mainId a.id ∧
      a.aggregates.map (·.implementation.id) =
        (List.range a.aggregates.length).map (Source.aggregateId a.id)

/-- A resolved class mapping has parts of the ids that its source announces. -/
theorem hasGeneratedIds_of_resolvedClass {s : Scope} {source : Source.ClassMapping}
    (h : s.ResolvedClass source m) : m.HasGeneratedIds := by
  cases m with
  | relational s => trivial
  | aggregationAware a =>
    have hid : a.id = source.mappingId := h.id
    have hids := (List.cons.inj h.ids).2
    cases hbody : source.body with
    | relational body => simp [subImplementations, Source.ClassMapping.generatedIds, hbody] at hids
    | aggregationAware main views =>
      simp only [subImplementations, Source.ClassMapping.generatedIds, hbody, List.map_cons,
        List.map_map, List.cons.injEq, ← hid] at hids
      have hlength : a.aggregates.length = views.length := by
        simpa using congrArg List.length hids.2
      exact ⟨hids.1, hlength ▸ hids.2⟩

end ClassMapping

namespace MappingUnit

variable {u : MappingUnit} {id : String}

/-! ## Lookups -/

/-- The ids of enumeration mappings are distinct, over all that a unit sees. -/
theorem DistinctIds.enumerationIds_nodup (hu : u.DistinctIds) :
    (u.effectiveEnumerationMappings.map (·.id)).Nodup := by
  refine List.Nodup.sublist ?_ hu
  simp only [effectiveEnumerationMappings, includedEnumerationMappings, List.map_append,
    List.map_flatMap]
  refine List.Sublist.append (List.sublist_append_right _ _) ?_
  exact List.Sublist.flatMap_right _ fun i _ => List.sublist_append_right _ _

/-- Under an id a unit shows the enumeration mapping that has it. -/
theorem enumerationMapping?_eq_some_iff (hu : u.DistinctIds) {m : EnumerationMapping} :
    u.enumerationMapping? id = some m ↔ m ∈ u.effectiveEnumerationMappings ∧ m.id = id := by
  constructor
  · intro h
    exact ⟨List.mem_of_find?_eq_some h, by simpa using List.find?_some h⟩
  · rintro ⟨hm, rfl⟩
    refine find?_eq_some_of_unique hm (by simp) fun m' hm' hid => ?_
    exact List.inj_on_of_nodup_map hu.enumerationIds_nodup hm' hm (by simpa using hid)

/-- The ids of one class mapping that a unit sees are distinct. -/
theorem DistinctIds.ids_nodup_of_mem (hu : u.DistinctIds) {e : Effective ClassMapping}
    (he : e ∈ u.effectiveClassMappings) : e.declared.ids.Nodup :=
  (List.nodup_flatMap.1 hu.classIds_nodup).1 e he

/-- Under the id of a class mapping stands what queries run against, when relational mappings are
looked up. -/
theorem setImplementation?_of_classMapping? (hu : u.DistinctIds) {e : Effective ClassMapping}
    (h : u.classMapping? id = some e) : u.setImplementation? id = some e.implementation := by
  obtain ⟨he, rfl⟩ := (classMapping?_eq_some_iff hu).1 h
  exact (setImplementation?_eq_some_iff hu).2 ⟨e, he, _, if_pos rfl, rfl⟩

/-- Under the id of a relational mapping stands this mapping, be it a class mapping or a part. -/
theorem setImplementation?_of_mem (hu : u.DistinctIds) {e : Effective ClassMapping}
    (he : e ∈ u.effectiveClassMappings) {i : SetImplementation} (hi : i ∈ e.declared.implementations) :
    u.setImplementation? i.id = some (e.withDeclared i) :=
  (setImplementation?_eq_some_iff hu).2
    ⟨e, he, i, ClassMapping.findImplementation?_of_mem (hu.ids_nodup_of_mem he) hi, rfl⟩

/-! ## Accepted units -/

/-- An accepted unit and all that it includes have parts of generated ids. -/
theorem Accepted.hasGeneratedIds (hu : u.Accepted) {e : Effective ClassMapping}
    (he : e ∈ u.effectiveClassMappings) : e.declared.HasGeneratedIds := by
  have hown : ∀ {unit : MappingUnit}, unit.Accepted → ∀ m ∈ unit.classMappings, m.HasGeneratedIds := by
    rintro unit ⟨_, h⟩ m hm
    obtain ⟨s, hresolved⟩ := resolvedFrom_of_resolve h
    obtain ⟨written, -, hclass⟩ := exists_of_mem_right hresolved.classMappings hm
    exact ClassMapping.hasGeneratedIds_of_resolvedClass hclass
  rcases mem_effectiveClassMappings_iff.1 he with ⟨m, hm, rfl⟩ | ⟨i, hi, m, hm, rfl⟩
  · exact hown hu m hm
  · exact hown (hu.of_mem_flattened i hi) m hm

/-- What a class mapping shows as a whole is what a relational mapping shows. -/
structure ShownAs (c : Effective ClassMapping) (s : Effective SetImplementation) : Prop where
  mainTable : s.mainTable = c.implementation.mainTable
  propertyMappings : s.propertyMappings = c.implementation.propertyMappings
  mapsProperty : s.declared.mapsProperty = c.implementation.declared.mapsProperty
  isLocal : s.isLocal = c.isLocal

/-- Ids tell apart all that a unit sees, and each lookup finds what has the id. -/
structure Unambiguous (u : MappingUnit) : Prop where
  /-- No id is taken twice: by a mapping, by a part of one, or by what is included. -/
  distinct : u.DistinctIds
  /-- The ids of parts are made from that of their mapping. -/
  generated : ∀ m ∈ u.effectiveClassMappings, m.declared.HasGeneratedIds
  classMapping : ∀ m ∈ u.effectiveClassMappings, u.classMapping? m.declared.id = some m
  setImplementation : ∀ m ∈ u.effectiveClassMappings, ∀ s ∈ m.declared.implementations,
    u.setImplementation? s.id = some (m.withDeclared s)
  associationMapping : ∀ m ∈ u.effectiveAssociationMappings, u.associationMapping? m.id = some m
  enumerationMapping : ∀ m ∈ u.effectiveEnumerationMappings, u.enumerationMapping? m.id = some m
  /-- The two ways of looking up a class mapping agree on what it shows. -/
  agree : ∀ m ∈ u.effectiveClassMappings, ∃ c s, u.classMapping? m.declared.id = some c ∧
    u.setImplementation? m.declared.id = some s ∧ ShownAs c s

theorem Accepted.unambiguous (hu : u.Accepted) : u.Unambiguous where
  distinct := hu.distinctIds
  generated _ hm := hu.hasGeneratedIds hm
  classMapping _ hm := (classMapping?_eq_some_iff hu.distinctIds).2 ⟨hm, rfl⟩
  setImplementation _ hm _ hs := setImplementation?_of_mem hu.distinctIds hm hs
  associationMapping _ hm := (associationMapping?_eq_some_iff hu.distinctIds).2 ⟨hm, rfl⟩
  enumerationMapping _ hm := (enumerationMapping?_eq_some_iff hu.distinctIds).2 ⟨hm, rfl⟩
  agree m hm := by
    have hclass := (classMapping?_eq_some_iff hu.distinctIds).2 ⟨hm, rfl⟩
    exact ⟨m, m.implementation, hclass, setImplementation?_of_classMapping? hu.distinctIds hclass,
      rfl, rfl, rfl, rfl⟩

end MappingUnit

end ObjectRelational
