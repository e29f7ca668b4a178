import ObjectRelational.Proofs.Mapping.View

/-!
# What a scope refers to

While a unit is resolved, its mappings look each other up in a scope. What they find there is what the
unit shows when it is resolved.

* `MappingUnit.setImplementation?_eq`: a unit shows its own relational mappings first.
* `Scope.endMapping?_eq`: what an end of an association is taken for.
* `Roots.exists_of_resolve`: a root is one of the mappings of its class.
* `Scope.Shows`: classes, roots and enumeration mappings of a scope are those that a unit shows.
  `Scope.shows_of_resolvedFrom`: the scope of a unit is one of these.
-/

namespace ObjectRelational

namespace MappingUnit

/-- A unit shows its own relational mappings, and then those that it includes. -/
theorem setImplementation?_eq (u : MappingUnit) (id : String) :
    u.setImplementation? id = ((findImplementation? u.classMappings id).map u.seenLocally).or
      (findEffective? (includedClassMappings u.flattened) id) := by
  have hown : findEffective? (u.classMappings.map u.seenLocally) id =
      (findImplementation? u.classMappings id).map u.seenLocally := by
    unfold findEffective? findImplementation?
    rw [List.findSome?_map, List.map_findSome?]
    rfl
  unfold setImplementation? effectiveClassMappings
  rw [← hown]
  exact List.findSome?_append

/-- Under the id of a class mapping a unit shows what queries run against. -/
theorem setImplementation?_id {u : MappingUnit} (hu : u.DistinctIds) {c : Effective ClassMapping}
    (hc : c ∈ u.effectiveClassMappings) : u.setImplementation? c.declared.id = some c.implementation :=
  (setImplementation?_eq_some_iff hu).2
    ⟨c, hc, c.declared.setImplementation, by simp [ClassMapping.findImplementation?], rfl⟩

end MappingUnit

namespace Scope

variable {s : Scope} {u : MappingUnit} {id : String}

/-! ## Ends of associations -/

/-- An end of an association is taken for what the unit shows under its id. -/
theorem endMapping?_eq (h : s.included = u.flattened) (id property : String) :
    s.endMapping? u.classMappings id property = (u.setImplementation? id).map fun e =>
      ⟨e.declared.className, e.mainTable, e.declared.mapsProperty property⟩ := by
  unfold endMapping? includedMappings
  rw [h, u.setImplementation?_eq]
  cases findImplementation? u.classMappings id <;> rfl

/-- The main table that is found for an id is that of the mapping that the unit shows under it. -/
theorem mainTableOf?_eq (h : s.included = u.flattened) (id : String) :
    s.mainTableOf? u.classMappings id = (u.setImplementation? id).map (·.mainTable) := by
  unfold mainTableOf? includedMappings
  rw [h, u.setImplementation?_eq]
  cases findImplementation? u.classMappings id <;> rfl

/-! ## Classes -/

theorem lookup_map_pair (ids : List String) (className : String) (id : String) :
    (ids.map fun i => (i, className)).lookup id = if id ∈ ids then some className else none := by
  induction ids with
  | nil => rfl
  | cons first rest ih =>
    rw [List.map_cons, List.lookup_cons, ih]
    by_cases h : id = first
    · simp [h]
    · simp [h, beq_eq_false_iff_ne.2 h]

/-- A class mapping denotes a relational mapping of its class by every id that it takes. -/
theorem ResolvedClass.map_className_findImplementation? {source : Source.ClassMapping}
    {m : ClassMapping} (h : s.ResolvedClass source m) (id : String) :
    (m.findImplementation? id).map (·.className) =
      if id ∈ source.generatedIds ++ [source.mappingId] then some source.className.value else none := by
  have hids : id ∈ source.generatedIds ++ [source.mappingId] ↔ id ∈ m.ids := by
    rw [h.ids]
    simp [or_comm]
  cases hfound : m.findImplementation? id with
  | none =>
    have hnot : id ∉ m.ids := by simp [← ClassMapping.isSome_findImplementation?_iff, hfound]
    rw [if_neg (hids.not.2 hnot)]
    rfl
  | some i =>
    rw [if_pos (hids.2 (ClassMapping.mem_ids_of_findImplementation? hfound)), Option.map_some,
      h.className_of_mem i (ClassMapping.mem_implementations_of_findImplementation? hfound)]

/-- The classes by ids that are known beforehand are those of the mappings as they are resolved. -/
theorem lookup_classesById {sources : List Source.ClassMapping} {mappings : List ClassMapping}
    (h : List.Forall₂ s.ResolvedClass sources mappings) (id : String) :
    (classesById sources).lookup id = (findImplementation? mappings id).map (·.className) := by
  induction h with
  | nil => rfl
  | @cons source m rest ms hclass _ ih =>
    have hfirst := hclass.map_className_findImplementation? id
    unfold classesById at ih ⊢
    rw [List.flatMap_cons, List.lookup_append, lookup_map_pair, ← hfirst, ih]
    unfold findImplementation?
    rw [List.findSome?_cons]
    cases m.findImplementation? id <;> rfl

/-- The class that an id stands for is the class of the mapping that the unit shows under it. -/
theorem classOf?_eq (hincluded : s.included = u.flattened) {sources : List Source.ClassMapping}
    (hclasses : s.classes = classesById sources)
    (h : List.Forall₂ s.ResolvedClass sources u.classMappings) (id : String) :
    s.classOf? id = (u.setImplementation? id).map (·.declared.className) := by
  unfold classOf? includedMappings
  rw [hincluded, hclasses, lookup_classesById h, u.setImplementation?_eq]
  cases findImplementation? u.classMappings id <;> rfl

end Scope

/-! ## Roots -/

namespace Roots

theorem mem_of_elect? {l : List Candidate} {c : Candidate} (h : elect? l = some c) : c ∈ l := by
  unfold elect? at h
  split at h
  · obtain rfl := Option.some.inj h
    exact List.mem_singleton.2 rfl
  · split at h
    · rename_i marked hmarked
      obtain rfl := Option.some.inj h
      exact List.mem_of_mem_filter (hmarked ▸ List.mem_singleton.2 rfl)
    · cases h

/-- The root of a class is one of the mappings of the class. -/
theorem exists_of_resolve {span : Span} {own : List Source.ClassMapping}
    {included : List IncludedUnit} {roots : OrderedMap String String}
    (h : Roots.resolve span own included = .ok roots) {className id : String}
    (hroot : roots.find? className = some id) :
    ∃ c ∈ candidates own included, c.className = className ∧ c.id = id := by
  refine foldlM_invariant (P := fun roots => ∀ className id, roots.find? className = some id →
    ∃ c ∈ candidates own included, c.className = className ∧ c.id = id) ?_ (by simp) h className id
    hroot
  -- a root that is added is one of the candidates of its class
  intro roots added _ roots' hroots hadd className id hfound
  unfold addRoot at hadd
  split at hadd
  · rename_i root helected
    obtain rfl := Except.ok.inj hadd
    obtain ⟨hmem, hclass⟩ := List.mem_filter.1 (mem_of_elect? helected)
    exact OrderedMap.forall_find?_insert hroots ⟨root, hmem, by simpa using hclass, rfl⟩ className id
      hfound
  · exact absurd hadd (found_ne_ok _ _ _)

end Roots

/-! ## Scopes of units -/

namespace Scope

variable {s : Scope} {u : MappingUnit}

/-- What is found in the scope is what the unit shows. -/
structure Shows (s : Scope) (u : MappingUnit) : Prop where
  classOf : ∀ id, s.classOf? id = (u.setImplementation? id).map (·.declared.className)
  roots : ∀ className id, s.roots.find? className = some id →
    ∃ e, u.setImplementation? id = some e ∧ e.declared.className = className
  enumerations : ∀ id, s.enumerationMapping? id = u.enumerationMapping? id

/-- A unit shows every one of its roots as a class mapping of the class. -/
theorem exists_effective_of_root {e : Environment} {compiled : String → Option MappingUnit}
    {source : Source.Mapping} (h : u.ResolvedFrom e compiled source s) {className id : String}
    (hroot : u.roots.find? className = some id) :
    ∃ c ∈ u.effectiveClassMappings, c.declared.id = id ∧ c.declared.className = className := by
  obtain ⟨c, hc, rfl, rfl⟩ := Roots.exists_of_resolve h.roots hroot
  rcases List.mem_append.1 hc with hc | hc
  · -- a mapping of the unit itself
    obtain ⟨written, hwritten, rfl⟩ := List.mem_map.1 hc
    obtain ⟨m, hm, hclass⟩ := exists_of_mem_left h.classMappings hwritten
    exact ⟨_, MappingUnit.mem_effectiveClassMappings_iff.2 (.inl ⟨m, hm, rfl⟩), hclass.id,
      hclass.className⟩
  · -- a mapping of an included unit
    obtain ⟨e, he, rfl⟩ := List.mem_map.1 hc
    exact ⟨e, List.mem_append_right _ he, rfl, rfl⟩

/-- Everything that an accepted unit shows maps its class with all that it is made of. -/
theorem className_of_effective {e : Environment} {compiled : String → Option MappingUnit}
    {source : Source.Mapping} (h : u.ResolvedFrom e compiled source s)
    (hincludes : ∀ i ∈ u.includes, i.unit.Accepted) {c : Effective ClassMapping}
    (hc : c ∈ u.effectiveClassMappings) :
    ∀ i ∈ c.declared.implementations, i.className = c.declared.className := by
  rcases MappingUnit.mem_effectiveClassMappings_iff.1 hc with ⟨m, hm, rfl⟩ | ⟨j, hj, m, hm, rfl⟩
  · obtain ⟨written, -, hclass⟩ := exists_of_mem_right h.classMappings hm
    intro i hi
    exact (hclass.className_of_mem i hi).trans hclass.className.symm
  · have haccepted := Include.forall_mem_flatten (fun _ hu => hu.of_mem_includes) hincludes h.flattened
    exact (haccepted j hj).className_of_mem m hm

/-- A unit shows every one of its roots as a relational mapping of the class. -/
theorem exists_root {e : Environment} {compiled : String → Option MappingUnit}
    {source : Source.Mapping} (h : u.ResolvedFrom e compiled source s)
    (hincludes : ∀ i ∈ u.includes, i.unit.Accepted) {className id : String}
    (hroot : u.roots.find? className = some id) :
    ∃ e, u.setImplementation? id = some e ∧ e.declared.className = className := by
  obtain ⟨c, hc, rfl, rfl⟩ := exists_effective_of_root h hroot
  exact ⟨_, MappingUnit.setImplementation?_id h.ids_nodup hc,
    className_of_effective h hincludes hc _ c.declared.setImplementation_mem⟩

theorem shows_of_resolvedFrom {e : Environment} {compiled : String → Option MappingUnit}
    {source : Source.Mapping} (h : u.ResolvedFrom e compiled source s)
    (hincludes : ∀ i ∈ u.includes, i.unit.Accepted) : s.Shows u where
  classOf := classOf?_eq (by rw [h.scope]) (by rw [h.scope]) h.classMappings
  roots className id hroot := by
    have hroots : s.roots = u.roots := by rw [h.scope]
    exact exists_root h hincludes (hroots ▸ hroot)
  enumerations id := by
    rw [h.scope]
    rfl

end Scope

end ObjectRelational
