import Mathlib.Data.List.Flatten
import ObjectRelational.Proofs.Mapping.Databases
import ObjectRelational.Proofs.Mapping.Flattening
import ObjectRelational.Proofs.Mapping.Unit

/-!
# Views through includes

A unit sees the mappings of all units that it includes, each with a substitution. Ids are unique among all
that a unit sees, so that every mapping is found under its id; and what an included unit sees, the unit
sees too, with the substitution of the include applied behind the one that was there.

* `Effective.through`: a mapping seen through one more include. `Effective.substitute_through` and its
  companions: what changes about it.
* `MappingUnit.classMapping?_eq_some_iff` and its companions: under an id a unit shows the mapping
  that takes it.
* `MappingUnit.classMapping?_through` and its companions: what an included unit shows under an id is
  what the including one shows, seen through the include.
-/

namespace ObjectRelational

/-! ## One more include -/

namespace Effective

variable {α : Type}

/-- What a unit sees, as it is seen through an include of the unit. -/
def through (s : Substitution) (e : Effective α) : Effective α where
  declared := e.declared
  substitution := some (match e.substitution with
    | none => s
    | some inner => inner.andThen s)
  unit := e.unit

@[simp]
theorem declared_through (s : Substitution) (e : Effective α) :
    (e.through s).declared = e.declared := rfl

@[simp]
theorem substitute_through (s : Substitution) (e : Effective α) (d : DatabaseId) :
    (e.through s).substitute d = s.apply (e.substitute d) := by
  unfold through substitute
  cases e.substitution <;> simp

theorem mainTable_through (s : Substitution) (e : Effective SetImplementation) :
    (e.through s).mainTable = e.mainTable.mapDatabase s.apply := by
  simp [mainTable, TableAlias.mapDatabase]

theorem propertyMappings_through (s : Substitution) (e : Effective SetImplementation) :
    (e.through s).propertyMappings = mapDatabasesOfMappings s.apply e.propertyMappings := by
  unfold through propertyMappings
  cases e.substitution with
  | none => rfl
  | some inner =>
    simp only [Substitution.apply_andThen_eq_comp, mapDatabasesOfMappings_mapDatabasesOfMappings]

end Effective

namespace MappingUnit

variable {u : MappingUnit} {i : IncludedUnit} {id : String}

/-! ## Lookups -/

/-- No id is taken twice, by the unit or by the units that it includes. -/
def DistinctIds (u : MappingUnit) : Prop :=
  (u.ids ++ u.flattened.flatMap fun i => i.unit.ids).Nodup

/-- The ids that class mappings take are distinct, over all that a unit sees. -/
theorem DistinctIds.classIds_nodup (hu : u.DistinctIds) :
    (u.effectiveClassMappings.flatMap fun e => e.declared.ids).Nodup := by
  refine List.Nodup.sublist ?_ hu
  simp only [effectiveClassMappings, includedClassMappings, List.flatMap_append, List.flatMap_map,
    List.flatMap_assoc, seenLocally, IncludedUnit.seen]
  refine List.Sublist.append ?_ (List.Sublist.flatMap_right _ fun i _ => ?_)
  · exact (List.sublist_append_left _ _).trans (List.sublist_append_left _ _)
  · exact (List.sublist_append_left _ _).trans (List.sublist_append_left _ _)

/-- So are the ids of association mappings. -/
theorem DistinctIds.associationIds_nodup (hu : u.DistinctIds) :
    (u.effectiveAssociationMappings.map (·.id)).Nodup := by
  refine List.Nodup.sublist ?_ hu
  simp only [effectiveAssociationMappings, includedAssociationMappings, List.map_append,
    List.map_flatMap, List.map_map]
  refine List.Sublist.append ?_ (List.Sublist.flatMap_right _ fun i _ => ?_)
  · exact (List.sublist_append_right _ _).trans (List.sublist_append_left _ _)
  · exact (List.sublist_append_right _ _).trans (List.sublist_append_left _ _)

/-- Under an id a unit shows the class mapping that has it. -/
theorem classMapping?_eq_some_iff (hu : u.DistinctIds) {e : Effective ClassMapping} :
    u.classMapping? id = some e ↔ e ∈ u.effectiveClassMappings ∧ e.declared.id = id := by
  constructor
  · intro h
    exact ⟨List.mem_of_find?_eq_some h, by simpa using List.find?_some h⟩
  · rintro ⟨he, rfl⟩
    refine find?_eq_some_of_unique he (by simp) fun e' he' hid => ?_
    have hid' : e'.declared.id = e.declared.id := by simpa using hid
    exact eq_of_mem_of_nodup_flatMap hu.classIds_nodup he' he (hid' ▸ List.mem_cons_self)
      List.mem_cons_self

/-- Under an id a unit shows the relational mapping that it denotes for a class mapping. -/
theorem setImplementation?_eq_some_iff (hu : u.DistinctIds) {e : Effective SetImplementation} :
    u.setImplementation? id = some e ↔ ∃ c ∈ u.effectiveClassMappings, ∃ s,
      c.declared.findImplementation? id = some s ∧ c.withDeclared s = e := by
  constructor
  · intro h
    obtain ⟨c, hc, he⟩ := List.exists_of_findSome?_eq_some h
    exact ⟨c, hc, Option.map_eq_some_iff.1 he⟩
  · rintro ⟨c, hc, s, hs, rfl⟩
    refine findSome?_eq_some_of_unique hc (by simp [hs]) fun c' hc' e' he' => ?_
    obtain ⟨s', hs', -⟩ := Option.map_eq_some_iff.1 he'
    exact eq_of_mem_of_nodup_flatMap hu.classIds_nodup hc' hc (ClassMapping.mem_ids_of_findImplementation? hs')
      (ClassMapping.mem_ids_of_findImplementation? hs)

/-- Under an id a unit shows the association mapping that has it. -/
theorem associationMapping?_eq_some_iff (hu : u.DistinctIds) {m : AssociationMapping} :
    u.associationMapping? id = some m ↔ m ∈ u.effectiveAssociationMappings ∧ m.id = id := by
  constructor
  · intro h
    exact ⟨List.mem_of_find?_eq_some h, by simpa using List.find?_some h⟩
  · rintro ⟨hm, rfl⟩
    refine find?_eq_some_of_unique hm (by simp) fun m' hm' hid => ?_
    exact List.inj_on_of_nodup_map hu.associationIds_nodup hm' hm (by simpa using hid)

/-! ## Through an include -/

/-- A unit lists an include of its own, and all that the included unit lists as it is seen through the
include. -/
structure Lists (u : MappingUnit) (i : IncludedUnit) : Prop where
  self : i ∈ u.flattened
  inner : ∀ j ∈ i.unit.flattened, ⟨j.unit, j.substitution.andThen i.substitution⟩ ∈ u.flattened

/-- What flattening lists for a unit is listed for those that include the unit, directly or not. -/
theorem lists_of_leads {unit unit' : String} {span span' : Span} {path : List IncludedUnit}
    (hsame : Include.SameByName u.includes)
    (hu : Include.flatten unit span u.includes = .ok u.flattened)
    (hself : Include.Leads u.includes path i)
    (hinner : Include.flatten unit' span' i.unit.includes = .ok i.unit.flattened) : u.Lists i := by
  have hsame' := hsame.of_leads hself
  have hwork := Include.worklist_flatten hsame hu
  refine ⟨hwork.mem_of_leads hself, fun j hj => ?_⟩
  obtain ⟨path, hpath⟩ := (Include.worklist_flatten hsame' hinner).reached_known j hj
  obtain ⟨_, hlonger⟩ := hself.through hpath
  exact hwork.mem_of_leads hlonger

namespace Accepted

theorem distinctIds (hu : u.Accepted) : u.DistinctIds := by
  cases hu with
  | resolved _ h =>
    obtain ⟨s, hresolved⟩ := resolvedFrom_of_resolve h
    exact hresolved.ids_nodup

/-- All units that an accepted unit includes, directly or not, are accepted. -/
theorem of_mem_flattened (hu : u.Accepted) : ∀ i ∈ u.flattened, i.unit.Accepted := by
  cases hu with
  | resolved hincludes h =>
    obtain ⟨s, hresolved⟩ := resolvedFrom_of_resolve h
    exact Include.forall_mem_flatten (fun _ hu => hu.of_mem_includes) hincludes hresolved.flattened

/-- What an accepted unit lists is the result of flattening its includes. -/
theorem flatten_includes (hu : u.Accepted) :
    ∃ unit span, Include.flatten unit span u.includes = .ok u.flattened := by
  cases hu with
  | resolved _ h =>
    obtain ⟨s, hresolved⟩ := resolvedFrom_of_resolve h
    exact ⟨_, _, hresolved.flattened⟩

/-- An accepted unit lists all that any unit it includes lists, directly or not. -/
theorem lists (hu : u.Accepted) (hsame : Include.SameByName u.includes) (hi : i ∈ u.flattened) :
    u.Lists i := by
  obtain ⟨unit, span, hflattened⟩ := hu.flatten_includes
  obtain ⟨_, _, hinner⟩ := (hu.of_mem_flattened i hi).flatten_includes
  obtain ⟨path, hpath⟩ := (Include.worklist_flatten hsame hflattened).reached_known i hi
  exact lists_of_leads hsame hflattened hpath hinner

end Accepted

theorem mem_effectiveClassMappings_iff {e : Effective ClassMapping} :
    e ∈ u.effectiveClassMappings ↔ (∃ m ∈ u.classMappings, u.seenLocally m = e) ∨
      ∃ j ∈ u.flattened, ∃ m ∈ j.unit.classMappings, j.seen m = e := by
  simp [effectiveClassMappings, includedClassMappings]

theorem mem_effectiveAssociationMappings_iff {m : AssociationMapping} :
    m ∈ u.effectiveAssociationMappings ↔ m ∈ u.associationMappings ∨
      ∃ j ∈ u.flattened, ∃ m' ∈ j.unit.associationMappings,
        m'.mapDatabases j.substitution.apply = m := by
  simp [effectiveAssociationMappings, includedAssociationMappings]

theorem Lists.mem_effectiveClassMappings (h : u.Lists i) {e : Effective ClassMapping}
    (he : e ∈ i.unit.effectiveClassMappings) :
    e.through i.substitution ∈ u.effectiveClassMappings := by
  rw [mem_effectiveClassMappings_iff]
  rcases mem_effectiveClassMappings_iff.1 he with ⟨m, hm, rfl⟩ | ⟨j, hj, m, hm, rfl⟩
  · exact .inr ⟨i, h.self, m, hm, rfl⟩
  · exact .inr ⟨_, h.inner j hj, m, hm, rfl⟩

theorem Lists.mem_effectiveAssociationMappings (h : u.Lists i) {m : AssociationMapping}
    (hm : m ∈ i.unit.effectiveAssociationMappings) :
    m.mapDatabases i.substitution.apply ∈ u.effectiveAssociationMappings := by
  rw [mem_effectiveAssociationMappings_iff]
  rcases mem_effectiveAssociationMappings_iff.1 hm with hm | ⟨j, hj, m', hm', rfl⟩
  · exact .inr ⟨i, h.self, m, hm, rfl⟩
  · refine .inr ⟨_, h.inner j hj, m', hm', ?_⟩
    rw [AssociationMapping.mapDatabases_mapDatabases]
    congr 1
    funext d
    simp

section Through

variable (hu : u.DistinctIds) (h : u.Lists i)
include hu h

theorem classMapping?_through {e : Effective ClassMapping} (he : i.unit.classMapping? id = some e) :
    u.classMapping? id = some (e.through i.substitution) := by
  have hmem := List.mem_of_find?_eq_some he
  have hid : e.declared.id = id := by simpa using List.find?_some he
  exact (classMapping?_eq_some_iff hu).2 ⟨h.mem_effectiveClassMappings hmem, hid⟩

theorem setImplementation?_through {e : Effective SetImplementation}
    (he : i.unit.setImplementation? id = some e) :
    u.setImplementation? id = some (e.through i.substitution) := by
  obtain ⟨c, hc, hfound⟩ := List.exists_of_findSome?_eq_some he
  obtain ⟨s, hs, rfl⟩ := Option.map_eq_some_iff.1 hfound
  exact (setImplementation?_eq_some_iff hu).2 ⟨_, h.mem_effectiveClassMappings hc, s, hs, rfl⟩

theorem associationMapping?_through {m : AssociationMapping}
    (hm : i.unit.associationMapping? id = some m) :
    u.associationMapping? id = some (m.mapDatabases i.substitution.apply) := by
  have hmem := List.mem_of_find?_eq_some hm
  have hid : m.id = id := by simpa using List.find?_some hm
  exact (associationMapping?_eq_some_iff hu).2 ⟨h.mem_effectiveAssociationMappings hmem, hid⟩

end Through

end MappingUnit

end ObjectRelational
