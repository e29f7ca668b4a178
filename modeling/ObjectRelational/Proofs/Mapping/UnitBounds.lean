import ObjectRelational.Proofs.Mapping.Bounds
import ObjectRelational.Proofs.Mapping.SubstitutionChecks
import ObjectRelational.Proofs.Mapping.View

/-!
# Units fit in their store

A unit is resolved against one store, and so was everything that it includes. What the unit shows of
the included units are their mappings with some databases replaced by others of the same store.

* `MappingUnit.FitsIn`: all that a unit refers to is in the store, at any depth of inclusion.
* `MappingUnit.fitsIn_of_resolve`: resolving hands it on from the included units.
* `MappingUnit.InBounds`: nothing that a unit declares or shows leads out of its store.
  `MappingUnit.FitsIn.inBounds`: this is so when the unit fits in a closed store.
-/

namespace ObjectRelational

/-! ## Substitutions of includes -/

/-- The substitution of an include names databases of the store. -/
theorem Include.fitsIn_of_substitution {store : Store} {model : ObjectModel} {source : Source.Include}
    {s : Substitution} (h : substitution store model source = .ok s) : s.FitsIn store :=
  substitution_invariant Substitution.fitsIn_identity
    (fun _ _ _ hbefore hreplaced hsubstitute _ => hbefore.insert hreplaced hsubstitute) h

/-! ## Units -/

namespace MappingUnit

variable {store : Store} {u : MappingUnit}

/-- All that a unit refers to is in the store, and it was resolved against this store; so is all that
the units refer to which it includes, and the databases that are replaced there. -/
inductive FitsIn (store : Store) : MappingUnit → Prop
  | intro {u : MappingUnit} (hstore : u.store = store)
      (hclasses : ∀ m ∈ u.classMappings, m.FitsIn store)
      (hassociations : ∀ a ∈ u.associationMappings, a.FitsIn store)
      (hsubstitutions : ∀ i ∈ u.includes ++ u.flattened, i.substitution.FitsIn store)
      (hincluded : ∀ i ∈ u.includes ++ u.flattened, FitsIn store i.unit) : FitsIn store u

namespace FitsIn

theorem store_eq (h : u.FitsIn store) : u.store = store := by
  cases h
  assumption

theorem classMappings (h : u.FitsIn store) : ∀ m ∈ u.classMappings, m.FitsIn store := by
  cases h
  assumption

theorem associationMappings (h : u.FitsIn store) : ∀ a ∈ u.associationMappings, a.FitsIn store := by
  cases h
  assumption

theorem substitutions (h : u.FitsIn store) :
    ∀ i ∈ u.includes ++ u.flattened, i.substitution.FitsIn store := by
  cases h
  assumption

theorem included (h : u.FitsIn store) : ∀ i ∈ u.includes ++ u.flattened, i.unit.FitsIn store := by
  cases h
  assumption

end FitsIn

theorem substitution_of_resolveInclude {e : Environment} {compiled : String → Option MappingUnit}
    {name : String} {source : Source.Include} {i : IncludedUnit}
    (h : resolveInclude e compiled name source = .ok i) : i.substitution.FitsIn e.store := by
  unfold resolveInclude at h
  split at h
  · exact absurd h (found_ne_ok _ _ _)
  · simp only [bind_eq_ok_iff, pure_eq_ok_iff] at h
    obtain ⟨s, hs, _, -, rfl⟩ := h
    exact Include.fitsIn_of_substitution hs

/-! ## Views -/

/-- What is seen in place of a database of the store is a database of the store. -/
theorem hasDatabase_substitute {c : Effective ClassMapping}
    (hflattened : ∀ i ∈ u.flattened, i.substitution.FitsIn store) (hc : c ∈ u.effectiveClassMappings) :
    ∀ d, store.HasDatabase d → store.HasDatabase (c.substitute d) := by
  rcases mem_effectiveClassMappings_iff.1 hc with ⟨m, -, rfl⟩ | ⟨i, hi, m, -, rfl⟩
  · exact fun d hd => hd
  · exact (hflattened i hi).hasDatabase_apply

/-- Every class mapping that a unit shows fits as it is declared. -/
theorem FitsIn.declared (h : u.FitsIn store) {c : Effective ClassMapping}
    (hc : c ∈ u.effectiveClassMappings) : c.declared.FitsIn store := by
  rcases mem_effectiveClassMappings_iff.1 hc with ⟨m, hm, rfl⟩ | ⟨i, hi, m, hm, rfl⟩
  · exact h.classMappings m hm
  · exact (h.included i (List.mem_append_right _ hi)).classMappings m hm

/-- Every association mapping that a unit shows fits. -/
theorem FitsIn.effectiveAssociationMappings (h : u.FitsIn store) :
    ∀ a ∈ u.effectiveAssociationMappings, a.FitsIn store := by
  intro a ha
  rcases mem_effectiveAssociationMappings_iff.1 ha with ha | ⟨i, hi, declared, hdeclared, rfl⟩
  · exact h.associationMappings a ha
  · have hi := List.mem_append_right u.includes hi
    exact ((h.included i hi).associationMappings declared hdeclared).mapDatabases
      (h.substitutions i hi).hasDatabase_apply

/-! ## Resolving -/

section Resolve

variable {e : Environment} {compiled : String → Option MappingUnit} {source : Source.Mapping}
  {s : Scope}

/-- What a unit lists fits if what it includes does. -/
theorem ResolvedFrom.flattened_fits (h : u.ResolvedFrom e compiled source s)
    (hincludes : ∀ i ∈ u.includes, i.unit.FitsIn e.store) :
    ∀ i ∈ u.includes ++ u.flattened, i.substitution.FitsIn e.store ∧ i.unit.FitsIn e.store := by
  have hdirect : ∀ i ∈ u.includes, i.substitution.FitsIn e.store ∧ i.unit.FitsIn e.store := by
    intro i hi
    obtain ⟨written, -, hinclude⟩ := exists_of_mem_right h.includes hi
    exact ⟨substitution_of_resolveInclude hinclude, hincludes i hi⟩
  refine List.forall_mem_append.2 ⟨hdirect, ?_⟩
  refine Include.forall_mem_flattenFrom (P := fun i => i.substitution.FitsIn e.store ∧
    i.unit.FitsIn e.store) ?_ (by simp) hdirect h.flattened
  -- substitutions are composed along the includes
  rintro i ⟨hsubstitution, hunit⟩ j hj
  obtain ⟨inner, hinner, rfl⟩ := List.mem_map.1 hj
  have hinner := List.mem_append_left i.unit.flattened hinner
  exact ⟨(hunit.substitutions inner hinner).andThen hsubstitution, hunit.included inner hinner⟩

/-- The scope of a unit sees only main tables of the store. -/
theorem ResolvedFrom.closed_scope (h : u.ResolvedFrom e compiled source s) (he : e.store.Closed)
    (hflattened : ∀ i ∈ u.flattened, i.substitution.FitsIn e.store ∧ i.unit.FitsIn e.store) :
    s.Closed := by
  rw [h.scope]
  refine ⟨he, fun c hc part hpart => ?_⟩
  obtain ⟨i, hi, hseen⟩ := List.mem_flatMap.1 hc
  obtain ⟨m, hm, rfl⟩ := List.mem_map.1 hseen
  obtain ⟨hsubstitution, hunit⟩ := hflattened i hi
  exact (hunit.classMappings m hm part hpart).mainTable.mapDatabase hsubstitution.hasDatabase_apply

/-- A unit that is resolved against a closed store fits in it, if the units do that it includes. -/
theorem fitsIn_of_resolve (he : e.store.Closed) (hincludes : ∀ i ∈ u.includes, i.unit.FitsIn e.store)
    (h : resolve e compiled source = .ok u) : u.FitsIn e.store := by
  obtain ⟨s, hresolved⟩ := resolvedFrom_of_resolve h
  have hall := hresolved.flattened_fits hincludes
  have hs := hresolved.closed_scope he fun i hi => hall i (List.mem_append_right _ hi)
  have hstore : s.store = e.store := by rw [hresolved.scope]
  have hclasses := hstore ▸ Scope.classMappings_fit hs hresolved.resolved
  refine .intro hresolved.store hclasses (fun a ha => ?_) (fun i hi => (hall i hi).1)
    fun i hi => (hall i hi).2
  obtain ⟨written, -, hassociation⟩ := exists_of_mem_right hresolved.associationMappings ha
  exact hstore ▸ Scope.fitsIn_of_associationMapping hs (hstore ▸ hclasses) hassociation

end Resolve

/-! ## Bounds -/

/-- Nothing that a unit declares or shows leads out of its store: not the mappings of the unit itself,
nor those of the units that it includes as they are seen with their databases substituted; and no lookup
in the store does. -/
structure InBounds (u : MappingUnit) : Prop where
  store : u.store.Closed
  answers : u.store.Answers
  classMappings : ∀ m ∈ u.classMappings, m.FitsIn u.store
  associationMappings : ∀ a ∈ u.associationMappings, a.FitsIn u.store
  included : ∀ i ∈ u.includes ++ u.flattened, i.unit.store = u.store ∧ i.substitution.FitsIn u.store
  seen : ∀ c ∈ u.effectiveClassMappings, ∀ part ∈ c.declared.implementations,
    part.FitsIn u.store ∧ (c.withDeclared part).substituted.FitsIn u.store
  seenAssociations : ∀ a ∈ u.effectiveAssociationMappings, a.FitsIn u.store
  mentioned : ∀ d ∈ u.referencedDatabases.toList, u.store.HasDatabase d

/-- The databases that a unit mentions are those of the mappings that it shows. -/
theorem FitsIn.referencedDatabases (h : u.FitsIn store) :
    ∀ d ∈ u.referencedDatabases.toList, store.HasDatabase d := by
  intro d hd
  rw [MappingUnit.referencedDatabases, OrderedSet.mem_toList_ofList, List.mem_append] at hd
  rcases hd with hd | hd
  · obtain ⟨c, hc, hmentioned⟩ := List.mem_flatMap.1 hd
    obtain ⟨mentioned, hdatabase, rfl⟩ := List.mem_map.1 hmentioned
    obtain ⟨part, hpart, hdatabase⟩ := List.mem_flatMap.1 hdatabase
    have hflattened := fun i hi => h.substitutions i (List.mem_append_right u.includes hi)
    exact hasDatabase_substitute hflattened hc mentioned
      ((h.declared hc part hpart).hasDatabase mentioned hdatabase)
  · obtain ⟨a, ha, hdatabase⟩ := List.mem_flatMap.1 hd
    exact (h.effectiveAssociationMappings a ha).hasDatabase d hdatabase

theorem FitsIn.inBounds (h : u.FitsIn store) (hstore : store.Closed) : u.InBounds := by
  obtain rfl := h.store_eq
  refine {
    store := hstore
    answers := hstore.answers
    classMappings := h.classMappings
    associationMappings := h.associationMappings
    included := fun i hi => ⟨(h.included i hi).store_eq, h.substitutions i hi⟩
    seen := fun c hc part hpart => ?_
    seenAssociations := h.effectiveAssociationMappings
    mentioned := h.referencedDatabases }
  have hfits := h.declared hc part hpart
  exact ⟨hfits, Effective.fitsIn_substituted hfits (hasDatabase_substitute
    (fun i hi => h.substitutions i (List.mem_append_right _ hi)) hc)⟩

end MappingUnit

end ObjectRelational
