import Mathlib.Data.List.Perm.Basic
import ObjectRelational.Mapping.Resolution
import ObjectRelational.Proofs.Mapping.Class

/-!
# What units resolve to

A unit that resolves has a mapping for everything that its source declares, and it has the units that
it includes as they are compiled.

* `MappingUnit.ResolvedFrom`: what a unit has of its source. `MappingUnit.resolvedFrom_of_resolve`: a unit that
  resolves has it.
* `MappingUnit.ResolvedFrom.ids_nodup`: no id is taken twice, by the unit or by what it includes.
* `MappingUnit.Accepted`: the unit was resolved, and so was all that it includes.
-/

namespace ObjectRelational

/-! ## Distinct ids -/

theorem Include.checkDistinct_eq_ok_iff {unit : String} {seen : List String}
    {l : List Include.DeclaredId} : Include.checkDistinct unit seen l = .ok () ↔
      (l.map (·.id)).Nodup ∧ ∀ d ∈ l, d.id ∉ seen := by
  induction l generalizing seen with
  | nil => simp [Include.checkDistinct]
  | cons d rest ih =>
    unfold Include.checkDistinct
    split
    · rename_i hseen
      simp [hseen]
    · rename_i hseen
      simp only [ih, List.mem_cons, List.map_cons, List.nodup_cons, List.mem_map]
      grind

/-- The ids that a unit declares are distinct, among themselves and from those that it includes. -/
theorem Include.nodup_of_checkIds {source : Source.Mapping} {flattened : List IncludedUnit}
    (h : Include.checkIds source flattened = .ok ()) :
    ((Include.declaredIds source).map (·.id) ++ flattened.flatMap fun i => i.unit.ids).Nodup := by
  obtain ⟨_, -, hall⟩ := bind_eq_ok_iff.1 h
  simpa [Function.comp_def] using (Include.checkDistinct_eq_ok_iff.1 hall).1

/-! ## Association and enumeration mappings -/

theorem Scope.id_of_associationMapping {s : Scope} {own : List ClassMapping}
    {source : Source.AssociationMapping} {m : AssociationMapping}
    (h : (s.associationMapping own source).result = .ok m) : m.id = source.mappingId := by
  unfold Scope.associationMapping at h
  split at h
  · exact absurd h (found_ne_ok _ _ _)
  · obtain ⟨mappings, -, hm⟩ := Recorded.result_bind_eq_ok_iff.1 h
    obtain rfl := Except.ok.inj hm
    rfl

theorem EnumerationMapping.id_of_resolve {model : ObjectModel} {source : Source.EnumerationMapping}
    {m : EnumerationMapping} (h : EnumerationMapping.resolve model source = .ok m) :
    m.id = source.mappingId := by
  unfold EnumerationMapping.resolve at h
  dsimp only at h
  split at h
  · exact absurd h (found_ne_ok _ _ _)
  · obtain ⟨values, -, hm⟩ := bind_eq_ok_iff.1 h
    obtain rfl := Except.ok.inj hm
    rfl

/-! ## Units -/

namespace MappingUnit

/-- What a unit has of its source, and the scope `s` that its mappings were resolved in. -/
structure ResolvedFrom (e : Environment) (compiled : String → Option MappingUnit)
    (source : Source.Mapping) (unit : MappingUnit) (s : Scope) : Prop where
  name : unit.name = source.name.value
  includes : List.Forall₂
    (fun i included => resolveInclude e compiled source.name.value i = .ok included)
    source.includes unit.includes
  flattened : Include.flatten source.name.value source.span unit.includes = .ok unit.flattened
  ids : Include.checkIds source unit.flattened = .ok ()
  enumerationMappings : List.Forall₂
    (fun m resolved => EnumerationMapping.resolve e.model m = .ok resolved)
    source.enumerationMappings unit.enumerationMappings
  roots : Roots.resolve source.span source.classMappings unit.flattened = .ok unit.roots
  scope : s = {
    toEnvironment := e
    unit := source.name.value
    included := unit.flattened
    enumerationMappings := unit.enumerationMappings
    classes := Scope.classesById source.classMappings
    roots := unit.roots }
  resolved : (s.classMappings source.classMappings).result = .ok unit.classMappings
  classMappings : List.Forall₂ s.ResolvedClass source.classMappings unit.classMappings
  associationMappings : List.Forall₂
    (fun m resolved => (s.associationMapping unit.classMappings m).result = .ok resolved)
    source.associationMappings unit.associationMappings
  store : unit.store = e.store

variable {e : Environment} {compiled : String → Option MappingUnit} {source : Source.Mapping}
  {unit : MappingUnit} {s : Scope}

/-- The class mappings of a unit whose ids are distinct have distinct ids of their own. -/
theorem mappingIds_nodup {flattened : List IncludedUnit}
    (h : Include.checkIds source flattened = .ok ()) :
    (source.classMappings.map (·.mappingId)).Nodup := by
  have hdeclared := (List.nodup_append.1 (Include.nodup_of_checkIds h)).1
  simp only [Include.declaredIds, List.map_append, List.map_flatMap, List.map_map, Function.comp_def,
    List.map_id_fun', id_eq] at hdeclared
  have hclasses := (List.nodup_append.1 (List.nodup_append.1 hdeclared).1).1
  exact hclasses.sublist (map_sublist_flatMap fun m _ => by simp)

/-- An include is the unit that is compiled under its name. -/
theorem unit_of_resolveInclude {name : String} {i : Source.Include} {included : IncludedUnit}
    (h : resolveInclude e compiled name i = .ok included) :
    compiled i.mapping.value = some included.unit := by
  unfold resolveInclude at h
  split at h
  · exact absurd h (found_ne_ok _ _ _)
  · rename_i unit hunit
    simp only [bind_eq_ok_iff, pure_eq_ok_iff] at h
    obtain ⟨substitution, -, _, -, rfl⟩ := h
    exact hunit

theorem resolvedFrom_of_resolve (h : resolve e compiled source = .ok unit) :
    ∃ s, ResolvedFrom e compiled source unit s := by
  unfold resolve at h
  simp only [bind_eq_ok_iff, pure_eq_ok_iff, Scope.ofClasses] at h
  obtain ⟨includes, hincludes, flattened, hflattened, _, hids, enumerationMappings,
    henumerations, _, ⟨_, -, roots, hroots, rfl⟩, ⟨classMappings, associationMappings⟩, hrecorded,
    rfl⟩ := h
  simp only [resolveMappings, Recorded.result_bind_eq_ok_iff, Recorded.result_pure, Except.ok.injEq,
    Prod.mk.injEq] at hrecorded
  obtain ⟨_, hclasses, _, hassociations, rfl, rfl⟩ := hrecorded
  exact ⟨_, rfl, mapM_eq_ok_iff.1 hincludes, hflattened, hids, mapM_eq_ok_iff.1 henumerations,
    hroots, rfl, hclasses, Scope.forall₂_classMappings (mappingIds_nodup hids) hclasses,
    Recorded.result_forAll_eq_ok_iff.1 hassociations, rfl⟩

namespace ResolvedFrom

/-- The ids that a unit takes are those that its source declares. -/
theorem ids_perm (h : ResolvedFrom e compiled source unit s) :
    unit.ids.Perm ((Include.declaredIds source).map (·.id)) := by
  have hclasses : unit.classMappings.flatMap ClassMapping.ids =
      source.classMappings.flatMap fun m => m.mappingId :: m.generatedIds := by
    rw [List.flatMap_def, List.flatMap_def,
      map_eq_map_of_forall₂ h.classMappings fun m resolved hm => hm.ids.symm]
  have hassociations : unit.associationMappings.map (·.id) =
      source.associationMappings.map (·.mappingId) :=
    (map_eq_map_of_forall₂ h.associationMappings fun m resolved hm =>
      (Scope.id_of_associationMapping hm).symm).symm
  have henumerations : unit.enumerationMappings.map (·.id) =
      source.enumerationMappings.map (·.mappingId) :=
    (map_eq_map_of_forall₂ h.enumerationMappings fun m resolved hm =>
      (EnumerationMapping.id_of_resolve hm).symm).symm
  simp only [MappingUnit.ids, Include.declaredIds, hclasses, hassociations, henumerations,
    List.map_append, List.map_flatMap, List.map_map, Function.comp_def, List.map_id_fun', id_eq]
  refine (List.Perm.append_right _ ?_).append_right _
  exact List.Perm.flatMap_left _ fun m _ => (List.perm_append_singleton _ _).symm

/-- No id is taken twice, by the unit or by the units that it includes. -/
theorem ids_nodup (h : ResolvedFrom e compiled source unit s) :
    (unit.ids ++ unit.flattened.flatMap fun i => i.unit.ids).Nodup :=
  ((h.ids_perm.append_right _).nodup_iff).2 (Include.nodup_of_checkIds h.ids)

end ResolvedFrom

/-! ## Accepted units -/

/-- A unit that was resolved, against whatever environment, and that includes only such units. -/
inductive Accepted : MappingUnit → Prop
  | resolved {e : Environment} {compiled : String → Option MappingUnit} {source : Source.Mapping}
      {unit : MappingUnit} (hincludes : ∀ i ∈ unit.includes, Accepted i.unit)
      (h : resolve e compiled source = .ok unit) : Accepted unit

theorem Accepted.of_mem_includes (h : Accepted unit) : ∀ i ∈ unit.includes, Accepted i.unit := by
  cases h with
  | resolved hincludes _ => exact hincludes

/-- A unit that is resolved is accepted if all units are that it can include. -/
theorem Accepted.of_compiled
    (hcompiled : ∀ name included, compiled name = some included → Accepted included)
    (h : resolve e compiled source = .ok unit) : Accepted unit := by
  obtain ⟨s, hresolved⟩ := resolvedFrom_of_resolve h
  refine .resolved (fun i hi => ?_) h
  obtain ⟨written, -, hinclude⟩ := exists_of_mem_right hresolved.includes hi
  exact hcompiled _ _ (unit_of_resolveInclude hinclude)

/-- In an accepted unit a class mapping maps its class with everything that it is made of. -/
theorem Accepted.className_of_mem (h : Accepted unit) : ∀ m ∈ unit.classMappings,
    ∀ i ∈ m.implementations, i.className = m.className := by
  cases h with
  | resolved _ h =>
    intro m hm i hi
    obtain ⟨s, hresolved⟩ := resolvedFrom_of_resolve h
    obtain ⟨written, -, hclass⟩ := exists_of_mem_right hresolved.classMappings hm
    rw [hclass.className_of_mem i hi, hclass.className]

end MappingUnit

end ObjectRelational
