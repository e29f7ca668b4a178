import Mathlib.Data.List.Perm.Basic
import ObjectRelational.Proofs.Mapping.Dependence
import ObjectRelational.Proofs.Mapping.ExtensionOrder
import ObjectRelational.Proofs.Mapping.JoinEnds

/-!
# Class mappings that extend each other

A class mapping is resolved when only those before it are there. As ids are unique, it would be resolved
to the same if all were there: so the class mappings of a unit solve an equation, each side of which
speaks of all of them, and nothing of their order is left in it. The equation has one solution at most.

* `Scope.Solution`: every class mapping is what its source is resolved to, given all of them.
  `Scope.solution_of_classMappings`: so it is when the class mappings of a unit are resolved.
* `Scope.Solution.subset_of_resolveFrom`: whatever is resolved on the way belongs to the solution.
* `Scope.Solution.exists_resolveFrom`: when there is a solution, an order in which extended mappings come first
  leads to it, provided that no mapping extends a part of another one.
-/

namespace ObjectRelational

/-! ## What ids denote -/

variable {own mappings mappings' : List ClassMapping} {m : ClassMapping} {i : SetImplementation}
  {id : String}

theorem mem_of_findImplementation? (h : findImplementation? own id = some i) :
    ∃ m ∈ own, m.findImplementation? id = some i := List.exists_of_findSome?_eq_some h

/-- Where ids are unique, an id denotes what any of the mappings takes it for. -/
theorem findImplementation?_of_mem (hids : (mappings.flatMap ClassMapping.ids).Nodup)
    (hm : m ∈ mappings) (h : m.findImplementation? id = some i) :
    findImplementation? mappings id = some i :=
  findSome?_eq_some_of_unique hm h fun _ hm' _ h' =>
    eq_of_mem_of_nodup_flatMap hids hm' hm (ClassMapping.mem_ids_of_findImplementation? h')
      (ClassMapping.mem_ids_of_findImplementation? h)

theorem findImplementation?_of_subset (hids : (mappings.flatMap ClassMapping.ids).Nodup)
    (hown : own ⊆ mappings) (h : findImplementation? own id = some i) :
    findImplementation? mappings id = some i := by
  obtain ⟨m, hm, hfound⟩ := mem_of_findImplementation? h
  exact findImplementation?_of_mem hids (hown hm) hfound

/-- It does not matter how the mappings are listed. -/
theorem findImplementation?_of_perm (hids : (mappings.flatMap ClassMapping.ids).Nodup)
    (hperm : mappings'.Perm mappings) (id : String) :
    findImplementation? mappings' id = findImplementation? mappings id := by
  have hids' : (mappings'.flatMap ClassMapping.ids).Nodup :=
    (hperm.flatMap_right _).nodup_iff.2 hids
  cases hfound : findImplementation? mappings id with
  | some i => exact findImplementation?_of_subset hids' hperm.symm.subset hfound
  | none =>
    cases hfound' : findImplementation? mappings' id with
    | none => rfl
    | some i =>
      rw [findImplementation?_of_subset hids hperm.subset hfound'] at hfound
      cases hfound

theorem isSome_findImplementation?_of_mem (hm : m ∈ own) (hid : id ∈ m.ids) :
    (findImplementation? own id).isSome := by
  rw [findImplementation?, List.isSome_findSome?, List.any_eq_true]
  exact ⟨m, hm, ClassMapping.isSome_findImplementation?_iff.2 hid⟩

namespace Scope

variable {s : Scope} {sources sources' ordered l : List Source.ClassMapping}
  {source : Source.ClassMapping} {resolved : List ClassMapping}

/-- No id is taken twice, by the given mappings of a unit or by those that it includes. -/
def UniqueIds (s : Scope) (mappings : List ClassMapping) : Prop :=
  (mappings.flatMap ClassMapping.ids ++ s.includedMappings.map (·.declared.id)).Nodup

theorem UniqueIds.nodup (h : s.UniqueIds mappings) : (mappings.flatMap ClassMapping.ids).Nodup :=
  (List.nodup_append.1 h).1

/-- What there is to extend among some of the mappings is there among all of them. -/
theorem superMapping?_of_subset (hids : s.UniqueIds mappings) (hown : own ⊆ mappings)
    {inherited : Inherited} (h : s.superMapping? own id = some inherited) :
    s.superMapping? mappings id = some inherited := by
  unfold superMapping? at h ⊢
  cases hfound : findImplementation? own id with
  | some i =>
    rw [hfound] at h
    rw [findImplementation?_of_subset hids.nodup hown hfound]
    exact h
  | none =>
    -- an included mapping has the id, so that none of the unit has it
    rw [hfound] at h
    obtain ⟨e, he, -⟩ := Option.map_eq_some_iff.1 h
    have hincluded : id ∈ s.includedMappings.map (·.declared.id) :=
      List.mem_map.2 ⟨e, List.mem_of_find?_eq_some he, by simpa using List.find?_some he⟩
    have hnone : findImplementation? mappings id = none := by
      cases hall : findImplementation? mappings id with
      | none => rfl
      | some i =>
        obtain ⟨m, hm, hi⟩ := mem_of_findImplementation? hall
        have htaken : id ∈ mappings.flatMap ClassMapping.ids :=
          List.mem_flatMap.2 ⟨m, hm, ClassMapping.mem_ids_of_findImplementation? hi⟩
        exact absurd rfl ((List.nodup_append.1 hids).2.2 id htaken id hincluded)
    rw [hnone]
    exact h

/-- A relational mapping that is resolved finds what it extends. -/
theorem exists_super_of_setImplementation {header : Header} {body : Source.RelationalMapping}
    (h : (s.setImplementation own header body).result = .ok i) :
    ∀ superId, header.superId = some superId →
      ∃ inherited, s.superMapping? own superId.value = some inherited := by
  intro superId hsuper
  unfold setImplementation at h
  simp only [Recorded.result_bind_eq_ok_iff, Recorded.result_monadLift] at h
  obtain ⟨inherited, hinherited, -⟩ := h
  rcases super_of_inherited? hinherited with ⟨hnone, -⟩ | ⟨other, found, hother, hthere, -⟩
  · rw [hnone] at hsuper
    cases hsuper
  · obtain rfl := Option.some.inj (hother.symm.trans hsuper)
    exact ⟨found, hthere⟩

/-- So does a class mapping. -/
theorem exists_super_of_classMapping (h : (s.classMapping own source).result = .ok m) :
    ∀ superId, source.superId = some superId →
      ∃ inherited, s.superMapping? own superId.value = some inherited := by
  unfold classMapping at h
  cases hbody : source.body with
  | relational body =>
    simp only [hbody, Recorded.result_bind_eq_ok_iff] at h
    obtain ⟨i, hi, -⟩ := h
    exact exists_super_of_setImplementation hi
  | aggregationAware main views =>
    simp only [hbody, aggregationAware, Recorded.result_bind_eq_ok_iff] at h
    obtain ⟨_, ⟨i, hi, -⟩, -⟩ := h
    exact exists_super_of_setImplementation hi

/-- What a class mapping is resolved to given some of the mappings, it is given all of them. -/
theorem classMapping_of_subset (hids : s.UniqueIds mappings) (hown : own ⊆ mappings)
    (h : (s.classMapping own source).result = .ok m) :
    (s.classMapping mappings source).result = .ok m := by
  rw [← h]
  refine congrArg Recorded.result (classMapping_of_extendsAlike fun superId hsuper => ?_)
  obtain ⟨inherited, hinherited⟩ := exists_super_of_classMapping h superId hsuper
  rw [hinherited, superMapping?_of_subset hids hown hinherited]

/-! ## Solutions -/

/-- Every class mapping is what its source is resolved to, given all of them. -/
structure Solution (s : Scope) (sources : List Source.ClassMapping) (mappings : List ClassMapping) :
    Prop where
  resolved : List.Forall₂ (fun source m => (s.classMapping mappings source).result = .ok m) sources
    mappings
  unique : s.UniqueIds mappings

/-- A class mapping that is resolved on the way has been given mappings that are resolved too. -/
theorem forall₂_given_of_resolveFrom (h : (s.resolveFrom own l).result = .ok resolved) :
    ∃ ms, resolved = own ++ ms ∧ List.Forall₂ (fun source m =>
      ∃ given ⊆ resolved, (s.classMapping given source).result = .ok m) l ms := by
  induction l generalizing own with
  | nil =>
    obtain rfl := Except.ok.inj h
    exact ⟨[], by simp, .nil⟩
  | cons source rest ih =>
    obtain ⟨m, hm, hrest⟩ := Recorded.result_bind_eq_ok_iff.1 h
    obtain ⟨ms, rfl, hms⟩ := ih hrest
    refine ⟨m :: ms, by simp, .cons ⟨own, ?_, hm⟩ hms⟩
    intro x hx
    simp [hx]

/-- What is resolved on the way is what the unit ends up with, in another order. -/
theorem mem_asDeclared_iff (horder : Extension.order sources = .ok ordered)
    (hresolved : (s.resolveFrom [] ordered).result = .ok resolved) :
    m ∈ asDeclared sources resolved ↔ m ∈ resolved := by
  obtain ⟨hsubset, -⟩ := Extension.order_complete horder
  obtain ⟨_, rfl, hms⟩ := forall₂_resolveFrom hresolved
  have hids : ordered.map (·.mappingId) = resolved.map (·.id) :=
    map_eq_map_of_forall₂ hms fun source m hclass => hclass.id.symm
  have hdistinct : (resolved.map (·.id)).Nodup := by
    rw [← hids]
    exact (Extension.superFirst_of_order horder).nodup
  unfold asDeclared
  rw [List.mem_filterMap]
  constructor
  · rintro ⟨source, -, hfound⟩
    exact List.mem_of_find?_eq_some hfound
  · intro hm
    obtain ⟨source, hsource, hclass⟩ := exists_of_mem_right hms hm
    refine ⟨source, hsubset hsource, find?_eq_some_of_unique hm (by simp [hclass.id]) ?_⟩
    intro other hother hid
    simp only [decide_eq_true_eq] at hid
    exact List.inj_on_of_nodup_map hdistinct hother hm (hid.trans hclass.id.symm)

/-- The class mappings of a unit are a solution when they are resolved. -/
theorem solution_of_classMappings (h : (s.classMappings sources).result = .ok mappings)
    (hnodup : (sources.map (·.mappingId)).Nodup) (hids : s.UniqueIds mappings) :
    s.Solution sources mappings := by
  have hclasses := forall₂_classMappings hnodup h
  unfold classMappings at h
  simp only [Recorded.result_bind_eq_ok_iff, Recorded.result_pure, Recorded.result_monadLift,
    Except.ok.injEq] at h
  obtain ⟨ordered, horder, resolved, hresolved, _, -, rfl⟩ := h
  have hmem : ∀ m, m ∈ asDeclared sources resolved ↔ m ∈ resolved := fun m =>
    mem_asDeclared_iff horder hresolved
  obtain ⟨hsubset, -⟩ := Extension.order_complete horder
  obtain ⟨_, rfl, hgiven⟩ := forall₂_given_of_resolveFrom hresolved
  refine ⟨forall₂_of_mem hclasses fun source hsource m hm hclass => ?_, hids⟩
  -- what is found for a source was resolved from a source of the same id, and so from it
  obtain ⟨other, hother, given, hsub, hresolves⟩ := exists_of_mem_right hgiven ((hmem m).1 hm)
  have hsame : other = source := List.inj_on_of_nodup_map hnodup (hsubset hother) hsource
    ((resolvedClass_of_classMapping hresolves).id.symm.trans hclass.id)
  rw [hsame] at hresolves
  exact classMapping_of_subset hids (fun x hx => (hmem x).2 (hsub hx)) hresolves

namespace Solution

/-- A source is resolved to a mapping of the solution, given some of them. -/
theorem mem_of_classMapping (h : s.Solution sources mappings) (hsource : source ∈ sources)
    (hown : own ⊆ mappings) (hm : (s.classMapping own source).result = .ok m) : m ∈ mappings := by
  obtain ⟨m', hm', hsolves⟩ := exists_of_mem_left h.resolved hsource
  rw [classMapping_of_subset h.unique hown hm] at hsolves
  exact Except.ok.inj hsolves ▸ hm'

/-- Whatever is resolved on the way belongs to the solution. -/
theorem subset_of_resolveFrom (h : s.Solution sources mappings) (hl : l ⊆ sources)
    (hown : own ⊆ mappings) (hresolved : (s.resolveFrom own l).result = .ok resolved) :
    resolved ⊆ mappings := by
  induction l generalizing own with
  | nil =>
    obtain rfl := Except.ok.inj hresolved
    exact hown
  | cons source rest ih =>
    obtain ⟨m, hm, hrest⟩ := Recorded.result_bind_eq_ok_iff.1 hresolved
    obtain ⟨hsource, hsubset⟩ := List.cons_subset.1 hl
    have hmem := h.mem_of_classMapping hsource hown hm
    exact ih hsubset (List.append_subset.2 ⟨hown, by simpa using hmem⟩) hrest

/-- The mapping of a source is found under the id of the source. -/
theorem map_find? (h : s.Solution sources mappings) {l : List ClassMapping}
    (hl : l ⊆ mappings) (hclasses : List.Forall₂ s.ResolvedClass sources' l) :
    sources'.map (fun source => mappings.find? fun m => m.id = source.mappingId) = l.map some := by
  have hdistinct : (mappings.map (·.id)).Nodup :=
    h.unique.nodup.sublist (map_sublist_flatMap fun m _ => by simp [ClassMapping.ids])
  rw [← List.forall₂_eq_eq_eq, List.forall₂_map_left_iff, List.forall₂_map_right_iff]
  refine forall₂_of_mem hclasses fun source _ m hm hclass => ?_
  refine find?_eq_some_of_unique (hl hm) (by simp [hclass.id]) fun other hother hid => ?_
  simp only [decide_eq_true_eq] at hid
  exact List.inj_on_of_nodup_map hdistinct hother (hl hm) (hid.trans hclass.id.symm)

end Solution

/-! ## Existence -/

theorem result_resolveFrom_append_singleton {own' : List ClassMapping}
    (h : (s.resolveFrom own l).result = .ok own') (hm : (s.classMapping own' source).result = .ok m) :
    (s.resolveFrom own (l ++ [source])).result = .ok (own' ++ [m]) := by
  induction l generalizing own with
  | nil =>
    obtain rfl := Except.ok.inj h
    exact Recorded.result_bind_eq_ok_iff.2 ⟨m, hm, rfl⟩
  | cons first rest ih =>
    obtain ⟨next, hnext, hrest⟩ := Recorded.result_bind_eq_ok_iff.1 h
    exact Recorded.result_bind_eq_ok_iff.2 ⟨next, hnext, ih hrest⟩

/-- No mapping of the list extends a part that another one of the list is split into. -/
def ExtendsNoPart (sources : List Source.ClassMapping) : Prop :=
  ∀ m ∈ sources, ∀ superId, m.superId = some superId →
    ∀ p ∈ sources, superId.value ∉ p.generatedIds

theorem ExtendsNoPart.of_perm (h : ExtendsNoPart sources) (hperm : sources.Perm sources') :
    ExtendsNoPart sources' := fun m hm superId hsuper p hp =>
  h m (hperm.mem_iff.2 hm) superId hsuper p (hperm.mem_iff.2 hp)

/-- A source whose extended mapping is resolved already, or is not one of the unit, is resolved as
given the whole solution. -/
theorem Solution.classMapping_eq_ok (h : s.Solution sources mappings)
    (hclasses : List.Forall₂ s.ResolvedClass sources mappings) (hparts : ExtendsNoPart sources)
    (hnodup : (sources.map (·.mappingId)).Nodup) (hsource : source ∈ sources) (hown : own ⊆ mappings)
    (hparent : ∀ p, Extension.parent? sources source = some p → ∃ m ∈ own, m.id = p.mappingId) :
    ∃ m ∈ mappings, s.ResolvedClass source m ∧ (s.classMapping own source).result = .ok m := by
  obtain ⟨m, hm, hsolves⟩ := exists_of_mem_left h.resolved hsource
  refine ⟨m, hm, resolvedClass_of_classMapping hsolves, ?_⟩
  rw [← hsolves]
  refine congrArg Recorded.result (classMapping_of_extendsAlike fun superId hsuper => ?_)
  unfold superMapping?
  suffices hfound : findImplementation? own superId.value =
      findImplementation? mappings superId.value by rw [hfound]
  cases hall : findImplementation? mappings superId.value with
  | none =>
    cases hsome : findImplementation? own superId.value with
    | none => rfl
    | some i =>
      rw [findImplementation?_of_subset h.unique.nodup hown hsome] at hall
      cases hall
  | some i =>
    -- the id is that of a mapping of the unit, not of a part, so that this is the one that is extended
    obtain ⟨p, hp, hi⟩ := mem_of_findImplementation? hall
    obtain ⟨parent, hparentMem, hclass⟩ := exists_of_mem_right hclasses hp
    have hid : superId.value = parent.mappingId := by
      have htaken := ClassMapping.mem_ids_of_findImplementation? hi
      rw [hclass.ids] at htaken
      exact (List.mem_cons.1 htaken).resolve_right (hparts source hsource superId hsuper parent
        hparentMem)
    have hfirst : Extension.parent? sources source = some parent := by
      rw [Extension.parent?, hsuper, Option.bind_some]
      refine find?_eq_some_of_unique hparentMem (by simp [hid]) fun other hother hother' => ?_
      simp only [decide_eq_true_eq] at hother'
      exact List.inj_on_of_nodup_map hnodup hother hparentMem (hother'.trans hid)
    obtain ⟨m', hm', hid'⟩ := hparent parent hfirst
    have hsome := isSome_findImplementation?_of_mem hm'
      (show superId.value ∈ m'.ids by simp [ClassMapping.ids, hid', hid])
    obtain ⟨i', hi'⟩ := Option.isSome_iff_exists.1 hsome
    rw [hi', ← hall, findImplementation?_of_subset h.unique.nodup hown hi']

/-- In an order in which extended mappings come first, all sources of a solution are resolved. -/
theorem Solution.exists_resolveFrom (h : s.Solution sources mappings)
    (hclasses : List.Forall₂ s.ResolvedClass sources mappings) (hparts : ExtendsNoPart sources)
    (hnodup : (sources.map (·.mappingId)).Nodup) (hordered : Extension.SuperFirst sources ordered)
    (hsubset : ordered ⊆ sources) :
    ∃ resolved ⊆ mappings, (s.resolveFrom [] ordered).result = .ok resolved ∧
      ∀ source ∈ ordered, ∃ m ∈ resolved, m.id = source.mappingId := by
  induction hordered with
  | nil => exact ⟨[], List.nil_subset _, rfl, by simp⟩
  | @snoc ordered source _ _ hparent ih =>
    obtain ⟨hbefore, hlast⟩ := List.append_subset.1 hsubset
    obtain ⟨resolved, hown, hresolved, hids⟩ := ih hbefore
    obtain ⟨m, hm, hclass, hresolves⟩ := h.classMapping_eq_ok hclasses hparts hnodup
      (hlast List.mem_cons_self) hown fun p hp => by
        obtain ⟨x, hx, hid⟩ := Extension.hasId_iff.1 (hparent p hp)
        obtain ⟨m, hm, hmid⟩ := hids x hx
        exact ⟨m, hm, hmid.trans hid⟩
    refine ⟨resolved ++ [m], List.append_subset.2 ⟨hown, by simpa using hm⟩,
      result_resolveFrom_append_singleton hresolved hresolves, fun x hx => ?_⟩
    rcases List.mem_append.1 hx with hx | hx
    · obtain ⟨m', hm', hid⟩ := hids x hx
      exact ⟨m', List.mem_append_left _ hm', hid⟩
    · obtain rfl := List.mem_singleton.1 hx
      exact ⟨m, by simp, hclass.id⟩

end Scope

end ObjectRelational
