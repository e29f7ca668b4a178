import ObjectRelational.Mapping.Class
import ObjectRelational.Proofs.Lookup
import ObjectRelational.Proofs.Recorded

/-!
# What class mappings resolve to

The class mappings of a unit are resolved in an order of their own, but when all of them resolve, there
is one for every source, as they were declared. Each is made of relational mappings: one, or a main one
and one for every view.

* `Scope.parts` are the relational mappings that a source asks for.
* `Scope.forall₂_classMappings`: every source has its class mapping.
* `Scope.ResolvedClass`: what a class mapping has of its source. `Scope.resolvedClass_of_classMapping`:
  a class mapping that resolves has it.
-/

namespace ObjectRelational

/-! ## The order -/

namespace Extension

variable {all done path longer l ordered : List Source.ClassMapping} {depth : Nat}
  {m : Source.ClassMapping}

theorem hasId_iff {id : String} : hasId l id ↔ ∃ m ∈ l, m.mappingId = id := by
  simp [hasId]

theorem hasId_iff_mem_map {id : String} : hasId l id ↔ id ∈ l.map (·.mappingId) := by
  rw [hasId_iff, List.mem_map]

theorem mem_of_parent? {p : Source.ClassMapping} (h : parent? all m = some p) : p ∈ all := by
  obtain ⟨superId, -, hfound⟩ := Option.bind_eq_some_iff.1 h
  exact List.mem_of_find?_eq_some hfound

/-- What is passed on the way up is the path before, the mapping itself and mappings of the unit. -/
theorem mem_of_mem_climb (h : climb all done depth path m = .ok longer) :
    ∀ x ∈ longer, x ∈ path ∨ x = m ∨ x ∈ all := by
  induction depth generalizing path m with
  | zero =>
    obtain rfl := Except.ok.inj h
    exact fun x hx => .inl hx
  | succ depth ih =>
    unfold climb at h
    split at h
    · obtain rfl := Except.ok.inj h
      exact fun x hx => .inl hx
    · split at h
      · exact absurd h (found_ne_ok _ _ _)
      · split at h
        · exact absurd h (found_ne_ok _ _ _)
        · obtain rfl := Except.ok.inj h
          exact fun x hx => (List.mem_cons.1 hx).elim (fun hm => .inr (.inl hm)) .inl
        · rename_i p _ hparent
          intro x hx
          rcases ih h x hx with hx | rfl | hx
          · exact (List.mem_cons.1 hx).elim (fun hm => .inr (.inl hm)) .inl
          · exact .inr (.inr (mem_of_parent? hparent))
          · exact .inr (.inr hx)

/-- The way up only gets longer. -/
theorem subset_climb (h : climb all done depth path m = .ok longer) : path ⊆ longer := by
  induction depth generalizing path m with
  | zero =>
    obtain rfl := Except.ok.inj h
    exact List.Subset.refl _
  | succ depth ih =>
    unfold climb at h
    split at h
    · obtain rfl := Except.ok.inj h
      exact List.Subset.refl _
    · split at h
      · exact absurd h (found_ne_ok _ _ _)
      · split at h
        · exact absurd h (found_ne_ok _ _ _)
        · obtain rfl := Except.ok.inj h
          exact List.subset_cons_self _ _
        · exact List.Subset.trans (List.subset_cons_self _ _) (ih h)

/-- A mapping that is followed up is ordered already, or passed. -/
theorem hasId_climb (h : climb all done (depth + 1) [] m = .ok longer) :
    hasId (done ++ longer) m.mappingId := by
  unfold climb at h
  split at h
  · rename_i hdone
    obtain ⟨x, hx, hid⟩ := hasId_iff.1 hdone
    exact hasId_iff.2 ⟨x, List.mem_append_left _ hx, hid⟩
  · have hpassed : m ∈ longer → hasId (done ++ longer) m.mappingId := fun hm =>
      hasId_iff.2 ⟨m, List.mem_append_right _ hm, rfl⟩
    split at h
    · exact absurd h (found_ne_ok _ _ _)
    · split at h
      · exact absurd h (found_ne_ok _ _ _)
      · obtain rfl := Except.ok.inj h
        exact hpassed List.mem_cons_self
      · exact hpassed (subset_climb h List.mem_cons_self)

/-- Only mappings of the unit are ordered. -/
theorem mem_of_mem_orderFrom (hl : l ⊆ all) (h : orderFrom all done l = .ok ordered) :
    ∀ x ∈ ordered, x ∈ done ∨ x ∈ all := by
  induction l generalizing done with
  | nil =>
    obtain rfl := Except.ok.inj h
    exact fun x hx => .inl hx
  | cons m rest ih =>
    obtain ⟨path, hpath, hrest⟩ := bind_eq_ok_iff.1 h
    obtain ⟨hm, hsubset⟩ := List.cons_subset.1 hl
    intro x hx
    rcases ih hsubset hrest x hx with hx | hx
    · rcases List.mem_append.1 hx with hx | hx
      · exact .inl hx
      · rcases mem_of_mem_climb hpath x hx with hx | rfl | hx
        · simp at hx
        · exact .inr hm
        · exact .inr hx
    · exact .inr hx

/-- All that was to be ordered is, behind what was ordered before. -/
theorem subset_orderFrom (h : orderFrom all done l = .ok ordered) :
    done ⊆ ordered ∧ ∀ m ∈ l, hasId ordered m.mappingId := by
  induction l generalizing done with
  | nil =>
    obtain rfl := Except.ok.inj h
    exact ⟨List.Subset.refl _, by simp⟩
  | cons m rest ih =>
    obtain ⟨path, hpath, hrest⟩ := bind_eq_ok_iff.1 h
    obtain ⟨hsubset, hids⟩ := ih hrest
    refine ⟨List.Subset.trans (List.subset_append_left _ _) hsubset, ?_⟩
    intro x hx
    rcases List.mem_cons.1 hx with rfl | hx
    · obtain ⟨y, hy, hid⟩ := hasId_iff.1 (hasId_climb hpath)
      exact hasId_iff.2 ⟨y, hsubset hy, hid⟩
    · exact hids x hx

/-- The order is made of the mappings of the unit, and every id of theirs is in it. -/
theorem order_complete (h : order all = .ok ordered) :
    ordered ⊆ all ∧ ∀ m ∈ all, hasId ordered m.mappingId := by
  refine ⟨fun x hx => ?_, (subset_orderFrom h).2⟩
  simpa using mem_of_mem_orderFrom (List.Subset.refl _) h x hx

end Extension

/-! ## Parts -/

namespace ClassMapping

variable {m : ClassMapping} {i : SetImplementation} {id : String}

/-- What queries run against is one of the relational mappings that a class mapping is made of. -/
theorem setImplementation_mem (m : ClassMapping) : m.setImplementation ∈ m.implementations := by
  cases m <;> exact List.mem_cons_self

theorem subImplementations_subset (m : ClassMapping) : m.subImplementations ⊆ m.implementations := by
  cases m
  · exact List.nil_subset _
  · exact List.Subset.refl _

/-- So is whatever an id denotes. -/
theorem mem_implementations_of_findImplementation? (h : m.findImplementation? id = some i) :
    i ∈ m.implementations := by
  unfold findImplementation? at h
  split at h
  · obtain rfl := Option.some.inj h
    exact m.setImplementation_mem
  · exact m.subImplementations_subset (List.mem_of_find?_eq_some h)

/-- An id denotes a relational mapping exactly when the class mapping takes it. -/
theorem isSome_findImplementation?_iff :
    (m.findImplementation? id).isSome ↔ id ∈ m.ids := by
  unfold findImplementation? ids
  split
  · rename_i hid
    simp [hid]
  · rename_i hid
    simp [List.find?_isSome, Ne.symm hid]

theorem mem_ids_of_findImplementation? (h : m.findImplementation? id = some i) : id ∈ m.ids :=
  isSome_findImplementation?_iff.1 (by simp [h])

end ClassMapping

/-- The relational mappings that a class mapping is written as. -/
def Source.ClassMapping.bodies (source : Source.ClassMapping) : List Source.RelationalMapping :=
  match source.body with
  | .relational body => [body]
  | .aggregationAware main views => main :: views.map (·.aggregateMapping)

namespace Scope

variable {s : Scope} {own : List ClassMapping} {header : Header} {body : Source.RelationalMapping}

/-- The relational mappings that a source asks for, and what they are resolved as. -/
def parts (s : Scope) (source : Source.ClassMapping) : List (Header × Source.RelationalMapping) :=
  match source.body with
  | .relational body => [(s.header source, body)]
  | .aggregationAware main views =>
    (mainHeader (s.header source), main) :: views.zipIdx.map fun view =>
      (aggregateHeader (s.header source) view.2 view.1.span, view.1.aggregateMapping)

theorem map_snd_parts (source : Source.ClassMapping) :
    (s.parts source).map Prod.snd = source.bodies := by
  unfold parts Source.ClassMapping.bodies
  cases source.body with
  | relational body => rfl
  | aggregationAware main views =>
    have hviews : views.zipIdx.map (fun view => view.1.aggregateMapping) =
        views.map (·.aggregateMapping) := by
      calc views.zipIdx.map (fun view => view.1.aggregateMapping)
        _ = (views.zipIdx.map Prod.fst).map (·.aggregateMapping) := List.map_map.symm
        _ = views.map (·.aggregateMapping) := by rw [List.zipIdx_map_fst]
    simp only [List.map_cons, List.map_map, Function.comp_def, hviews]

/-- All parts are mappings of the class. -/
theorem className_of_mem_parts {source : Source.ClassMapping} :
    ∀ part ∈ s.parts source, part.1.className = source.className.value := by
  intro part hpart
  unfold parts at hpart
  cases hbody : source.body with
  | relational body =>
    rw [hbody] at hpart
    obtain rfl := List.mem_singleton.1 hpart
    rfl
  | aggregationAware main views =>
    rw [hbody] at hpart
    rcases List.mem_cons.1 hpart with rfl | hpart
    · rfl
    · obtain ⟨view, -, rfl⟩ := List.mem_map.1 hpart
      rfl

/-- What a mapping inherits is there to take, and comes from a mapping of its class or of a superclass. -/
theorem of_checkSuper {superId : Name} {inherited : Inherited}
    (h : s.checkSuper own header superId body = .ok inherited) :
    s.superMapping? own superId.value = some inherited ∧
      s.model.isAncestorOrSelf inherited.className header.className := by
  unfold checkSuper at h
  split at h
  · exact absurd h (found_ne_ok _ _ _)
  · split at h
    · exact absurd h (found_ne_ok _ _ _)
    · split at h
      · exact absurd h (found_ne_ok _ _ _)
      · rename_i found hfound
        split at h
        · rename_i hclass
          obtain ⟨_, -, h⟩ := bind_eq_ok_iff.1 h
          obtain rfl := pure_eq_ok_iff.1 h
          exact ⟨hfound, hclass⟩
        · exact absurd h (found_ne_ok _ _ _)

/-- A mapping that extends no other one inherits nothing; one that does inherits what there is to take. -/
theorem super_of_inherited? {inherited : Option Inherited}
    (h : s.inherited? own header body = .ok inherited) :
    header.superId = none ∧ inherited = none ∨ ∃ superId found, header.superId = some superId ∧
      s.superMapping? own superId.value = some found ∧ inherited = some found := by
  unfold inherited? at h
  split at h
  · rename_i hnone
    exact .inl ⟨hnone, (Except.ok.inj h).symm⟩
  · rename_i superId hsuper
    obtain ⟨found, hfound, rfl⟩ := map_eq_ok_iff.1 h
    exact .inr ⟨superId, found, hsuper, (of_checkSuper hfound).1, rfl⟩

/-- What a relational mapping has of its header and of its body. -/
structure ResolvedSet (s : Scope) (header : Header) (body : Source.RelationalMapping)
    (i : SetImplementation) : Prop where
  id : i.id = header.id
  className : i.className = header.className
  root : i.root = header.root
  declaredRoot : i.declaredRoot = header.declaredRoot
  properties : ∃ r declared,
    (s.mappings r ⟨header.id, header.className, i.mainTable⟩ [] body.propertyMappings).result =
      .ok declared ∧
    i.propertyMappings = declared ++ (s.milestoning? header i.mainTable declared).toList

theorem resolvedSet_of_setImplementation {i : SetImplementation}
    (h : (s.setImplementation own header body).result = .ok i) : s.ResolvedSet header body i := by
  unfold setImplementation at h
  simp only [Recorded.result_bind_eq_ok_iff, Recorded.result_pure, Except.ok.injEq] at h
  obtain ⟨inherited, -, database, -, main, -, filter, -, groupBy, -, primaryKey, -, declared,
    hdeclared, _, -, rfl⟩ := h
  exact ⟨rfl, rfl, rfl, rfl, _, declared, hdeclared, rfl⟩

/-- Every part of a source is resolved to a relational mapping of the class mapping. -/
theorem forall₂_parts_of_classMapping {source : Source.ClassMapping} {m : ClassMapping}
    (h : (s.classMapping own source).result = .ok m) : List.Forall₂
      (fun part i => (s.setImplementation own part.1 part.2).result = .ok i) (s.parts source)
      m.implementations := by
  unfold classMapping at h
  unfold parts
  cases hbody : source.body with
  | relational body =>
    simp only [hbody, Recorded.result_bind_eq_ok_iff, Recorded.result_pure, Except.ok.injEq] at h
    obtain ⟨i, hi, rfl⟩ := h
    exact .cons hi .nil
  | aggregationAware main views =>
    simp only [hbody, aggregationAware, Recorded.result_bind_eq_ok_iff, Recorded.result_pure,
      Except.ok.injEq] at h
    obtain ⟨_, ⟨i, hi, aggregates, haggregates, rfl⟩, rfl⟩ := h
    refine .cons hi (List.forall₂_map_left_iff.2 (List.forall₂_map_right_iff.2 ?_))
    refine (Recorded.result_forAll_eq_ok_iff.1 haggregates).imp fun view aggregate hview => ?_
    simp only [Scope.aggregate, Recorded.result_bind_eq_ok_iff, Recorded.result_pure,
      Except.ok.injEq] at hview
    obtain ⟨specification, -, implementation, himplementation, rfl⟩ := hview
    exact himplementation

/-- Each relational mapping that a class mapping is made of is resolved from a header and a body. -/
theorem exists_part_of_classMapping {source : Source.ClassMapping} {m : ClassMapping}
    (h : (s.classMapping own source).result = .ok m) : ∀ i ∈ m.implementations,
      ∃ header body, (s.setImplementation own header body).result = .ok i := by
  intro i hi
  obtain ⟨part, -, hpart⟩ := exists_of_mem_right (forall₂_parts_of_classMapping h) hi
  exact ⟨part.1, part.2, hpart⟩

/-- What a class mapping has of its source: the id, the class, whether it is a root, and a relational
mapping for every part. -/
structure ResolvedClass (s : Scope) (source : Source.ClassMapping) (m : ClassMapping) : Prop where
  id : m.id = source.mappingId
  className : m.className = source.className.value
  root : m.root = (s.header source).root
  declaredRoot : m.declaredRoot = source.root
  ids : m.ids = source.mappingId :: source.generatedIds
  parts : List.Forall₂ (fun part i => s.ResolvedSet part.1 part.2 i) (s.parts source)
    m.implementations

theorem resolvedClass_of_classMapping {source : Source.ClassMapping} {m : ClassMapping}
    (h : (s.classMapping own source).result = .ok m) : s.ResolvedClass source m := by
  have hparts := (forall₂_parts_of_classMapping h).imp fun _ _ => resolvedSet_of_setImplementation
  unfold classMapping at h
  cases hbody : source.body with
  | relational body =>
    simp only [hbody, Recorded.result_bind_eq_ok_iff, Recorded.result_pure, Except.ok.injEq] at h
    obtain ⟨i, hi, rfl⟩ := h
    have hset := resolvedSet_of_setImplementation hi
    refine ⟨hset.id, hset.className, hset.root, hset.declaredRoot, ?_, hparts⟩
    simp [ClassMapping.ids, ClassMapping.id, ClassMapping.subImplementations, hset.id, Scope.header,
      Source.ClassMapping.generatedIds, hbody]
  | aggregationAware main views =>
    simp only [hbody, aggregationAware, Recorded.result_bind_eq_ok_iff, Recorded.result_pure,
      Except.ok.injEq] at h
    obtain ⟨_, ⟨i, hi, aggregates, -, rfl⟩, rfl⟩ := h
    refine ⟨rfl, rfl, rfl, rfl, ?_, hparts⟩
    simp only [parts, hbody, ClassMapping.implementations, ClassMapping.subImplementations,
      List.forall₂_cons, List.forall₂_map_left_iff, List.forall₂_map_right_iff] at hparts
    obtain ⟨hset, hviews⟩ := hparts
    have hids : aggregates.map (·.implementation.id) =
        (List.range views.length).map (Source.aggregateId source.mappingId) := by
      rw [← map_eq_map_of_forall₂ hviews fun view aggregate hview => hview.id.symm,
        List.range_eq_range', ← List.zipIdx_map_snd, List.map_map]
      rfl
    simp [ClassMapping.ids, ClassMapping.id, ClassMapping.subImplementations, hset.id, Scope.header,
      mainHeader, Source.ClassMapping.generatedIds, hbody, Function.comp_def, hids]

/-- All relational mappings that a class mapping is made of map its class. -/
theorem ResolvedClass.className_of_mem {source : Source.ClassMapping} {m : ClassMapping}
    (h : s.ResolvedClass source m) : ∀ i ∈ m.implementations, i.className = source.className.value := by
  intro i hi
  obtain ⟨part, hpart, hset⟩ := exists_of_mem_right h.parts hi
  rw [hset.className, className_of_mem_parts part hpart]

/-! ## All class mappings -/

theorem forall₂_resolveFrom {sources : List Source.ClassMapping} {resolved : List ClassMapping}
    (h : (s.resolveFrom own sources).result = .ok resolved) :
    ∃ ms, resolved = own ++ ms ∧ List.Forall₂ s.ResolvedClass sources ms := by
  induction sources generalizing own with
  | nil =>
    obtain rfl := Except.ok.inj h
    exact ⟨[], by simp, .nil⟩
  | cons source rest ih =>
    obtain ⟨m, hm, hrest⟩ := Recorded.result_bind_eq_ok_iff.1 h
    obtain ⟨ms, rfl, hms⟩ := ih hrest
    exact ⟨m :: ms, by simp, .cons (resolvedClass_of_classMapping hm) hms⟩

/-- When all class mappings are resolved in their order, every source has its own. -/
theorem forall₂_asDeclared {sources ordered : List Source.ClassMapping}
    {resolved : List ClassMapping} (hnodup : (sources.map (·.mappingId)).Nodup)
    (horder : Extension.order sources = .ok ordered)
    (hresolved : (s.resolveFrom [] ordered).result = .ok resolved) :
    List.Forall₂ s.ResolvedClass sources (asDeclared sources resolved) := by
  obtain ⟨hsubset, hcomplete⟩ := Extension.order_complete horder
  obtain ⟨_, rfl, hms⟩ := forall₂_resolveFrom hresolved
  unfold asDeclared
  apply forall₂_filterMap
  intro source hsource
  -- what is found under the id of a source was resolved from a source of the same id, and so from it
  obtain ⟨ordered, hordered, hid⟩ := Extension.hasId_iff.1 (hcomplete source hsource)
  obtain ⟨m, hm, hclass⟩ := exists_of_mem_left hms hordered
  have hmid : m.id = source.mappingId := hclass.id.trans hid
  cases hfound : resolved.find? fun m => m.id = source.mappingId with
  | none => simpa [hmid] using List.find?_eq_none.1 hfound m hm
  | some found =>
    obtain ⟨other, hother, hfoundClass⟩ := exists_of_mem_right hms (List.mem_of_find?_eq_some hfound)
    have hfoundId : found.id = source.mappingId := by simpa using List.find?_some hfound
    have hsame : other = source := List.inj_on_of_nodup_map hnodup (hsubset hother) hsource
      (hfoundClass.id.symm.trans hfoundId)
    exact ⟨found, rfl, hsame ▸ hfoundClass⟩

/-- When the class mappings of a unit resolve, every source has its own. -/
theorem forall₂_classMappings {sources : List Source.ClassMapping} {mappings : List ClassMapping}
    (hnodup : (sources.map (·.mappingId)).Nodup)
    (h : (s.classMappings sources).result = .ok mappings) :
    List.Forall₂ s.ResolvedClass sources mappings := by
  unfold classMappings at h
  simp only [Recorded.result_bind_eq_ok_iff, Recorded.result_pure, Except.ok.injEq] at h
  obtain ⟨ordered, hordered, resolved, hresolved, _, -, rfl⟩ := h
  exact forall₂_asDeclared hnodup hordered hresolved

/-- When the class mappings of a unit resolve, all of their joins end where they should. -/
theorem checkImplementations_of_classMappings {sources : List Source.ClassMapping}
    {mappings : List ClassMapping} (h : (s.classMappings sources).result = .ok mappings) :
    s.checkImplementations mappings (mappings.flatMap ClassMapping.implementations) = .ok () := by
  unfold classMappings at h
  simp only [Recorded.result_bind_eq_ok_iff, Recorded.result_pure, Except.ok.injEq] at h
  obtain ⟨_, -, _, -, _, hchecked, rfl⟩ := h
  exact hchecked

end Scope

end ObjectRelational
