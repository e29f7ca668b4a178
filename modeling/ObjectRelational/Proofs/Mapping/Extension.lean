import ObjectRelational.Proofs.Mapping.Solution

/-!
# What extended mappings hand on

A relational mapping that extends another one takes over its main table, at the time when it is resolved
itself. The other one may stand in the same unit or come with an include, and both may be seen from afar,
through includes that replace databases. Seen from the same unit they still share the main table.

* `MappingUnit.ExtendsUp`: from a relational mapping up, each one shares the main table with the one that
  it extends, until one extends no other.
* `Scope.Inherits`: what a relational mapping has of the one that it extends when it is resolved.
* `MappingUnit.ExtendsUp.through`: an include leaves all of it in sight, with its databases replaced.
* `MappingUnit.Accepted.exists_include`: what a unit sees of included units, a unit sees that it includes
  itself.
* `MappingUnit.ResolvedFrom.extendsSoundly`: resolving a unit hands it on from included units.
-/

namespace ObjectRelational

/-! ## Inheriting -/

namespace Scope

variable {s : Scope} {own : List ClassMapping} {m : ClassMapping} {i : SetImplementation}

/-- If a relational mapping extends another one, that is there to take from, maps the class of the mapping
or a superclass, and has the same main table. -/
def Inherits (s : Scope) (own : List ClassMapping) (i : SetImplementation) : Prop :=
  ∀ superId, i.superId = some superId → ∃ inherited, s.superMapping? own superId = some inherited ∧
    s.model.isAncestorOrSelf inherited.className i.className ∧ i.mainTable = inherited.mainTable

theorem inherits_of_setImplementation {header : Header} {body : Source.RelationalMapping}
    (h : (s.setImplementation own header body).result = .ok i) : s.Inherits own i := by
  unfold setImplementation at h
  simp only [Recorded.result_bind_eq_ok_iff, Recorded.result_monadLift, Recorded.result_pure,
    Except.ok.injEq] at h
  obtain ⟨inherited, hinherited, _, -, main, hmain, _, -, _, -, _, -, _, -, _, -, rfl⟩ := h
  intro superId hsuper
  obtain ⟨name, hname, rfl⟩ := Option.map_eq_some_iff.1 hsuper
  rw [inherited?, hname] at hinherited
  obtain ⟨found, hfound, rfl⟩ := map_eq_ok_iff.1 hinherited
  obtain ⟨hthere, hclass⟩ := of_checkSuper hfound
  exact ⟨found, hthere, hclass, (Except.ok.inj hmain).symm⟩

end Scope

namespace MappingUnit

variable {model : ObjectModel} {u : MappingUnit} {i j : IncludedUnit} {e : Effective SetImplementation}

/-! ## Extending up -/

/-- Following what relational mappings extend, from one on and up, ends with one that extends no other; and
each is shown by the unit with the main table of the one that extends it, and maps the same class or a
superclass. -/
inductive ExtendsUp (model : ObjectModel) (u : MappingUnit) : Effective SetImplementation → Prop
  | top {e : Effective SetImplementation} (h : e.declared.superId = none) : ExtendsUp model u e
  | above {e e' : Effective SetImplementation} {superId : String}
      (hsuper : e.declared.superId = some superId) (hshown : u.setImplementation? superId = some e')
      (hclass : model.isAncestorOrSelf e'.declared.className e.declared.className)
      (htable : e'.mainTable = e.mainTable) (h : ExtendsUp model u e') : ExtendsUp model u e

/-- What an included unit sees of this, the including one sees too. -/
theorem ExtendsUp.through (hu : u.DistinctIds) (hlists : u.Lists i) (h : ExtendsUp model i.unit e) :
    ExtendsUp model u (e.through i.substitution) := by
  induction h with
  | top hnone => exact .top hnone
  | above hsuper hshown hclass htable _ ih =>
    refine .above hsuper (setImplementation?_through hu hlists hshown) hclass ?_ ih
    rw [Effective.mainTable_through, Effective.mainTable_through, htable]

/-- What is reached from a relational mapping by following what is extended, so many times. -/
def extended? (u : MappingUnit) : Nat → Effective SetImplementation → Option (Effective SetImplementation)
  | 0, e => some e
  | n + 1, e => (e.declared.superId.bind u.setImplementation?).bind (u.extended? n)

/-- Following what is extended comes to an end. -/
theorem ExtendsUp.exists_top (h : ExtendsUp model u e) :
    ∃ n top, u.extended? n e = some top ∧ top.declared.superId = none := by
  induction h with
  | @top e hnone => exact ⟨0, e, rfl, hnone⟩
  | above hsuper hshown _ _ _ ih =>
    obtain ⟨n, top, hreached, hnone⟩ := ih
    exact ⟨n + 1, top, by simp [extended?, hsuper, hshown, hreached], hnone⟩

/-- What is extended is shown, and shares the main table. -/
theorem ExtendsUp.exists_super (h : ExtendsUp model u e) {superId : String}
    (hsuper : e.declared.superId = some superId) : ∃ super, u.setImplementation? superId = some super ∧
      model.isAncestorOrSelf super.declared.className e.declared.className ∧
      super.mainTable = e.mainTable := by
  cases h with
  | top hnone =>
    rw [hnone] at hsuper
    cases hsuper
  | above hid hshown hclass htable _ =>
    obtain rfl := Option.some.inj (hid.symm.trans hsuper)
    exact ⟨_, hshown, hclass, htable⟩

/-- All relational mappings that the unit shows extend up. -/
def ExtendsSoundly (model : ObjectModel) (u : MappingUnit) : Prop :=
  ∀ c ∈ u.effectiveClassMappings, ∀ part ∈ c.declared.implementations,
    ExtendsUp model u (c.withDeclared part)

/-! ## Included units -/

/-- What a path of includes leads to is included by the unit itself, or listed by a unit that it
includes. -/
theorem exists_include_of_leads (hincludes : ∀ i ∈ u.includes, i.unit.Accepted)
    (hsame : Include.SameByName u.includes) {path : List IncludedUnit}
    (h : Include.Leads u.includes path j) : ∃ i ∈ u.includes, j = i ∨
      ∃ k ∈ i.unit.flattened, j = ⟨k.unit, k.substitution.andThen i.substitution⟩ := by
  induction h with
  | single hj => exact ⟨_, hj, .inl rfl⟩
  | @snoc path outer inner _ hinner ih =>
    obtain ⟨i, hi, hbehind⟩ := ih
    obtain ⟨_, _, hflattened⟩ := (hincludes i hi).flatten_includes
    have hwork := Include.worklist_flatten (hsame.of_leads (.single hi)) hflattened
    refine ⟨i, hi, .inr ?_⟩
    rcases hbehind with rfl | ⟨k, hk, rfl⟩
    · exact ⟨inner, hwork.mem_of_leads (.single hinner), rfl⟩
    · obtain ⟨_, hpath⟩ := hwork.reached_known k hk
      exact ⟨_, hwork.mem_of_leads (hpath.snoc hinner), by rw [Substitution.andThen_assoc]⟩

/-- What a unit sees of included units is what a unit that it includes sees, seen through the include. -/
theorem Accepted.exists_include (hu : u.Accepted) (hsame : Include.SameByName u.includes)
    {c : Effective ClassMapping} (hc : c ∈ includedClassMappings u.flattened) :
    ∃ i ∈ u.includes, ∃ c' ∈ i.unit.effectiveClassMappings, c = c'.through i.substitution := by
  obtain ⟨j, hj, hseen⟩ := List.mem_flatMap.1 hc
  obtain ⟨m, hm, rfl⟩ := List.mem_map.1 hseen
  obtain ⟨_, _, hflattened⟩ := hu.flatten_includes
  obtain ⟨path, hpath⟩ := (Include.worklist_flatten hsame hflattened).reached_known j hj
  obtain ⟨i, hi, hbehind⟩ := exists_include_of_leads hu.of_mem_includes hsame hpath
  refine ⟨i, hi, ?_⟩
  rcases hbehind with rfl | ⟨k, hk, rfl⟩
  · exact ⟨_, mem_effectiveClassMappings_iff.2 (.inl ⟨m, hm, rfl⟩), rfl⟩
  · exact ⟨_, mem_effectiveClassMappings_iff.2 (.inr ⟨k, hk, m, hm, rfl⟩), rfl⟩

/-- So whatever extends soundly in the units that are included extends soundly in the unit. -/
theorem Accepted.extendsUp_of_included (hu : u.Accepted) (hsame : Include.SameByName u.includes)
    (hincludes : ∀ i ∈ u.includes, i.unit.ExtendsSoundly model) :
    ∀ c ∈ includedClassMappings u.flattened, ∀ part ∈ c.declared.implementations,
      ExtendsUp model u (c.withDeclared part) := by
  intro c hc part hpart
  obtain ⟨i, hi, c', hc', rfl⟩ := hu.exists_include hsame hc
  obtain ⟨_, _, hflattened⟩ := hu.flatten_includes
  have hlisted := (Include.worklist_flatten hsame hflattened).mem_of_leads (.single hi)
  exact (hincludes i hi c' hc' part hpart).through hu.distinctIds (hu.lists hsame hlisted)

/-! ## Resolving -/

section Resolve

variable {environment : Environment} {compiled : String → Option MappingUnit} {source : Source.Mapping}
  {s : Scope} {own : List ClassMapping}

/-- What there is to take while a unit is resolved, it shows afterwards: from one of the mappings that were
resolved already, or from one of an included unit. -/
theorem ResolvedFrom.shows_super (h : u.ResolvedFrom environment compiled source s)
    (hincludes : ∀ i ∈ u.includes, i.unit.Accepted) (hown : own ⊆ u.classMappings) {id : String}
    {inherited : Inherited} (hsuper : s.superMapping? own id = some inherited) :
    ∃ c part, part ∈ c.declared.implementations ∧
      (c ∈ own.map u.seenLocally ∨ c ∈ includedClassMappings u.flattened) ∧
      u.setImplementation? id = some (c.withDeclared part) ∧
      part.className = inherited.className ∧ (c.withDeclared part).mainTable = inherited.mainTable := by
  have hids : u.DistinctIds := h.ids_nodup
  have hincluded : s.includedMappings = includedClassMappings u.flattened := by
    rw [Scope.includedMappings, h.scope]
  unfold Scope.superMapping? at hsuper
  split at hsuper
  · rename_i part hpart
    obtain rfl := Option.some.inj hsuper
    obtain ⟨m, hm, hfound⟩ := mem_of_findImplementation? hpart
    have hseen : u.seenLocally m ∈ u.effectiveClassMappings :=
      mem_effectiveClassMappings_iff.2 (.inl ⟨m, hown hm, rfl⟩)
    exact ⟨u.seenLocally m, part, ClassMapping.mem_implementations_of_findImplementation? hfound,
      .inl (List.mem_map_of_mem hm), (setImplementation?_eq_some_iff hids).2 ⟨_, hseen, part, hfound, rfl⟩,
      rfl, rfl⟩
  · rw [hincluded] at hsuper
    obtain ⟨c, hc, rfl⟩ := Option.map_eq_some_iff.1 hsuper
    have hmem := List.mem_of_find?_eq_some hc
    have hseen : c ∈ u.effectiveClassMappings := List.mem_append_right _ hmem
    obtain rfl : c.declared.id = id := by simpa using List.find?_some hc
    exact ⟨c, c.declared.setImplementation, c.declared.setImplementation_mem, .inr hmem,
      setImplementation?_id hids hseen,
      Scope.className_of_effective h hincludes hseen _ c.declared.setImplementation_mem, rfl⟩

/-- Class mappings extend soundly one after the other, as they are resolved. -/
theorem ResolvedFrom.extendsUp_of_resolveFrom (h : u.ResolvedFrom environment compiled source s)
    (hincludes : ∀ i ∈ u.includes, i.unit.Accepted)
    (hincluded : ∀ c ∈ includedClassMappings u.flattened, ∀ part ∈ c.declared.implementations,
      ExtendsUp environment.model u (c.withDeclared part))
    {l : List Source.ClassMapping} {resolved : List ClassMapping} (hresolved : resolved ⊆ u.classMappings)
    (hown : ∀ m ∈ own, ∀ part ∈ m.implementations,
      ExtendsUp environment.model u (u.seenLocally part))
    (hresolve : (s.resolveFrom own l).result = .ok resolved) :
    ∀ m ∈ resolved, ∀ part ∈ m.implementations,
      ExtendsUp environment.model u (u.seenLocally part) := by
  induction l generalizing own with
  | nil =>
    obtain rfl := Except.ok.inj hresolve
    exact hown
  | cons first rest ih =>
    obtain ⟨m, hm, hrest⟩ := Recorded.result_bind_eq_ok_iff.1 hresolve
    obtain ⟨ms, rfl, -⟩ := Scope.forall₂_resolveFrom hrest
    refine ih (List.forall_mem_append.2 ⟨hown, List.forall_mem_singleton.2 fun part hpart => ?_⟩) hrest
    cases hsuper : part.superId with
    | none => exact .top hsuper
    | some superId =>
      -- the mapping that is extended was resolved before, or comes with an include
      obtain ⟨header, body, hset⟩ := Scope.exists_part_of_classMapping hm part hpart
      obtain ⟨inherited, hthere, hclass, htable⟩ :=
        Scope.inherits_of_setImplementation hset superId hsuper
      have hbefore : own ⊆ u.classMappings := fun x hx => hresolved (by simp [hx])
      obtain ⟨c, above, habove, horigin, hshown, hclassName, hmain⟩ :=
        h.shows_super hincludes hbefore hthere
      have hmodel : s.model = environment.model := by rw [h.scope]
      refine .above hsuper hshown ?_ (hmain.trans htable.symm) ?_
      · rw [← hmodel]
        exact hclassName ▸ hclass
      · rcases horigin with hlocal | hc
        · obtain ⟨x, hx, rfl⟩ := List.mem_map.1 hlocal
          exact hown x hx above habove
        · exact hincluded c hc above habove

/-- A unit that is resolved extends soundly if the units do that it includes. -/
theorem ResolvedFrom.extendsSoundly (h : u.ResolvedFrom environment compiled source s) (hu : u.Accepted)
    (hsame : Include.SameByName u.includes)
    (hincludes : ∀ i ∈ u.includes, i.unit.ExtendsSoundly environment.model) :
    u.ExtendsSoundly environment.model := by
  have hincluded := hu.extendsUp_of_included hsame hincludes
  intro c hc part hpart
  rcases List.mem_append.1 hc with hc | hc
  · obtain ⟨m, hm, rfl⟩ := List.mem_map.1 hc
    have hresolved := h.resolved
    unfold Scope.classMappings at hresolved
    simp only [Recorded.result_bind_eq_ok_iff, Recorded.result_pure, Recorded.result_monadLift,
      Except.ok.injEq] at hresolved
    obtain ⟨ordered, horder, resolved, hresolve, _, -, hdeclared⟩ := hresolved
    have hmem : ∀ m, m ∈ u.classMappings ↔ m ∈ resolved := fun m =>
      hdeclared ▸ Scope.mem_asDeclared_iff horder hresolve
    exact h.extendsUp_of_resolveFrom hu.of_mem_includes hincluded (fun m hm => (hmem m).2 hm)
      (List.forall_mem_nil _) hresolve m ((hmem m).1 hm) part hpart
  · exact hincluded c hc part hpart

end Resolve

end MappingUnit

end ObjectRelational
