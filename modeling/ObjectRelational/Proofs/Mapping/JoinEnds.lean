import ObjectRelational.Proofs.Mapping.Typing

/-!
# Where object properties lead

A property that holds objects can be mapped to joins, and an embedded mapping can name joins that lead to
the properties that it leaves out. Such joins start on the main table of the relational mapping that
owns the property, however deep it is embedded. That they end on the main table of their target is only
checked when all class mappings of the unit are resolved, since targets can be declared later.

* `Occurs`: the property mappings of a level, and those that are embedded in them at any depth.
* `PropertyMapping.LeadsAlong`: the chain of joins that a property mapping goes along, and the id it
  leads to.
* `Scope.mappings_follow`: wherever a mapping leads when it is resolved, it sets out from the main table.
* `object_joins_reach_targets`: wherever a mapping of a resolved unit leads, it arrives.
-/

namespace ObjectRelational

/-! ## Chains of a level -/

/-- A property mapping stands on a level, or it is embedded, at whatever depth, in one that does. -/
inductive Occurs : List PropertyMapping → PropertyMapping → Prop
  | here {l : List PropertyMapping} {m : PropertyMapping} (h : m ∈ l) : Occurs l m
  | embedded {l inner : List PropertyMapping} {m p : PropertyMapping} {id className : String}
      {primaryKey : List Operation} {otherwise : Option Otherwise} (h : m ∈ l)
      (hvalue : m.value = .embedded id className primaryKey inner otherwise)
      (hinner : Occurs inner p) : Occurs l p

/-- A property mapping leads along a chain to the mapping of an id: it is mapped to the chain with
nothing evaluated at its end, or it is embedded and names the chain for all other properties. -/
inductive PropertyMapping.LeadsAlong (m : PropertyMapping) : JoinChain → (id : String) → Prop
  | join {chain : JoinChain} {id : String} {transformer : Option String}
      (htarget : m.targetId = some id) (hvalue : m.value = .relational chain.toOperation transformer)
      (hbare : chain.target = none) : m.LeadsAlong chain id
  | otherwise {id className : String} {primaryKey : List Operation} {inner : List PropertyMapping}
      {o : Otherwise} (hvalue : m.value = .embedded id className primaryKey inner (some o)) :
      m.LeadsAlong o.join o.targetId

/-- A chain connects a table to another one: it starts on the table, goes on step by step and, if there
are any steps, ends on the other table. -/
structure JoinChain.Connects (chain : JoinChain) (source target : TableAlias) : Prop where
  start : chain.source = source
  threads : Threads source.table chain.steps chain.endTable
  finish : chain.steps ≠ [] → chain.endTable = target.table

theorem not_occurs_nil {p : PropertyMapping} : ¬ Occurs [] p := by
  intro h
  cases h with
  | here h => simp at h
  | embedded h _ _ => simp at h

/-- What occurs in two levels together occurs in one of them. -/
theorem occurs_append_iff {l l' : List PropertyMapping} {p : PropertyMapping} :
    Occurs (l ++ l') p ↔ Occurs l p ∨ Occurs l' p := by
  constructor
  · rintro (h | ⟨h, hvalue, hinner⟩)
    · exact (List.mem_append.1 h).imp .here .here
    · exact (List.mem_append.1 h).imp (.embedded · hvalue hinner) (.embedded · hvalue hinner)
  · rintro ((h | ⟨h, hvalue, hinner⟩) | (h | ⟨h, hvalue, hinner⟩))
    · exact .here (List.mem_append_left _ h)
    · exact .embedded (List.mem_append_left _ h) hvalue hinner
    · exact .here (List.mem_append_right _ h)
    · exact .embedded (List.mem_append_right _ h) hvalue hinner

namespace Scope

variable {s : Scope} {own : List ClassMapping} {main : TableAlias} {l l' : List PropertyMapping}

/-! ## The check of the ends -/

theorem checkJoinEnds_eq_ok_iff :
    s.checkJoinEnds own l = .ok () ↔ ∀ m ∈ l, s.checkJoinEnd own m = .ok () := by
  induction l with
  | nil => simp [checkJoinEnds]
  | cons m rest ih => simp [checkJoinEnds, bind_eq_ok_iff, Unique.exists_iff, ih]

theorem checkImplementations_eq_ok_iff {implementations : List SetImplementation} :
    s.checkImplementations own implementations = .ok () ↔
      ∀ i ∈ implementations, s.checkJoinEnds own i.propertyMappings = .ok () := by
  induction implementations with
  | nil => simp [checkImplementations]
  | cons i rest ih => simp [checkImplementations, bind_eq_ok_iff, Unique.exists_iff, ih]

/-- The check of a property mapping is that of its value. -/
theorem checkJoinEnd_eq (m : PropertyMapping) :
    s.checkJoinEnd own m = s.checkValueEnd own m.targetId m.span m.value := by
  cases m
  unfold checkJoinEnd
  rfl

/-- The check of a level reaches every chain that its mappings go along, at any depth. -/
theorem checkEnd_of_checkJoinEnds {p : PropertyMapping} {chain : JoinChain} {id : String}
    (h : s.checkJoinEnds own l = .ok ()) (hp : Occurs l p) (hchain : p.LeadsAlong chain id) :
    ∃ span, s.checkEnd own chain.steps id span = .ok () := by
  induction hp with
  | @here l p hmem =>
    have hvalue := checkJoinEnds_eq_ok_iff.1 h p hmem
    rw [checkJoinEnd_eq] at hvalue
    cases hchain with
    | join htarget hrelational hbare =>
      rw [htarget, hrelational, JoinChain.toOperation, hbare] at hvalue
      unfold checkValueEnd at hvalue
      exact ⟨_, hvalue⟩
    | otherwise hembedded =>
      rw [hembedded] at hvalue
      unfold checkValueEnd at hvalue
      obtain ⟨_, -, hend⟩ := bind_eq_ok_iff.1 hvalue
      exact ⟨_, hend⟩
  | embedded hmem hembedded _ ih =>
    have hvalue := checkJoinEnds_eq_ok_iff.1 h _ hmem
    rw [checkJoinEnd_eq, hembedded] at hvalue
    unfold checkValueEnd at hvalue
    obtain ⟨_, hinner, -⟩ := bind_eq_ok_iff.1 hvalue
    exact ih hinner hchain

/-! ## Setting out -/

/-- An id is known before any mapping is resolved: as the id of a mapping, or as that of a root. -/
inductive Knows (s : Scope) (id : String) : Prop
  | mapping (h : s.classOf? id ≠ none)
  | root {className : String} (h : s.roots.find? className = some id)

/-- Wherever mappings of a level lead, at any depth, they set out from the table, go on step by step, and
make for a mapping that is known. -/
def Follows (s : Scope) (main : TableAlias) (l : List PropertyMapping) : Prop :=
  ∀ p, Occurs l p → ∀ chain id, p.LeadsAlong chain id →
    chain.source = main ∧ Threads main.table chain.steps chain.endTable ∧ s.Knows id

theorem follows_append_iff : s.Follows main (l ++ l') ↔ s.Follows main l ∧ s.Follows main l' := by
  constructor
  · exact fun h => ⟨fun p hp => h p (occurs_append_iff.2 (.inl hp)),
      fun p hp => h p (occurs_append_iff.2 (.inr hp))⟩
  · exact fun h p hp => (occurs_append_iff.1 hp).elim (h.1 p) (h.2 p)

theorem follows_nil : s.Follows main [] :=
  fun _ hp => absurd hp not_occurs_nil

section Single

variable {property sourceId : String} {targetId : Option String}
  {localType : Option Source.LocalProperty} {span : Span}

theorem follows_relational {operation : Operation} {transformer : Option String}
    (h : ∀ chain : JoinChain, ∀ id, targetId = some id → operation = chain.toOperation →
      chain.target = none →
      chain.source = main ∧ Threads main.table chain.steps chain.endTable ∧ s.Knows id) :
    s.Follows main
      [⟨property, sourceId, targetId, localType, .relational operation transformer, span⟩] := by
  rintro p (hmem | ⟨hmem, hvalue, -⟩) chain id hchain
  · obtain rfl := List.mem_singleton.1 hmem
    cases hchain with
    | join htarget hvalue hbare => exact h chain id htarget (PropertyValue.relational.inj hvalue).1 hbare
    | otherwise hvalue => cases hvalue
  · obtain rfl := List.mem_singleton.1 hmem
    cases hvalue

theorem follows_embedded {id className : String} {primaryKey : List Operation}
    {otherwise : Option Otherwise} (hinner : s.Follows main l)
    (h : ∀ o, otherwise = some o → o.join.source = main ∧
      Threads main.table o.join.steps o.join.endTable ∧ s.Knows o.targetId) :
    s.Follows main
      [⟨property, sourceId, targetId, localType, .embedded id className primaryKey l otherwise, span⟩]
    := by
  rintro p (hmem | ⟨hmem, hvalue, hp⟩) chain target hchain
  · obtain rfl := List.mem_singleton.1 hmem
    cases hchain with
    | join _ hvalue _ => cases hvalue
    | otherwise hvalue =>
      obtain ⟨-, -, -, -, ho⟩ := PropertyValue.embedded.inj hvalue
      exact h _ ho
  · obtain rfl := List.mem_singleton.1 hmem
    obtain ⟨-, -, -, rfl, -⟩ := PropertyValue.embedded.inj hvalue
    exact hinner p hp chain target hchain

theorem follows_inline {id : String} :
    s.Follows main [⟨property, sourceId, targetId, localType, .inline id, span⟩] := by
  rintro p (hmem | ⟨hmem, hvalue, -⟩) chain target hchain
  · obtain rfl := List.mem_singleton.1 hmem
    cases hchain with
    | join _ hvalue _ => cases hvalue
    | otherwise hvalue => cases hvalue
  · obtain rfl := List.mem_singleton.1 hmem
    cases hvalue

end Single

/-- The mapping of the versions, which no one writes, leads nowhere. -/
theorem follows_embeddedMapping {owner : String} {span : Span} {versions : Temporal.Versions} :
    s.Follows main [Temporal.embeddedMapping owner main span versions] := by
  refine follows_embedded ?_ (by simp)
  generalize versions.columns = columns
  induction columns with
  | nil => exact follows_nil
  | cons column rest ih =>
    exact follows_append_iff.2 ⟨follows_relational (by rintro _ _ ⟨⟩), ih⟩

theorem follows_milestoning? {header : Header} {declared : List PropertyMapping} :
    s.Follows main (s.milestoning? header main declared).toList := by
  cases h : s.milestoning? header main declared with
  | none => exact follows_nil
  | some m =>
    unfold milestoning? at h
    split at h
    · simp only [Option.bind_eq_bind, Option.bind_eq_some_iff, Option.pure_def] at h
      obtain ⟨_, -, _, -, _, -, _, -, versions, -, hm⟩ := h
      obtain rfl := Option.some.inj hm
      exact follows_embeddedMapping
    · cases h

/-! ## Resolving -/

variable {r : Resolver} {o : PropertyOwner} {name : Name} {property : Model.Property}

theorem knows_of_checkTarget {target : Name} {owner : String}
    (h : s.checkTarget target property owner = .ok ()) : s.Knows target.value := by
  refine .mapping fun hnone => ?_
  unfold checkTarget at h
  rw [hnone] at h
  exact absurd h (found_ne_ok _ _ _)

theorem knows_of_joinTarget {named : Option Name} {target : Option String}
    (h : s.joinTarget o property named = .ok target) : ∀ id, target = some id → s.Knows id := by
  rintro id rfl
  cases named with
  | some name =>
    obtain ⟨_, hcheck, htarget⟩ := map_eq_ok_iff.1 h
    obtain rfl := Option.some.inj htarget
    exact knows_of_checkTarget hcheck
  | none =>
    obtain ⟨className, -, hroot⟩ := Option.bind_eq_some_iff.1 (Except.ok.inj h)
    exact .root hroot

/-- An expression that stands for objects goes from the main table of its owner to a mapping that is
known. -/
theorem follows_of_relationalValue {target : Option Name} {source : Source.Operation}
    {enumerationMapping : Option Name} {resolved : ResolvedBody}
    (h : (s.relationalValue r o name property target source enumerationMapping).result =
      .ok resolved) (property : String) (sourceId : String) (span : Span) :
    s.Follows o.main [⟨property, sourceId, resolved.targetId, none, resolved.value, span⟩] := by
  simp only [relationalValue, Recorded.result_bind_eq_ok_iff] at h
  obtain ⟨operation, hoperation, h⟩ := h
  split at h
  · -- a value leads to no mapping
    split at h
    · exact absurd h (found_ne_ok _ _ _)
    · obtain ⟨transformer, -, h⟩ := Recorded.result_bind_eq_ok_iff.1 h
      obtain rfl := Except.ok.inj h
      exact follows_relational (by rintro _ _ ⟨⟩)
  · split at h
    · exact absurd h (found_ne_ok _ _ _)
    · split at h
      · obtain ⟨target, htarget, h⟩ := Recorded.result_bind_eq_ok_iff.1 h
        obtain rfl := Except.ok.inj h
        refine follows_relational fun chain id hid hchain hbare => ?_
        rw [hchain, JoinChain.toOperation, hbare] at hoperation
        obtain ⟨hsource, hthreads⟩ := Resolver.threads_of_resolve hoperation
        rw [JoinChain.endTable, hsource]
        exact ⟨rfl, hthreads, knows_of_joinTarget htarget id hid⟩
      · exact absurd h (found_ne_ok _ _ _)

/-- So does the way to the properties that an embedded mapping leaves out. -/
theorem follows_of_otherwise? {source : Option Source.Otherwise} {otherwise : Option Otherwise}
    (h : (s.otherwise? r o property source).result = .ok otherwise) :
    ∀ found, otherwise = some found → found.join.source = o.main ∧
      Threads o.main.table found.join.steps found.join.endTable ∧ s.Knows found.targetId := by
  rintro found rfl
  cases source with
  | none => cases h
  | some source =>
    simp only [otherwise?, Resolver.joinPath, Recorded.result_bind_eq_ok_iff,
      Recorded.result_pure] at h
    obtain ⟨_, hcheck, join, hjoin, h⟩ := h
    obtain rfl := Option.some.inj (Except.ok.inj h)
    obtain ⟨hsource, hthreads⟩ := Resolver.threads_of_resolvePath hjoin
    exact ⟨hsource, hthreads, knows_of_checkTarget hcheck⟩

mutual

theorem mapping_follows (o : PropertyOwner) : (m : Source.PropertyMapping) →
    ∀ resolved, (s.mapping r o m).result = .ok resolved → s.Follows o.main [resolved]
  | ⟨name, _, _, some localType, body, span⟩ => by
    intro resolved h
    unfold mapping at h
    obtain ⟨value, hvalue, h⟩ := Recorded.result_bind_eq_ok_iff.1 h
    obtain rfl := Except.ok.inj h
    obtain ⟨operation, rfl, -⟩ := exists_of_localValue hvalue
    exact follows_relational (by rintro _ _ ⟨⟩)
  | ⟨name, _, targetId, none, body, span⟩ => by
    intro resolved h
    unfold mapping at h
    simp only [Recorded.result_bind_eq_ok_iff, Recorded.result_pure] at h
    obtain ⟨property, -, value, hvalue, h⟩ := h
    obtain rfl := Except.ok.inj h
    exact value_follows o name property targetId body value hvalue _ _ _

theorem value_follows (o : PropertyOwner) (name : Name) (property : Model.Property)
    (targetId : Option Name) : (body : Source.PropertyBody) →
    ∀ resolved, (s.value r o name property targetId body).result = .ok resolved →
      ∀ (property sourceId : String) (span : Span), s.Follows o.main
        [⟨property, sourceId, resolved.targetId, none, resolved.value, span⟩]
  | .relational source enumerationMapping => by
    intro resolved h
    unfold value at h
    exact follows_of_relationalValue h
  | .embedded primaryKey propertyMappings otherwise => by
    intro resolved h _ _ _
    unfold value at h
    split at h
    · exact absurd h (found_ne_ok _ _ _)
    · rename_i className hclass
      simp only [Recorded.result_bind_eq_ok_iff, Recorded.result_pure] at h
      obtain ⟨key, -, resolvedMappings, hmappings, resolvedOtherwise, hotherwise, h⟩ := h
      obtain rfl := Except.ok.inj h
      -- the embedded level belongs to an owner of its own, on the same main table
      have hinner := mappings_follow ⟨_, className, o.main⟩ [] propertyMappings _ hmappings
      exact follows_embedded hinner (follows_of_otherwise? hotherwise)
  | .inline target => by
    intro resolved h _ _ _
    simp only [value, inlineValue, Recorded.result_ofResult] at h
    split at h
    · exact absurd h (found_ne_ok _ _ _)
    · obtain ⟨_, -, h⟩ := bind_eq_ok_iff.1 h
      obtain rfl := pure_eq_ok_iff.1 h
      exact follows_inline

theorem mappings_follow (o : PropertyOwner) (seen : List String) :
    (l : List Source.PropertyMapping) → ∀ resolved, (s.mappings r o seen l).result = .ok resolved →
      s.Follows o.main resolved
  | [] => by
    intro resolved h
    unfold mappings at h
    obtain rfl := Except.ok.inj h
    exact follows_nil
  | m :: rest => by
    intro resolved h
    unfold mappings at h
    simp only [Recorded.result_bind_eq_ok_iff, Recorded.result_pure] at h
    obtain ⟨_, -, first, hfirst, others, hothers, h⟩ := h
    obtain rfl := Except.ok.inj h
    exact follows_append_iff.2 ⟨mapping_follows o m first hfirst,
      mappings_follow o (m.property.value :: seen) rest others hothers⟩

end

theorem ResolvedSet.follows {header : Header} {body : Source.RelationalMapping}
    {i : SetImplementation} (h : s.ResolvedSet header body i) :
    s.Follows i.mainTable i.propertyMappings := by
  obtain ⟨r, declared, hdeclared, hall⟩ := h.properties
  rw [hall]
  exact follows_append_iff.2 ⟨mappings_follow _ [] _ _ hdeclared, follows_milestoning?⟩

/-- A unit shows a mapping under every id that is known. -/
theorem exists_of_knows {e : Environment} {compiled : String → Option MappingUnit}
    {source : Source.Mapping} {u : MappingUnit} (h : u.ResolvedFrom e compiled source s) {id : String}
    (hid : s.Knows id) : ∃ target, u.setImplementation? id = some target := by
  cases hid with
  | mapping hclass =>
    rw [classOf?_eq (by rw [h.scope]) (by rw [h.scope]) h.classMappings] at hclass
    cases htarget : u.setImplementation? id with
    | none => simp [htarget] at hclass
    | some target => exact ⟨target, rfl⟩
  | root hroot =>
    have hroots : s.roots = u.roots := by rw [h.scope]
    obtain ⟨c, hc, rfl, -⟩ := exists_effective_of_root h (hroots ▸ hroot)
    exact ⟨_, MappingUnit.setImplementation?_id h.ids_nodup hc⟩

end Scope

/-! ## Units -/

/-- Wherever the property mappings of a resolved unit lead along joins, at any depth, the unit shows a
mapping under the id, and the joins connect the main table of the owner to that of the mapping. -/
theorem object_joins_reach_targets {e : Environment} {compiled : String → Option MappingUnit}
    {source : Source.Mapping} {unit : MappingUnit}
    (h : MappingUnit.resolve e compiled source = .ok unit) :
    ∀ m ∈ unit.classMappings, ∀ i ∈ m.implementations, ∀ p, Occurs i.propertyMappings p →
      ∀ chain id, p.LeadsAlong chain id → ∃ target, unit.setImplementation? id = some target ∧
        chain.Connects i.mainTable target.mainTable := by
  obtain ⟨s, hresolved⟩ := MappingUnit.resolvedFrom_of_resolve h
  intro m hm i hi p hp chain id hchain
  obtain ⟨written, -, hclass⟩ := exists_of_mem_right hresolved.classMappings hm
  obtain ⟨_, -, hset⟩ := exists_of_mem_right hclass.parts hi
  obtain ⟨hstart, hthreads, hknown⟩ := hset.follows p hp chain id hchain
  obtain ⟨target, htarget⟩ := Scope.exists_of_knows hresolved hknown
  refine ⟨target, htarget, hstart, hthreads, fun hsteps => ?_⟩
  -- the second pass went over all relational mappings of the unit
  have hchecked := Scope.checkImplementations_eq_ok_iff.1
    (Scope.checkImplementations_of_classMappings hresolved.resolved) i (List.mem_flatMap.2 ⟨m, hm, hi⟩)
  obtain ⟨span, hend⟩ := Scope.checkEnd_of_checkJoinEnds hchecked hp hchain
  unfold Scope.checkEnd at hend
  rw [Scope.mainTableOf?_eq (by rw [hresolved.scope]), htarget] at hend
  exact Store.endTable_of_checkEnd hend hsteps _

/-- The firm that persons have embedded leads along the join to the mapping of firms that they
include. -/
theorem object_joins_reach_targets_of_persons :
    ∃ unit, MappingUnit.resolve employmentEnvironment compiledFirms personsSource = .ok unit ∧
      (∃ m ∈ unit.classMappings, ∃ i ∈ m.implementations, ∃ p, Occurs i.propertyMappings p ∧
        ∃ chain, p.LeadsAlong chain "Firm" ∧ chain.steps.map (·.name) = ["Employment"]) ∧
      ∀ m ∈ unit.classMappings, ∀ i ∈ m.implementations, ∀ p, Occurs i.propertyMappings p →
        ∀ chain id, p.LeadsAlong chain id → ∃ target, unit.setImplementation? id = some target ∧
          chain.Connects i.mainTable target.mainTable := by
  have hresolves : ∃ unit, MappingUnit.resolve employmentEnvironment compiledFirms personsSource =
      .ok unit ∧ ∃ m ∈ unit.classMappings, ∃ i ∈ m.implementations, ∃ p, Occurs i.propertyMappings p ∧
        ∃ chain, p.LeadsAlong chain "Firm" ∧ chain.steps.map (·.name) = ["Employment"] := by
    with_unfolding_all exact ⟨_, rfl, _, List.mem_cons_self, _, List.mem_cons_self, _,
      .here List.mem_cons_self, _,
      @PropertyMapping.LeadsAlong.otherwise _ _ _ _ _ ⟨"Firm", _⟩ rfl, rfl⟩
  obtain ⟨unit, hunit, hleads⟩ := hresolves
  exact ⟨unit, hunit, hleads, object_joins_reach_targets hunit⟩

end ObjectRelational
