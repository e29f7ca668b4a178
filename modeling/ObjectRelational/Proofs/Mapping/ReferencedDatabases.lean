import ObjectRelational.Mapping.Include
import ObjectRelational.Proofs.Mapping.Widening

/-!
# The databases that a unit mentions

An include may replace only databases that the included unit mentions. What is compared with is a list
that is collected from all that the unit shows, by a recursion of its own over expressions, paths and
property mappings; and what is shown through an include has been rewritten by another one.

* `Operation.Mentions`, `PropertyMapping.Mentions`, `SetImplementation.Mentions` and their companions: a
  database stands somewhere in an expression, in a property mapping, in a relational mapping.
* `Operation.mem_databases_iff`, `PropertyMapping.mem_databases_iff`, `SetImplementation.mem_databases_iff`:
  what is collected is what stands there.
* `ClassMapping.Part`: the relational mappings that a class mapping is made of. `MappingUnit.Mentions`: a
  database stands somewhere in what a unit shows.
* `MappingUnit.referencedDatabases_exact`: these are the databases that a unit references, and those that
  an include of it may replace.
-/

namespace ObjectRelational

variable {d : DatabaseId}

/-! ## Where a database stands -/

/-- The database stands somewhere in an expression: with a column, with the table that a path starts from
or with a join on the path, or further inside. -/
inductive Operation.Mentions (d : DatabaseId) : Operation → Prop
  | column {reference : ColumnRef} (h : reference.tableAlias.database = d) :
    Mentions d (.column reference)
  | source {source : TableAlias} {steps : List JoinStep} {target : Option Operation}
    (h : source.database = d) : Mentions d (.join source steps target)
  | step {source : TableAlias} {steps : List JoinStep} {target : Option Operation} {step : JoinStep}
    (hstep : step ∈ steps) (h : step.database = d) : Mentions d (.join source steps target)
  | target {source : TableAlias} {steps : List JoinStep} {target : Operation} (h : target.Mentions d) :
    Mentions d (.join source steps (some target))
  | argument {name : String} {arguments : List Operation} {argument : Operation}
    (hargument : argument ∈ arguments) (h : argument.Mentions d) : Mentions d (.function name arguments)

/-- The database stands somewhere in a path. -/
inductive JoinChain.Mentions (d : DatabaseId) (chain : JoinChain) : Prop
  | source (h : chain.source.database = d)
  | step {step : JoinStep} (hstep : step ∈ chain.steps) (h : step.database = d)
  | target {target : Operation} (htarget : chain.target = some target) (h : target.Mentions d)

/-- The database stands with a filter or with a join that leads to it. -/
inductive FilterPointer.Mentions (d : DatabaseId) (pointer : FilterPointer) : Prop
  | filter (h : pointer.database = d)
  | step {step : JoinStep} (hstep : step ∈ pointer.joins) (h : step.database = d)

/-- The database stands somewhere in a property mapping: in its expression, or in the key of an embedded
mapping, in one of the mappings inside it or in the way that it takes for other properties. -/
inductive PropertyMapping.Mentions (d : DatabaseId) : PropertyMapping → Prop
  | operation {m : PropertyMapping} {operation : Operation} {transformer : Option String}
    (hvalue : m.value = .relational operation transformer) (h : operation.Mentions d) : Mentions d m
  | primaryKey {m : PropertyMapping} {id className : String} {primaryKey : List Operation}
    {inner : List PropertyMapping} {otherwise : Option Otherwise} {operation : Operation}
    (hvalue : m.value = .embedded id className primaryKey inner otherwise)
    (hoperation : operation ∈ primaryKey) (h : operation.Mentions d) : Mentions d m
  | inner {m : PropertyMapping} {id className : String} {primaryKey : List Operation}
    {inner : List PropertyMapping} {otherwise : Option Otherwise} {nested : PropertyMapping}
    (hvalue : m.value = .embedded id className primaryKey inner otherwise)
    (hnested : nested ∈ inner) (h : nested.Mentions d) : Mentions d m
  | otherwise {m : PropertyMapping} {id className : String} {primaryKey : List Operation}
    {inner : List PropertyMapping} {otherwise : Otherwise}
    (hvalue : m.value = .embedded id className primaryKey inner (some otherwise))
    (h : otherwise.join.Mentions d) : Mentions d m

/-- The database stands somewhere in a relational mapping. -/
inductive SetImplementation.Mentions (d : DatabaseId) (s : SetImplementation) : Prop
  | mainTable (h : s.mainTable.database = d)
  | filter {pointer : FilterPointer} (hpointer : s.filter = some pointer) (h : pointer.Mentions d)
  | groupBy {operation : Operation} (hoperation : operation ∈ s.groupBy) (h : operation.Mentions d)
  | primaryKey {operation : Operation} (hoperation : operation ∈ s.primaryKey) (h : operation.Mentions d)
  | property {m : PropertyMapping} (hm : m ∈ s.propertyMappings) (h : m.Mentions d)

/-- The relational mappings that a class mapping is made of: it is one itself, or it has a main part and
aggregates. -/
inductive ClassMapping.Part : ClassMapping → SetImplementation → Prop
  | plain (s : SetImplementation) : Part (.relational s) s
  | main (a : AggregationAware) : Part (.aggregationAware a) a.main
  | aggregate {a : AggregationAware} {view : Aggregate} (hview : view ∈ a.aggregates) :
    Part (.aggregationAware a) view.implementation

/-- The database stands somewhere in what a unit shows: in a relational mapping that one of the class
mappings in sight is made of, as it is seen, or in a property mapping of an association. -/
inductive MappingUnit.Mentions (d : DatabaseId) (u : MappingUnit) : Prop
  | classMapping {e : Effective ClassMapping} {part : SetImplementation}
    (hmapping : e ∈ u.effectiveClassMappings) (hpart : e.declared.Part part)
    (h : (e.withDeclared part).substituted.Mentions d)
  | association {a : AssociationMapping} {m : PropertyMapping}
    (hassociation : a ∈ u.effectiveAssociationMappings) (hm : m ∈ a.propertyMappings) (h : m.Mentions d)

/-! ## What is collected -/

namespace Operation

theorem mem_databases_of_mentions {operation : Operation} (h : operation.Mentions d) :
    d ∈ operation.databases := by
  induction h with
  | column h => simp [databases, h]
  | source h => simp [databases, h]
  | step hstep h => exact List.mem_cons_of_mem _ (List.mem_append_left _ (List.mem_map.2 ⟨_, hstep, h⟩))
  | target _ ih => exact List.mem_cons_of_mem _ (List.mem_append_right _ ih)
  | argument hargument _ ih =>
    rw [databases, databasesOfAll_eq_flatMap]
    exact List.mem_flatMap.2 ⟨_, hargument, ih⟩

mutual

theorem mentions_of_mem_databases : (operation : Operation) → d ∈ operation.databases →
    operation.Mentions d
  | .column reference, h => .column (List.mem_singleton.1 h).symm
  | .join source steps target, h => by
    rcases List.mem_cons.1 h with hsource | h
    · exact .source hsource.symm
    · rcases List.mem_append.1 h with hsteps | htarget
      · obtain ⟨step, hstep, hd⟩ := List.mem_map.1 hsteps
        exact .step hstep hd
      · obtain ⟨found, rfl, hfound⟩ := mentions_of_mem_databasesOfTarget target htarget
        exact .target hfound
  | .literal _, h => by simp [databases] at h
  | .function _ arguments, h => by
    obtain ⟨argument, hargument, hd⟩ := mentions_of_mem_databasesOfAll arguments h
    exact .argument hargument hd

theorem mentions_of_mem_databasesOfTarget : (target : Option Operation) →
    d ∈ databasesOfTarget target → ∃ found, target = some found ∧ found.Mentions d
  | none, h => by simp [databasesOfTarget] at h
  | some target, h => ⟨target, rfl, mentions_of_mem_databases target h⟩

theorem mentions_of_mem_databasesOfAll : (arguments : List Operation) →
    d ∈ databasesOfAll arguments → ∃ argument ∈ arguments, argument.Mentions d
  | [], h => by simp [databasesOfAll] at h
  | argument :: rest, h => by
    rcases List.mem_append.1 h with h | h
    · exact ⟨argument, List.mem_cons_self, mentions_of_mem_databases argument h⟩
    · obtain ⟨other, hother, hd⟩ := mentions_of_mem_databasesOfAll rest h
      exact ⟨other, List.mem_cons_of_mem _ hother, hd⟩

end

theorem mem_databases_iff {operation : Operation} : d ∈ operation.databases ↔ operation.Mentions d :=
  ⟨mentions_of_mem_databases operation, mem_databases_of_mentions⟩

end Operation

theorem JoinChain.mem_databases_iff {chain : JoinChain} : d ∈ chain.databases ↔ chain.Mentions d := by
  obtain ⟨source, steps, target⟩ := chain
  rw [databases, Operation.mem_databases_iff]
  constructor
  · rintro (_ | h | ⟨hstep, h⟩ | h)
    · exact .source h
    · exact .step hstep h
    · exact .target rfl h
  · rintro (h | ⟨hstep, h⟩ | ⟨htarget, h⟩)
    · exact .source h
    · exact .step hstep h
    · obtain rfl : target = some _ := htarget
      exact .target h

theorem FilterPointer.mem_databases_iff {pointer : FilterPointer} :
    d ∈ pointer.databases ↔ pointer.Mentions d := by
  rw [databases, List.mem_cons, List.mem_map]
  constructor
  · rintro (h | ⟨step, hstep, h⟩)
    · exact .filter h.symm
    · exact .step hstep h
  · rintro (h | ⟨hstep, h⟩)
    · exact .inl h.symm
    · exact .inr ⟨_, hstep, h⟩

namespace PropertyMapping

theorem databases_eq (m : PropertyMapping) : m.databases = m.value.databases := by
  cases m
  rfl

theorem mem_databases_of_mentions {m : PropertyMapping} (h : m.Mentions d) : d ∈ m.databases := by
  induction h with
  | operation hvalue h =>
    rw [databases_eq, hvalue]
    exact Operation.mem_databases_iff.2 h
  | primaryKey hvalue hoperation h =>
    rw [databases_eq, hvalue]
    exact List.mem_append_left _ (List.mem_append_left _
      (List.mem_flatMap.2 ⟨_, hoperation, Operation.mem_databases_iff.2 h⟩))
  | inner hvalue hnested _ ih =>
    rw [databases_eq, hvalue]
    unfold PropertyValue.databases
    rw [databasesOfMappings_eq_flatMap]
    exact List.mem_append_left _ (List.mem_append_right _ (List.mem_flatMap.2 ⟨_, hnested, ih⟩))
  | otherwise hvalue h =>
    rw [databases_eq, hvalue]
    exact List.mem_append_right _ (JoinChain.mem_databases_iff.2 h)

mutual

theorem mentions_of_mem_databases : (m : PropertyMapping) → d ∈ m.databases → m.Mentions d
  | ⟨_, _, _, _, .relational _ _, _⟩, h => .operation rfl (Operation.mem_databases_iff.1 h)
  | ⟨_, _, _, _, .embedded _ _ primaryKey inner otherwise, _⟩, h => by
    rcases List.mem_append.1 h with h | h
    · rcases List.mem_append.1 h with hkey | hinner
      · obtain ⟨operation, hoperation, hd⟩ := List.mem_flatMap.1 hkey
        exact .primaryKey rfl hoperation (Operation.mem_databases_iff.1 hd)
      · obtain ⟨nested, hnested, hd⟩ := mentions_of_mem_databasesOfMappings inner hinner
        exact .inner rfl hnested hd
    · cases otherwise with
      | none => simp at h
      | some otherwise => exact .otherwise rfl (JoinChain.mem_databases_iff.1 h)
  | ⟨_, _, _, _, .inline _, _⟩, h => by simp [databases, PropertyValue.databases] at h

theorem mentions_of_mem_databasesOfMappings : (l : List PropertyMapping) →
    d ∈ databasesOfMappings l → ∃ m ∈ l, m.Mentions d
  | [], h => by simp [databasesOfMappings] at h
  | m :: rest, h => by
    rcases List.mem_append.1 h with h | h
    · exact ⟨m, List.mem_cons_self, mentions_of_mem_databases m h⟩
    · obtain ⟨other, hother, hd⟩ := mentions_of_mem_databasesOfMappings rest h
      exact ⟨other, List.mem_cons_of_mem _ hother, hd⟩

end

theorem mem_databases_iff {m : PropertyMapping} : d ∈ m.databases ↔ m.Mentions d :=
  ⟨mentions_of_mem_databases m, mem_databases_of_mentions⟩

end PropertyMapping

theorem SetImplementation.mem_databases_iff {s : SetImplementation} :
    d ∈ s.databases ↔ s.Mentions d := by
  rw [databases, databasesOfMappings_eq_flatMap]
  simp only [List.mem_cons, List.mem_append, List.mem_flatMap, Operation.mem_databases_iff,
    FilterPointer.mem_databases_iff, PropertyMapping.mem_databases_iff, Option.mem_toList]
  constructor
  · rintro (h | ((⟨pointer, hpointer, h⟩ | ⟨operation, hoperation, h⟩) | ⟨operation, hoperation, h⟩) |
      ⟨m, hm, h⟩)
    · exact .mainTable h.symm
    · exact .filter hpointer h
    · exact .groupBy hoperation h
    · exact .primaryKey hoperation h
    · exact .property hm h
  · rintro (h | ⟨hpointer, h⟩ | ⟨hoperation, h⟩ | ⟨hoperation, h⟩ | ⟨hm, h⟩)
    · exact .inl h.symm
    · exact .inr (.inl (.inl (.inl ⟨_, hpointer, h⟩)))
    · exact .inr (.inl (.inl (.inr ⟨_, hoperation, h⟩)))
    · exact .inr (.inl (.inr ⟨_, hoperation, h⟩))
    · exact .inr (.inr ⟨_, hm, h⟩)

theorem ClassMapping.mem_implementations_iff {m : ClassMapping} {part : SetImplementation} :
    part ∈ m.implementations ↔ m.Part part := by
  cases m with
  | relational s =>
    rw [implementations, List.mem_singleton]
    exact ⟨by rintro rfl; exact .plain part, by rintro ⟨_⟩; rfl⟩
  | aggregationAware a =>
    rw [implementations, subImplementations, List.mem_cons, List.mem_map]
    constructor
    · rintro (rfl | ⟨view, hview, rfl⟩)
      · exact .main a
      · exact .aggregate hview
    · rintro (_ | _ | hview)
      · exact .inl rfl
      · exact .inr ⟨_, hview, rfl⟩

namespace MappingUnit

/-- Of a mapping in sight a unit references the databases that stand there as it is seen. -/
theorem mem_databases_substitute_iff {e : Effective ClassMapping} :
    d ∈ e.declared.databases.map e.substitute ↔
      ∃ part, e.declared.Part part ∧ (e.withDeclared part).substituted.Mentions d := by
  -- collecting commutes with mapping, so what is collected as declared and then mapped is what stands
  -- there as the mapping is seen
  have hseen : ∀ part, d ∈ part.databases.map e.substitute ↔
      (e.withDeclared part).substituted.Mentions d := by
    intro part
    rw [← SetImplementation.mem_databases_iff, Effective.databases_substituted]
    rfl
  simp only [ClassMapping.databases, List.map_flatMap, List.mem_flatMap,
    ClassMapping.mem_implementations_iff, hseen]

theorem mem_referencedDatabases_iff {u : MappingUnit} :
    d ∈ u.referencedDatabases.toList ↔ u.Mentions d := by
  rw [referencedDatabases, OrderedSet.mem_toList_ofList, List.mem_append, List.mem_flatMap,
    List.mem_flatMap]
  simp only [mem_databases_substitute_iff, AssociationMapping.databases, databasesOfMappings_eq_flatMap,
    List.mem_flatMap, PropertyMapping.mem_databases_iff]
  constructor
  · rintro (⟨e, he, part, hpart, h⟩ | ⟨a, ha, m, hm, h⟩)
    · exact .classMapping he hpart h
    · exact .association ha hm h
  · rintro (⟨he, hpart, h⟩ | ⟨ha, hm, h⟩)
    · exact .inl ⟨_, he, _, hpart, h⟩
    · exact .inr ⟨_, ha, _, hm, h⟩

end MappingUnit

/-- An include may replace exactly the databases that the included unit mentions. -/
theorem Include.checkMentioned_eq_ok_iff {outer : String} {source : Source.Include} {s : Substitution}
    {included : MappingUnit} {store : Store} :
    checkMentioned outer source s included store = .ok () ↔
      ∀ replaced ∈ s.domain, included.Mentions replaced := by
  have hmentions : ∀ replaced, included.referencedDatabases.contains replaced = true ↔
      included.Mentions replaced := by
    intro replaced
    rw [OrderedMap.contains_iff]
    exact MappingUnit.mem_referencedDatabases_iff
  unfold checkMentioned
  split
  · rename_i hnone
    simpa [hmentions] using hnone
  · rename_i replaced hsome
    have hmissing : ¬ included.Mentions replaced := by
      rw [← hmentions]
      simpa using List.find?_some hsome
    refine iff_of_false (found_ne_ok _ _ _) fun hall => ?_
    exact hmissing (hall replaced (List.mem_of_find?_eq_some hsome))

/-- The databases that a unit references are exactly those that stand somewhere in what it shows, with the
substitutions of its includes; an include may replace exactly these. It does not matter whether the
databases of a property mapping are collected first or mapped first. -/
theorem MappingUnit.referencedDatabases_exact :
    (∀ (m : PropertyMapping) (f : DatabaseId → DatabaseId) (d : DatabaseId),
      (d ∈ m.databases ↔ m.Mentions d) ∧ (m.mapDatabases f).databases = m.databases.map f) ∧
    (∀ (u : MappingUnit) (d : DatabaseId), d ∈ u.referencedDatabases.toList ↔ u.Mentions d) ∧
    ∀ (outer : String) (source : Source.Include) (s : Substitution) (included : MappingUnit)
      (store : Store), Include.checkMentioned outer source s included store = .ok () ↔
        ∀ replaced ∈ s.domain, included.Mentions replaced :=
  ⟨fun m f _ => ⟨PropertyMapping.mem_databases_iff, m.databases_mapDatabases f⟩,
    fun _ _ => mem_referencedDatabases_iff, fun _ _ _ _ _ => Include.checkMentioned_eq_ok_iff⟩

end ObjectRelational
