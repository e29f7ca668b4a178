import ObjectRelational.Proofs.Mapping.JoinEnds
import ObjectRelational.Proofs.Store.InferredRoots
import ObjectRelational.Proofs.Store.Representation

/-!
# Main tables that are inferred

A relational mapping that extends no other one and names no main table starts from the one table that its
property expressions start from. The expressions of embedded mappings count too, and all of them are then
resolved from that table.

* `RootedOn`: all expressions of a level, at whatever depth, start from a table.
* `Scope.startsOn_of_inferMainTable`: every expression starts from the table that is inferred.
* `Scope.mappings_rooted`: every expression of a level is rooted at the main table when it is resolved.
* `Scope.rooted_of_setImplementation`: so are those of a mapping whose main table is inferred.
* `main_tables_are_roots`: this holds for mappings and for views alike.
-/

namespace ObjectRelational

/-! ## Levels -/

/-- All expressions that properties of the level are mapped to, at whatever depth, start from the table. -/
def RootedOn (table : TableId) (l : List PropertyMapping) : Prop :=
  ∀ p, Occurs l p → ∀ operation transformer, p.value = .relational operation transformer →
    ∀ a ∈ operation.rootAliases, a.table = table

section RootedOn

variable {table : TableId} {l l' : List PropertyMapping} {m : PropertyMapping}

theorem rootedOn_nil : RootedOn table [] := fun _ hp => absurd hp not_occurs_nil

theorem rootedOn_append_iff : RootedOn table (l ++ l') ↔ RootedOn table l ∧ RootedOn table l' := by
  constructor
  · exact fun h => ⟨fun p hp => h p (occurs_append_iff.2 (.inl hp)),
      fun p hp => h p (occurs_append_iff.2 (.inr hp))⟩
  · exact fun h p hp => (occurs_append_iff.1 hp).elim (h.1 p) (h.2 p)

theorem rootedOn_relational {operation : Operation} {transformer : Option String}
    (hvalue : m.value = .relational operation transformer)
    (h : ∀ a ∈ operation.rootAliases, a.table = table) : RootedOn table [m] := by
  rintro p (hmem | ⟨hmem, hembedded, -⟩) other transformer' hp
  · obtain rfl := List.mem_singleton.1 hmem
    obtain ⟨rfl, -⟩ := PropertyValue.relational.inj (hvalue.symm.trans hp)
    exact h
  · obtain rfl := List.mem_singleton.1 hmem
    rw [hvalue] at hembedded
    cases hembedded

theorem rootedOn_embedded {id className : String} {primaryKey : List Operation}
    {otherwise : Option Otherwise} (hvalue : m.value = .embedded id className primaryKey l otherwise)
    (h : RootedOn table l) : RootedOn table [m] := by
  rintro p (hmem | ⟨hmem, hembedded, hinner⟩) operation transformer hp
  · obtain rfl := List.mem_singleton.1 hmem
    rw [hvalue] at hp
    cases hp
  · obtain rfl := List.mem_singleton.1 hmem
    obtain ⟨-, -, -, rfl, -⟩ := PropertyValue.embedded.inj (hvalue.symm.trans hembedded)
    exact h p hinner operation transformer hp

theorem rootedOn_inline {id : String} (hvalue : m.value = .inline id) : RootedOn table [m] := by
  rintro p (hmem | ⟨hmem, hembedded, -⟩) operation transformer hp
  · obtain rfl := List.mem_singleton.1 hmem
    rw [hvalue] at hp
    cases hp
  · obtain rfl := List.mem_singleton.1 hmem
    rw [hvalue] at hembedded
    cases hembedded

end RootedOn

namespace Scope

variable {s : Scope} {own : List ClassMapping} {r : Resolver} {header : Header} {main : TableAlias}

/-! ## The table that is inferred -/

theorem mem_addTables {known roots : List TableAlias} :
    (∀ a ∈ known, a ∈ addTables known roots) ∧
      ∀ a ∈ roots, ∃ t ∈ addTables known roots, t.table = a.table := by
  induction roots generalizing known with
  | nil => exact ⟨fun _ => id, by simp⟩
  | cons root rest ih =>
    unfold addTables
    split
    · rename_i hknown
      obtain ⟨t, ht, hsame⟩ := List.any_eq_true.1 hknown
      exact ⟨ih.1, List.forall_mem_cons.2 ⟨⟨t, ih.1 t ht, of_decide_eq_true hsame⟩, ih.2⟩⟩
    · exact ⟨fun a ha => ih.1 a (List.mem_append_left _ ha),
        List.forall_mem_cons.2 ⟨⟨root, ih.1 root (by simp), rfl⟩, ih.2⟩⟩

/-- The tables that expressions start from are gathered. -/
theorem rootTables_collects {known tables : List TableAlias} {operations : List Source.Operation}
    (h : rootTables r known operations = .ok tables) :
    (∀ a ∈ known, a ∈ tables) ∧ ∀ operation ∈ operations, ∃ found,
      r.inferRoots operation = .ok found ∧ ∀ a ∈ found, ∃ t ∈ tables, t.table = a.table := by
  induction operations generalizing known with
  | nil =>
    obtain rfl := Except.ok.inj h
    exact ⟨fun _ => id, by simp⟩
  | cons operation rest ih =>
    unfold rootTables at h
    obtain ⟨roots, hroots, h⟩ := bind_eq_ok_iff.1 h
    obtain ⟨hkept, hrest⟩ := ih h
    obtain ⟨hknown, hnew⟩ := @mem_addTables known roots
    refine ⟨fun a ha => hkept a (hknown a ha),
      List.forall_mem_cons.2 ⟨⟨roots, hroots, fun a ha => ?_⟩, hrest⟩⟩
    obtain ⟨t, ht, hsame⟩ := hnew a ha
    exact ⟨t, hkept t ht, hsame⟩

/-- Every property expression, at whatever depth, starts from the table that is inferred. -/
theorem startsOn_of_inferMainTable {body : Source.RelationalMapping}
    (h : inferMainTable r header body = .ok main) :
    ∀ operation ∈ Source.operationsOfAll body.propertyMappings, r.StartsOn main.table operation := by
  unfold inferMainTable at h
  obtain ⟨tables, htables, h⟩ := bind_eq_ok_iff.1 h
  split at h
  · exact absurd h (found_ne_ok _ _ _)
  · obtain rfl := pure_eq_ok_iff.1 h
    intro operation hoperation
    obtain ⟨found, hfound, hall⟩ := (rootTables_collects htables).2 operation hoperation
    refine ⟨found, hfound, fun a ha => ?_⟩
    obtain ⟨t, ht, hsame⟩ := hall a ha
    rw [← hsame, List.mem_singleton.1 ht]
  · exact absurd h (found_ne_ok _ _ _)

/-! ## Levels that are resolved -/

variable {o : PropertyOwner} {name : Name} {property : Model.Property}

theorem rooted_of_localValue (hr : r.selfJoinTarget = none) {body : Source.PropertyBody}
    (hstarts : ∀ operation ∈ Source.PropertyBody.operations body, r.StartsOn o.main.table operation)
    {value : PropertyValue} (h : (localValue r o name body).result = .ok value)
    {m : PropertyMapping} (hm : m.value = value) : RootedOn o.main.table [m] := by
  unfold localValue at h
  split at h
  · rename_i source
    obtain ⟨operation, hoperation, h⟩ := Recorded.result_bind_eq_ok_iff.1 h
    obtain rfl := Except.ok.inj h
    unfold dataOperation at hoperation
    obtain ⟨resolved, hresolved, h⟩ := Recorded.result_bind_eq_ok_iff.1 hoperation
    split at h
    · exact absurd h (found_ne_ok _ _ _)
    · obtain rfl := Except.ok.inj h
      exact rootedOn_relational hm (Resolver.rootAliases_of_resolve hr
        (hstarts source (by simp [Source.PropertyBody.operations])) hresolved)
  · exact absurd h (found_ne_ok _ _ _)
  · exact absurd h (found_ne_ok _ _ _)
  · exact absurd h (found_ne_ok _ _ _)

/-- Whatever a property is mapped to by an expression is the expression that is resolved. -/
theorem exists_of_relationalValue {target : Option Name} {source : Source.Operation}
    {enumerationMapping : Option Name} {resolved : ResolvedBody}
    (h : (s.relationalValue r o name property target source enumerationMapping).result =
      .ok resolved) :
    ∃ operation transformer, (r.resolve (some o.main) source).result = .ok operation ∧
      resolved.value = .relational operation transformer := by
  simp only [relationalValue, Recorded.result_bind_eq_ok_iff] at h
  obtain ⟨operation, hoperation, h⟩ := h
  split at h
  · split at h
    · exact absurd h (found_ne_ok _ _ _)
    · obtain ⟨transformer, -, h⟩ := Recorded.result_bind_eq_ok_iff.1 h
      obtain rfl := Except.ok.inj h
      exact ⟨operation, transformer, hoperation, rfl⟩
  · split at h
    · exact absurd h (found_ne_ok _ _ _)
    · split at h
      · obtain ⟨target, -, h⟩ := Recorded.result_bind_eq_ok_iff.1 h
        obtain rfl := Except.ok.inj h
        exact ⟨operation, none, hoperation, rfl⟩
      · exact absurd h (found_ne_ok _ _ _)

mutual

theorem mapping_rooted (hr : r.selfJoinTarget = none) (o : PropertyOwner) :
    (m : Source.PropertyMapping) → ∀ resolved,
      (∀ operation ∈ Source.PropertyMapping.operations m, r.StartsOn o.main.table operation) →
        (s.mapping r o m).result = .ok resolved → RootedOn o.main.table [resolved]
  | ⟨name, _, _, some localType, body, span⟩ => by
    intro resolved hstarts h
    unfold mapping at h
    obtain ⟨value, hvalue, h⟩ := Recorded.result_bind_eq_ok_iff.1 h
    obtain rfl := Except.ok.inj h
    unfold Source.PropertyMapping.operations at hstarts
    exact rooted_of_localValue hr hstarts hvalue rfl
  | ⟨name, _, targetId, none, body, span⟩ => by
    intro resolved hstarts h
    unfold mapping at h
    simp only [Recorded.result_bind_eq_ok_iff, Recorded.result_pure] at h
    obtain ⟨property, -, value, hvalue, h⟩ := h
    obtain rfl := Except.ok.inj h
    unfold Source.PropertyMapping.operations at hstarts
    exact value_rooted hr o name property targetId body value hstarts hvalue _ rfl

theorem value_rooted (hr : r.selfJoinTarget = none) (o : PropertyOwner) (name : Name)
    (property : Model.Property) (targetId : Option Name) : (body : Source.PropertyBody) →
    ∀ resolved,
      (∀ operation ∈ Source.PropertyBody.operations body, r.StartsOn o.main.table operation) →
        (s.value r o name property targetId body).result = .ok resolved →
          ∀ m : PropertyMapping, m.value = resolved.value → RootedOn o.main.table [m]
  | .relational source enumerationMapping => by
    intro resolved hstarts h m hm
    unfold value at h
    obtain ⟨operation, transformer, hoperation, hvalue⟩ := exists_of_relationalValue h
    exact rootedOn_relational (hm.trans hvalue) (Resolver.rootAliases_of_resolve hr
      (hstarts source (by simp [Source.PropertyBody.operations])) hoperation)
  | .embedded primaryKey propertyMappings otherwise => by
    intro resolved hstarts h m hm
    unfold value at h
    split at h
    · exact absurd h (found_ne_ok _ _ _)
    · rename_i className hclass
      simp only [Recorded.result_bind_eq_ok_iff, Recorded.result_pure] at h
      obtain ⟨key, -, inner, hinner, resolvedOtherwise, -, h⟩ := h
      obtain rfl := Except.ok.inj h
      unfold Source.PropertyBody.operations at hstarts
      -- the embedded level belongs to an owner of its own, on the same main table
      exact rootedOn_embedded hm
        (mappings_rooted hr ⟨_, className, o.main⟩ [] propertyMappings inner hstarts hinner)
  | .inline target => by
    intro resolved _ h m hm
    simp only [value, inlineValue, Recorded.result_ofResult] at h
    split at h
    · exact absurd h (found_ne_ok _ _ _)
    · obtain ⟨_, -, h⟩ := bind_eq_ok_iff.1 h
      obtain rfl := pure_eq_ok_iff.1 h
      exact rootedOn_inline hm

/-- When all expressions of a level start from the main table of its owner, they are rooted there when they
are resolved. -/
theorem mappings_rooted (hr : r.selfJoinTarget = none) (o : PropertyOwner) (seen : List String) :
    (l : List Source.PropertyMapping) → ∀ resolved,
      (∀ operation ∈ Source.operationsOfAll l, r.StartsOn o.main.table operation) →
        (s.mappings r o seen l).result = .ok resolved → RootedOn o.main.table resolved
  | [] => by
    intro resolved _ h
    unfold mappings at h
    obtain rfl := Except.ok.inj h
    exact rootedOn_nil
  | m :: rest => by
    intro resolved hstarts h
    unfold mappings at h
    simp only [Recorded.result_bind_eq_ok_iff, Recorded.result_pure] at h
    obtain ⟨_, -, first, hfirst, others, hothers, h⟩ := h
    obtain rfl := Except.ok.inj h
    unfold Source.operationsOfAll at hstarts
    obtain ⟨hm, hrest⟩ := List.forall_mem_append.1 hstarts
    exact rootedOn_append_iff.2 ⟨mapping_rooted hr o m first hm hfirst,
      mappings_rooted hr o (m.property.value :: seen) rest others hrest hothers⟩

end

/-- The versions of a temporal class are columns of the main table. -/
theorem rootedOn_milestoning? {declared : List PropertyMapping} :
    RootedOn main.table (s.milestoning? header main declared).toList := by
  cases h : s.milestoning? header main declared with
  | none => exact rootedOn_nil
  | some m =>
    unfold milestoning? at h
    split at h
    · simp only [Option.bind_eq_bind, Option.bind_eq_some_iff, Option.pure_def] at h
      obtain ⟨_, -, _, -, _, -, _, -, versions, -, hm⟩ := h
      obtain rfl := Option.some.inj hm
      refine rootedOn_embedded rfl ?_
      generalize versions.columns = columns
      induction columns with
      | nil => exact rootedOn_nil
      | cons column rest ih =>
        refine rootedOn_append_iff.2 ⟨rootedOn_relational rfl fun a ha => ?_, ih⟩
        simp only [Operation.rootAliases, Operation.roots, List.mem_eraseDups,
          List.mem_singleton] at ha
        rw [ha]
    · cases h

/-- A mapping that names no main table and extends no other one has the table that is inferred, and all its
property expressions start from there. -/
theorem rooted_of_setImplementation {body : Source.RelationalMapping} {i : SetImplementation}
    (h : (s.setImplementation own header body).result = .ok i) (hmain : body.mainTable = none)
    (hsuper : header.superId = none) :
    (∃ database, s.defaultDatabase header body none = .ok database ∧
      inferMainTable (s.resolverIn database) header body = .ok i.mainTable) ∧
      RootedOn i.mainTable.table i.propertyMappings := by
  unfold setImplementation at h
  simp only [Recorded.result_bind_eq_ok_iff, Recorded.result_pure, Except.ok.injEq] at h
  obtain ⟨inherited, hinherited, database, hdatabase, main, hresolved, filter, -, groupBy, -,
    primaryKey, -, declared, hdeclared, _, -, rfl⟩ := h
  obtain rfl : inherited = none := by
    unfold inherited? at hinherited
    rw [hsuper] at hinherited
    exact (Except.ok.inj hinherited).symm
  have hinferred : inferMainTable (s.resolverIn database) header body = .ok main := by
    unfold mainTable at hresolved
    rw [hmain] at hresolved
    exact hresolved
  refine ⟨⟨database, hdatabase, hinferred⟩, rootedOn_append_iff.2 ⟨?_, rootedOn_milestoning?⟩⟩
  exact mappings_rooted rfl ⟨header.id, header.className, main⟩ [] _ _
    (startsOn_of_inferMainTable hinferred) hdeclared

end Scope

/-! ## Mappings and views -/

/-- Every property expression of a mapping whose main table is inferred, at whatever depth, starts from that
table. Every view of a store that is built is about its main table, which its database sees. -/
theorem main_tables_are_roots :
    (∀ (s : Scope) (own : List ClassMapping) (header : Header) (body : Source.RelationalMapping)
      (i : SetImplementation), (s.setImplementation own header body).result = .ok i →
        body.mainTable = none → header.superId = none →
          (∃ database, s.defaultDatabase header body none = .ok database ∧
            Scope.inferMainTable (s.resolverIn database) header body = .ok i.mainTable) ∧
          ∀ p, Occurs i.propertyMappings p → ∀ operation transformer,
            p.value = .relational operation transformer →
              ∀ a ∈ operation.rootAliases, a.table = i.mainTable.table) ∧
    ∀ (settings : ResolutionSettings) (sources : List Source.Database) (store : Store),
      Store.build settings sources = .ok store → ∀ table ∈ store.tables, ∀ v,
        table.view = some v → v.Rooted ∧ store.SeesTable table.database v.mainTable.table :=
  ⟨fun _ _ _ _ _ => Scope.rooted_of_setImplementation, fun _ _ _ => Store.views_rooted⟩

/-- What persons can refer to. -/
def personsScope : Scope where
  toEnvironment := employmentEnvironment
  unit := "persons"
  included := []
  enumerationMappings := []
  classes := [("Person", "Person")]
  roots := .empty

/-- Persons with their firm embedded, whose name is the one in their own table. -/
def embeddedFirm : Source.RelationalMapping where
  propertyMappings := [⟨⟨"firm", {}⟩, none, none, none, .embedded []
    [⟨⟨"legalName", {}⟩, none, none, none, .relational (.column {
      database := some ⟨"db", {}⟩
      table := ⟨"PERSON", {}⟩
      column := ⟨"FIRM", {}⟩ }) none, {}⟩] none, {}⟩]

/-- The table of persons is inferred from the name of their firm, and the view of those who are employed
from what it shows of them. -/
theorem main_tables_are_roots_of_persons :
    (∃ i, (personsScope.setImplementation [] ⟨"Person", "Person", true, true, none, {}⟩
        embeddedFirm).result = .ok i ∧
      i.mainTable.name = "PERSON" ∧
      (∃ p, Occurs i.propertyMappings p ∧ p.property = "legalName") ∧
      ∀ p, Occurs i.propertyMappings p → ∀ operation transformer,
        p.value = .relational operation transformer →
          ∀ a ∈ operation.rootAliases, a.table = i.mainTable.table) ∧
    ∃ store, Store.build {} [Store.employeeTables] = .ok store ∧ ∀ table ∈ store.tables, ∀ v,
      table.view = some v → v.Rooted ∧ store.SeesTable table.database v.mainTable.table := by
  have hresolves : ∃ i, (personsScope.setImplementation [] ⟨"Person", "Person", true, true, none, {}⟩
      embeddedFirm).result = .ok i ∧ i.mainTable.name = "PERSON" ∧
        ∃ p, Occurs i.propertyMappings p ∧ p.property = "legalName" := by
    with_unfolding_all exact ⟨_, rfl, rfl, _,
      .embedded List.mem_cons_self rfl (.here List.mem_cons_self), rfl⟩
  obtain ⟨i, hi, hname, hembedded⟩ := hresolves
  obtain ⟨store, hbuild⟩ : ∃ store, Store.build {} [Store.employeeTables] = .ok store :=
    Store.exists_of_isSome_toOption (by decide +kernel)
  exact ⟨⟨i, hi, hname, hembedded, (main_tables_are_roots.1 _ _ _ _ i hi rfl rfl).2⟩, store, hbuild,
    main_tables_are_roots.2 _ _ store hbuild⟩

end ObjectRelational
