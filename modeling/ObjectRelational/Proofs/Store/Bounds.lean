import ObjectRelational.Mapping.Basic
import ObjectRelational.Proofs.Mapping.Databases
import ObjectRelational.Proofs.Substitution
import ObjectRelational.Store.Basic

/-!
# Handles within a store

Handles are positions in the lists of a store. What refers to a store fits in it when all of its handles
are within bounds, its columns are there, and its steps lead from one side of a join to the other. A
store is closed when all of its own elements fit in it.

* `Store.HasDatabase` and its companions: handles within bounds. `Store.Grows`: what one store has, the
  other has too.
* `Operation.FitsIn` and its companions say what fits, `FitsIn.grow` and `FitsIn.mapAliases` what keeps
  it.
* `Store.Closed`: a store all of whose elements fit in it.
-/

namespace ObjectRelational

namespace Store

/-! ## Handles -/

/-- The handle is one of a database of the store. -/
def HasDatabase (store : Store) (id : DatabaseId) : Prop := id.index < store.databases.length

/-- The handle is one of a table of the store. -/
def HasTable (store : Store) (id : TableId) : Prop := id.index < store.tables.length

/-- The handle is one of a join of the store. -/
def HasJoin (store : Store) (id : JoinId) : Prop := id.index < store.joins.length

/-- The handle is one of a filter of the store. -/
def HasFilter (store : Store) (id : FilterId) : Prop := id.index < store.filters.length

/-- The table of the handle has a column of the name. -/
def HasColumn (store : Store) (id : TableId) (name : String) : Prop :=
  ∃ t, store.table? id = some t ∧ (t.column? name).isSome

/-- The join leads from the one table to the other. -/
def Leads (store : Store) (id : JoinId) (source target : TableId) : Prop :=
  ∃ j, store.join? id = some j ∧ j.otherSide? source = some target

/-- All that is there in the first store is there in the second one. -/
structure Grows (s s' : Store) : Prop where
  database : ∀ {id}, s.HasDatabase id → s'.HasDatabase id
  table : ∀ {id}, s.HasTable id → s'.HasTable id
  join : ∀ {id}, s.HasJoin id → s'.HasJoin id
  filter : ∀ {id}, s.HasFilter id → s'.HasFilter id
  column : ∀ {id name}, s.HasColumn id name → s'.HasColumn id name
  leads : ∀ {id source target}, s.Leads id source target → s'.Leads id source target

theorem Grows.refl (s : Store) : s.Grows s := ⟨id, id, id, id, id, id⟩

theorem Grows.trans {s s' s'' : Store} (h : s.Grows s') (h' : s'.Grows s'') : s.Grows s'' :=
  ⟨h'.database ∘ h.database, h'.table ∘ h.table, h'.join ∘ h.join, h'.filter ∘ h.filter,
    h'.column ∘ h.column, h'.leads ∘ h.leads⟩

end Store

/-! ## What fits -/

/-- The table and the database are within bounds. -/
structure TableAlias.FitsIn (store : Store) (a : TableAlias) : Prop where
  table : store.HasTable a.table
  database : store.HasDatabase a.database

theorem TableAlias.FitsIn.of_some {store : Store} {a : TableAlias} (h : a.FitsIn store) :
    ∀ b, some a = some b → b.FitsIn store := by
  rintro b ⟨⟩
  exact h

/-- The table is within bounds and has the column. -/
structure ColumnRef.FitsIn (store : Store) (c : ColumnRef) : Prop where
  tableAlias : c.tableAlias.FitsIn store
  column : store.HasColumn c.tableAlias.table c.column

/-- All handles of a step are within bounds, and it leads from the one side of the join to the other. -/
structure JoinStep.FitsIn (store : Store) (step : JoinStep) : Prop where
  join : store.HasJoin step.join
  database : store.HasDatabase step.database
  source : store.HasTable step.source
  target : store.HasTable step.target
  leads : store.Leads step.join step.source step.target

/-- All that an expression refers to fits, at any depth. -/
inductive Operation.FitsIn (store : Store) : Operation → Prop
  | column {reference : ColumnRef} (h : reference.FitsIn store) : FitsIn store (.column reference)
  | join {source : TableAlias} {steps : List JoinStep} {target : Option Operation}
      (hsource : source.FitsIn store) (hsteps : ∀ step ∈ steps, step.FitsIn store)
      (htarget : ∀ operation, target = some operation → FitsIn store operation) :
      FitsIn store (.join source steps target)
  | literal {value : Literal} : FitsIn store (.literal value)
  | function {name : String} {arguments : List Operation}
      (h : ∀ argument ∈ arguments, FitsIn store argument) : FitsIn store (.function name arguments)

/-- A chain fits as an expression. -/
def JoinChain.FitsIn (store : Store) (chain : JoinChain) : Prop := chain.toOperation.FitsIn store

/-- The handles of a filter pointer are within bounds, and its joins fit. -/
structure FilterPointer.FitsIn (store : Store) (pointer : FilterPointer) : Prop where
  filter : store.HasFilter pointer.filter
  database : store.HasDatabase pointer.database
  joins : ∀ step ∈ pointer.joins, step.FitsIn store

/-- All that a property mapping refers to fits, at any depth of embedding. -/
inductive PropertyMapping.FitsIn (store : Store) : PropertyMapping → Prop
  | relational {m : PropertyMapping} {operation : Operation} {transformer : Option String}
      (hvalue : m.value = .relational operation transformer) (h : operation.FitsIn store) :
      FitsIn store m
  | embedded {m : PropertyMapping} {id className : String} {primaryKey : List Operation}
      {inner : List PropertyMapping} {otherwise : Option Otherwise}
      (hvalue : m.value = .embedded id className primaryKey inner otherwise)
      (hkey : ∀ operation ∈ primaryKey, operation.FitsIn store)
      (hinner : ∀ p ∈ inner, FitsIn store p)
      (hotherwise : ∀ o, otherwise = some o → o.join.FitsIn store) : FitsIn store m
  | inline {m : PropertyMapping} {id : String} (hvalue : m.value = .inline id) : FitsIn store m

/-- All that a relational mapping refers to fits. -/
structure SetImplementation.FitsIn (store : Store) (i : SetImplementation) : Prop where
  mainTable : i.mainTable.FitsIn store
  filter : ∀ pointer, i.filter = some pointer → pointer.FitsIn store
  groupBy : ∀ operation ∈ i.groupBy, operation.FitsIn store
  primaryKey : ∀ operation ∈ i.primaryKey, operation.FitsIn store
  propertyMappings : ∀ m ∈ i.propertyMappings, m.FitsIn store

/-- All that a class mapping is made of fits. -/
def ClassMapping.FitsIn (store : Store) (m : ClassMapping) : Prop :=
  ∀ i ∈ m.implementations, i.FitsIn store

/-- All that an association mapping refers to fits. -/
def AssociationMapping.FitsIn (store : Store) (a : AssociationMapping) : Prop :=
  ∀ m ∈ a.propertyMappings, m.FitsIn store

/-- The databases that are replaced, and those that stand for them, are within bounds. -/
def Substitution.FitsIn (store : Store) (s : Substitution) : Prop :=
  ∀ replaced substitute, s.replacements.find? replaced = some substitute →
    store.HasDatabase replaced ∧ store.HasDatabase substitute

/-- All that a view refers to fits. -/
structure View.FitsIn (store : Store) (v : View) : Prop where
  mainTable : v.mainTable.FitsIn store
  filter : ∀ pointer, v.filter = some pointer → pointer.FitsIn store
  groupBy : ∀ operation ∈ v.groupBy, operation.FitsIn store
  columns : ∀ c ∈ v.columns, c.operation.FitsIn store

/-- The elements of a database, and the databases that it includes, are within bounds. -/
structure Database.FitsIn (store : Store) (d : Database) : Prop where
  includes : ∀ id ∈ d.includes, store.HasDatabase id
  tables : ∀ s ∈ d.schemas, ∀ t ∈ s.tables, store.HasTable t.2
  joins : ∀ j ∈ d.joins, store.HasJoin j.2
  filters : ∀ f ∈ d.filters, store.HasFilter f.2

/-- A table belongs to a database of the store and its columns to a table of the store, the columns that
hold the times of its rows are there, and if it is a view, its definition fits. -/
structure Table.FitsIn (store : Store) (t : Table) : Prop where
  database : store.HasDatabase t.database
  columns : ∀ c ∈ t.columns, store.HasTable c.table
  milestoning : ∀ m, t.milestoning = some m → ∀ name ∈ m.columns, (t.column? name).isSome
  view : ∀ v, t.view = some v → v.FitsIn store

/-- A join belongs to a database of the store and connects tables of the store, and its condition
fits. -/
structure Join.FitsIn (store : Store) (j : Join) : Prop where
  database : store.HasDatabase j.database
  tables : ∀ t ∈ j.tables, store.HasTable t
  condition : j.condition.FitsIn store

/-- A filter belongs to a database of the store and is about tables of the store, and its condition
fits. -/
structure Filter.FitsIn (store : Store) (f : Filter) : Prop where
  database : store.HasDatabase f.database
  tables : ∀ t ∈ f.tables, store.HasTable t
  condition : f.condition.FitsIn store

/-- Nothing in the store refers to anything that is not there. -/
structure Store.Closed (store : Store) : Prop where
  databases : ∀ d ∈ store.databases, d.FitsIn store
  tables : ∀ t ∈ store.tables, t.FitsIn store
  joins : ∀ j ∈ store.joins, j.FitsIn store
  filters : ∀ f ∈ store.filters, f.FitsIn store

/-! ## Growing -/

section Grow

variable {s s' : Store} (hgrows : s.Grows s')
include hgrows

theorem TableAlias.FitsIn.grow {a : TableAlias} (h : a.FitsIn s) : a.FitsIn s' :=
  ⟨hgrows.table h.table, hgrows.database h.database⟩

theorem JoinStep.FitsIn.grow {step : JoinStep} (h : step.FitsIn s) : step.FitsIn s' :=
  ⟨hgrows.join h.join, hgrows.database h.database, hgrows.table h.source, hgrows.table h.target,
    hgrows.leads h.leads⟩

theorem Operation.FitsIn.grow {operation : Operation} (h : operation.FitsIn s) :
    operation.FitsIn s' := by
  induction h with
  | column h => exact .column ⟨h.tableAlias.grow hgrows, hgrows.column h.column⟩
  | join hsource hsteps _ ih =>
    exact .join (hsource.grow hgrows) (fun step hstep => (hsteps step hstep).grow hgrows) ih
  | literal => exact .literal
  | function _ ih => exact .function ih

theorem FilterPointer.FitsIn.grow {pointer : FilterPointer} (h : pointer.FitsIn s) :
    pointer.FitsIn s' :=
  ⟨hgrows.filter h.filter, hgrows.database h.database,
    fun step hstep => (h.joins step hstep).grow hgrows⟩

theorem View.FitsIn.grow {v : View} (h : v.FitsIn s) : v.FitsIn s' :=
  ⟨h.mainTable.grow hgrows, fun pointer hpointer => (h.filter pointer hpointer).grow hgrows,
    fun operation hoperation => (h.groupBy operation hoperation).grow hgrows,
    fun c hc => (h.columns c hc).grow hgrows⟩

theorem Database.FitsIn.grow {d : Database} (h : d.FitsIn s) : d.FitsIn s' :=
  ⟨fun id hid => hgrows.database (h.includes id hid),
    fun schema hschema t ht => hgrows.table (h.tables schema hschema t ht),
    fun j hj => hgrows.join (h.joins j hj), fun f hf => hgrows.filter (h.filters f hf)⟩

theorem Table.FitsIn.grow {t : Table} (h : t.FitsIn s) : t.FitsIn s' :=
  ⟨hgrows.database h.database, fun c hc => hgrows.table (h.columns c hc), h.milestoning,
    fun v hv => (h.view v hv).grow hgrows⟩

theorem Join.FitsIn.grow {j : Join} (h : j.FitsIn s) : j.FitsIn s' :=
  ⟨hgrows.database h.database, fun t ht => hgrows.table (h.tables t ht), h.condition.grow hgrows⟩

theorem Filter.FitsIn.grow {f : Filter} (h : f.FitsIn s) : f.FitsIn s' :=
  ⟨hgrows.database h.database, fun t ht => hgrows.table (h.tables t ht), h.condition.grow hgrows⟩

end Grow

/-! ## Mapping databases -/

section MapDatabases

variable {store : Store} {f : DatabaseId → DatabaseId}
  (hf : ∀ d, store.HasDatabase d → store.HasDatabase (f d))
include hf

theorem TableAlias.FitsIn.mapDatabase {a : TableAlias} (h : a.FitsIn store) :
    (a.mapDatabase f).FitsIn store :=
  ⟨h.table, hf _ h.database⟩

theorem JoinStep.FitsIn.mapDatabase {step : JoinStep} (h : step.FitsIn store) :
    (step.mapDatabase f).FitsIn store :=
  ⟨h.join, hf _ h.database, h.source, h.target, h.leads⟩

omit hf in
theorem Operation.mapAliasesOfAll_eq_map (g : TableAlias → TableAlias) (l : List Operation) :
    mapAliasesOfAll g f l = l.map (mapAliases g f) := by
  induction l with
  | nil => rfl
  | cons argument rest ih => rw [mapAliasesOfAll, ih, List.map_cons]

/-- Aliases can be changed as long as they stand for the same tables. -/
theorem Operation.FitsIn.mapAliases {g : TableAlias → TableAlias}
    (hg : ∀ a, a.FitsIn store → (g a).FitsIn store) (htable : ∀ a, (g a).table = a.table)
    {operation : Operation} (h : operation.FitsIn store) :
    (operation.mapAliases g f).FitsIn store := by
  induction h with
  | @column reference h =>
    refine .column ⟨hg _ h.tableAlias, ?_⟩
    simpa [htable] using h.column
  | @join source steps target hsource hsteps htarget ih =>
    refine .join (hg _ hsource) (fun step hstep => ?_) fun operation hoperation => ?_
    · obtain ⟨old, hold, rfl⟩ := List.mem_map.1 hstep
      exact (hsteps old hold).mapDatabase hf
    · cases target with
      | none => cases hoperation
      | some target =>
        obtain rfl := Option.some.inj hoperation
        exact ih target rfl
  | literal => exact .literal
  | @function name arguments h ih =>
    refine .function fun argument hargument => ?_
    rw [mapAliasesOfAll_eq_map] at hargument
    obtain ⟨old, hold, rfl⟩ := List.mem_map.1 hargument
    exact ih old hold

theorem Operation.FitsIn.mapDatabases {operation : Operation} (h : operation.FitsIn store) :
    (operation.mapDatabases f).FitsIn store :=
  h.mapAliases hf (fun _ ha => ha.mapDatabase hf) fun _ => rfl

theorem PropertyMapping.FitsIn.mapDatabases {m : PropertyMapping} (h : m.FitsIn store) :
    (m.mapDatabases f).FitsIn store := by
  induction h with
  | @relational m operation transformer hvalue h =>
    obtain ⟨_, _, _, _, value, _⟩ := m
    obtain rfl : value = .relational operation transformer := hvalue
    exact .relational rfl (h.mapDatabases hf)
  | @embedded m id className primaryKey inner otherwise hvalue hkey hinner hotherwise ih =>
    obtain ⟨_, _, _, _, value, _⟩ := m
    obtain rfl : value = .embedded id className primaryKey inner otherwise := hvalue
    refine .embedded rfl (fun operation hoperation => ?_) (fun p hp => ?_) fun o ho => ?_
    · obtain ⟨old, hold, rfl⟩ := List.mem_map.1 hoperation
      exact (hkey old hold).mapDatabases hf
    · rw [mapDatabasesOfMappings_eq_map] at hp
      obtain ⟨old, hold, rfl⟩ := List.mem_map.1 hp
      exact ih old hold
    · obtain ⟨old, hold, rfl⟩ := Option.map_eq_some_iff.1 ho
      exact (hotherwise old hold).mapDatabases hf
  | @inline m id hvalue =>
    obtain ⟨_, _, _, _, value, _⟩ := m
    obtain rfl : value = .inline id := hvalue
    exact .inline rfl

theorem FilterPointer.FitsIn.mapDatabases {pointer : FilterPointer} (h : pointer.FitsIn store) :
    (pointer.mapDatabases f).FitsIn store := by
  refine ⟨h.filter, hf _ h.database, fun step hstep => ?_⟩
  obtain ⟨old, hold, rfl⟩ := List.mem_map.1 hstep
  exact (h.joins old hold).mapDatabase hf

theorem AssociationMapping.FitsIn.mapDatabases {a : AssociationMapping} (h : a.FitsIn store) :
    (a.mapDatabases f).FitsIn store := by
  intro m hm
  rw [AssociationMapping.mapDatabases, mapDatabasesOfMappings_eq_map] at hm
  obtain ⟨old, hold, rfl⟩ := List.mem_map.1 hm
  exact (h old hold).mapDatabases hf

end MapDatabases

/-! ## The databases that are mentioned -/

section Databases

variable {store : Store}

theorem JoinStep.hasDatabase_of_mem {steps : List JoinStep} (h : ∀ step ∈ steps, step.FitsIn store) :
    ∀ d ∈ steps.map (·.database), store.HasDatabase d :=
  List.forall_mem_map.2 fun step hstep => (h step hstep).database

theorem Operation.databasesOfAll_eq_flatMap (l : List Operation) :
    databasesOfAll l = l.flatMap databases := by
  induction l with
  | nil => rfl
  | cons argument rest ih => rw [databasesOfAll, ih, List.flatMap_cons]

/-- Every database that an expression mentions is within bounds, if the expression fits. -/
theorem Operation.FitsIn.hasDatabase {operation : Operation} (h : operation.FitsIn store) :
    ∀ d ∈ operation.databases, store.HasDatabase d := by
  induction h with
  | column h => simpa [databases] using h.tableAlias.database
  | @join source steps target hsource hsteps _ ih =>
    unfold databases
    refine List.forall_mem_cons.2 ⟨hsource.database,
      List.forall_mem_append.2 ⟨JoinStep.hasDatabase_of_mem hsteps, ?_⟩⟩
    cases target with
    | none => simp [databasesOfTarget]
    | some target => exact ih target rfl
  | literal => simp [databases]
  | function _ ih =>
    rw [databases, databasesOfAll_eq_flatMap, List.forall_mem_flatMap]
    exact ih

theorem FilterPointer.FitsIn.hasDatabase {pointer : FilterPointer} (h : pointer.FitsIn store) :
    ∀ d ∈ pointer.databases, store.HasDatabase d :=
  List.forall_mem_cons.2 ⟨h.database, JoinStep.hasDatabase_of_mem h.joins⟩

theorem databasesOfMappings_eq_flatMap (l : List PropertyMapping) :
    databasesOfMappings l = l.flatMap PropertyMapping.databases := by
  induction l with
  | nil => rfl
  | cons m rest ih => rw [databasesOfMappings, ih, List.flatMap_cons]

theorem PropertyMapping.FitsIn.hasDatabase {m : PropertyMapping} (h : m.FitsIn store) :
    ∀ d ∈ m.databases, store.HasDatabase d := by
  induction h with
  | @relational m operation transformer hvalue h =>
    obtain ⟨_, _, _, _, value, _⟩ := m
    obtain rfl : value = .relational operation transformer := hvalue
    exact h.hasDatabase
  | @embedded m id className primaryKey inner otherwise hvalue hkey hinner hotherwise ih =>
    obtain ⟨_, _, _, _, value, _⟩ := m
    obtain rfl : value = .embedded id className primaryKey inner otherwise := hvalue
    unfold databases PropertyValue.databases
    rw [databasesOfMappings_eq_flatMap, List.forall_mem_append, List.forall_mem_append,
      List.forall_mem_flatMap, List.forall_mem_flatMap]
    refine ⟨⟨fun operation hoperation => (hkey operation hoperation).hasDatabase, ih⟩, ?_⟩
    cases otherwise with
    | none => simp
    | some otherwise => exact Operation.FitsIn.hasDatabase (hotherwise otherwise rfl)
  | @inline m id hvalue =>
    obtain ⟨_, _, _, _, value, _⟩ := m
    obtain rfl : value = .inline id := hvalue
    simp [databases, PropertyValue.databases]

theorem AssociationMapping.FitsIn.hasDatabase {a : AssociationMapping} (h : a.FitsIn store) :
    ∀ d ∈ a.databases, store.HasDatabase d := by
  unfold databases
  rw [databasesOfMappings_eq_flatMap, List.forall_mem_flatMap]
  exact fun m hm => (h m hm).hasDatabase

theorem SetImplementation.FitsIn.hasDatabase {i : SetImplementation} (h : i.FitsIn store) :
    ∀ d ∈ i.databases, store.HasDatabase d := by
  unfold databases
  rw [databasesOfMappings_eq_flatMap]
  simp only [List.forall_mem_cons, List.forall_mem_append, List.forall_mem_flatMap]
  refine ⟨h.mainTable.database, ⟨⟨fun pointer hpointer => ?_, fun operation hoperation => ?_⟩,
    fun operation hoperation => ?_⟩, fun m hm => (h.propertyMappings m hm).hasDatabase⟩
  · exact (h.filter pointer (Option.mem_toList.1 hpointer)).hasDatabase
  · exact (h.groupBy operation hoperation).hasDatabase
  · exact (h.primaryKey operation hoperation).hasDatabase

end Databases

/-! ## Substitutions -/

namespace Substitution

variable {store : Store} {s outer : Substitution}

theorem fitsIn_identity : identity.FitsIn store := by
  intro replaced substitute h
  simp [identity] at h

/-- A substitution that fits keeps databases within bounds. -/
theorem FitsIn.hasDatabase_apply (h : s.FitsIn store) (d : DatabaseId) (hd : store.HasDatabase d) :
    store.HasDatabase (s.apply d) := by
  unfold apply
  cases hfound : s.replacements.find? d with
  | none => exact hd
  | some substitute => exact (h d substitute hfound).2

theorem FitsIn.insert (h : s.FitsIn store) {replaced substitute : DatabaseId}
    (hreplaced : store.HasDatabase replaced) (hsubstitute : store.HasDatabase substitute) :
    (s.insert replaced substitute).FitsIn store :=
  OrderedMap.forall_find?_insert h ⟨hreplaced, hsubstitute⟩

theorem FitsIn.andThen (h : s.FitsIn store) (houter : outer.FitsIn store) :
    (s.andThen outer).FitsIn store := by
  intro replaced substitute hfound
  rw [find?_andThen, Option.or_eq_some_iff] at hfound
  rcases hfound with hfound | ⟨-, hfound⟩
  · -- replaced by the inner substitution already
    obtain ⟨inner, hinner, rfl⟩ := Option.map_eq_some_iff.1 hfound
    obtain ⟨hreplaced, hdatabase⟩ := h replaced inner hinner
    exact ⟨hreplaced, houter.hasDatabase_apply inner hdatabase⟩
  · exact houter replaced substitute hfound

end Substitution

end ObjectRelational
