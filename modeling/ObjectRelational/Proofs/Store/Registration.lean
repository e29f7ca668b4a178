import ObjectRelational.Proofs.Store.DatabaseOrder

/-!
# Names and elements of a store

The elements of a store are registered under names: databases in the store, tables in the schemas of
databases, joins and filters in databases. An element itself records its name and the database that it
belongs to. Every step of a build adds an element and its name together, so that the two always agree, and
no step adds a name that is there already.

* `Store.TableNamed`, `Store.ListsTable` and their companions: what an element records of itself, and what
  a database has under a name. `Store.Registered`: the two agree.
* `Database.NamesUnique`: no name is given twice.
* `Store.Filling`: what adding the tables of a schema comes to, before the schema is registered.
* `Store.Cataloged`: all that registering keeps. `Store.Cataloged.addSchema`, `Store.Cataloged.addJoin` and
  their companions: each step of a build keeps it.
* `Store.cataloged_of_build`: so it holds of a store that is built.
* `Store.Finds`: a name leads to what records it. `Store.Cataloged.finds`: so it does where names and elements
  agree.
-/

namespace ObjectRelational

theorem getElem?_append_singleton_eq_some_iff {α : Type} {l : List α} {a b : α} {i : Nat} :
    (l ++ [a])[i]? = some b ↔ l[i]? = some b ∨ i = l.length ∧ a = b := by
  rw [List.getElem?_append]
  grind

/-- Entries under different names stay so when one is added under a name that is not found. -/
theorem nodup_map_fst_append {α : Type} {entries : List (String × α)} {name : String} {a : α}
    (h : (entries.map Prod.fst).Nodup) (hnew : ¬ (entries.lookup name).isSome) :
    ((entries ++ [(name, a)]).map Prod.fst).Nodup := by
  have hnone : ∀ entry ∈ entries, name != entry.1 :=
    List.lookup_eq_none_iff.1 (Option.not_isSome_iff_eq_none.1 hnew)
  rw [List.map_append, List.map_singleton, ← List.concat_eq_append]
  refine h.concat fun hmem => ?_
  obtain ⟨entry, hentry, hsame⟩ := List.mem_map.1 hmem
  exact bne_iff_ne.1 (hnone entry hentry) hsame.symm

/-- A database gives no name twice: to its schemas, within a schema to tables and views, to its joins, and
to its filters. -/
structure Database.NamesUnique (d : Database) : Prop where
  schemas : (d.schemas.map (·.name)).Nodup
  tables : ∀ schema ∈ d.schemas, (schema.tables.map Prod.fst).Nodup
  joins : (d.joins.map Prod.fst).Nodup
  filters : (d.filters.map Prod.fst).Nodup

/-- A schema of a new name leaves names different. -/
theorem Database.NamesUnique.append_schema {d : Database} {schema : String} (h : d.NamesUnique)
    (hnew : (d.schema? schema).isSome = false) {names : List (String × TableId)}
    (hnames : (names.map Prod.fst).Nodup) :
    Database.NamesUnique { d with schemas := d.schemas ++ [⟨schema, names⟩] } := by
  have hother : ∀ found ∈ d.schemas, found.name ≠ schema := by
    simpa [Database.schema?] using hnew
  refine ⟨?_, List.forall_mem_append.2 ⟨h.tables, List.forall_mem_singleton.2 hnames⟩, h.joins,
    h.filters⟩
  rw [List.map_append, List.map_singleton, ← List.concat_eq_append]
  refine h.schemas.concat fun hmem => ?_
  obtain ⟨found, hfound, hname⟩ := List.mem_map.1 hmem
  exact hother found hfound hname

namespace Store

variable {s s' : Store} {database : DatabaseId} {owner : Name} {schema container name : String}

/-! ## Names -/

/-- The table of the handle records the database, the schema and the name. -/
def TableNamed (s : Store) (database : DatabaseId) (schema name : String) (id : TableId) : Prop :=
  ∃ t, s.table? id = some t ∧ t.database = database ∧ t.schema = schema ∧ t.name = name

/-- The join of the handle records the database and the name. -/
def JoinNamed (s : Store) (database : DatabaseId) (name : String) (id : JoinId) : Prop :=
  ∃ j, s.join? id = some j ∧ j.database = database ∧ j.name = name

/-- The filter of the handle records the database and the name. -/
def FilterNamed (s : Store) (database : DatabaseId) (name : String) (id : FilterId) : Prop :=
  ∃ f, s.filter? id = some f ∧ f.database = database ∧ f.name = name

/-- The database has the table under the name in a schema. -/
def ListsTable (s : Store) (database : DatabaseId) (schema name : String) (id : TableId) : Prop :=
  ∃ d, s.database? database = some d ∧ ∃ found ∈ d.schemas, found.name = schema ∧
    (name, id) ∈ found.tables

/-- The database has the join under the name. -/
def ListsJoin (s : Store) (database : DatabaseId) (name : String) (id : JoinId) : Prop :=
  ∃ d, s.database? database = some d ∧ (name, id) ∈ d.joins

/-- The database has the filter under the name. -/
def ListsFilter (s : Store) (database : DatabaseId) (name : String) (id : FilterId) : Prop :=
  ∃ d, s.database? database = some d ∧ (name, id) ∈ d.filters

/-- What databases have under names is what elements record of themselves. -/
structure Registered (s : Store) : Prop where
  tables : ∀ database schema name id,
    s.ListsTable database schema name id ↔ s.TableNamed database schema name id
  joins : ∀ database name id, s.ListsJoin database name id ↔ s.JoinNamed database name id
  filters : ∀ database name id, s.ListsFilter database name id ↔ s.FilterNamed database name id

/-- The columns of tables belong to them, and no column of a physical table has the name of another. -/
structure Columned (s : Store) : Prop where
  own : ∀ id t, s.table? id = some t → ∀ c ∈ t.columns, c.table = id
  distinct : ∀ t ∈ s.tables, t.view = none → (t.columns.map (·.name)).Nodup

/-- What registering keeps: names and elements agree, no name is given twice, and columns belong to their
tables. -/
structure Cataloged (s : Store) : Prop where
  registered : s.Registered
  distinct : (s.databases.map (·.name)).Nodup
  unique : ∀ d ∈ s.databases, d.NamesUnique
  columned : s.Columned

/-! ## What names lead to -/

/-- A name leads to the element that records it, in the database that it records. -/
structure Finds (s : Store) : Prop where
  database : ∀ name id, s.databaseNamed? name = some id ↔ ∃ d, s.database? id = some d ∧ d.name = name
  table : ∀ database d, s.database? database = some d → ∀ schema name id,
    ((d.schema? schema).bind fun found => found.table? name) = some id ↔
      s.TableNamed database schema name id
  join : ∀ database d, s.database? database = some d → ∀ name id,
    d.joins.lookup name = some id ↔ s.JoinNamed database name id
  filter : ∀ database d, s.database? database = some d → ∀ name id,
    d.filters.lookup name = some id ↔ s.FilterNamed database name id

theorem Cataloged.finds (h : s.Cataloged) : s.Finds where
  database name id := by
    unfold databaseNamed? database?
    rw [← findIdx?_eq_some_iff_of_nodup h.distinct, Option.map_eq_some_iff]
    exact ⟨by rintro ⟨i, hi, rfl⟩; exact hi, fun hi => ⟨id.index, hi, rfl⟩⟩
  table database d hd schema name id := by
    have hunique := h.unique d (List.mem_of_getElem? hd)
    rw [← h.registered.tables, Option.bind_eq_some_iff]
    simp only [ListsTable, hd, Option.some.injEq, exists_eq_left', Database.schema?, Schema.table?,
      find?_eq_some_iff_of_nodup hunique.schemas, and_assoc]
    refine exists_congr fun found => and_congr_right fun hfound => and_congr_right fun _ => ?_
    exact lookup_eq_some_iff_of_nodup (hunique.tables found hfound)
  join database d hd name id := by
    rw [lookup_eq_some_iff_of_nodup (h.unique d (List.mem_of_getElem? hd)).joins, ← h.registered.joins]
    simp [ListsJoin, hd]
  filter database d hd name id := by
    rw [lookup_eq_some_iff_of_nodup (h.unique d (List.mem_of_getElem? hd)).filters,
      ← h.registered.filters]
    simp [ListsFilter, hd]

/-! ## Tables -/

theorem tableNamed_append_iff {t : Table} {id : TableId} :
    TableNamed { s with tables := s.tables ++ [t] } database schema name id ↔
      s.TableNamed database schema name id ∨
        id = s.nextTable ∧ t.database = database ∧ t.schema = schema ∧ t.name = name := by
  unfold TableNamed table? nextTable
  simp only [getElem?_append_singleton_eq_some_iff]
  obtain ⟨index⟩ := id
  simp only [TableId.mk.injEq]
  grind

/-- The columns of a table have different names. -/
theorem nodup_of_tableColumns {id : TableId} {table : Name} {seen : List String}
    {sources : List Source.Column} {columns : List Column}
    (h : tableColumns id table seen sources = .ok columns) :
    (columns.map (·.name)).Nodup ∧ ∀ c ∈ columns, c.name ∉ seen := by
  induction sources generalizing seen columns with
  | nil =>
    obtain rfl := Except.ok.inj h
    simp
  | cons source rest ih =>
    unfold tableColumns at h
    dsimp only at h
    split at h
    · exact absurd h (found_ne_ok _ _ _)
    · rename_i hnew
      obtain ⟨others, hothers, h⟩ := bind_eq_ok_iff.1 h
      obtain rfl := pure_eq_ok_iff.1 h
      obtain ⟨hnodup, hunseen⟩ := ih hothers
      refine ⟨List.nodup_cons.2 ⟨fun hmem => ?_, hnodup⟩, List.forall_mem_cons.2 ⟨hnew, ?_⟩⟩
      · obtain ⟨c, hc, hsame⟩ := List.mem_map.1 hmem
        exact hunseen c hc (hsame ▸ List.mem_cons_self)
      · exact fun c hc hseen => hunseen c hc (List.mem_cons_of_mem _ hseen)

theorem Columned.append_table (h : s.Columned) {t : Table} (hown : ∀ c ∈ t.columns, c.table = s.nextTable)
    (hdistinct : (t.columns.map (·.name)).Nodup) :
    Columned { s with tables := s.tables ++ [t] } where
  own id found hfound := by
    rcases getElem?_append_singleton_eq_some_iff.1 hfound with hfound | ⟨hindex, rfl⟩
    · exact h.own id found hfound
    · obtain rfl : id = s.nextTable := congrArg TableId.mk hindex
      exact hown
  distinct := List.forall_mem_append.2 ⟨h.distinct, List.forall_mem_singleton.2 fun _ => hdistinct⟩

/-- Tables have been added for a schema: each has an entry, under a name of its own. -/
structure Filling (database : DatabaseId) (schema : String) (s s' : Store)
    (names : List (String × TableId)) : Prop where
  databases : s'.databases = s.databases
  joins : s'.joins = s.joins
  filters : s'.filters = s.filters
  distinct : (names.map Prod.fst).Nodup
  columned : s'.Columned
  named : ∀ d other name id, s'.TableNamed d other name id ↔ s.TableNamed d other name id ∨
    d = database ∧ other = schema ∧ (name, id) ∈ names

theorem Filling.start (h : s.Columned) : Filling database schema s s [] :=
  ⟨rfl, rfl, rfl, List.nodup_nil, h, by simp⟩

theorem Filling.append_table {names : List (String × TableId)} {t : Table}
    (h : Filling database schema s s' names) (hnew : ¬ (names.lookup t.name).isSome)
    (hdatabase : t.database = database) (hschema : t.schema = schema)
    (hown : ∀ c ∈ t.columns, c.table = s'.nextTable) (hcolumns : (t.columns.map (·.name)).Nodup) :
    Filling database schema s { s' with tables := s'.tables ++ [t] }
      (names ++ [(t.name, s'.nextTable)]) where
  databases := h.databases
  joins := h.joins
  filters := h.filters
  distinct := nodup_map_fst_append h.distinct hnew
  columned := h.columned.append_table hown hcolumns
  named d other name id := by
    rw [tableNamed_append_iff, h.named, List.mem_append, List.mem_singleton, Prod.mk.injEq]
    subst hdatabase hschema
    tauto

theorem Filling.addTable {names names' : List (String × TableId)} {s'' : Store} {source : Source.Table}
    (h : Filling database schema s s' names)
    (hadd : Store.addTable database schema container (s', names) source = .ok (s'', names')) :
    Filling database schema s s'' names' := by
  unfold Store.addTable at hadd
  dsimp only at hadd
  split at hadd
  · exact absurd hadd (found_ne_ok _ _ _)
  · rename_i hnew
    obtain ⟨columns, hcolumns, hadd⟩ := bind_eq_ok_iff.1 hadd
    obtain ⟨milestoning, -, hadd⟩ := bind_eq_ok_iff.1 hadd
    obtain ⟨rfl, rfl⟩ := Prod.mk.inj (pure_eq_ok_iff.1 hadd)
    exact h.append_table (t := ⟨source.name.value, schema, database, columns, milestoning, none, _⟩)
      hnew rfl rfl (table_of_tableColumns hcolumns) (nodup_of_tableColumns hcolumns).1

theorem Filling.addViewName {names names' : List (String × TableId)} {draft draft' : Draft}
    {source : Source.View} (h : Filling database schema s draft.store names)
    (hadd : Store.addViewName database schema container (draft, names) source = .ok (draft', names')) :
    Filling database schema s draft'.store names' := by
  unfold Store.addViewName at hadd
  dsimp only at hadd
  split at hadd
  · exact absurd hadd (found_ne_ok _ _ _)
  · rename_i hnew
    obtain ⟨rfl, rfl⟩ := Prod.mk.inj (pure_eq_ok_iff.1 hadd)
    exact h.append_table (t := ⟨source.name.value, schema, database, [], none, none, _⟩) hnew rfl rfl
      (by simp) (by simp)

/-! ## Schemas -/

/-- The store with one more schema, which a database declares. -/
def withSchema (s : Store) (database : DatabaseId) (schema : Schema) : Store :=
  s.modifyDatabase database fun d => { d with schemas := d.schemas ++ [schema] }

/-- A schema that is registered has a name of its own, and its tables have been added before. -/
theorem exists_of_addSchema {draft draft' : Draft} {source : Source.Schema}
    (hcolumned : draft.store.Columned) (h : addSchema database owner draft source = .ok draft') :
    draft.store.declaresSchema database source.name.value = false ∧ ∃ filled names,
      Filling database source.name.value draft.store filled names ∧
      draft'.store = filled.withSchema database ⟨source.name.value, names⟩ := by
  unfold addSchema at h
  dsimp only at h
  split at h
  · exact absurd h (found_ne_ok _ _ _)
  · rename_i hnew
    obtain ⟨⟨tables, names⟩, htables, h⟩ := bind_eq_ok_iff.1 h
    obtain ⟨⟨views, allNames⟩, hviews, h⟩ := bind_eq_ok_iff.1 h
    obtain rfl := pure_eq_ok_iff.1 h
    have hfirst := foldlM_invariant
      (P := fun state : Store × List (String × TableId) =>
        Filling database source.name.value draft.store state.1 state.2)
      (fun _ _ _ _ hbefore hadd => hbefore.addTable hadd) (.start hcolumned) htables
    have hsecond := foldlM_invariant
      (P := fun state : Draft × List (String × TableId) =>
        Filling database source.name.value draft.store state.1.store state.2)
      (fun _ _ _ _ hbefore hadd => hbefore.addViewName hadd) hfirst hviews
    exact ⟨eq_false_of_ne_true hnew, views.store, allNames, hsecond, rfl⟩

section ModifyDatabase

variable {f : Database → Database} {P : Database → Prop}

theorem exists_modifyDatabase_iff (id : DatabaseId) :
    (∃ d, (s.modifyDatabase database f).database? id = some d ∧ P d) ↔
      ∃ d, s.database? id = some d ∧ P (if database = id then f d else d) := by
  simp only [database?_modifyDatabase]
  constructor
  · rintro ⟨_, hfound, hP⟩
    obtain ⟨d, hd, rfl⟩ := Option.map_eq_some_iff.1 hfound
    exact ⟨d, hd, hP⟩
  · rintro ⟨d, hd, hP⟩
    exact ⟨if database = id then f d else d, Option.map_eq_some_iff.2 ⟨d, hd, rfl⟩, hP⟩

theorem listsTable_modifyDatabase (hf : ∀ d, (f d).schemas = d.schemas) (id : DatabaseId)
    (schema name : String) (table : TableId) :
    (s.modifyDatabase database f).ListsTable id schema name table ↔
      s.ListsTable id schema name table := by
  unfold ListsTable
  rw [exists_modifyDatabase_iff]
  simp only [apply_ite Database.schemas, hf, ite_self]

theorem listsJoin_modifyDatabase (hf : ∀ d, (f d).joins = d.joins) (id : DatabaseId) (name : String)
    (join : JoinId) : (s.modifyDatabase database f).ListsJoin id name join ↔ s.ListsJoin id name join := by
  unfold ListsJoin
  rw [exists_modifyDatabase_iff]
  simp only [apply_ite Database.joins, hf, ite_self]

theorem listsFilter_modifyDatabase (hf : ∀ d, (f d).filters = d.filters) (id : DatabaseId)
    (name : String) (filter : FilterId) :
    (s.modifyDatabase database f).ListsFilter id name filter ↔ s.ListsFilter id name filter := by
  unfold ListsFilter
  rw [exists_modifyDatabase_iff]
  simp only [apply_ite Database.filters, hf, ite_self]

/-- What a change adds to a database of the store is there, next to what was there before. -/
theorem exists_modifyDatabase_iff_or {Q : Prop} (hdatabase : s.HasDatabase database)
    (hf : ∀ d, P (f d) ↔ P d ∨ Q) (id : DatabaseId) :
    (∃ d, (s.modifyDatabase database f).database? id = some d ∧ P d) ↔
      (∃ d, s.database? id = some d ∧ P d) ∨ id = database ∧ Q := by
  rw [exists_modifyDatabase_iff]
  by_cases hsame : database = id
  · subst hsame
    obtain ⟨own, hown⟩ : ∃ own, s.database? database = some own :=
      ⟨_, List.getElem?_eq_getElem hdatabase⟩
    simp [hown, hf]
  · simp [hsame, Ne.symm hsame]

/-- What databases are after one of them is changed. -/
theorem forall_mem_modifyDatabase (h : ∀ d ∈ s.databases, P d)
    (hf : ∀ d, s.database? database = some d → P d → P (f d)) :
    ∀ d ∈ (s.modifyDatabase database f).databases, P d := by
  intro d hd
  rcases mem_or_of_mem_modify hd with hd | ⟨old, hold, rfl⟩
  · exact h d hd
  · exact hf old hold (h old (List.mem_of_getElem? hold))

end ModifyDatabase

/-- Filling a schema changes no database. -/
theorem Filling.database?_eq {names : List (String × TableId)}
    (h : Filling database schema s s' names) : s'.database? = s.database? := by
  funext id
  rw [database?, database?, h.databases]

theorem Filling.registered {names : List (String × TableId)} (hs : s.Registered)
    (hdatabase : s.HasDatabase database) (h : Filling database schema s s' names) :
    (s'.withSchema database ⟨schema, names⟩).Registered := by
  have hknown : s'.HasDatabase database := by
    unfold HasDatabase
    rwa [h.databases]
  refine ⟨fun d other name id => ?_, fun d name id => ?_, fun d name id => ?_⟩
  · -- the database has the new schema, and all that was there before
    have hlists : (s'.withSchema database ⟨schema, names⟩).ListsTable d other name id ↔
        s'.ListsTable d other name id ∨ d = database ∧ other = schema ∧ (name, id) ∈ names :=
      exists_modifyDatabase_iff_or hknown (fun d => by simp [or_and_right, exists_or, eq_comm]) d
    have hbefore : s'.ListsTable d other name id ↔ s.ListsTable d other name id := by
      rw [ListsTable, ListsTable, h.database?_eq]
    rw [hlists, hbefore, hs.tables]
    exact (h.named d other name id).symm
  · have hlists : (s'.withSchema database ⟨schema, names⟩).ListsJoin d name id ↔
        s'.ListsJoin d name id := listsJoin_modifyDatabase (fun _ => by rfl) d name id
    have hbefore : s'.ListsJoin d name id ↔ s.ListsJoin d name id := by
      rw [ListsJoin, ListsJoin, h.database?_eq]
    rw [hlists, hbefore, hs.joins]
    simp only [JoinNamed, join?, withSchema, modifyDatabase, h.joins]
  · have hlists : (s'.withSchema database ⟨schema, names⟩).ListsFilter d name id ↔
        s'.ListsFilter d name id := listsFilter_modifyDatabase (fun _ => by rfl) d name id
    have hbefore : s'.ListsFilter d name id ↔ s.ListsFilter d name id := by
      rw [ListsFilter, ListsFilter, h.database?_eq]
    rw [hlists, hbefore, hs.filters]
    simp only [FilterNamed, filter?, withSchema, modifyDatabase, h.filters]

/-- The databases of both stores are the same by name. -/
def SameDatabases (s s' : Store) : Prop :=
  s'.databases.map (·.name) = s.databases.map (·.name)

theorem sameDatabases_modifyDatabase {f : Database → Database} (hf : ∀ d, (f d).name = d.name) :
    s.SameDatabases (s.modifyDatabase database f) :=
  map_modify_of_forall_eq hf _ _

theorem SameDatabases.refl (s : Store) : s.SameDatabases s := rfl

theorem SameDatabases.trans {s'' : Store} (h : s.SameDatabases s') (h' : s'.SameDatabases s'') :
    s.SameDatabases s'' := Eq.trans h' h

theorem SameDatabases.nodup (h : s.SameDatabases s') (hnodup : (s.databases.map (·.name)).Nodup) :
    (s'.databases.map (·.name)).Nodup := Eq.symm h ▸ hnodup

theorem SameDatabases.hasDatabase (h : s.SameDatabases s') (hdatabase : s.HasDatabase database) :
    s'.HasDatabase database := by
  have hlength : s'.databases.length = s.databases.length := by
    simpa using congrArg List.length h
  unfold HasDatabase
  rwa [hlength]

theorem Cataloged.addSchema {draft draft' : Draft} {source : Source.Schema}
    (h : draft.store.Cataloged) (hdatabase : draft.store.HasDatabase database)
    (hadd : Store.addSchema database owner draft source = .ok draft') :
    draft'.store.Cataloged ∧ draft.store.SameDatabases draft'.store := by
  obtain ⟨hnew, filled, names, hfilled, hstore⟩ := exists_of_addSchema h.columned hadd
  have hfill : draft.store.SameDatabases filled := congrArg (List.map Database.name) hfilled.databases
  have hsame : draft.store.SameDatabases (filled.withSchema database ⟨source.name.value, names⟩) :=
    hfill.trans (sameDatabases_modifyDatabase fun _ => rfl)
  rw [hstore]
  refine ⟨⟨hfilled.registered h.registered hdatabase, hsame.nodup h.distinct, ?_,
    hfilled.columned.own, hfilled.columned.distinct⟩, hsame⟩
  refine forall_mem_modifyDatabase (fun d hd => h.unique d (hfilled.databases ▸ hd)) ?_
  intro d hd hunique
  rw [hfilled.database?_eq] at hd
  refine hunique.append_schema ?_ hfilled.distinct
  simpa [declaresSchema, hd] using hnew

/-! ## Joins and filters -/

variable {defaultSchema : String}

theorem joinNamed_withJoin_iff {join : Join} {d : DatabaseId} {other : String} {id : JoinId} :
    (s.withJoin database name join).JoinNamed d other id ↔ s.JoinNamed d other id ∨
      id = ⟨s.joins.length⟩ ∧ join.database = d ∧ join.name = other := by
  unfold JoinNamed join? withJoin modifyDatabase
  simp only [getElem?_append_singleton_eq_some_iff]
  obtain ⟨index⟩ := id
  simp only [JoinId.mk.injEq]
  grind

theorem filterNamed_withFilter_iff {filter : Filter} {d : DatabaseId} {other : String} {id : FilterId} :
    (s.withFilter database name filter).FilterNamed d other id ↔ s.FilterNamed d other id ∨
      id = ⟨s.filters.length⟩ ∧ filter.database = d ∧ filter.name = other := by
  unfold FilterNamed filter? withFilter modifyDatabase
  simp only [getElem?_append_singleton_eq_some_iff]
  obtain ⟨index⟩ := id
  simp only [FilterId.mk.injEq]
  grind

theorem Registered.withJoin (h : s.Registered) (hdatabase : s.HasDatabase database) {join : Join}
    (howner : join.database = database) (hname : join.name = name) :
    (s.withJoin database name join).Registered where
  tables d other name id := (listsTable_modifyDatabase (fun _ => by rfl) d other name id).trans
    (h.tables d other name id)
  joins d other id := by
    have hlists : (s.withJoin database name join).ListsJoin d other id ↔ s.ListsJoin d other id ∨
        d = database ∧ (other, id) = (name, ⟨s.joins.length⟩) :=
      exists_modifyDatabase_iff_or hdatabase (fun d => by simp) d
    rw [hlists, joinNamed_withJoin_iff, h.joins, Prod.mk.injEq]
    subst howner hname
    tauto
  filters d other id := (listsFilter_modifyDatabase (fun _ => by rfl) d other id).trans
    (h.filters d other id)

theorem Registered.withFilter (h : s.Registered) (hdatabase : s.HasDatabase database) {filter : Filter}
    (howner : filter.database = database) (hname : filter.name = name) :
    (s.withFilter database name filter).Registered where
  tables d other name id := (listsTable_modifyDatabase (fun _ => by rfl) d other name id).trans
    (h.tables d other name id)
  joins d other id := (listsJoin_modifyDatabase (fun _ => by rfl) d other id).trans
    (h.joins d other id)
  filters d other id := by
    have hlists : (s.withFilter database name filter).ListsFilter d other id ↔
        s.ListsFilter d other id ∨ d = database ∧ (other, id) = (name, ⟨s.filters.length⟩) :=
      exists_modifyDatabase_iff_or hdatabase (fun d => by simp) d
    rw [hlists, filterNamed_withFilter_iff, h.filters, Prod.mk.injEq]
    subst howner hname
    tauto

theorem Cataloged.addJoin (h : s.Cataloged) (hdatabase : s.HasDatabase database) {source : Source.Join}
    (hadd : (Store.addJoin defaultSchema database owner s source).result = .ok s') :
    s'.Cataloged ∧ s.SameDatabases s' := by
  obtain ⟨hnew, join, hjoin, rfl⟩ := exists_of_addJoin hadd
  have hresolved := resolvedJoin_of_resolveJoin hjoin
  have hsame : s.SameDatabases (s.withJoin database source.name.value join) :=
    sameDatabases_modifyDatabase (s := { s with joins := s.joins ++ [join] }) fun _ => rfl
  refine ⟨⟨h.registered.withJoin hdatabase hresolved.owner hresolved.name, hsame.nodup h.distinct, ?_,
    h.columned.own, h.columned.distinct⟩, hsame⟩
  refine forall_mem_modifyDatabase (s := { s with joins := s.joins ++ [join] }) h.unique ?_
  intro d hd hunique
  refine ⟨hunique.schemas, hunique.tables, nodup_map_fst_append hunique.joins ?_, hunique.filters⟩
  rw [declaresJoin, show s.database? database = some d from hd] at hnew
  exact Bool.eq_false_iff.1 hnew

theorem Cataloged.addFilter (h : s.Cataloged) (hdatabase : s.HasDatabase database)
    {source : Source.Filter}
    (hadd : (Store.addFilter defaultSchema database owner s source).result = .ok s') :
    s'.Cataloged ∧ s.SameDatabases s' := by
  obtain ⟨hnew, filter, hfilter, rfl⟩ := exists_of_addFilter hadd
  have hresolved := resolvedFilter_of_resolveFilter hfilter
  have hsame : s.SameDatabases (s.withFilter database source.name.value filter) :=
    sameDatabases_modifyDatabase (s := { s with filters := s.filters ++ [filter] }) fun _ => rfl
  refine ⟨⟨h.registered.withFilter hdatabase hresolved.owner hresolved.name, hsame.nodup h.distinct, ?_,
    h.columned.own, h.columned.distinct⟩, hsame⟩
  refine forall_mem_modifyDatabase (s := { s with filters := s.filters ++ [filter] }) h.unique ?_
  intro d hd hunique
  refine ⟨hunique.schemas, hunique.tables, hunique.joins, nodup_map_fst_append hunique.filters ?_⟩
  rw [declaresFilter, show s.database? database = some d from hd] at hnew
  exact Bool.eq_false_iff.1 hnew

theorem Cataloged.addJoinsAndFilters (h : s.Cataloged) (hdatabase : s.HasDatabase database)
    {source : Source.Database}
    (hadd : (Store.addJoinsAndFilters defaultSchema s database source).result = .ok s') :
    s'.Cataloged ∧ s.SameDatabases s' := by
  rw [addJoinsAndFilters_eq, Recorded.result_foldlM] at hadd
  refine foldlM_invariant (P := fun s' : Store => s'.Cataloged ∧ s.SameDatabases s') ?_ ⟨h, .refl s⟩ hadd
  rintro before (join | filter) - after ⟨hbefore, hsame⟩ hadd
  · exact (hbefore.addJoin (hsame.hasDatabase hdatabase) hadd).imp_right hsame.trans
  · exact (hbefore.addFilter (hsame.hasDatabase hdatabase) hadd).imp_right hsame.trans

/-! ## Views -/

theorem tableNamed_withView_iff {table id : TableId} {view : View} {d : DatabaseId} :
    (s.withView table view).TableNamed d schema name id ↔ s.TableNamed d schema name id := by
  unfold TableNamed
  rw [table?_withView]
  cases s.table? id with
  | none => simp
  | some t => by_cases hsame : table = id <;> simp [hsame]

/-- A view gets columns of its own, and nothing else changes. -/
theorem Cataloged.withView (h : s.Cataloged) (table : TableId) (view : View) :
    (s.withView table view).Cataloged where
  registered := {
    tables d schema name id := (h.registered.tables d schema name id).trans
      tableNamed_withView_iff.symm
    joins := h.registered.joins
    filters := h.registered.filters }
  distinct := h.distinct
  unique := h.unique
  columned := {
    own id t ht := by
      rw [table?_withView] at ht
      obtain ⟨old, hold, rfl⟩ := Option.map_eq_some_iff.1 ht
      split
      · rename_i hsame
        intro c hc
        obtain ⟨_, -, rfl⟩ := List.mem_map.1 hc
        exact hsame
      · exact h.columned.own id old hold
    distinct t ht hnone := by
      rcases mem_or_of_mem_modify ht with ht | ⟨old, -, rfl⟩
      · exact h.columned.distinct t ht hnone
      · cases hnone }

/-! ## All phases -/

/-- Before the third phase a store has no elements but databases. -/
theorem Included.cataloged {sources : List Source.Database} (h : Included sources s)
    (hnames : DistinctNames sources) : s.Cataloged where
  registered := {
    tables d schema name id := by
      refine ⟨?_, ?_⟩
      · rintro ⟨found, hfound, entry, hentry, -⟩
        simp [(h.empty found (List.mem_of_getElem? hfound)).1] at hentry
      · rintro ⟨t, ht, -⟩
        simp [table?, h.tables] at ht
    joins d name id := by
      refine ⟨?_, ?_⟩
      · rintro ⟨found, hfound, hentry⟩
        simp [(h.empty found (List.mem_of_getElem? hfound)).2.1] at hentry
      · rintro ⟨j, hj, -⟩
        simp [join?, h.joins] at hj
    filters d name id := by
      refine ⟨?_, ?_⟩
      · rintro ⟨found, hfound, hentry⟩
        simp [(h.empty found (List.mem_of_getElem? hfound)).2.2] at hentry
      · rintro ⟨f, hf, -⟩
        simp [filter?, h.filters] at hf }
  distinct := Eq.symm h.named ▸ hnames
  unique d hd := by
    obtain ⟨hschemas, hjoins, hfilters⟩ := h.empty d hd
    exact ⟨by simp [hschemas], by simp [hschemas], by simp [hjoins], by simp [hfilters]⟩
  columned := ⟨fun id t ht => by simp [table?, h.tables] at ht, by simp [h.tables]⟩

theorem Cataloged.addAllSchemas (h : s.Cataloged) {sources : List Source.Database} {draft : Draft}
    (hdatabases : ∀ i < sources.length, s.HasDatabase ⟨i⟩)
    (hadd : sources.zipIdx.foldlM addSchemas ⟨s, []⟩ = .ok draft) :
    draft.store.Cataloged ∧ s.SameDatabases draft.store := by
  refine foldlM_invariant (P := fun draft : Draft => draft.store.Cataloged ∧
    s.SameDatabases draft.store) ?_ ⟨h, .refl s⟩ hadd
  rintro before ⟨source, i⟩ hmem after hbefore hadd
  refine foldlM_invariant (P := fun draft : Draft => draft.store.Cataloged ∧
    s.SameDatabases draft.store) ?_ hbefore hadd
  rintro draft schema - draft' ⟨hcataloged, hsame⟩ hadd
  have hknown := hsame.hasDatabase (hdatabases i (List.mem_zipIdx' hmem).1)
  exact (hcataloged.addSchema hknown hadd).imp_right hsame.trans

/-- A store that is built has a name for every element, and an element for every name. -/
theorem cataloged_of_build {settings : ResolutionSettings} {sources : List Source.Database}
    (h : build settings sources = .ok s) : s.Cataloged := by
  obtain ⟨included, draft, joined, built, hnames, hincludes, hdraft, hjoins, hviews, rfl⟩ :=
    exists_phases_of_build h
  obtain ⟨-, -, hdatabases⟩ :=
    extends_of_phases (foldlM_addDatabase_eq_ok_iff.2 ⟨hnames, rfl⟩) hincludes hdraft
  obtain ⟨hfront, hsame⟩ := ((included_of_forEach hnames hincludes).cataloged hnames).addAllSchemas
    hdatabases hdraft
  have hmiddle : joined.Cataloged ∧ included.SameDatabases joined := by
    refine forEach_invariant (P := fun s : Store => s.Cataloged ∧ included.SameDatabases s) ?_
      ⟨hfront, hsame⟩ hjoins
    rintro before i hi source after ⟨hbefore, hsame⟩ hadd
    have hknown := hsame.hasDatabase (hdatabases i hi)
    exact (hbefore.addJoinsAndFilters hknown hadd).imp_right hsame.trans
  rw [Recorded.result_foldlM] at hviews
  have hbuilt : built.Cataloged := by
    refine foldlM_invariant (P := Cataloged) ?_ hmiddle.1 hviews
    rintro before pending - after hbefore hdefine
    rw [defineView_eq, Recorded.result_map] at hdefine
    obtain ⟨view, -, rfl⟩ := map_eq_ok_iff.1 hdefine
    exact hbefore.withView pending.1 view
  exact ⟨⟨hbuilt.registered.tables, hbuilt.registered.joins, hbuilt.registered.filters⟩,
    hbuilt.distinct, hbuilt.unique, hbuilt.columned.own, hbuilt.columned.distinct⟩

end Store

end ObjectRelational
