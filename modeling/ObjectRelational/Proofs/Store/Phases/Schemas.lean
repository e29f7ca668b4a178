import ObjectRelational.Proofs.Store.Phases.Databases

/-!
# Registering schemas

The third phase of a build adds the tables of a database behind those of the databases in front of it, and
registers them under their names. What it adds depends on the number of tables in front, and on nothing
else, so that in another order of the databases it adds the same, under other handles.

* `tableEntries`, `schemaEntries`, `pendingOf`: the names that schemas register, and the views that wait.
* `Store.Draft.extend`: what a database adds to a draft.
* `Store.addSchemas_sideBySide`: a database adds the same in two drafts.
* `Store.schemas_of_perm`: schemas are registered in another order too.
-/

namespace ObjectRelational

/-! ## Names of tables and views -/

/-- The names of tables, which are numbered from the first one on. -/
def tableEntries (first : Nat) (tables : List Source.Table) : List (String × TableId) :=
  (tables.zipIdx first).map fun item => (item.1.name.value, ⟨item.2⟩)

/-- The names of views, which are numbered from the first one on. -/
def viewEntries (first : Nat) (views : List Source.View) : List (String × TableId) :=
  (views.zipIdx first).map fun item => (item.1.name.value, ⟨item.2⟩)

/-- Views that wait for their definitions, and are numbered from the first one on. -/
def pendingEntries (first : Nat) (database : DatabaseId) (views : List Source.View) :
    List (TableId × DatabaseId × Source.View) :=
  (views.zipIdx first).map fun item => (⟨item.2⟩, database, item.1)

/-- A schema whose tables are numbered from the first one on. -/
def schemaEntry (first : Nat) (s : Source.Schema) : Schema :=
  ⟨s.name.value, tableEntries first s.tables ++ viewEntries (first + s.tables.length) s.views⟩

/-- Schemas whose tables are numbered from the first one on. -/
def schemaEntries (first : Nat) : List Source.Schema → List Schema
  | [] => []
  | s :: rest => schemaEntry first s :: schemaEntries (first + s.tableCount) rest

/-- The views that wait in schemas whose tables are numbered from the first one on. -/
def pendingOf (first : Nat) (database : DatabaseId) :
    List Source.Schema → List (TableId × DatabaseId × Source.View)
  | [] => []
  | s :: rest =>
    pendingEntries (first + s.tables.length) database s.views ++
      pendingOf (first + s.tableCount) database rest

namespace Store

variable {ρ : Renumbering} {s s' t : Store} {database : DatabaseId} {schema container : String}

/-! ## Tables -/

/-- The columns of a table are the same under any handle. -/
theorem tableColumns_renumber (id : TableId) (table : Name) (seen : List String)
    (sources : List Source.Column) :
    tableColumns (ρ.table id) table seen sources =
      List.map (Column.renumber ρ) <$> tableColumns id table seen sources := by
  induction sources generalizing seen with
  | nil => rfl
  | cons column rest ih =>
    unfold tableColumns
    dsimp only
    split
    · rfl
    · refine bind_eq_map (ih (column.name.value :: seen)) fun others _ => ?_
      rfl

/-- Entries under renumbered handles. -/
def renumberEntries (ρ : Renumbering) (entries : List (String × TableId)) : List (String × TableId) :=
  entries.map fun entry => (entry.1, ρ.table entry.2)

theorem isSome_lookup_renumberEntries (entries : List (String × TableId)) (name : String) :
    ((renumberEntries ρ entries).lookup name).isSome = (entries.lookup name).isSome := by
  rw [renumberEntries, lookup_map_snd, Option.isSome_map]

/-- Tables behind those that are added are moved as before. -/
theorem table_behind {tables tables' added added' : List Table} {size n : Nat}
    (hρ : ∀ k < size, ρ.table ⟨tables.length + k⟩ = ⟨tables'.length + k⟩)
    (hadded : added'.length = added.length) (hn : added.length + n ≤ size) :
    ∀ k < n, ρ.table ⟨(tables ++ added).length + k⟩ = ⟨(tables' ++ added').length + k⟩ := by
  intro k hk
  rw [List.length_append, List.length_append, hadded, Nat.add_assoc, Nat.add_assoc]
  exact hρ (added.length + k) (by omega)

variable {names names' : List (String × TableId)}

theorem addTable_sideBySide (hρ : ρ.table s.nextTable = s'.nextTable) {source : Source.Table}
    (h : addTable database schema container (s, names) source = .ok (t, names')) :
    ∃ table : Table, table.view = none ∧ t = { s with tables := s.tables ++ [table] } ∧
      names' = names ++ tableEntries s.tables.length [source] ∧
      addTable (ρ.database database) schema container (s', renumberEntries ρ names) source =
        .ok ({ s' with tables := s'.tables ++ [table.renumber ρ] }, renumberEntries ρ names') := by
  unfold addTable at h ⊢
  dsimp only at h ⊢
  rw [isSome_lookup_renumberEntries]
  split at h
  · exact absurd h (found_ne_ok _ _ _)
  · rename_i hnew
    rw [if_neg hnew]
    obtain ⟨columns, hcolumns, h⟩ := bind_eq_ok_iff.1 h
    obtain ⟨milestoning, hmilestoning, h⟩ := bind_eq_ok_iff.1 h
    obtain ⟨rfl, rfl⟩ := Prod.mk.inj (pure_eq_ok_iff.1 h)
    refine ⟨_, rfl, rfl, rfl, ?_⟩
    have hcolumns' : tableColumns s'.nextTable source.name [] source.columns =
        .ok (columns.map (Column.renumber ρ)) := by
      rw [← hρ, tableColumns_renumber, hcolumns]
      rfl
    refine bind_eq_ok_iff.2 ⟨_, hcolumns', bind_eq_ok_iff.2 ⟨milestoning, ?_, ?_⟩⟩
    · rw [← hmilestoning, List.map_map]
      rfl
    · simp [pure, Except.pure, renumberEntries, Table.renumber, ← hρ]

theorem addTables_sideBySide {sources : List Source.Table}
    (hρ : ∀ k < sources.length, ρ.table ⟨s.tables.length + k⟩ = ⟨s'.tables.length + k⟩)
    (h : sources.foldlM (addTable database schema container) (s, names) = .ok (t, names')) :
    ∃ tables : List Table, tables.length = sources.length ∧ (∀ table ∈ tables, table.view = none) ∧
      t = { s with tables := s.tables ++ tables } ∧
      names' = names ++ tableEntries s.tables.length sources ∧
      sources.foldlM (addTable (ρ.database database) schema container)
          (s', renumberEntries ρ names) =
        .ok ({ s' with tables := s'.tables ++ tables.map (Table.renumber ρ) },
          renumberEntries ρ names') := by
  induction sources generalizing s s' names with
  | nil =>
    obtain ⟨rfl, rfl⟩ := Prod.mk.inj (pure_eq_ok_iff.1 h)
    exact ⟨[], rfl, by simp, by simp, by simp [tableEntries], by simp [pure, Except.pure]⟩
  | cons source rest ih =>
    rw [List.foldlM_cons] at h
    obtain ⟨⟨next, known⟩, hnext, hrest⟩ := bind_eq_ok_iff.1 h
    obtain ⟨table, hview, rfl, rfl, hnext'⟩ := addTable_sideBySide (hρ 0 (by simp)) hnext
    have hρrest : ∀ k < rest.length, ρ.table ⟨(s.tables ++ [table]).length + k⟩ =
        ⟨({ s' with tables := s'.tables ++ [table.renumber ρ] } : Store).tables.length + k⟩ :=
      table_behind hρ rfl (by simp [Nat.add_comm])
    obtain ⟨tables, hlength, hviews, rfl, rfl, hrest'⟩ := ih hρrest hrest
    refine ⟨table :: tables, by simp [hlength], List.forall_mem_cons.2 ⟨hview, hviews⟩, by simp, ?_, ?_⟩
    · simp [tableEntries, List.zipIdx_cons]
    · rw [List.foldlM_cons]
      refine bind_eq_ok_iff.2 ⟨_, hnext', ?_⟩
      rw [hrest']
      simp

/-! ## Names of views -/

/-- Views that wait, under renumbered handles. -/
def renumberPending (ρ : Renumbering) (pending : List (TableId × DatabaseId × Source.View)) :
    List (TableId × DatabaseId × Source.View) :=
  pending.map fun p => (ρ.table p.1, ρ.database p.2.1, p.2.2)

variable {draft draft' next : Draft}

theorem addViewName_sideBySide (hρ : ρ.table draft.store.nextTable = draft'.store.nextTable)
    {source : Source.View}
    (h : addViewName database schema container (draft, names) source = .ok (next, names')) :
    ∃ table : Table, table.view = none ∧
      next = ⟨{ draft.store with tables := draft.store.tables ++ [table] },
        draft.pendingViews ++ [(draft.store.nextTable, database, source)]⟩ ∧
      names' = names ++ [(source.name.value, draft.store.nextTable)] ∧
      addViewName (ρ.database database) schema container (draft', renumberEntries ρ names) source =
        .ok (⟨{ draft'.store with tables := draft'.store.tables ++ [table.renumber ρ] },
          draft'.pendingViews ++ [(ρ.table draft.store.nextTable, ρ.database database, source)]⟩,
          renumberEntries ρ names') := by
  unfold addViewName at h ⊢
  dsimp only at h ⊢
  rw [isSome_lookup_renumberEntries]
  split at h
  · exact absurd h (found_ne_ok _ _ _)
  · rename_i hnew
    rw [if_neg hnew]
    obtain ⟨rfl, rfl⟩ := Prod.mk.inj (pure_eq_ok_iff.1 h)
    refine ⟨_, rfl, rfl, rfl, ?_⟩
    simp [pure, Except.pure, renumberEntries, Table.renumber, ← hρ]

theorem addViewNames_sideBySide {sources : List Source.View}
    (hρ : ∀ k < sources.length,
      ρ.table ⟨draft.store.tables.length + k⟩ = ⟨draft'.store.tables.length + k⟩)
    (h : sources.foldlM (addViewName database schema container) (draft, names) =
      .ok (next, names')) :
    ∃ tables : List Table, tables.length = sources.length ∧ (∀ table ∈ tables, table.view = none) ∧
      next = ⟨{ draft.store with tables := draft.store.tables ++ tables },
        draft.pendingViews ++ pendingEntries draft.store.tables.length database sources⟩ ∧
      names' = names ++ viewEntries draft.store.tables.length sources ∧
      sources.foldlM (addViewName (ρ.database database) schema container)
          (draft', renumberEntries ρ names) =
        .ok (⟨{ draft'.store with
            tables := draft'.store.tables ++ tables.map (Table.renumber ρ) },
          draft'.pendingViews ++
            renumberPending ρ (pendingEntries draft.store.tables.length database sources)⟩,
          renumberEntries ρ names') := by
  induction sources generalizing draft draft' names with
  | nil =>
    obtain ⟨rfl, rfl⟩ := Prod.mk.inj (pure_eq_ok_iff.1 h)
    exact ⟨[], rfl, by simp, by simp [pendingEntries], by simp [viewEntries],
      by simp [pure, Except.pure, pendingEntries, renumberPending]⟩
  | cons source rest ih =>
    rw [List.foldlM_cons] at h
    obtain ⟨⟨following, known⟩, hfollowing, hrest⟩ := bind_eq_ok_iff.1 h
    obtain ⟨table, hview, rfl, rfl, hfollowing'⟩ := addViewName_sideBySide (hρ 0 (by simp)) hfollowing
    let following' : Draft :=
      ⟨{ draft'.store with tables := draft'.store.tables ++ [table.renumber ρ] },
        draft'.pendingViews ++ [(ρ.table draft.store.nextTable, ρ.database database, source)]⟩
    have hρrest : ∀ k < rest.length, ρ.table ⟨(draft.store.tables ++ [table]).length + k⟩ =
        ⟨following'.store.tables.length + k⟩ :=
      table_behind hρ rfl (by simp [Nat.add_comm])
    obtain ⟨tables, hlength, hviews, rfl, rfl, hrest'⟩ := ih hρrest hrest
    refine ⟨table :: tables, by simp [hlength], List.forall_mem_cons.2 ⟨hview, hviews⟩, ?_, ?_, ?_⟩
    · simp [pendingEntries, List.zipIdx_cons, nextTable]
    · simp [viewEntries, List.zipIdx_cons, nextTable]
    · rw [List.foldlM_cons]
      refine bind_eq_ok_iff.2 ⟨_, hfollowing', hrest'.trans ?_⟩
      simp [pendingEntries, renumberPending, List.zipIdx_cons, nextTable, following']

/-! ## Schemas -/

/-- Adds tables, schemas and views that wait to a draft. -/
def Draft.extend (draft : Draft) (database : DatabaseId) (tables : List Table)
    (schemas : List Schema) (pending : List (TableId × DatabaseId × Source.View)) : Draft :=
  ⟨({ draft.store with tables := draft.store.tables ++ tables }).modifyDatabase database fun d =>
    { d with schemas := d.schemas ++ schemas }, draft.pendingViews ++ pending⟩

theorem Draft.tables_extend (tables : List Table) (schemas : List Schema)
    (pending : List (TableId × DatabaseId × Source.View)) :
    (draft.extend database tables schemas pending).store.tables = draft.store.tables ++ tables := rfl

theorem modifyDatabase_of_forall_eq (s : Store) (database : DatabaseId) {f : Database → Database}
    (hf : ∀ d, f d = d) : s.modifyDatabase database f = s := by
  obtain rfl : f = id := funext hf
  simp [modifyDatabase, List.modify_id]

theorem Draft.extend_nil (draft : Draft) (database : DatabaseId) :
    draft.extend database [] [] [] = draft := by
  unfold extend
  rw [modifyDatabase_of_forall_eq _ _ (by simp)]
  simp

theorem Draft.extend_extend (tables tables' : List Table) (schemas schemas' : List Schema)
    (pending pending' : List (TableId × DatabaseId × Source.View)) :
    (draft.extend database tables schemas pending).extend database tables' schemas' pending' =
      draft.extend database (tables ++ tables') (schemas ++ schemas') (pending ++ pending') := by
  simp [extend, modifyDatabase, List.modify_modify_eq, Function.comp_def]

/-- Two drafts have the same schemas in a database. -/
def SameSchemas (ρ : Renumbering) (database : DatabaseId) (s s' : Store) : Prop :=
  (s'.database? (ρ.database database)).map Database.schemas =
    (s.database? database).map fun d => d.schemas.map (Schema.renumber ρ)

theorem SameSchemas.extend (h : SameSchemas ρ database draft.store draft'.store)
    (tables tables' : List Table) (schemas : List Schema)
    (pending pending' : List (TableId × DatabaseId × Source.View)) :
    SameSchemas ρ database (draft.extend database tables schemas pending).store
      (draft'.extend (ρ.database database) tables' (schemas.map (Schema.renumber ρ)) pending').store := by
  have hdatabase : ∀ (draft : Draft) id tables schemas pending,
      ((draft.extend id tables schemas pending).store.database? id) =
        (draft.store.database? id).map fun d => { d with schemas := d.schemas ++ schemas } :=
    fun _ _ _ _ _ => database?_modifyDatabase_self _ _ _
  unfold SameSchemas at h ⊢
  rw [hdatabase, hdatabase]
  cases hd : draft.store.database? database with
  | none =>
    rw [hd, Option.map_none, Option.map_eq_none_iff] at h
    rw [h]
    rfl
  | some d =>
    rw [hd, Option.map_some] at h
    obtain ⟨d', hd', hschemas⟩ := Option.map_eq_some_iff.1 h
    rw [hd']
    simp [hschemas]

theorem SameSchemas.declaresSchema_eq (h : SameSchemas ρ database s s') (name : String) :
    s'.declaresSchema (ρ.database database) name = s.declaresSchema database name := by
  unfold SameSchemas at h
  unfold declaresSchema
  cases hd : s.database? database with
  | none =>
    rw [hd, Option.map_none, Option.map_eq_none_iff] at h
    rw [h]
  | some d =>
    rw [hd, Option.map_some] at h
    obtain ⟨d', hd', hschemas⟩ := Option.map_eq_some_iff.1 h
    have hschema : d'.schema? name = (d.schema? name).map (Schema.renumber ρ) := by
      rw [← Database.schema?_renumber]
      simp only [Database.schema?, hschemas, Database.renumber]
    rw [hd', Option.bind_some, Option.bind_some, hschema, Option.isSome_map]

theorem addSchema_sideBySide {owner : Name} {source : Source.Schema}
    (hschemas : SameSchemas ρ database draft.store draft'.store)
    (hρ : ∀ k < source.tableCount,
      ρ.table ⟨draft.store.tables.length + k⟩ = ⟨draft'.store.tables.length + k⟩)
    (h : addSchema database owner draft source = .ok next) :
    ∃ tables : List Table, tables.length = source.tableCount ∧
      (∀ table ∈ tables, table.view = none) ∧
      next = draft.extend database tables [schemaEntry draft.store.tables.length source]
        (pendingEntries (draft.store.tables.length + source.tables.length) database source.views) ∧
      addSchema (ρ.database database) owner draft' source =
        .ok (draft'.extend (ρ.database database) (tables.map (Table.renumber ρ))
          [(schemaEntry draft.store.tables.length source).renumber ρ]
          (renumberPending ρ (pendingEntries (draft.store.tables.length + source.tables.length)
            database source.views))) := by
  unfold addSchema at h ⊢
  dsimp only at h ⊢
  rw [hschemas.declaresSchema_eq]
  split at h
  · exact absurd h (found_ne_ok _ _ _)
  · rename_i hnew
    rw [if_neg hnew]
    simp only [Source.Schema.tableCount] at hρ
    obtain ⟨⟨s, names⟩, htables, h⟩ := bind_eq_ok_iff.1 h
    obtain ⟨⟨named, names'⟩, hviews, h⟩ := bind_eq_ok_iff.1 h
    obtain rfl := pure_eq_ok_iff.1 h
    obtain ⟨tables, hlength, hplain, rfl, rfl, htables'⟩ :=
      addTables_sideBySide (fun k hk => hρ k (Nat.lt_add_right _ hk)) htables
    -- the views of a schema are numbered behind its tables
    let withTables' : Draft := { draft' with store := { draft'.store with
      tables := draft'.store.tables ++ tables.map (Table.renumber ρ) } }
    have hρviews : ∀ k < source.views.length, ρ.table ⟨(draft.store.tables ++ tables).length + k⟩ =
        ⟨withTables'.store.tables.length + k⟩ :=
      table_behind hρ (List.length_map _) (by omega)
    obtain ⟨views, hlengthViews, hpending, rfl, rfl, hviews'⟩ :=
      addViewNames_sideBySide hρviews hviews
    refine ⟨tables ++ views, by simp [hlength, hlengthViews, Source.Schema.tableCount],
      List.forall_mem_append.2 ⟨hplain, hpending⟩, ?_, ?_⟩
    · simp [Draft.extend, schemaEntry, hlength]
    · refine bind_eq_ok_iff.2 ⟨_, htables', bind_eq_ok_iff.2 ⟨_, hviews', ?_⟩⟩
      simp [pure, Except.pure, Draft.extend, schemaEntry, Schema.renumber, renumberEntries, hlength,
        withTables']

theorem addSchemas_sideBySide {owner : Name} {sources : List Source.Schema}
    (hschemas : SameSchemas ρ database draft.store draft'.store)
    (hρ : ∀ k < (sources.map (·.tableCount)).sum,
      ρ.table ⟨draft.store.tables.length + k⟩ = ⟨draft'.store.tables.length + k⟩)
    (h : sources.foldlM (addSchema database owner) draft = .ok next) :
    ∃ tables : List Table, tables.length = (sources.map (·.tableCount)).sum ∧
      (∀ table ∈ tables, table.view = none) ∧
      next = draft.extend database tables (schemaEntries draft.store.tables.length sources)
        (pendingOf draft.store.tables.length database sources) ∧
      sources.foldlM (addSchema (ρ.database database) owner) draft' =
        .ok (draft'.extend (ρ.database database) (tables.map (Table.renumber ρ))
          ((schemaEntries draft.store.tables.length sources).map (Schema.renumber ρ))
          (renumberPending ρ (pendingOf draft.store.tables.length database sources))) := by
  induction sources generalizing draft draft' with
  | nil =>
    obtain rfl := pure_eq_ok_iff.1 h
    exact ⟨[], rfl, by simp, (Draft.extend_nil _ _).symm, by
      simp [pure, Except.pure, schemaEntries, pendingOf, renumberPending, Draft.extend_nil]⟩
  | cons source rest ih =>
    rw [List.foldlM_cons] at h
    obtain ⟨following, hfollowing, hrest⟩ := bind_eq_ok_iff.1 h
    simp only [List.map_cons, List.sum_cons] at hρ
    obtain ⟨tables, hlength, hplain, rfl, hfollowing'⟩ :=
      addSchema_sideBySide hschemas (fun k hk => hρ k (by omega)) hfollowing
    have hρrest : ∀ k < (rest.map (·.tableCount)).sum,
        ρ.table ⟨(draft.store.tables ++ tables).length + k⟩ =
          ⟨(draft'.store.tables ++ tables.map (Table.renumber ρ)).length + k⟩ :=
      table_behind hρ (List.length_map _) (by omega)
    obtain ⟨tables', hlength', hplain', rfl, hrest'⟩ := ih (hschemas.extend _ _ _ _ _) hρrest hrest
    refine ⟨tables ++ tables', by simp [hlength, hlength'],
      List.forall_mem_append.2 ⟨hplain, hplain'⟩, ?_, ?_⟩
    · rw [Draft.extend_extend, Draft.tables_extend, List.length_append, hlength]
      rfl
    · rw [List.foldlM_cons]
      refine bind_eq_ok_iff.2 ⟨_, hfollowing', hrest'.trans ?_⟩
      rw [Draft.extend_extend, Draft.tables_extend, List.length_append, hlength]
      simp [schemaEntries, pendingOf, renumberPending]

/-! ## All databases -/

variable {sources sources' pre post : List Source.Database} {d : Source.Database}
  {included included' : Store} {entries : Source.Database → List Schema}
  {pending : Source.Database → List (TableId × DatabaseId × Source.View)}

/-- The third phase after the databases `pre`: each of them has its schemas, and its views wait. -/
structure Declared (sources : List Source.Database) (included : Store)
    (entries : Source.Database → List Schema)
    (pending : Source.Database → List (TableId × DatabaseId × Source.View))
    (pre : List Source.Database) (draft : Draft) : Prop where
  named : Named sources draft.store
  joins : draft.store.joins = []
  filters : draft.store.filters = []
  plain : ∀ table ∈ draft.store.tables, table.view = none
  length : draft.store.tables.length = (pre.map (·.tableCount)).sum
  pendingViews : draft.pendingViews = pre.flatMap pending
  declared : ∀ d ∈ pre, draft.store.database? (handleIn sources d) =
    (included.database? (handleIn sources d)).map fun found => { found with schemas := entries d }
  waiting : ∀ d ∈ sources, d ∉ pre →
    draft.store.database? (handleIn sources d) = included.database? (handleIn sources d)

theorem declared_nil (hincluded : Included sources included) :
    Declared sources included entries pending [] ⟨included, []⟩ where
  named := hincluded.named
  joins := hincluded.joins
  filters := hincluded.filters
  plain := by simp [hincluded.tables]
  length := by simp [hincluded.tables]
  pendingViews := rfl
  declared := by simp
  waiting := fun _ _ _ => rfl

/-- A database that waits for its schemas has none. -/
theorem Declared.schemas_of_waiting (h : Declared sources included entries pending pre draft)
    (hincluded : Included sources included) (hd : d ∈ sources) (hpre : d ∉ pre) {found : Database}
    (hfound : draft.store.database? (handleIn sources d) = some found) : found.schemas = [] := by
  rw [h.waiting d hd hpre] at hfound
  exact (hincluded.empty found (List.mem_of_getElem? hfound)).1

theorem not_mem_of_split (hnames : DistinctNames sources) (hsplit : sources = pre ++ d :: post) :
    d ∉ pre := by
  intro hpre
  have hnodup := hnames.nodup
  rw [hsplit, List.nodup_append] at hnodup
  exact hnodup.2.2 d hpre d List.mem_cons_self rfl

theorem Declared.extend (h : Declared sources included entries pending pre draft)
    (hincluded : Included sources included) (hnames : DistinctNames sources)
    (hsplit : sources = pre ++ d :: post) {tables : List Table}
    (hlength : tables.length = d.tableCount) (hplain : ∀ table ∈ tables, table.view = none) :
    Declared sources included entries pending (pre ++ [d])
      (draft.extend (handleIn sources d) tables (entries d) (pending d)) := by
  have hd : d ∈ sources := by simp [hsplit]
  have hnew := not_mem_of_split hnames hsplit
  have hother : ∀ e ∈ sources, e ≠ d →
      (draft.extend (handleIn sources d) tables (entries d) (pending d)).store.database?
        (handleIn sources e) = draft.store.database? (handleIn sources e) := fun e he hne =>
    database?_modifyDatabase_of_ne _ (fun hsame => hne (handleIn_inj hnames hd he hsame.symm)) _
  refine {
    named := Named.modifyDatabase (s := { draft.store with
      tables := draft.store.tables ++ tables }) h.named _ fun _ => rfl
    joins := h.joins
    filters := h.filters
    plain := List.forall_mem_append.2 ⟨h.plain, hplain⟩
    length := by
      rw [Draft.tables_extend, List.length_append, h.length, hlength]
      simp
    pendingViews := by
      rw [List.flatMap_append, ← h.pendingViews]
      simp [Draft.extend]
    declared := ?_
    waiting := ?_ }
  · intro e he
    rcases List.mem_append.1 he with he | he
    · have hne : e ≠ d := fun hsame => hnew (hsame ▸ he)
      rw [hother e (by simp [hsplit, he]) hne, h.declared e he]
    · obtain rfl := List.mem_singleton.1 he
      have hself : (draft.extend (handleIn sources e) tables (entries e) (pending e)).store.database?
          (handleIn sources e) = (draft.store.database? (handleIn sources e)).map fun found =>
          { found with schemas := found.schemas ++ entries e } := database?_modifyDatabase_self _ _ _
      rw [hself, ← h.waiting e hd hnew]
      refine Option.map_congr fun found hfound => ?_
      rw [h.schemas_of_waiting hincluded hd hnew hfound, List.nil_append]
  · intro e he hnot
    simp only [List.mem_append, List.mem_singleton, not_or] at hnot
    rw [hother e he hnot.2, h.waiting e he hnot.1]

/-- The schemas that the databases of a list register. -/
def entriesIn (sources : List Source.Database) (d : Source.Database) : List Schema :=
  schemaEntries (offset (·.tableCount) sources d) d.schemas

/-- The views that wait in the databases of a list. -/
def pendingIn (sources : List Source.Database) (d : Source.Database) :
    List (TableId × DatabaseId × Source.View) :=
  pendingOf (offset (·.tableCount) sources d) (handleIn sources d) d.schemas

/-- The tables and views of a database of a list. -/
def tablesIn (sources : List Source.Database) (s : Store) (d : Source.Database) : List Table :=
  block (·.tableCount) sources d s.tables

theorem Declared.offset_eq (h : Declared sources included entries pending pre draft)
    (hnames : DistinctNames sources) (hsplit : sources = pre ++ d :: post) :
    draft.store.tables.length = offset (·.tableCount) sources d := by
  rw [h.length, hsplit, offset_append (hsplit ▸ hnames)]

/-- Two databases that wait for their schemas have the same ones. -/
theorem Declared.sameSchemas (hnames : DistinctNames sources) (hperm : sources'.Perm sources)
    (hρ : Carries ρ sources sources') (hincluded : Included sources included)
    (hincluded' : Included sources' included') {pre' : List Source.Database} (hd : d ∈ sources)
    (hnew : d ∉ pre) (hnew' : d ∉ pre') {entries' : Source.Database → List Schema}
    {pending' : Source.Database → List (TableId × DatabaseId × Source.View)} {draft' : Draft}
    (h : Declared sources included entries pending pre draft)
    (h' : Declared sources' included' entries' pending' pre' draft') :
    SameSchemas ρ (handleIn sources d) draft.store draft'.store := by
  have hd' : d ∈ sources' := hperm.mem_iff.2 hd
  obtain ⟨found, hfound, -⟩ := h.named.database?_handleIn hnames hd
  obtain ⟨found', hfound', -⟩ := h'.named.database?_handleIn (hnames.of_perm hperm) hd'
  unfold SameSchemas
  rw [hρ.database_handleIn hd, hfound, hfound', Option.map_some, Option.map_some,
    h.schemas_of_waiting hincluded hd hnew hfound,
    h'.schemas_of_waiting hincluded' hd' hnew' hfound']
  rfl

/-- Registering schemas records nothing. -/
theorem result_foldlM_ofResult (f : Draft → Source.Database → Resolved Draft)
    (l : List Source.Database) (draft : Draft) :
    (l.foldlM (fun draft d => Recorded.ofResult (f draft d)) draft).result = l.foldlM f draft :=
  Recorded.result_foldlM _ l draft

/-- The third phase adds the tables of one database at a time. -/
theorem frames_addSchemas (hnames : DistinctNames sources) (hincluded : Included sources included) :
    Recorded.Frames
      (fun draft d => Recorded.ofResult (addSchemas draft (d, (handleIn sources d).index))) sources
      (fun draft d => tablesIn sources draft.store d)
      (Declared sources included (entriesIn sources) (pendingIn sources)) := by
  intro pre d post draft next hsplit h hadd
  have hd : d ∈ sources := by simp [hsplit]
  -- the run is compared with itself, for what is added in closed form
  have hschemas : SameSchemas .refl (handleIn sources d) draft.store draft.store := by
    obtain ⟨found, hfound, -⟩ := h.named.database?_handleIn hnames hd
    have hempty := h.schemas_of_waiting hincluded hd (not_mem_of_split hnames hsplit) hfound
    have hself : Renumbering.refl.database (handleIn sources d) = handleIn sources d := rfl
    unfold SameSchemas
    rw [hself, hfound, Option.map_some, Option.map_some, hempty]
    rfl
  obtain ⟨tables, hlength, hplain, rfl, -⟩ :=
    addSchemas_sideBySide hschemas (fun k _ => rfl) hadd
  have hfits : tables.length = d.tableCount := hlength
  have hoffset := h.offset_eq hnames hsplit
  rw [hoffset]
  refine ⟨h.extend hincluded hnames hsplit hfits hplain, fun e he hne => ?_⟩
  exact block_append_of_ne hnames hd he hne hoffset.ge (by omega)

theorem declared_of_addSchemas (hnames : DistinctNames sources) (hincluded : Included sources included)
    (hrun : sources.zipIdx.foldlM addSchemas ⟨included, []⟩ = .ok draft) :
    Declared sources included (entriesIn sources) (pendingIn sources) sources draft := by
  rw [foldlM_zipIdx_eq hnames, ← result_foldlM_ofResult] at hrun
  exact (frames_addSchemas hnames hincluded).all (declared_nil hincluded) hrun

/-- The tables of a database are the same in another order. -/
theorem stepsAlike_addSchemas (hnames : DistinctNames sources) (hperm : sources'.Perm sources)
    (hρ : Carries ρ sources sources') (hincluded : Included sources included)
    (hincluded' : Included sources' included') :
    Recorded.StepsAlike
      (fun draft d => Recorded.ofResult (addSchemas draft (d, (handleIn sources d).index)))
      (fun draft d => Recorded.ofResult (addSchemas draft (d, (handleIn sources' d).index)))
      sources sources' (fun draft d => tablesIn sources draft.store d)
      (fun draft d => tablesIn sources' draft.store d)
      (List.map (Table.renumber ρ))
      (Declared sources included (entriesIn sources) (pendingIn sources))
      (Declared sources' included' (fun d => (entriesIn sources d).map (Schema.renumber ρ))
        fun d => renumberPending ρ (pendingIn sources d)) := by
  intro pre d post pre' post' draft next draft' hsplit hsplit' h h' hadd _
  have hnames' := hnames.of_perm hperm
  have hd : d ∈ sources := by simp [hsplit]
  have hd' : d ∈ sources' := by simp [hsplit']
  have hoffset := h.offset_eq hnames hsplit
  have hoffset' := h'.offset_eq hnames' hsplit'
  have hschemas := Declared.sameSchemas hnames hperm hρ hincluded hincluded' hd
    (not_mem_of_split hnames hsplit) (not_mem_of_split hnames' hsplit') h h'
  -- both runs add where the block of the database begins
  have hmoves : ∀ k < (d.schemas.map (·.tableCount)).sum,
      ρ.table ⟨draft.store.tables.length + k⟩ = ⟨draft'.store.tables.length + k⟩ := by
    intro k hk
    rw [hoffset, hoffset']
    exact congrArg TableId.mk (hρ.tables d hd k hk)
  obtain ⟨tables, hlength, hplain, rfl, hadd'⟩ := addSchemas_sideBySide hschemas hmoves hadd
  rw [hρ.database_handleIn hd, hoffset] at hadd'
  have hlength' : (tables.map (Table.renumber ρ)).length = d.tableCount := by
    rw [List.length_map]
    exact hlength
  have hplain' : ∀ table ∈ tables.map (Table.renumber ρ), table.view = none := by
    intro table htable
    obtain ⟨plain, hmem, rfl⟩ := List.mem_map.1 htable
    simp [Table.renumber, hplain plain hmem]
  refine ⟨_, Recorded.ext_result rfl hadd', h'.extend hincluded' hnames' hsplit' hlength' hplain', ?_,
    fun e he hne => ?_⟩
  · simp only [tablesIn, Draft.tables_extend]
    rw [block_append_self hoffset hlength, block_append_self hoffset' hlength']
  · exact block_append_of_ne hnames' hd' (hperm.mem_iff.2 he) hne hoffset'.ge (by omega)

/-- Schemas are registered in another order too, and are the same. -/
theorem schemas_of_perm (hnames : DistinctNames sources) (hperm : sources'.Perm sources)
    (hρ : Carries ρ sources sources') (hincluded : Included sources included)
    (hincluded' : Included sources' included')
    (hrun : sources.zipIdx.foldlM addSchemas ⟨included, []⟩ = .ok draft) :
    ∃ draft', sources'.zipIdx.foldlM addSchemas ⟨included', []⟩ = .ok draft' ∧
      Declared sources included (entriesIn sources) (pendingIn sources) sources draft ∧
      Declared sources' included' (fun d => (entriesIn sources d).map (Schema.renumber ρ))
        (fun d => renumberPending ρ (pendingIn sources d)) sources' draft' ∧
      ∀ d ∈ sources, tablesIn sources' draft'.store d =
        (tablesIn sources draft.store d).map (Table.renumber ρ) := by
  have hnames' := hnames.of_perm hperm
  rw [foldlM_zipIdx_eq hnames, ← result_foldlM_ofResult] at hrun
  have hstart : ∀ d ∈ sources, tablesIn sources' included' d =
      (tablesIn sources included d).map (Table.renumber ρ) := by
    intro d _
    simp [tablesIn, block, hincluded.tables, hincluded'.tables]
  obtain ⟨draft', hrun', -, hdeclared, hdeclared', hblocks⟩ :=
    Recorded.foldlM_of_perm (frames_addSchemas hnames hincluded)
      (stepsAlike_addSchemas hnames hperm hρ hincluded hincluded') hnames.nodup hperm
      (declared_nil hincluded) (declared_nil hincluded') hstart hrun
  rw [result_foldlM_ofResult] at hrun'
  exact ⟨draft', (foldlM_zipIdx_eq hnames' _ _).trans hrun', hdeclared, hdeclared', hblocks⟩

end Store

end ObjectRelational
