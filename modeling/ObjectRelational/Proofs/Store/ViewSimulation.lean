import ObjectRelational.Proofs.Store.Simulation
import ObjectRelational.Store.Build

/-!
# Views in stores with the same names

A view resolves to the same in two stores with the same names, up to the handles, when joins and filters
are the same and so are the tables whose columns the view reads.

* `Source.View.columnReferences`: the columns that a view reads.
* `Resolver.FiltersAlike`: filters are the same for two resolvers.
* `Resolver.Alike.filter_eq`, `Resolver.Alike.view_eq`: filters and views resolve alike.
* `Resolver.Alike.viewColumns_eq`: the columns of the view have the same names and types.
-/

namespace ObjectRelational

/-- The columns that a view reads, at any depth of its expressions. -/
def Source.View.columnReferences (view : Source.View) : List Source.ColumnReference :=
  view.columns.flatMap (·.operation.columnReferences) ++
    view.groupBy.flatMap Source.Operation.columnReferences

variable {ρ : Renumbering}

/-! ## Types -/

namespace Operation

mutual

/-- The name of an alias says nothing about types. -/
theorem dataType_renameAlias (store : Store) (table : TableId) (name : String) :
    (operation : Operation) → (operation.renameAlias table name).dataType store =
      operation.dataType store
  | .column reference => by
    by_cases hsame : reference.tableAlias.table = table <;>
      simp [renameAlias, mapAliases, dataType, hsame]
  | .join source steps target => by
    have htarget := dataTypeOfTarget_renameAlias store table name target
    simp only [renameAlias, mapAliases, dataType, htarget]
  | .literal value => by simp [renameAlias, mapAliases]
  | .function _ _ => by simp [renameAlias, mapAliases, dataType]

theorem dataTypeOfTarget_renameAlias (store : Store) (table : TableId) (name : String) :
    (target : Option Operation) →
      dataTypeOfTarget store (mapAliasesOfTarget
        (fun a => if a.table = table then { a with name := name } else a) id target) =
        dataTypeOfTarget store target
  | none => by simp [mapAliasesOfTarget]
  | some target => by
    have htarget := dataType_renameAlias store table name target
    simp only [renameAlias] at htarget
    simp only [mapAliasesOfTarget, dataTypeOfTarget, htarget]

end

end Operation

namespace Resolver

variable {r r' : Resolver}

/-- Behind a self join, what is evaluated has the same type. -/
theorem dataType_renameFarSide (store : Store) (steps : List JoinStep) (operation : Operation) :
    (r.renameFarSide steps operation).dataType store = operation.dataType store := by
  unfold renameFarSide
  split
  · rfl
  · split
    · split
      · exact operation.dataType_renameAlias store _ _
      · rfl
    · rfl

theorem dataType_renumber_renameFarSide (store : Store) (steps : List JoinStep)
    (operation : Operation) :
    ((r.renameFarSide steps operation).renumber ρ).dataType store =
      (operation.renumber ρ).dataType store := by
  unfold renameFarSide
  split
  · rfl
  · split
    · split
      · rw [← Operation.renameAlias_renumber, Operation.dataType_renameAlias]
      · rfl
    · rfl

/-- A column that is found belongs to the table that it is looked for in. -/
theorem tableAlias_of_columnOf {owner : TableAlias} {name : Name} {column : ColumnRef}
    (h : (r.columnOf owner name).result = .ok column) : column.tableAlias = owner := by
  unfold columnOf at h
  split at h
  · obtain ⟨_, -, h⟩ := Recorded.result_bind_eq_ok_iff.1 h
    obtain rfl := Except.ok.inj h
    rfl
  · exact absurd h (found_ne_ok _ _ _)

/-- A column that is resolved belongs to the table that it is written with. -/
theorem lookupTable_of_column {reference : Source.ColumnReference} {column : ColumnRef}
    (h : (r.column reference).result = .ok column) :
    r.lookupTable reference.database reference.schema reference.table = .ok column.tableAlias := by
  simp only [Resolver.column, Resolver.table, Recorded.result_bind_eq_ok_iff,
    Recorded.result_monadLift, Recorded.result_pure] at h
  obtain ⟨owner, ⟨found, hfound, _, -, _, -, hsame⟩, hcolumn⟩ := h
  obtain rfl := Except.ok.inj hsame
  rw [hfound, tableAlias_of_columnOf hcolumn]

/-- A table that is found is the one that the name denotes in the database that it is addressed in. -/
theorem findTable?_of_lookupTable {database schema : Option Name} {table : Name} {found : TableAlias}
    (h : r.lookupTable database schema table = .ok found) :
    ∃ id, r.lookupAddressed database = .ok id ∧
      r.store.findTable? id ((schema.map (·.value)).getD r.defaultSchema) table.value =
        some found.table := by
  unfold lookupTable at h
  obtain ⟨id, hid, h⟩ := bind_eq_ok_iff.1 h
  refine ⟨id, hid, ?_⟩
  cases schema
  all_goals
    dsimp only at h
    split at h
    · split at h
      · rename_i named hnamed
        obtain rfl := pure_eq_ok_iff.1 h
        exact hnamed
      · exact absurd h (found_ne_ok _ _ _)
    · exact absurd h (found_ne_ok _ _ _)

/-- Filters are the same for two resolvers. -/
structure FiltersAlike (ρ : Renumbering) (r r' : Resolver) : Prop where
  named : ∀ id name, r'.store.findFilter? (ρ.database id) name =
    (r.store.findFilter? id name).map ρ.filter
  filter : ∀ id, r'.store.filter? (ρ.filter id) = (r.store.filter? id).map (Filter.renumber ρ)

namespace Alike

/-- A column of a table with the same columns has the same type. -/
theorem dataType_column {column : ColumnRef}
    (hcolumns : r.store.SameColumns ρ r'.store column.tableAlias.table) :
    (Operation.column (column.renumber ρ)).dataType r'.store =
      (Operation.column column).dataType r.store := by
  have hcolumn : ((r'.store.table? (column.renumber ρ).tableAlias.table).bind fun t =>
      t.column? column.column) = ((r.store.table? column.tableAlias.table).bind fun t =>
      t.column? column.column).map (Column.renumber ρ) := hcolumns column.column
  simp only [Operation.dataType]
  rw [show (column.renumber ρ).column = column.column from rfl, hcolumn]
  cases (r.store.table? column.tableAlias.table).bind fun t => t.column? column.column <;> rfl

mutual

/-- An expression that resolves has the same type in both stores. -/
theorem dataType_of_resolve (h : Alike ρ r r') : (written : Source.Operation) →
    (∀ reference ∈ written.columnReferences, ReadsAlike ρ r r' reference) →
    ∀ source operation, (r.resolve source written).result = .ok operation →
      (operation.renumber ρ).dataType r'.store = operation.dataType r.store
  | .column reference => by
    intro hreads source operation hresolve
    unfold resolve at hresolve
    obtain ⟨column, hcolumn, hresolve⟩ := Recorded.result_bind_eq_ok_iff.1 hresolve
    obtain rfl := Except.ok.inj hresolve
    have hread := hreads reference (by simp [Source.Operation.columnReferences])
    simp only [Operation.renumber]
    exact dataType_column (hread _ (lookupTable_of_column hcolumn))
  | .targetColumn name => by
    intro _ source operation hresolve
    unfold resolve at hresolve
    split at hresolve
    · rename_i target htarget
      obtain ⟨column, hcolumn, hresolve⟩ := Recorded.result_bind_eq_ok_iff.1 hresolve
      obtain rfl := Except.ok.inj hresolve
      simp only [Operation.renumber]
      exact dataType_column (tableAlias_of_columnOf hcolumn ▸ h.targetColumns target htarget)
    · exact absurd hresolve (found_ne_ok _ _ _)
  | .joinPath joins target => by
    intro hreads source operation hresolve
    simp only [Source.Operation.columnReferences] at hreads
    unfold resolve at hresolve
    obtain ⟨chain, hchain, hresolve⟩ := Recorded.result_bind_eq_ok_iff.1 hresolve
    obtain rfl := Except.ok.inj hresolve
    simp only [JoinChain.toOperation, Operation.renumber, Operation.dataType]
    exact dataTypeOfTarget_of_resolvePath h target hreads joins source chain hchain
  | .literal value => by
    intro _ source operation hresolve
    unfold resolve at hresolve
    obtain rfl := Except.ok.inj hresolve
    cases value <;> simp [Operation.renumber, Operation.dataType]
  | .function name arguments => by
    -- a function has a type of its own, whatever its arguments are
    intro _ source operation hresolve
    unfold resolve at hresolve
    obtain ⟨resolved, -, hresolve⟩ := Recorded.result_bind_eq_ok_iff.1 hresolve
    obtain rfl := Except.ok.inj hresolve
    simp [Operation.renumber, Operation.dataType]

theorem dataTypeOfTarget_of_resolvePath (h : Alike ρ r r') : (target : Option Source.Operation) →
    (∀ reference ∈ Source.Operation.columnReferencesOfTarget target, ReadsAlike ρ r r' reference) →
    ∀ joins source chain, (r.resolvePath source joins target).result = .ok chain →
      dataTypeOfTarget r'.store (Operation.renumberTarget ρ chain.target) =
        dataTypeOfTarget r.store chain.target
  | none => by
    intro _ joins source chain hchain
    unfold resolvePath at hchain
    simp only [Recorded.result_bind_eq_ok_iff, Recorded.result_pure] at hchain
    obtain ⟨_, -, _, -, hchain⟩ := hchain
    obtain rfl := Except.ok.inj hchain
    simp [Operation.renumberTarget, dataTypeOfTarget]
  | some target => by
    intro hreads joins source chain hchain
    simp only [Source.Operation.columnReferencesOfTarget] at hreads
    unfold resolvePath at hchain
    simp only [Recorded.result_bind_eq_ok_iff, Recorded.result_pure] at hchain
    obtain ⟨start, -, steps, -, operation, hoperation, _, -, hchain⟩ := hchain
    obtain rfl := Except.ok.inj hchain
    have htype := dataType_of_resolve h target hreads _ operation hoperation
    simp only [Operation.renumberTarget, dataTypeOfTarget, dataType_renumber_renameFarSide,
      dataType_renameFarSide, htype]

end

/-! ## Filters -/

theorem filterJoins_eq (h : Alike ρ r r') {joins : List Source.JoinReference}
    (hfinds : ∀ reference ∈ joins, FindsAlike ρ r r' reference) (source : Option TableAlias) :
    r'.filterJoins (source.map (TableAlias.renumber ρ)) joins =
      List.map (JoinStep.renumber ρ) <$> r.filterJoins source joins := by
  cases joins with
  | nil =>
    unfold filterJoins
    simp
  | cons first rest =>
    cases source with
    | none => rfl
    | some source => exact h.steps_eq hfinds source.table

theorem filter_eq (h : Alike ρ r r') (hfilters : FiltersAlike ρ r r')
    (hfinds : ∀ reference, FindsAlike ρ r r' reference) (source : Option TableAlias)
    (reference : Source.FilterReference) :
    r'.filter (source.map (TableAlias.renumber ρ)) reference =
      FilterPointer.renumber ρ <$> r.filter source reference := by
  unfold Resolver.filter
  have hjoins := h.filterJoins_eq (fun join (_ : join ∈ reference.joins) => hfinds join) source
  refine Recorded.bind_eq_map hjoins fun joins _ => ?_
  refine Recorded.bind_eq_map (h.addressed_eq reference.database) fun database _ => ?_
  simp only [h.names.databaseName_eq, hfilters.named]
  cases r.store.findFilter? database reference.name.value with
  | none => rfl
  | some id =>
    simp only [Option.map_some, hfilters.filter id]
    cases r.store.filter? id with
    | none => rfl
    | some found =>
      have howner : r'.store.databaseName (found.renumber ρ).database =
          r.store.databaseName found.database := h.names.databaseName_eq found.database
      simp only [Option.map_some, howner]
      refine Recorded.bind_congr_map fun _ _ => ?_
      simp [FilterPointer.renumber]

theorem filter?_eq (h : Alike ρ r r') (hfilters : FiltersAlike ρ r r')
    (hfinds : ∀ reference, FindsAlike ρ r r' reference) (main : TableAlias)
    (reference : Option Source.FilterReference) :
    r'.filter? (main.renumber ρ) reference =
      Option.map (FilterPointer.renumber ρ) <$> r.filter? main reference := by
  cases reference with
  | none => rfl
  | some reference =>
    unfold filter?
    have hfilter := h.filter_eq hfilters hfinds (some main) reference
    refine Recorded.bind_eq_map hfilter fun pointer _ => ?_
    simp

/-! ## The main table of a view -/

theorem seesTable_eq (h : Alike ρ r r') (table : TableId) :
    r'.seesTable (ρ.table table) = r.seesTable table := by
  unfold seesTable
  cases ht : r.store.table? table with
  | none => simp [h.names.table?_of_none ht]
  | some t =>
    obtain ⟨t', ht', -, -, hdatabase⟩ := h.names.table?_of_some ht
    simp only [ht', hdatabase, h.database, Renumbering.database_inj, h.names.includesTransitively_eq]

theorem tableNotVisible_eq (h : Alike ρ r r') (view : Name) (table : TableId) :
    r'.tableNotVisible view (ρ.table table) = r.tableNotVisible view table := by
  unfold tableNotVisible
  rw [h.names.tableName_eq, h.database, h.names.databaseName_eq]
  cases ht : r.store.table? table with
  | none => simp [h.names.table?_of_none ht]
  | some t =>
    obtain ⟨t', ht', -, -, hdatabase⟩ := h.names.table?_of_some ht
    simp only [ht', hdatabase, h.names.databaseName_eq]

theorem addViewRoots_eq (h : Alike ρ r r') (view column : Name) (roots found : List TableAlias) :
    r'.addViewRoots view column (roots.map (TableAlias.renumber ρ))
        (found.map (TableAlias.renumber ρ)) =
      List.map (TableAlias.renumber ρ) <$> r.addViewRoots view column roots found := by
  induction found generalizing roots with
  | nil => rfl
  | cons root rest ih =>
    have hany : ((roots.map (TableAlias.renumber ρ)).any fun known =>
        known.table = (root.renumber ρ).table) = roots.any fun known => known.table = root.table := by
      rw [List.any_map]
      simp only [Function.comp_def, TableAlias.renumber, Renumbering.table_inj]
    have hsees : r'.seesTable (root.renumber ρ).table = r.seesTable root.table :=
      h.seesTable_eq root.table
    have hfault : r'.tableNotVisible view (root.renumber ρ).table =
        r.tableNotVisible view root.table := h.tableNotVisible_eq view root.table
    rw [List.map_cons]
    unfold addViewRoots
    rw [hsees, hany, hfault]
    split
    · split
      · exact ih roots
      · simpa using ih (roots ++ [root])
    · rfl

theorem viewRoots_eq (h : Alike ρ r r') (hfinds : ∀ reference, FindsAlike ρ r r' reference)
    (view : Name) (roots : List TableAlias) (columns : List Source.ViewColumn) :
    r'.viewRoots view (roots.map (TableAlias.renumber ρ)) columns =
      List.map (TableAlias.renumber ρ) <$> r.viewRoots view roots columns := by
  induction columns generalizing roots with
  | nil => rfl
  | cons column rest ih =>
    unfold viewRoots
    refine bind_eq_map (h.inferRoots_eq fun reference _ => hfinds reference) fun found _ => ?_
    refine bind_eq_map (h.addViewRoots_eq view column.name roots found) fun added _ => ?_
    exact ih added

theorem viewMainTable_eq (h : Alike ρ r r') (hfinds : ∀ reference, FindsAlike ρ r r' reference)
    (view : Source.View) :
    r'.viewMainTable view = TableAlias.renumber ρ <$> r.viewMainTable view := by
  unfold viewMainTable
  refine bind_eq_map (h.viewRoots_eq hfinds view.name [] view.columns) fun roots _ => ?_
  rcases roots with _ | ⟨main, _ | ⟨second, rest⟩⟩
  · rfl
  · rfl
  · have hall := h.names.describeAll_eq (main :: second :: rest)
    simp only [List.map_cons] at hall ⊢
    rw [hall]
    rfl

/-! ## Views -/

theorem viewColumn_eq (h : Alike ρ r r') (hfinds : ∀ reference, FindsAlike ρ r r' reference)
    {column : Source.ViewColumn}
    (hreads : ∀ reference ∈ column.operation.columnReferences, ReadsAlike ρ r r' reference)
    (view : Name) (main : TableAlias) :
    r'.viewColumn view (main.renumber ρ) column =
      ViewColumn.renumber ρ <$> r.viewColumn view main column := by
  unfold viewColumn
  have hoperation := h.resolve_eq column.operation (fun reference _ => hfinds reference) hreads
    (some main)
  refine Recorded.bind_eq_map hoperation fun operation _ => ?_
  rw [Operation.isBareJoin_renumber]
  split
  · rfl
  · simp [ViewColumn.renumber]

theorem viewGroupBy_eq (h : Alike ρ r r') (hfinds : ∀ reference, FindsAlike ρ r r' reference)
    {expression : Source.Operation}
    (hreads : ∀ reference ∈ expression.columnReferences, ReadsAlike ρ r r' reference)
    (view : Source.View) (main : TableAlias) :
    r'.viewGroupBy view (main.renumber ρ) expression =
      Operation.renumber ρ <$> r.viewGroupBy view main expression := by
  unfold viewGroupBy
  have hoperation := h.resolve_eq expression (fun reference _ => hfinds reference) hreads (some main)
  refine Recorded.bind_eq_map hoperation fun operation _ => ?_
  have hother : ((operation.renumber ρ).directColumns.find? fun c =>
      c.tableAlias.table ≠ (main.renumber ρ).table) =
      (operation.directColumns.find? fun c => c.tableAlias.table ≠ main.table).map
        (ColumnRef.renumber ρ) := by
    rw [Operation.directColumns_renumber, List.find?_map]
    congr 1
    simp only [Function.comp_def, ColumnRef.renumber, TableAlias.renumber, ne_eq,
      Renumbering.table_inj]
  have hname : r'.store.tableName (main.renumber ρ).table = r.store.tableName main.table :=
    h.names.tableName_eq main.table
  rw [hother, hname]
  cases operation.directColumns.find? fun c => c.tableAlias.table ≠ main.table with
  | none => simp
  | some column => rfl

/-- A view resolves alike. -/
theorem view_eq (h : Alike ρ r r') (hfilters : FiltersAlike ρ r r')
    (hfinds : ∀ reference, FindsAlike ρ r r' reference) {view : Source.View}
    (hreads : ∀ reference ∈ view.columnReferences, ReadsAlike ρ r r' reference) :
    r'.view view = View.renumber ρ <$> r.view view := by
  simp only [Source.View.columnReferences, List.forall_mem_append, List.mem_flatMap] at hreads
  unfold Resolver.view
  rw [h.viewMainTable_eq hfinds]
  refine Recorded.bind_eq_map (Recorded.monadLift_map _ _) fun main _ => ?_
  have hcolumns := Recorded.forAll_eq_map fun column hcolumn =>
    h.viewColumn_eq hfinds (fun reference hreference =>
      hreads.1 reference ⟨column, hcolumn, hreference⟩) view.name main
  refine Recorded.bind_eq_map hcolumns fun columns _ => ?_
  refine Recorded.bind_eq_map (h.filter?_eq hfilters hfinds main view.filter) fun filter _ => ?_
  have hgroupBy := Recorded.forAll_eq_map fun expression hexpression =>
    h.viewGroupBy_eq hfinds (fun reference hreference =>
      hreads.2 reference ⟨expression, hexpression, hreference⟩) view main
  refine Recorded.bind_eq_map hgroupBy fun groupBy _ => ?_
  simp [View.renumber]

/-- The columns of a view that resolves have the same names and types. -/
theorem viewColumns_eq (h : Alike ρ r r') {source : Source.View}
    (hreads : ∀ reference ∈ source.columnReferences, ReadsAlike ρ r r' reference) {view : View}
    (hview : (r.view source).result = .ok view) (table : TableId) :
    r'.store.viewColumns (ρ.table table) (view.renumber ρ) =
      (r.store.viewColumns table view).map (Column.renumber ρ) := by
  simp only [Source.View.columnReferences, List.forall_mem_append, List.mem_flatMap] at hreads
  simp only [Resolver.view, Recorded.result_bind_eq_ok_iff, Recorded.result_pure] at hview
  obtain ⟨main, -, columns, hcolumns, _, -, _, -, hview⟩ := hview
  obtain rfl := Except.ok.inj hview
  simp only [Store.viewColumns, View.renumber, List.map_map]
  refine List.map_congr_left fun column hcolumn => ?_
  obtain ⟨written, hwritten, hresolved⟩ :=
    exists_of_mem_right (Recorded.result_forAll_eq_ok_iff.1 hcolumns) hcolumn
  obtain ⟨operation, hoperation, hresolved⟩ := Recorded.result_bind_eq_ok_iff.1 hresolved
  split at hresolved
  · exact absurd hresolved (found_ne_ok _ _ _)
  · obtain rfl := Except.ok.inj hresolved
    -- the type is read off after the view is resolved, so that it is asked for in both stores
    have htype := h.dataType_of_resolve written.operation (fun reference hreference =>
      hreads.1 reference ⟨written, hwritten, hreference⟩) _ operation hoperation
    simp [ViewColumn.renumber, ViewColumn.dataType, Column.renumber, htype]

end Alike

end Resolver

end ObjectRelational
