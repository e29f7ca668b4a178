import ObjectRelational.Proofs.Store.Registration

/-!
# Names that are unique

Of databases, of schemas, joins and filters in a database, of tables and views in a schema and of columns in
a table, no two have one name. Columns of views have the names that they are written with, whether these
are different or not.

* `Store.NamesUnique`: the names of a store that are unique.
* `Store.columnNames_of_defineViews`: views have the columns that they are written with.
* `Store.distinct_columns_iff_of_build`: columns have different names if they do in views as these are
  written.
* `Store.names_unique`: the names of every store that is built are unique.
* `Store.not_all_columns_distinct`: a view with two columns of one name.
-/

namespace ObjectRelational

/-! ## Views that wait -/

/-- Every view of a database waits for its definition. -/
theorem exists_mem_pendingOf {first : Nat} {database : DatabaseId} {schemas : List Source.Schema}
    {schema : Source.Schema} (hschema : schema ∈ schemas) {view : Source.View}
    (hview : view ∈ schema.views) : ∃ p ∈ pendingOf first database schemas, p.2.2 = view := by
  induction schemas generalizing first with
  | nil => cases hschema
  | cons s rest ih =>
    rcases List.mem_cons.1 hschema with rfl | hschema
    · obtain ⟨i, hi⟩ := List.mem_iff_getElem?.1 hview
      have hmem : (view, first + schema.tables.length + i) ∈
          schema.views.zipIdx (first + schema.tables.length) :=
        List.mem_zipIdx_iff_le_and_getElem?_sub.2 ⟨Nat.le_add_right _ i, by simpa using hi⟩
      exact ⟨_, List.mem_append_left _ (List.mem_map_of_mem hmem), rfl⟩
    · obtain ⟨p, hp, hsame⟩ : ∃ p ∈ pendingOf (first + s.tableCount) database rest, p.2.2 = view :=
        ih hschema
      exact ⟨p, List.mem_append_right _ hp, hsame⟩

namespace Store

variable {s s' : Store} {defaultSchema : String} {database : DatabaseId}

/-- The columns of a view have the names that they are written with. -/
theorem columnNames_of_view {r : Resolver} {source : Source.View} {view : View}
    (h : (r.view source).result = .ok view) :
    view.columns.map (·.name) = source.columns.map (·.name.value) := by
  simp only [Resolver.view, Recorded.result_bind_eq_ok_iff, Recorded.result_pure] at h
  obtain ⟨main, -, columns, hcolumns, filter, -, groupBy, -, h⟩ := h
  obtain rfl := Except.ok.inj h
  refine (map_eq_map_of_forall₂ (Recorded.result_forAll_eq_ok_iff.1 hcolumns) fun source column hcolumn => ?_).symm
  obtain ⟨operation, -, h⟩ := Recorded.result_bind_eq_ok_iff.1 hcolumn
  split at h
  · exact absurd h (found_ne_ok _ _ _)
  · obtain rfl := Except.ok.inj h
    rfl

/-- Views that wait, each for a table of its own, get the columns that they are written with, and no other
table changes. -/
theorem columnNames_of_defineViews {pending : List (TableId × DatabaseId × Source.View)}
    (hnodup : (pending.map (·.1)).Nodup) (htables : ∀ p ∈ pending, ∃ t, s.table? p.1 = some t)
    (h : pending.foldlM (fun s p => (defineView defaultSchema s p).result) s = .ok s') :
    (∀ p ∈ pending, ∃ t, s'.table? p.1 = some t ∧
      t.columns.map (·.name) = p.2.2.columns.map (·.name.value)) ∧
    ∀ id, id ∉ pending.map (·.1) → s'.table? id = s.table? id := by
  induction pending generalizing s with
  | nil =>
    obtain rfl := pure_eq_ok_iff.1 h
    simp
  | cons first rest ih =>
    rw [List.foldlM_cons] at h
    obtain ⟨next, hnext, hrest⟩ := bind_eq_ok_iff.1 h
    rw [defineView_eq, Recorded.result_map] at hnext
    obtain ⟨view, hview, rfl⟩ := map_eq_ok_iff.1 hnext
    obtain ⟨hnew, hnodup⟩ := List.nodup_cons.1 hnodup
    obtain ⟨⟨waiting, hwaiting⟩, hothers⟩ := List.forall_mem_cons.1 htables
    have htables : ∀ p ∈ rest, ∃ t, (s.withView first.1 view).table? p.1 = some t := by
      intro p hp
      obtain ⟨t, ht⟩ := hothers p hp
      exact ⟨_, by rw [table?_withView, ht, Option.map_some]⟩
    obtain ⟨hdefined, hkept⟩ := ih hnodup htables hrest
    refine ⟨List.forall_mem_cons.2 ⟨?_, hdefined⟩, fun id hid => ?_⟩
    · -- the views behind it leave the first one as it is
      rw [hkept first.1 hnew, table?_withView, hwaiting, Option.map_some, if_pos rfl]
      refine ⟨_, rfl, ?_⟩
      rw [← columnNames_of_view hview]
      simp [viewColumns]
    · rw [List.map_cons, List.mem_cons, not_or] at hid
      rw [hkept id hid.2, table?_withView]
      simp [Ne.symm hid.1]

theorem tables_of_addJoinsAndFilters {source : Source.Database}
    (h : (addJoinsAndFilters defaultSchema s database source).result = .ok s') :
    s'.tables = s.tables := by
  rw [addJoinsAndFilters_eq, Recorded.result_foldlM] at h
  refine foldlM_invariant (P := fun s' : Store => s'.tables = s.tables) ?_ rfl h
  rintro before (join | filter) - after hkept hadd
  · obtain ⟨-, join, -, rfl⟩ := exists_of_addJoin hadd
    exact hkept
  · obtain ⟨-, filter, -, rfl⟩ := exists_of_addFilter hadd
    exact hkept

/-! ## Columns -/

/-- No table and no view has two columns of one name exactly if none is written so. -/
theorem distinct_columns_iff_of_build {settings : ResolutionSettings} {sources : List Source.Database}
    (h : build settings sources = .ok s) :
    (∀ t ∈ s.tables, (t.columns.map (·.name)).Nodup) ↔
      ∀ d ∈ sources, ∀ schema ∈ d.schemas, ∀ view ∈ schema.views,
        (view.columns.map (·.name.value)).Nodup := by
  have hdistinct := (cataloged_of_build h).columned.distinct
  obtain ⟨included, draft, joined, built, hnames, hincludes, hdraft, hjoins, hviews, rfl⟩ :=
    exists_phases_of_build h
  have hincluded := included_of_forEach hnames hincludes
  have hdeclared := declared_of_addSchemas hnames hincluded hdraft
  obtain ⟨-, hawaits, -⟩ :=
    extends_of_phases (foldlM_addDatabase_eq_ok_iff.2 ⟨hnames, rfl⟩) hincludes hdraft
  have htables : joined.tables = draft.store.tables :=
    forEach_invariant (P := fun s : Store => s.tables = draft.store.tables)
      (fun _ _ _ _ _ hbefore hadd => (tables_of_addJoinsAndFilters hadd).trans hbefore) rfl hjoins
  have htable : ∀ id, joined.table? id = draft.store.table? id := fun id => by
    rw [table?, table?, htables]
  rw [Recorded.result_foldlM] at hviews
  obtain ⟨hdefined, hkept⟩ := columnNames_of_defineViews hawaits.nodup (fun p hp => by
    obtain ⟨t, ht, -⟩ := hawaits.table p hp
    exact ⟨t, (htable p.1).trans ht⟩) hviews
  have hpending : ∀ p, p ∈ draft.pendingViews ↔ ∃ d ∈ sources, p ∈ pendingIn sources d := fun p => by
    rw [hdeclared.pendingViews, List.mem_flatMap]
  constructor
  · intro hall d hd schema hschema view hview
    obtain ⟨p, hp, rfl⟩ := exists_mem_pendingOf hschema hview
    obtain ⟨t, ht, hcolumns⟩ := hdefined p ((hpending p).2 ⟨d, hd, hp⟩)
    exact hcolumns ▸ hall t (List.mem_of_getElem? ht)
  · intro hall t ht
    obtain ⟨index, hindex⟩ := List.mem_iff_getElem?.1 ht
    by_cases hview : ⟨index⟩ ∈ draft.pendingViews.map (·.1)
    · obtain ⟨p, hp, hid⟩ := List.mem_map.1 hview
      obtain ⟨defined, hfound, hcolumns⟩ := hdefined p hp
      rw [hid] at hfound
      obtain rfl : defined = t := Option.some.inj (hfound.symm.trans hindex)
      obtain ⟨d, hd, hp⟩ := (hpending p).1 hp
      obtain ⟨-, ⟨schema, hschema, hwritten⟩, -, -⟩ := mem_pendingOf hp
      exact hcolumns ▸ hall d hd schema hschema p.2.2 hwritten
    · -- a table that is no view is as it was registered
      have hplain := (hkept ⟨index⟩ hview).trans (htable ⟨index⟩)
      exact hdistinct t ht (hdeclared.plain t (List.mem_of_getElem? (hplain.symm.trans hindex)))

/-! ## All names -/

/-- The names of a store are unique: of databases, of what each of them has, and so of what is recorded in
one place, and of columns, except that those of a view are as they are written. -/
structure NamesUnique (s : Store) : Prop where
  databases : (s.databases.map (·.name)).Nodup
  elements : ∀ d ∈ s.databases, d.NamesUnique
  table : ∀ database schema name id id', s.TableNamed database schema name id →
    s.TableNamed database schema name id' → id = id'
  join : ∀ database name id id', s.JoinNamed database name id → s.JoinNamed database name id' → id = id'
  filter : ∀ database name id id', s.FilterNamed database name id →
    s.FilterNamed database name id' → id = id'
  columns : ∀ t ∈ s.tables, t.view = none → (t.columns.map (·.name)).Nodup

/-- What is recorded in one place is one element. -/
theorem Cataloged.namesUnique (h : s.Cataloged) : s.NamesUnique where
  databases := h.distinct
  elements := h.unique
  table database schema name id id' hid hid' := by
    obtain ⟨d, hd, -⟩ := (h.registered.tables database schema name id).2 hid
    have hfinds := h.finds.table database d hd schema name
    exact Option.some.inj (((hfinds id).2 hid).symm.trans ((hfinds id').2 hid'))
  join database name id id' hid hid' := by
    obtain ⟨d, hd, -⟩ := (h.registered.joins database name id).2 hid
    have hfinds := h.finds.join database d hd name
    exact Option.some.inj (((hfinds id).2 hid).symm.trans ((hfinds id').2 hid'))
  filter database name id id' hid hid' := by
    obtain ⟨d, hd, -⟩ := (h.registered.filters database name id).2 hid
    have hfinds := h.finds.filter database d hd name
    exact Option.some.inj (((hfinds id).2 hid).symm.trans ((hfinds id').2 hid'))
  columns := h.columned.distinct

/-- The names of every store that is built are unique, and so are those of the columns of all views exactly
if no view is written with two columns of one name. -/
theorem names_unique {settings : ResolutionSettings} {sources : List Source.Database}
    (h : build settings sources = .ok s) :
    s.NamesUnique ∧ ((∀ t ∈ s.tables, (t.columns.map (·.name)).Nodup) ↔
      ∀ d ∈ sources, ∀ schema ∈ d.schemas, ∀ view ∈ schema.views,
        (view.columns.map (·.name.value)).Nodup) :=
  ⟨(cataloged_of_build h).namesUnique, distinct_columns_iff_of_build h⟩

/-! ## Columns of one name -/

/-- Sales, with a view whose columns have the names that are given. -/
def salesTables (columns : List String) : Source.Database where
  name := ⟨"sales", {}⟩
  schemas := [{
    name := ⟨"default", {}⟩
    tables := [{ name := ⟨"SALES", {}⟩, columns := [⟨⟨"AMOUNT", {}⟩, .integer, true, false⟩] }]
    views := [{
      name := ⟨"TOTAL", {}⟩
      columns := columns.map fun column =>
        ⟨⟨column, {}⟩, exampleColumn "SALES" "AMOUNT", false⟩ }] }]

/-- The two columns of a view have different names. -/
theorem names_unique_of_sales :
    ∃ s, build {} [salesTables ["amount", "total"]] = .ok s ∧ s.NamesUnique ∧
      ∀ t ∈ s.tables, (t.columns.map (·.name)).Nodup := by
  obtain ⟨s, hbuild⟩ : ∃ s, build {} [salesTables ["amount", "total"]] = .ok s :=
    exists_of_isSome_toOption (by decide +kernel)
  obtain ⟨hunique, hcolumns⟩ := names_unique hbuild
  exact ⟨s, hbuild, hunique, hcolumns.2 (by simp [salesTables])⟩

/-- A view may be written with two columns of one name, and then it has them. -/
theorem not_all_columns_distinct :
    ¬ ∀ (settings : ResolutionSettings) (sources : List Source.Database) (s : Store),
      build settings sources = .ok s →
        s.NamesUnique ∧ ∀ t ∈ s.tables, (t.columns.map (·.name)).Nodup := by
  intro h
  obtain ⟨s, hbuild⟩ : ∃ s, build {} [salesTables ["amount", "amount"]] = .ok s :=
    exists_of_isSome_toOption (by decide +kernel)
  have hwritten := (distinct_columns_iff_of_build hbuild).1 (h {} _ s hbuild).2
  simp [salesTables] at hwritten

end Store

end ObjectRelational
