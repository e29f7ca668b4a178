import ObjectRelational.Proofs.Store.DatabaseOrder

/-!
# Joins over views

The name of a view is registered before the joins, so that a join finds it; but its columns come to exist
only when it is defined, in the last phase. A join that compares a column of a view is not accepted.

* `Store.isView` asks whether a table is a view. `Store.isView_of_defineViews`: a table that waits for its
  definition is a view in the end.
* `Store.result_resolveAll_of_missing`: a comparison of two columns one of which is missing.
* `Store.exists_beforeViews`: a join that is appended is resolved before the views are defined.
* `Store.build_join_over_view`: appending such a join to a database that was accepted.
-/

namespace ObjectRelational

/-- The database with one more join. -/
def Source.Database.withJoin (d : Source.Database) (join : Source.Join) : Source.Database :=
  { d with joins := d.joins ++ [join] }

namespace Resolver

variable {r : Resolver} {reference : Source.ColumnReference} {owner : TableAlias}

/-- A column is looked for in the table that it is written with. -/
theorem result_column
    (h : r.lookupTable reference.database reference.schema reference.table = .ok owner) :
    (r.column reference).result = (r.columnOf owner reference.column).result := by
  obtain ⟨id, hid, -⟩ := findTable?_of_lookupTable h
  have haddressed : ∃ database, (r.addressed reference.database).result = .ok database := by
    unfold addressed
    rw [Recorded.result_bind hid]
    cases reference.database <;> exact ⟨id, rfl⟩
  obtain ⟨database, haddressed⟩ := haddressed
  have htable : (r.table reference.database reference.schema reference.table).result = .ok owner := by
    unfold Resolver.table
    rw [Recorded.result_bind h, Recorded.result_bind haddressed]
    rfl
  rw [Resolver.column, Recorded.result_bind htable]

theorem result_columnOf_of_isSome {column : Name}
    (h : ((r.store.table? owner.table).bind fun t => t.column? column.value).isSome) :
    (r.columnOf owner column).result = .ok ⟨owner, column.value⟩ := by
  rw [columnOf, if_pos h]
  rfl

theorem result_columnOf_of_eq_none {column : Name}
    (h : ((r.store.table? owner.table).bind fun t => t.column? column.value) = none) :
    (r.columnOf owner column).result =
      .error ⟨.unknownColumn column.value (r.store.tableName owner.table), column.span⟩ := by
  rw [columnOf, h]
  rfl

theorem result_resolve_column (reference : Source.ColumnReference) :
    (r.resolve none (.column reference)).result = (r.column reference).result.map Operation.column := by
  unfold resolve
  cases hcolumn : (r.column reference).result with
  | error failure => exact Recorded.result_bind_of_error hcolumn
  | ok column => exact Recorded.result_bind hcolumn

end Resolver

namespace Store

variable {s t : Store} {defaultSchema : String} {database : DatabaseId} {source : Source.Join}
  {function : Name} {left right : Source.ColumnReference} {leftTable rightTable : TableAlias}
  {failure : Failure}

/-- Is the table a view? -/
def isView (s : Store) (id : TableId) : Bool := ((s.table? id).bind (·.view)).isSome

/-- A join that compares columns of two tables fails as soon as one of them does. -/
theorem result_resolveJoin_of_error
    (hcondition : source.condition = .function function [.column left, .column right])
    (hleft : (s.resolverIn defaultSchema database).lookupTable left.database left.schema left.table =
      .ok leftTable)
    (hright : (s.resolverIn defaultSchema database).lookupTable right.database right.schema
      right.table = .ok rightTable)
    (hne : leftTable.table ≠ rightTable.table)
    (hfails : ((s.resolverIn defaultSchema database).resolveAll none
      [.column left, .column right]).result = .error failure) :
    (s.resolveJoin defaultSchema database source).result = .error failure := by
  have htables : (s.resolverIn defaultSchema database).referencedTables source.condition =
      .ok [leftTable.table, rightTable.table] := by
    have hdirect : source.condition.directColumns = [left, right] := by
      rw [hcondition]
      simp [Source.Operation.directColumns, Source.Operation.directColumnsOfAll]
    have hall : (s.resolverIn defaultSchema database).tablesOf [left, right] =
        .ok [leftTable.table, rightTable.table] := by
      simp only [Resolver.tablesOf, hleft, hright]
      rfl
    have hdups : [leftTable.table, rightTable.table].eraseDups =
        [leftTable.table, rightTable.table] := by
      simp [List.eraseDups_cons, hne.symm]
    rw [Resolver.referencedTables, hdirect, hall, Except.map, hdups]
  have htarget : source.condition.usesTarget = false := by
    rw [hcondition]
    simp [Source.Operation.usesTarget, Source.Operation.anyUsesTarget]
  have hresolve : ((s.resolverIn defaultSchema database).resolve none source.condition).result =
      .error failure := by
    rw [hcondition, Resolver.resolve]
    exact Recorded.result_bind_of_error hfails
  have hlifted : (monadLift ((s.resolverIn defaultSchema database).referencedTables
      source.condition) : Recorded (List TableId)).result =
        .ok [leftTable.table, rightTable.table] := htables
  unfold resolveJoin
  dsimp only
  rw [Recorded.result_bind hlifted, htarget]
  exact Recorded.result_bind_of_error hresolve

/-- The first column of a comparison that is missing is reported. -/
theorem result_resolveAll_of_missing {r : Resolver}
    (hleft : r.lookupTable left.database left.schema left.table = .ok leftTable)
    (hright : r.lookupTable right.database right.schema right.table = .ok rightTable)
    (hmissing : ((r.store.table? leftTable.table).bind fun t => t.column? left.column.value) = none ∨
      ((r.store.table? rightTable.table).bind fun t => t.column? right.column.value) = none) :
    (r.resolveAll none [.column left, .column right]).result = .error
      (if ((r.store.table? leftTable.table).bind fun t => t.column? left.column.value).isSome then
        ⟨.unknownColumn right.column.value (r.store.tableName rightTable.table), right.column.span⟩
      else
        ⟨.unknownColumn left.column.value (r.store.tableName leftTable.table), left.column.span⟩) := by
  cases hfound : (r.store.table? leftTable.table).bind fun t => t.column? left.column.value with
  | none =>
    have hfails : (r.resolve none (.column left)).result = .error
        ⟨.unknownColumn left.column.value (r.store.tableName leftTable.table), left.column.span⟩ := by
      rw [Resolver.result_resolve_column, Resolver.result_column hleft,
        Resolver.result_columnOf_of_eq_none hfound]
      rfl
    unfold Resolver.resolveAll
    exact Recorded.result_bind_of_error hfails
  | some column =>
    have hresolves : (r.resolve none (.column left)).result =
        .ok (.column ⟨leftTable, left.column.value⟩) := by
      rw [Resolver.result_resolve_column, Resolver.result_column hleft,
        Resolver.result_columnOf_of_isSome (by rw [hfound]; rfl)]
      rfl
    have hnone := hmissing.resolve_left (by simp [hfound])
    have hfails : (r.resolve none (.column right)).result = .error
        ⟨.unknownColumn right.column.value (r.store.tableName rightTable.table),
          right.column.span⟩ := by
      rw [Resolver.result_resolve_column, Resolver.result_column hright,
        Resolver.result_columnOf_of_eq_none hnone]
      rfl
    unfold Resolver.resolveAll
    rw [Recorded.result_bind hresolves]
    refine Recorded.result_bind_of_error ?_
    unfold Resolver.resolveAll
    exact Recorded.result_bind_of_error hfails

/-! ## Views at the end of a build -/

theorem isView_withView {id table : TableId} {view : View} (hknown : (s.table? id).isSome)
    (h : s.isView id ∨ table = id) : (s.withView table view).isView id := by
  obtain ⟨found, hfound⟩ := Option.isSome_iff_exists.1 hknown
  unfold isView at h ⊢
  rw [table?_withView, hfound]
  by_cases hsame : table = id
  · simp [hsame]
  · simpa [hsame, hfound] using h

/-- A table that waits for its definition is a view in the end. -/
theorem isView_of_defineViews {pending : List (TableId × DatabaseId × Source.View)}
    (hdefine : (pending.foldlM (Store.defineView defaultSchema) s).result = .ok t) {id : TableId}
    (hknown : (s.table? id).isSome) (h : s.isView id ∨ ∃ p ∈ pending, p.1 = id) : t.isView id := by
  induction pending generalizing s with
  | nil =>
    obtain rfl := Except.ok.inj hdefine
    simpa using h
  | cons p rest ih =>
    obtain ⟨next, hnext, hrest⟩ := Recorded.result_foldlM_cons.1 hdefine
    rw [defineView_eq, Recorded.result_map] at hnext
    obtain ⟨view, -, rfl⟩ := map_eq_ok_iff.1 hnext
    -- what is a view stays one, and what waits becomes one
    have hkept : ((s.withView p.1 view).table? id).isSome := by
      rw [table?_withView, Option.isSome_map]
      exact hknown
    refine ih hrest hkept ?_
    rcases h with hview | ⟨q, hq, hid⟩
    · exact .inl (isView_withView hknown (.inl hview))
    · rcases List.mem_cons.1 hq with rfl | hq
      · exact .inl (isView_withView hknown (.inr hid))
      · exact .inr ⟨q, hq, hid⟩

theorem table?_of_defineViews {pending : List (TableId × DatabaseId × Source.View)}
    (hdefine : (pending.foldlM (Store.defineView defaultSchema) s).result = .ok t) {id : TableId}
    (hid : ∀ p ∈ pending, p.1 ≠ id) : t.table? id = s.table? id := by
  rw [Recorded.result_foldlM] at hdefine
  refine foldlM_invariant (P := fun t => t.table? id = s.table? id) ?_ rfl hdefine
  intro before p hp after hbefore hafter
  rw [defineView_eq, Recorded.result_map] at hafter
  obtain ⟨view, -, rfl⟩ := map_eq_ok_iff.1 hafter
  rw [table?_withView, hbefore]
  simp [hid p hp]

theorem keepsNames_of_defineViews {pending : List (TableId × DatabaseId × Source.View)}
    (hdefine : (pending.foldlM (Store.defineView defaultSchema) s).result = .ok t) : KeepsNames s t := by
  rw [Recorded.result_foldlM] at hdefine
  refine foldlM_invariant (P := KeepsNames s) ?_ (.refl s) hdefine
  intro before p _ after hbefore hafter
  rw [defineView_eq, Recorded.result_map] at hafter
  obtain ⟨view, -, rfl⟩ := map_eq_ok_iff.1 hafter
  exact hbefore.modifyTable _ fun _ => rfl

/-- A table that is a view in the end has no columns before the last phase, and any other table is the same
as before. -/
theorem table?_before_defineViews {pending : List (TableId × DatabaseId × Source.View)}
    (hdefine : (pending.foldlM (Store.defineView defaultSchema) s).result = .ok t)
    (hplain : ∀ table ∈ s.tables, table.view = none)
    (hempty : ∀ p ∈ pending, ∃ table, s.table? p.1 = some table ∧ table.columns = []) (id : TableId) :
    (t.isView id → ∀ name, ((s.table? id).bind fun table => table.column? name) = none) ∧
      (¬ t.isView id → s.table? id = t.table? id) := by
  by_cases hpending : ∃ p ∈ pending, p.1 = id
  · obtain ⟨p, hp, rfl⟩ := hpending
    obtain ⟨table, htable, hcolumns⟩ := hempty p hp
    refine ⟨fun _ name => ?_, fun hview => absurd ?_ hview⟩
    · rw [htable, Option.bind_some, Table.column?, hcolumns, List.find?_nil]
    · exact isView_of_defineViews hdefine (by rw [htable]; rfl) (.inr ⟨p, hp, rfl⟩)
  · -- nothing that does not wait is a view in the end
    have hsame : t.table? id = s.table? id :=
      table?_of_defineViews hdefine fun p hp hid => hpending ⟨p, hp, hid⟩
    refine ⟨fun hview => absurd hview ?_, fun _ => hsame.symm⟩
    rw [isView, hsame]
    cases htable : s.table? id with
    | none => simp
    | some table => simp [hplain table (List.mem_of_getElem? htable)]

/-! ## The phases of a build with one more join -/

variable {pre post : List Source.Database} {d : Source.Database} {join : Source.Join}
  {included start : Store} {draft : Draft}

theorem map_name_withJoin :
    (pre ++ d.withJoin join :: post).map (·.name.value) = (pre ++ d :: post).map (·.name.value) := by
  simp [Source.Database.withJoin]

/-- A handle is found by name. -/
theorem handleIn_eq_of_map_name {sources sources' : List Source.Database}
    (h : sources'.map (·.name.value) = sources.map (·.name.value)) (e : Source.Database) :
    handleIn sources' e = handleIn sources e := by
  have hlength : ∀ sources : List Source.Database, (inFront sources e).length =
      ((sources.map (·.name.value)).takeWhile fun name => name ≠ e.name.value).length := by
    intro sources
    rw [List.takeWhile_map, List.length_map]
    rfl
  simp only [handleIn, hlength, h]

/-- What does not look at the joins of a database goes through it as before. -/
theorem foldlM_zipIdx_withJoin {m : Type → Type} [Monad m] [LawfulMonad m] {σ : Type}
    {f : σ → Source.Database × Nat → m σ} (hf : ∀ s i, f s (d.withJoin join, i) = f s (d, i)) (s : σ) :
    (pre ++ d.withJoin join :: post).zipIdx.foldlM f s = (pre ++ d :: post).zipIdx.foldlM f s := by
  simp [List.zipIdx_append, List.zipIdx_cons, hf]

/-- When the joins of a database are registered, there is no join of another name there, and the tables are
those of the start. -/
theorem exists_afterJoins (hnames : DistinctNames (pre ++ d :: post))
    (hstart : JoinedBy (pre ++ d :: post) start [] start)
    (hrun : (forEach (addJoinsAndFilters defaultSchema) start (pre ++ d :: post)).result = .ok t) :
    ∃ before after, (pre.foldlM (fun s e =>
          addJoinsAndFilters defaultSchema s (handleIn (pre ++ d :: post) e) e) start).result =
        .ok before ∧
      (d.joins.foldlM (addJoin defaultSchema ⟨pre.length⟩ d.name) before).result = .ok after ∧
      KeepsNames start after ∧ after.tables = start.tables ∧
      ∀ name, (∀ other ∈ d.joins, other.name.value ≠ name) →
        after.declaresJoin ⟨pre.length⟩ name = false := by
  have hd : d ∈ pre ++ d :: post := by simp
  have hhandle := handleIn_append hnames
  rw [forEach_eq hnames, Recorded.result_foldlM_append] at hrun
  obtain ⟨before, hbefore, hrun⟩ := hrun
  obtain ⟨joined, hjoined, -⟩ := Recorded.result_foldlM_cons.1 hrun
  obtain ⟨after, hafter, -⟩ := Recorded.result_bind_eq_ok_iff.1 hjoined
  have hpre := ((frames_addJoinsAndFilters hnames).run (List.nil_append _).symm hstart hbefore).1
  have hconditions : d.conditions = d.joins.map .inl ++ d.filters.map .inr := rfl
  have hadd : ((d.joins.map Sum.inl).foldlM
      (addCondition defaultSchema (handleIn (pre ++ d :: post) d) d.name) before).result =
        .ok after := by
    rw [List.foldlM_map]
    exact hafter
  have hall := (hpre.joining hnames rfl).addConditions hnames hd hconditions hadd
  refine ⟨before, after, hbefore, hhandle ▸ hafter, hall.joined.keeps, hall.joined.tables,
    fun name hfresh => ?_⟩
  have hnone : ¬ ∃ other ∈ d.joins, other.name.value = name :=
    fun ⟨other, hother, hsame⟩ => hfresh other hother hsame
  rw [← hhandle, declaresJoin, hall.joined.lookup_eq_none hd hnone]
  rfl

theorem distinctNames_withJoin (h : DistinctNames (pre ++ d :: post)) (join : Source.Join) :
    DistinctNames (pre ++ d.withJoin join :: post) := by
  unfold DistinctNames
  rw [map_name_withJoin]
  exact h

/-- The phases in front of the joins go as before. -/
theorem result_assemble_withJoin (hnames : DistinctNames (pre ++ d :: post))
    (hincludes : (forEach addIncludes (registered (pre ++ d :: post)) (pre ++ d :: post)).result =
      .ok included)
    (hdraft : (pre ++ d :: post).zipIdx.foldlM addSchemas ⟨included, []⟩ = .ok draft)
    (hjoins : (forEach (addJoinsAndFilters defaultSchema) draft.store
      (pre ++ d.withJoin join :: post)).result = .error failure) :
    (assemble defaultSchema (pre ++ d.withJoin join :: post)).result = .error failure := by
  have hregistered : registered (pre ++ d.withJoin join :: post) = registered (pre ++ d :: post) := by
    simp [registered, Source.Database.withJoin]
  have hregister : (monadLift ((pre ++ d.withJoin join :: post).foldlM addDatabase {} :
      Resolved Store) : Recorded Store).result = .ok (registered (pre ++ d :: post)) :=
    foldlM_addDatabase_eq_ok_iff.2 ⟨distinctNames_withJoin hnames join, hregistered.symm⟩
  have hincludes' : (forEach addIncludes (registered (pre ++ d :: post))
      (pre ++ d.withJoin join :: post)).result = .ok included := by
    unfold forEach at hincludes ⊢
    rw [foldlM_zipIdx_withJoin fun _ _ => rfl]
    exact hincludes
  have hdraft' : (monadLift ((pre ++ d.withJoin join :: post).zipIdx.foldlM addSchemas
      ⟨included, []⟩ : Resolved Draft) : Recorded Draft).result = .ok draft := by
    rw [foldlM_zipIdx_withJoin fun _ _ => rfl]
    exact hdraft
  unfold assemble
  rw [Recorded.result_bind hregister, Recorded.result_bind hincludes', Recorded.result_bind hdraft']
  exact Recorded.result_bind_of_error hjoins

/-- When the join that is appended fails, so does the build. -/
theorem build_withJoin_of_error {settings : ResolutionSettings} {before after : Store}
    (hnames : DistinctNames (pre ++ d :: post))
    (hincludes : (forEach addIncludes (registered (pre ++ d :: post)) (pre ++ d :: post)).result =
      .ok included)
    (hdraft : (pre ++ d :: post).zipIdx.foldlM addSchemas ⟨included, []⟩ = .ok draft)
    (hbefore : (pre.foldlM (fun s e => addJoinsAndFilters settings.defaultSchema s
      (handleIn (pre ++ d :: post) e) e) draft.store).result = .ok before)
    (hafter : (d.joins.foldlM (addJoin settings.defaultSchema ⟨pre.length⟩ d.name) before).result =
      .ok after)
    (hfails : (addJoin settings.defaultSchema ⟨pre.length⟩ d.name after join).result =
      .error failure) :
    build settings (pre ++ d.withJoin join :: post) = .error failure := by
  have hnames' := distinctNames_withJoin hnames join
  have hhandles : ∀ e, handleIn (pre ++ d.withJoin join :: post) e = handleIn (pre ++ d :: post) e :=
    handleIn_eq_of_map_name map_name_withJoin
  -- the joins of the database itself go as before, up to the one that is appended
  have hown : (addJoinsAndFilters settings.defaultSchema before ⟨pre.length⟩
      (d.withJoin join)).result = .error failure := by
    unfold addJoinsAndFilters
    refine Recorded.result_bind_of_error ?_
    have hjoins : (d.withJoin join).joins = d.joins ++ [join] := rfl
    rw [hjoins, List.foldlM_append]
    exact (Recorded.result_bind hafter).trans (Recorded.result_bind_of_error hfails)
  have hjoins : (forEach (addJoinsAndFilters settings.defaultSchema) draft.store
      (pre ++ d.withJoin join :: post)).result = .error failure := by
    rw [forEach_eq hnames', List.foldlM_append]
    simp only [hhandles]
    rw [Recorded.result_bind hbefore, List.foldlM_cons]
    refine Recorded.result_bind_of_error ?_
    rw [← hhandles, handleIn_append hnames']
    exact hown
  rw [build, result_assemble_withJoin hnames hincludes hdraft hjoins]
  rfl

/-! ## Joins over views -/

/-- A store whose views are not defined yet, against the store in which they are. -/
structure BeforeViews (before store : Store) : Prop where
  names : SameNames .refl store before
  view : ∀ id, store.isView id → ∀ name,
    ((before.table? id).bind fun table => table.column? name) = none
  table : ∀ id, ¬ store.isView id → before.table? id = store.table? id

theorem BeforeViews.lookupTable_eq {before store : Store} (h : BeforeViews before store)
    (defaultSchema : String) (database : DatabaseId) (marker schema : Option Name) (table : Name) :
    (before.resolverIn defaultSchema database).lookupTable marker schema table =
      (store.resolverIn defaultSchema database).lookupTable marker schema table := by
  have halike : Resolver.Alike .refl (store.resolverIn defaultSchema database)
      (before.resolverIn defaultSchema database) :=
    { names := h.names
      database := rfl
      defaultSchema := rfl
      selfJoinTarget := rfl
      targetColumns := fun _ hnone => by cases hnone }
  rw [halike.lookupTable_eq]
  cases (store.resolverIn defaultSchema database).lookupTable marker schema table <;> rfl

/-- A join that is appended to a database is resolved before the views are defined. -/
theorem exists_beforeViews {settings : ResolutionSettings} {store : Store}
    (hbuild : build settings (pre ++ d :: post) = .ok store) :
    ∃ before, BeforeViews before store ∧
      (∀ name, (∀ other ∈ d.joins, other.name.value ≠ name) →
        before.declaresJoin ⟨pre.length⟩ name = false) ∧
      ∀ (join : Source.Join) (failure : Failure),
        (addJoin settings.defaultSchema ⟨pre.length⟩ d.name before join).result = .error failure →
          build settings (pre ++ d.withJoin join :: post) = .error failure := by
  obtain ⟨included, draft, joined, built, hnames, hincludes, hdraft, hjoins, hviews, rfl⟩ :=
    exists_phases_of_build hbuild
  have hincluded := included_of_forEach hnames hincludes
  have hdeclared := declared_of_addSchemas hnames hincluded hdraft
  have hstart := hdeclared.joinedBy hincluded
  obtain ⟨-, hawaits, -⟩ :=
    extends_of_phases (foldlM_addDatabase_eq_ok_iff.2 ⟨hnames, rfl⟩) hincludes hdraft
  obtain ⟨front, before, hfront, hbefore, hkeeps, htables, hnew⟩ :=
    exists_afterJoins hnames hstart hjoins
  refine ⟨before, ?_, hnew, fun join failure hfails =>
    build_withJoin_of_error hnames hincludes hdraft hfront hbefore hfails⟩
  have hall : JoinedBy (pre ++ d :: post) draft.store (pre ++ d :: post) joined := by
    rw [forEach_eq hnames] at hjoins
    exact (frames_addJoinsAndFilters hnames).all hstart hjoins
  have htable : ∀ id, joined.table? id = before.table? id := by
    intro id
    rw [table?, table?, htables, hall.tables]
  have hempty : ∀ p ∈ draft.pendingViews,
      ∃ table, joined.table? p.1 = some table ∧ table.columns = [] := by
    intro p hp
    rw [table?, hall.tables]
    exact hawaits.table p hp
  -- the views of the third phase are the tables that wait, and they have no columns yet
  have hviewed := table?_before_defineViews hviews (hall.tables ▸ hdeclared.plain) hempty
  simp only [htable] at hviewed
  have hbuilt := hall.keeps.trans (keepsNames_of_defineViews hviews)
  have hbuilt' : KeepsNames draft.store { built with
      usages := keptUsages settings (assemble settings.defaultSchema (pre ++ d :: post)).usages } :=
    ⟨hbuilt.databases, hbuilt.tables⟩
  exact ⟨hbuilt'.sameNames hkeeps (KeepsNames.refl _).sameNames_refl, fun id => (hviewed id).1,
    fun id => (hviewed id).2⟩

/-- A join that compares columns of two tables at least one of which is a view: appended to a database of a
list that is accepted, it is not accepted, and the column of the first view is reported as unknown. -/
theorem build_join_over_view (settings : ResolutionSettings) (pre post : List Source.Database)
    (d : Source.Database) (join : Source.Join) (function : Name) (left right : Source.ColumnReference)
    (leftTable rightTable : TableAlias) (store : Store)
    (hbuild : build settings (pre ++ d :: post) = .ok store)
    (hfresh : ∀ other ∈ d.joins, other.name.value ≠ join.name.value)
    (hcondition : join.condition = .function function [.column left, .column right])
    (hleft : (store.resolverIn settings.defaultSchema ⟨pre.length⟩).lookupTable left.database
      left.schema left.table = .ok leftTable)
    (hright : (store.resolverIn settings.defaultSchema ⟨pre.length⟩).lookupTable right.database
      right.schema right.table = .ok rightTable)
    (hne : leftTable.table ≠ rightTable.table)
    (hcolumn : ((store.table? leftTable.table).bind fun t => t.column? left.column.value).isSome)
    (hview : store.isView leftTable.table ∨ store.isView rightTable.table) :
    build settings (pre ++ d.withJoin join :: post) = .error
      (if store.isView leftTable.table then
        ⟨.unknownColumn left.column.value (store.tableName leftTable.table), left.column.span⟩
      else
        ⟨.unknownColumn right.column.value (store.tableName rightTable.table),
          right.column.span⟩) := by
  obtain ⟨before, hbefore, hnew, hfails⟩ := exists_beforeViews hbuild
  have hname : ∀ id, before.tableName id = store.tableName id := hbefore.names.tableName_eq
  rw [← hbefore.lookupTable_eq] at hleft hright
  have hmissing := result_resolveAll_of_missing hleft hright
    (hview.imp (fun h => hbefore.view _ h _) fun h => hbefore.view _ h _)
  have hjoin := result_resolveJoin_of_error hcondition hleft hright hne hmissing
  refine hfails join _ ?_
  rw [addJoin_eq (hnew _ hfresh), Recorded.result_map, hjoin]
  -- the columns are resolved in the order in which they are written
  by_cases hisView : store.isView leftTable.table
  · have hnone := hbefore.view _ hisView left.column.value
    simp only [resolverIn, hisView, hnone, hname, if_true, Option.isSome_none, Bool.false_eq_true,
      if_false]
    rfl
  · rw [← hbefore.table _ hisView] at hcolumn
    simp only [resolverIn, hisView, hcolumn, hname, if_true, Bool.false_eq_true, if_false]
    rfl

/-- Persons and firms, with a view of the persons. -/
def staffDatabase : Source.Database where
  name := ⟨"staff", {}⟩
  schemas := [{
    name := ⟨"default", {}⟩
    tables := [
      { name := ⟨"PERSON", {}⟩, columns := [⟨⟨"FIRM_ID", {}⟩, .integer, true, false⟩] },
      { name := ⟨"FIRM", {}⟩, columns := [⟨⟨"ID", {}⟩, .integer, true, false⟩] }]
    views := [{ name := ⟨"EMPLOYEE", {}⟩
                columns := [⟨⟨"FIRM", {}⟩, exampleColumn "PERSON" "FIRM_ID", false⟩] }] }]

/-- A join from the view of persons to their firms. -/
def employeeJoin : Source.Join :=
  ⟨⟨"employer", {}⟩, .function ⟨"equal", {}⟩
    [exampleColumn "EMPLOYEE" "FIRM", exampleColumn "FIRM" "ID"], {}⟩

theorem build_join_over_view_of_employees :
    (∃ store, build {} [staffDatabase] = .ok store) ∧
      build {} [staffDatabase.withJoin employeeJoin] =
        .error ⟨.unknownColumn "FIRM" "EMPLOYEE", {}⟩ := by
  have hbuild : ∃ store, build {} [staffDatabase] = .ok store ∧
      (store.resolverIn "default" ⟨0⟩).lookupTable none none ⟨"EMPLOYEE", {}⟩ =
        .ok ⟨"EMPLOYEE", ⟨2⟩, ⟨0⟩⟩ ∧
      (store.resolverIn "default" ⟨0⟩).lookupTable none none ⟨"FIRM", {}⟩ = .ok ⟨"FIRM", ⟨1⟩, ⟨0⟩⟩ ∧
      ((store.table? ⟨2⟩).bind fun t => t.column? "FIRM").isSome = true ∧
      store.isView ⟨2⟩ = true ∧ store.tableName ⟨2⟩ = "EMPLOYEE" := by
    with_unfolding_all exact ⟨_, rfl, rfl, rfl, rfl, rfl, rfl⟩
  obtain ⟨store, hstore, hleft, hright, hcolumn, hview, hname⟩ := hbuild
  have hfails := build_join_over_view {} [] [] staffDatabase employeeJoin ⟨"equal", {}⟩
    { table := ⟨"EMPLOYEE", {}⟩, column := ⟨"FIRM", {}⟩ }
    { table := ⟨"FIRM", {}⟩, column := ⟨"ID", {}⟩ } _ _ store hstore (by simp [staffDatabase]) rfl
    hleft hright (by decide) hcolumn (.inl hview)
  rw [if_pos hview, hname] at hfails
  exact ⟨⟨store, hstore⟩, hfails⟩

/-- The tables that a join compares may be declared with their columns, and yet the join is not accepted. -/
theorem not_all_joins_over_views_accepted :
    ¬ ∀ (settings : ResolutionSettings) (pre post : List Source.Database) (d : Source.Database)
      (join : Source.Join) (function : Name) (left right : Source.ColumnReference)
      (leftTable rightTable : TableAlias) (store : Store),
      build settings (pre ++ d :: post) = .ok store →
      (∀ e ∈ pre ++ d :: post, ∀ other ∈ e.joins, other.name.value ≠ join.name.value) →
      join.condition = .function function [.column left, .column right] →
      left.database = none → right.database = none →
      (store.resolverIn settings.defaultSchema ⟨pre.length⟩).lookupTable none left.schema left.table =
        .ok leftTable →
      (store.resolverIn settings.defaultSchema ⟨pre.length⟩).lookupTable none right.schema
        right.table = .ok rightTable →
      leftTable.table ≠ rightTable.table →
      ((store.table? leftTable.table).bind fun t => t.column? left.column.value).isSome →
      ((store.table? rightTable.table).bind fun t => t.column? right.column.value).isSome →
      store.isView leftTable.table →
      ∃ store', build settings (pre ++ d.withJoin join :: post) = .ok store' := by
  intro h
  have hbuild : ∃ store, build {} [staffDatabase] = .ok store ∧
      (store.resolverIn "default" ⟨0⟩).lookupTable none none ⟨"EMPLOYEE", {}⟩ =
        .ok ⟨"EMPLOYEE", ⟨2⟩, ⟨0⟩⟩ ∧
      (store.resolverIn "default" ⟨0⟩).lookupTable none none ⟨"FIRM", {}⟩ = .ok ⟨"FIRM", ⟨1⟩, ⟨0⟩⟩ ∧
      ((store.table? ⟨2⟩).bind fun t => t.column? "FIRM").isSome = true ∧
      ((store.table? ⟨1⟩).bind fun t => t.column? "ID").isSome = true ∧
      store.isView ⟨2⟩ = true := by
    with_unfolding_all exact ⟨_, rfl, rfl, rfl, rfl, rfl, rfl⟩
  have hfails : build {} [staffDatabase.withJoin employeeJoin] =
      .error ⟨.unknownColumn "FIRM" "EMPLOYEE", {}⟩ := by
    with_unfolding_all rfl
  obtain ⟨store, hstore, hleft, hright, hleftColumn, hrightColumn, hview⟩ := hbuild
  obtain ⟨store', hstore'⟩ := h {} [] [] staffDatabase employeeJoin ⟨"equal", {}⟩
    { table := ⟨"EMPLOYEE", {}⟩, column := ⟨"FIRM", {}⟩ }
    { table := ⟨"FIRM", {}⟩, column := ⟨"ID", {}⟩ } _ _ store hstore (by simp [staffDatabase]) rfl
    rfl rfl hleft hright (by decide) hleftColumn hrightColumn hview
  have hboth := hfails.symm.trans hstore'
  cases hboth

end Store

end ObjectRelational
