import ObjectRelational.Proofs.Store.DatabaseOrder

/-!
# Tables of joins and filters

The tables that a join or filter is about are looked up in its condition as it is written. They are the
tables whose columns its resolved condition reads directly. A join is about two tables, unless its
condition names the far side of a self join, at whatever depth: then it is about one.

* `Resolver.mem_referencedTables_iff`: the tables of the columns that an expression names directly.
* `Resolver.mem_directTables_iff`: those of the columns that it reads when it is resolved.
* `Source.Operation.NamesTarget`: an expression names the far side of a self join.
  `Resolver.not_namesTarget_of_resolve`: without a self join none resolves.
* `Join.Of`, `Filter.Of`: a join and a filter are those of their sources, with their tables.
* `Store.joins_filters_of_build`: so are all joins and filters of a store, one by one.
-/

namespace ObjectRelational

/-- The tables of the columns that an expression reads directly. -/
def Operation.directTables (operation : Operation) : List TableId :=
  operation.directColumns.map (·.tableAlias.table)

theorem Operation.directTables_function (name : String) (arguments : List Operation) :
    (Operation.function name arguments).directTables = arguments.flatMap directTables := by
  simp only [directTables, directColumns]
  induction arguments with
  | nil => rfl
  | cons argument rest ih =>
    rw [directColumnsOfAll, List.map_append, ih, List.flatMap_cons]
    rfl

/-! ## The far side of a self join -/

namespace Source.Operation

/-- The expression names a column of the far side of a self join, in an argument or at the end of a path
too. -/
inductive NamesTarget : Source.Operation → Prop
  | target {column : Name} : NamesTarget (.targetColumn column)
  | path {joins : List JoinReference} {target : Source.Operation} (h : NamesTarget target) :
      NamesTarget (.joinPath joins (some target))
  | function {name : Name} {arguments : List Source.Operation} {argument : Source.Operation}
      (hargument : argument ∈ arguments) (h : NamesTarget argument) :
      NamesTarget (.function name arguments)

mutual

theorem namesTarget_of_usesTarget : (operation : Source.Operation) → operation.usesTarget = true →
    operation.NamesTarget
  | column _ => by simp [usesTarget]
  | targetColumn _ => fun _ => .target
  | joinPath _ _ => by simp [usesTarget]
  | literal _ => by simp [usesTarget]
  | function _ arguments => by
    intro h
    unfold usesTarget at h
    obtain ⟨argument, hargument, hnames⟩ := exists_namesTarget_of_anyUsesTarget arguments h
    exact .function hargument hnames

theorem exists_namesTarget_of_anyUsesTarget : (l : List Source.Operation) → anyUsesTarget l = true →
    ∃ argument ∈ l, argument.NamesTarget
  | [] => by simp [anyUsesTarget]
  | argument :: rest => by
    intro h
    unfold anyUsesTarget at h
    rcases (Bool.or_eq_true _ _).mp h with h | h
    · exact ⟨argument, List.mem_cons_self, namesTarget_of_usesTarget argument h⟩
    · obtain ⟨other, hother, hnames⟩ := exists_namesTarget_of_anyUsesTarget rest h
      exact ⟨other, List.mem_cons_of_mem _ hother, hnames⟩

end

end Source.Operation

namespace Resolver

variable {r : Resolver} {table : TableId} {source : Option TableAlias}

/-- Expressions that are resolved one after the other are resolved. -/
theorem forall₂_of_resolveAll {arguments : List Source.Operation} {resolved : List Operation}
    (h : (r.resolveAll source arguments).result = .ok resolved) :
    List.Forall₂ (fun argument operation => (r.resolve source argument).result = .ok operation)
      arguments resolved := by
  induction arguments generalizing resolved with
  | nil =>
    unfold resolveAll at h
    obtain rfl := Except.ok.inj h
    exact .nil
  | cons argument rest ih =>
    unfold resolveAll at h
    obtain ⟨first, hfirst, h⟩ := Recorded.result_bind_eq_ok_iff.1 h
    obtain ⟨others, hothers, h⟩ := Recorded.result_bind_eq_ok_iff.1 h
    obtain rfl := Except.ok.inj h
    exact .cons hfirst (ih hothers)

/-- Where no self join is resolved, an expression that resolves names no far side. -/
theorem not_namesTarget_of_resolve (hr : r.selfJoinTarget = none) {operation : Source.Operation}
    {resolved : Operation} (h : (r.resolve source operation).result = .ok resolved) :
    ¬ operation.NamesTarget := by
  intro hnames
  induction hnames generalizing source resolved with
  | target =>
    unfold resolve at h
    rw [hr] at h
    exact absurd h (found_ne_ok _ _ _)
  | path _ ih =>
    unfold resolve resolvePath at h
    simp only [Recorded.result_bind_eq_ok_iff] at h
    obtain ⟨_, ⟨start, -, steps, -, target, htarget, -⟩, -⟩ := h
    exact ih htarget
  | function hargument _ ih =>
    unfold resolve at h
    obtain ⟨others, hothers, -⟩ := Recorded.result_bind_eq_ok_iff.1 h
    obtain ⟨_, -, hresolved⟩ := exists_of_mem_left (forall₂_of_resolveAll hothers) hargument
    exact ih hresolved

/-! ## Tables that are named -/

/-- The reference names a column of the table. -/
def Names (r : Resolver) (reference : Source.ColumnReference) (table : TableId) : Prop :=
  ∃ found, r.lookupTable reference.database reference.schema reference.table = .ok found ∧
    found.table = table

theorem names_iff_of_lookupTable {reference : Source.ColumnReference} {found : TableAlias}
    (h : r.lookupTable reference.database reference.schema reference.table = .ok found) :
    r.Names reference table ↔ table = found.table := by
  simp [Names, h, eq_comm]

theorem mem_tablesOf_iff {references : List Source.ColumnReference} {tables : List TableId}
    (h : r.tablesOf references = .ok tables) :
    table ∈ tables ↔ ∃ reference ∈ references, r.Names reference table := by
  induction references generalizing tables with
  | nil =>
    obtain rfl := Except.ok.inj h
    simp
  | cons reference rest ih =>
    unfold tablesOf at h
    obtain ⟨found, hfound, h⟩ := bind_eq_ok_iff.1 h
    obtain ⟨others, hothers, h⟩ := bind_eq_ok_iff.1 h
    obtain rfl := pure_eq_ok_iff.1 h
    rw [List.mem_cons, List.exists_mem_cons_iff, names_iff_of_lookupTable hfound, ih hothers]

theorem mem_referencedTables_iff {operation : Source.Operation} {tables : List TableId}
    (h : r.referencedTables operation = .ok tables) :
    table ∈ tables ↔ ∃ reference ∈ operation.directColumns, r.Names reference table := by
  obtain ⟨found, hfound, rfl⟩ := map_eq_ok_iff.1 h
  rw [List.mem_eraseDups, mem_tablesOf_iff hfound]

theorem nodup_of_referencedTables {operation : Source.Operation} {tables : List TableId}
    (h : r.referencedTables operation = .ok tables) : tables.Nodup := by
  obtain ⟨found, -, rfl⟩ := map_eq_ok_iff.1 h
  exact nodup_eraseDups found

/-- The table is the far side of the self join that is resolved. -/
def IsFarSide (r : Resolver) (table : TableId) : Prop :=
  ∃ far, r.selfJoinTarget = some far ∧ far.table = table

mutual

/-- A resolved expression reads columns of the tables that it names directly, and of the far side of a self
join if it names that. -/
theorem mem_directTables_iff : (operation : Source.Operation) → ∀ resolved,
    (r.resolve source operation).result = .ok resolved →
      (table ∈ resolved.directTables ↔
        (∃ reference ∈ operation.directColumns, r.Names reference table) ∨
          operation.usesTarget = true ∧ r.IsFarSide table)
  | .column reference => by
    intro resolved h
    unfold resolve at h
    obtain ⟨column, hcolumn, h⟩ := Recorded.result_bind_eq_ok_iff.1 h
    obtain rfl := Except.ok.inj h
    simp [Operation.directTables, Operation.directColumns, Source.Operation.directColumns,
      Source.Operation.usesTarget, names_iff_of_lookupTable (lookupTable_of_column hcolumn)]
  | .targetColumn column => by
    intro resolved h
    unfold resolve at h
    split at h
    · rename_i far hfar
      obtain ⟨column, hcolumn, h⟩ := Recorded.result_bind_eq_ok_iff.1 h
      obtain rfl := Except.ok.inj h
      simp [Operation.directTables, Operation.directColumns, Source.Operation.directColumns,
        Source.Operation.usesTarget, tableAlias_of_columnOf hcolumn, IsFarSide, hfar, eq_comm]
    · exact absurd h (found_ne_ok _ _ _)
  | .joinPath joins target => by
    -- what is read at the end of a path is not read directly
    intro resolved h
    unfold resolve at h
    obtain ⟨chain, -, h⟩ := Recorded.result_bind_eq_ok_iff.1 h
    obtain rfl := Except.ok.inj h
    simp [JoinChain.toOperation, Operation.directTables, Operation.directColumns,
      Source.Operation.directColumns, Source.Operation.usesTarget]
  | .literal value => by
    intro resolved h
    unfold resolve at h
    obtain rfl := Except.ok.inj h
    simp [Operation.directTables, Operation.directColumns, Source.Operation.directColumns,
      Source.Operation.usesTarget]
  | .function name arguments => by
    intro resolved h
    unfold resolve at h
    obtain ⟨others, hothers, h⟩ := Recorded.result_bind_eq_ok_iff.1 h
    obtain rfl := Except.ok.inj h
    rw [Operation.directTables_function]
    exact mem_directTablesOfAll_iff arguments others hothers

theorem mem_directTablesOfAll_iff : (l : List Source.Operation) → ∀ resolved,
    (r.resolveAll source l).result = .ok resolved →
      (table ∈ resolved.flatMap Operation.directTables ↔
        (∃ reference ∈ Source.Operation.directColumnsOfAll l, r.Names reference table) ∨
          Source.Operation.anyUsesTarget l = true ∧ r.IsFarSide table)
  | [] => by
    intro resolved h
    unfold resolveAll at h
    obtain rfl := Except.ok.inj h
    simp [Source.Operation.directColumnsOfAll, Source.Operation.anyUsesTarget]
  | argument :: rest => by
    intro resolved h
    unfold resolveAll at h
    obtain ⟨first, hfirst, h⟩ := Recorded.result_bind_eq_ok_iff.1 h
    obtain ⟨others, hothers, h⟩ := Recorded.result_bind_eq_ok_iff.1 h
    obtain rfl := Except.ok.inj h
    rw [List.flatMap_cons, List.mem_append, mem_directTables_iff argument first hfirst,
      mem_directTablesOfAll_iff rest others hothers, Source.Operation.directColumnsOfAll,
      Source.Operation.anyUsesTarget, Bool.or_eq_true]
    simp only [List.mem_append, or_and_right, exists_or]
    exact or_or_or_comm

end

end Resolver

/-! ## Joins and filters -/

/-- The tables are those of the columns that the condition reads directly, each once. -/
structure Operation.About (condition : Operation) (tables : List TableId) : Prop where
  nodup : tables.Nodup
  mem_iff : ∀ table, table ∈ tables ↔ table ∈ condition.directTables

/-- The join is the one that a database declares. It is about two tables, or, if it names the far side of a
self join, about one. -/
structure Join.Of (j : Join) (database : DatabaseId) (source : Source.Join) : Prop where
  database : j.database = database
  name : j.name = source.name.value
  selfJoin : j.selfJoin = true ↔ source.condition.NamesTarget
  tables : j.condition.About j.tables
  length : j.tables.length = if j.selfJoin then 1 else 2

/-- The filter is the one that a database declares. -/
structure Filter.Of (f : Filter) (database : DatabaseId) (source : Source.Filter) : Prop where
  database : f.database = database
  name : f.name = source.name.value
  tables : f.condition.About f.tables

namespace Store

variable {s s' : Store} {defaultSchema : String} {database : DatabaseId} {owner : Name}

theorem ResolvedJoin.of {source : Source.Join} {join : Join}
    (h : s.ResolvedJoin defaultSchema database source join) : join.Of database source := by
  obtain ⟨far, hfar, hcondition⟩ := h.condition
  have hdirect : ∀ table, table ∈ join.condition.directTables ↔ table ∈ join.tables ∨
      source.condition.usesTarget = true ∧ ∃ a, far = some a ∧ a.table = table := by
    intro table
    rw [Resolver.mem_referencedTables_iff h.tables]
    exact Resolver.mem_directTables_iff source.condition _ hcondition
  have hnodup := Resolver.nodup_of_referencedTables h.tables
  rcases hfar with ⟨hself, hlength, rfl⟩ | ⟨hself, table, htables, rfl⟩
  · refine ⟨h.owner, h.name, ?_, ⟨hnodup, fun table => ?_⟩, by simp [hself, hlength]⟩
    · simp [hself, Resolver.not_namesTarget_of_resolve rfl hcondition]
    · simp [hdirect]
  · have huses : source.condition.usesTarget = true := h.selfJoin ▸ hself
    refine ⟨h.owner, h.name, ?_, ⟨hnodup, fun other => ?_⟩, by simp [hself, htables]⟩
    · simp [hself, Source.Operation.namesTarget_of_usesTarget source.condition huses]
    · -- the far side is the one table of the join
      simp [hdirect, huses, htables, farSide, eq_comm]

theorem ResolvedFilter.of {source : Source.Filter} {filter : Filter}
    (h : s.ResolvedFilter defaultSchema database source filter) : filter.Of database source where
  database := h.owner
  name := h.name
  tables := {
    nodup := Resolver.nodup_of_referencedTables h.tables
    mem_iff table := by
      rw [Resolver.mem_referencedTables_iff h.tables,
        Resolver.mem_directTables_iff source.condition _ h.condition]
      simp [Resolver.IsFarSide, resolverIn] }

/-! ## All phases -/

/-- What databases declare, each with the handle of its database, in the order of the list. -/
def declarations {α : Type} (items : Source.Database → List α) (sources : List Source.Database) :
    List (DatabaseId × α) :=
  sources.zipIdx.flatMap fun d => (items d.1).map (DatabaseId.mk d.2, ·)

theorem joins_of_addJoinsAndFilters {source : Source.Database}
    (h : (addJoinsAndFilters defaultSchema s database source).result = .ok s') :
    ∃ more, s'.joins = s.joins ++ more ∧
      List.Forall₂ (fun join (j : Join) => j.Of database join) source.joins more := by
  rw [addJoinsAndFilters_eq, Recorded.result_foldlM] at h
  have hadded := forall₂_of_foldlM Store.joins (fun c => c.elim (fun join => [join]) fun _ => [])
    (R := fun join (j : Join) => j.Of database join) ?_ h
  · have hnone : source.filters.flatMap (fun _ => ([] : List Source.Join)) = [] :=
      List.flatMap_eq_nil_iff.2 fun _ _ => rfl
    simpa [Source.Database.conditions, List.flatMap_map, hnone] using hadded
  · rintro before (join | filter) - after hadd
    · obtain ⟨-, join, hjoin, rfl⟩ := exists_of_addJoin hadd
      exact ⟨[join], rfl, .cons (resolvedJoin_of_resolveJoin hjoin).of .nil⟩
    · obtain ⟨-, filter, -, rfl⟩ := exists_of_addFilter hadd
      exact ⟨[], (List.append_nil _).symm, .nil⟩

theorem filters_of_addJoinsAndFilters {source : Source.Database}
    (h : (addJoinsAndFilters defaultSchema s database source).result = .ok s') :
    ∃ more, s'.filters = s.filters ++ more ∧
      List.Forall₂ (fun filter (f : Filter) => f.Of database filter) source.filters more := by
  rw [addJoinsAndFilters_eq, Recorded.result_foldlM] at h
  have hadded := forall₂_of_foldlM Store.filters (fun c => c.elim (fun _ => []) fun filter => [filter])
    (R := fun filter (f : Filter) => f.Of database filter) ?_ h
  · have hnone : source.joins.flatMap (fun _ => ([] : List Source.Filter)) = [] :=
      List.flatMap_eq_nil_iff.2 fun _ _ => rfl
    simpa [Source.Database.conditions, List.flatMap_map, hnone] using hadded
  · rintro before (join | filter) - after hadd
    · obtain ⟨-, join, -, rfl⟩ := exists_of_addJoin hadd
      exact ⟨[], (List.append_nil _).symm, .nil⟩
    · obtain ⟨-, filter, hfilter, rfl⟩ := exists_of_addFilter hadd
      exact ⟨[filter], rfl, .cons (resolvedFilter_of_resolveFilter hfilter).of .nil⟩

/-- The joins and filters of a store that is built are those that its databases declare, one by one. -/
theorem joins_filters_of_build {settings : ResolutionSettings} {sources : List Source.Database}
    (h : build settings sources = .ok s) :
    List.Forall₂ (fun d (j : Join) => j.Of d.1 d.2) (declarations (·.joins) sources) s.joins ∧
      List.Forall₂ (fun d (f : Filter) => f.Of d.1 d.2) (declarations (·.filters) sources)
        s.filters := by
  obtain ⟨included, draft, joined, built, hnames, hincludes, hdraft, hjoins, hviews, rfl⟩ :=
    exists_phases_of_build h
  have hincluded := included_of_forEach hnames hincludes
  have hdeclared := declared_of_addSchemas hnames hincluded hdraft
  unfold forEach at hjoins
  rw [Recorded.result_foldlM] at hjoins
  have hkept := joins_filters_of_defineViews hviews
  obtain ⟨joins, hadded, hof⟩ := forall₂_of_foldlM Store.joins
    (fun d : Source.Database × Nat => d.1.joins.map (DatabaseId.mk d.2, ·))
    (R := fun d (j : Join) => j.Of d.1 d.2)
    (fun before d _ after hadd => by
      simpa only [List.forall₂_map_left_iff] using joins_of_addJoinsAndFilters hadd) hjoins
  obtain ⟨filters, hadded', hof'⟩ := forall₂_of_foldlM Store.filters
    (fun d : Source.Database × Nat => d.1.filters.map (DatabaseId.mk d.2, ·))
    (R := fun d (f : Filter) => f.Of d.1 d.2)
    (fun before d _ after hadd => by
      simpa only [List.forall₂_map_left_iff] using filters_of_addJoinsAndFilters hadd) hjoins
  rw [hdeclared.joins, List.nil_append] at hadded
  rw [hdeclared.filters, List.nil_append] at hadded'
  exact ⟨by rwa [← hadded, hkept.1] at hof, by rwa [← hadded', hkept.2] at hof'⟩

end Store

end ObjectRelational
