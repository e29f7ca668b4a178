import ObjectRelational.Proofs.Store.Aliases
import ObjectRelational.Proofs.Store.InferredRoots
import ObjectRelational.Proofs.Store.PathEnds

/-!
# Tables that are mentioned

What an expression mentions are the tables whose columns it reads and those that its paths go along. A table whose
columns are read has columns, and a path goes from side to side of joins that are there; where a path starts without
being told, it is inferred from such tables too.

* `Operation.tables`, `View.tables`: the tables that expressions and views mention.
* `Resolver.Supplies`: what holds of all tables that have columns and of all that are sides of joins.
* `Resolver.supplied_of_resolve`, `Resolver.supplied_of_sources`: it holds of what is resolved and of what is inferred.
* `Resolver.supplied_of_view`: it holds of all tables that a view mentions.
-/

namespace ObjectRelational

/-! ## What is mentioned -/

/-- The tables that a step leaves and reaches. -/
def JoinStep.tables (step : JoinStep) : List TableId := [step.source, step.target]

namespace Operation

mutual

/-- The tables that an expression mentions, at any depth and with repetitions. -/
def tables : Operation → List TableId
  | column reference => [reference.tableAlias.table]
  | join source steps target => source.table :: (steps.flatMap JoinStep.tables ++ tablesOfTarget target)
  | literal _ => []
  | function _ arguments => tablesOfAll arguments

/-- The tables that are mentioned at the end of a path. -/
def tablesOfTarget : Option Operation → List TableId
  | none => []
  | some target => tables target

/-- The tables that expressions mention. -/
def tablesOfAll : List Operation → List TableId
  | [] => []
  | argument :: rest => tables argument ++ tablesOfAll rest

end

mutual

/-- An expression mentions the same tables under other names and through other databases. -/
theorem tables_mapAliases {f : TableAlias → TableAlias} {g : DatabaseId → DatabaseId}
    (hf : ∀ a, (f a).table = a.table) : (operation : Operation) →
      (operation.mapAliases f g).tables = operation.tables
  | .column reference => by simp [mapAliases, tables, hf]
  | .join source steps target => by
    have hsteps : (steps.map (JoinStep.mapDatabase g)).flatMap JoinStep.tables =
        steps.flatMap JoinStep.tables := by
      rw [List.flatMap_map]
      rfl
    simp [mapAliases, tables, hf, hsteps, tablesOfTarget_mapAliases hf target]
  | .literal _ => by simp [mapAliases, tables]
  | .function _ arguments => by simp [mapAliases, tables, tablesOfAll_mapAliases hf arguments]

theorem tablesOfTarget_mapAliases {f : TableAlias → TableAlias} {g : DatabaseId → DatabaseId}
    (hf : ∀ a, (f a).table = a.table) : (target : Option Operation) →
      tablesOfTarget (mapAliasesOfTarget f g target) = tablesOfTarget target
  | none => by simp [mapAliasesOfTarget, tablesOfTarget]
  | some target => by simp [mapAliasesOfTarget, tablesOfTarget, tables_mapAliases hf target]

theorem tablesOfAll_mapAliases {f : TableAlias → TableAlias} {g : DatabaseId → DatabaseId}
    (hf : ∀ a, (f a).table = a.table) : (l : List Operation) →
      tablesOfAll (mapAliasesOfAll f g l) = tablesOfAll l
  | [] => by simp [mapAliasesOfAll, tablesOfAll]
  | argument :: rest => by
    simp [mapAliasesOfAll, tablesOfAll, tables_mapAliases hf argument, tablesOfAll_mapAliases hf rest]

end

end Operation

/-- The tables that a view mentions: its main table, and those in its columns, in the joins of its filter and in
its groups. -/
def View.tables (v : View) : List TableId :=
  v.mainTable.table :: ((v.columns.flatMap fun c => c.operation.tables) ++
    (v.filter.toList.flatMap fun pointer => pointer.joins.flatMap JoinStep.tables) ++
    v.groupBy.flatMap Operation.tables)

namespace Resolver

/-- The property holds of all tables with columns and of all sides of joins. -/
structure Supplies (r : Resolver) (P : TableId → Prop) : Prop where
  column : ∀ id table name, r.store.table? id = some table → (table.column? name).isSome → P id
  join : ∀ id join, r.store.join? id = some join → ∀ table ∈ join.tables, P table

variable {r : Resolver} {P : TableId → Prop} {source main : TableAlias} {joins : List Source.JoinReference}
  {steps : List JoinStep}

/-! ## What is resolved -/

theorem supplied_of_columnOf (hr : r.Supplies P) {owner : TableAlias} {name : Name} {column : ColumnRef}
    (h : (r.columnOf owner name).result = .ok column) : P column.tableAlias.table := by
  unfold columnOf at h
  split at h
  · rename_i hsome
    obtain ⟨_, -, h⟩ := Recorded.result_bind_eq_ok_iff.1 h
    obtain rfl := Except.ok.inj h
    obtain ⟨found, hfound⟩ := Option.isSome_iff_exists.1 hsome
    obtain ⟨table, htable, hcolumn⟩ := Option.bind_eq_some_iff.1 hfound
    exact hr.column owner.table table name.value htable (by rw [hcolumn]; rfl)
  · exact absurd h (found_ne_ok _ _ _)

theorem supplied_of_column (hr : r.Supplies P) {reference : Source.ColumnReference} {column : ColumnRef}
    (h : (r.column reference).result = .ok column) : P column.tableAlias.table := by
  obtain ⟨owner, -, h⟩ := Recorded.result_bind_eq_ok_iff.1 h
  exact supplied_of_columnOf hr h

theorem supplied_of_steps (hr : r.Supplies P) {cursor : TableId} (h : (r.steps cursor joins).result = .ok steps) :
    ∀ table ∈ steps.flatMap JoinStep.tables, P table := by
  induction joins generalizing cursor steps with
  | nil =>
    obtain rfl := Except.ok.inj h
    simp
  | cons reference rest ih =>
    unfold Resolver.steps at h
    simp only [Recorded.result_bind_eq_ok_iff] at h
    obtain ⟨⟨id, join, database⟩, hjoin, _, -, _, -, hrest⟩ := h
    dsimp only at hrest
    split at hrest
    · exact absurd hrest (found_ne_ok _ _ _)
    · rename_i next hnext
      obtain ⟨following, hfollowing, hsteps⟩ := Recorded.result_bind_eq_ok_iff.1 hrest
      obtain rfl := Except.ok.inj hsteps
      obtain ⟨-, -, hfound⟩ := lookupJoin_eq_ok_iff.1 hjoin
      obtain ⟨hsource, htarget⟩ := Join.mem_tables_of_otherSide? hnext
      rw [List.flatMap_cons]
      refine List.forall_mem_append.2 ⟨?_, ih hfollowing⟩
      simp only [JoinStep.tables, stepAlong, List.mem_cons, List.not_mem_nil, or_false, forall_eq_or_imp, forall_eq]
      exact ⟨hr.join id join hfound _ hsource, hr.join id join hfound _ htarget⟩

/-- A path ends on a side of its last join, or where it starts. -/
theorem supplied_of_endAlias (hsource : P source.table) (hsteps : ∀ table ∈ steps.flatMap JoinStep.tables, P table) :
    P (endAlias source steps).table := by
  unfold endAlias
  cases hlast : steps.getLast? with
  | none => exact hsource
  | some step =>
    exact hsteps _ (List.mem_flatMap.2 ⟨step, List.mem_of_getLast? hlast, by simp [JoinStep.tables]⟩)

theorem tables_of_renameFarSide (operation : Operation) :
    (r.renameFarSide steps operation).tables = operation.tables := by
  rcases r.renameFarSide_cases steps operation with hsame | ⟨step, -, hrenamed⟩
  · rw [hsame]
  · rw [hrenamed, Operation.renameAlias, Operation.tables_mapAliases]
    intro a
    split <;> rfl

mutual

/-- What is resolved from such a table mentions such tables only. -/
theorem supplied_of_resolve (hr : r.Supplies P) (source : TableAlias) (hsource : P source.table) :
    (expression : Source.Operation) → ∀ operation, (r.resolve (some source) expression).result = .ok operation →
      ∀ table ∈ operation.tables, P table
  | .column reference => by
    intro operation h
    unfold resolve at h
    obtain ⟨column, hcolumn, h⟩ := Recorded.result_bind_eq_ok_iff.1 h
    obtain rfl := Except.ok.inj h
    simpa [Operation.tables] using supplied_of_column hr hcolumn
  | .targetColumn name => by
    intro operation h
    unfold resolve at h
    split at h
    · obtain ⟨column, hcolumn, h⟩ := Recorded.result_bind_eq_ok_iff.1 h
      obtain rfl := Except.ok.inj h
      simpa [Operation.tables] using supplied_of_columnOf hr hcolumn
    · exact absurd h (found_ne_ok _ _ _)
  | .joinPath joins target => by
    intro operation h
    unfold resolve at h
    obtain ⟨chain, hchain, h⟩ := Recorded.result_bind_eq_ok_iff.1 h
    obtain rfl := Except.ok.inj h
    exact supplied_of_resolvePath hr source hsource joins target chain hchain
  | .literal value => by
    intro operation h
    unfold resolve at h
    obtain rfl := Except.ok.inj h
    simp [Operation.tables]
  | .function name arguments => by
    intro operation h
    unfold resolve at h
    obtain ⟨resolved, hresolved, h⟩ := Recorded.result_bind_eq_ok_iff.1 h
    obtain rfl := Except.ok.inj h
    rw [Operation.tables]
    exact supplied_of_resolveAll hr source hsource arguments resolved hresolved

theorem supplied_of_resolvePath (hr : r.Supplies P) (source : TableAlias) (hsource : P source.table)
    (joins : List Source.JoinReference) : (target : Option Source.Operation) → ∀ chain,
      (r.resolvePath (some source) joins target).result = .ok chain → ∀ table ∈ chain.toOperation.tables, P table
  | none => by
    intro chain h
    unfold resolvePath at h
    simp only [startOf, Recorded.result_bind_eq_ok_iff, Recorded.result_monadLift, Recorded.result_pure] at h
    obtain ⟨start, hstart, steps, hsteps, h⟩ := h
    obtain rfl : source = start := Except.ok.inj hstart
    obtain rfl := Except.ok.inj h
    simpa [JoinChain.toOperation, Operation.tables, Operation.tablesOfTarget, hsource] using
      supplied_of_steps hr hsteps
  | some target => by
    intro chain h
    unfold resolvePath at h
    simp only [startOf, Recorded.result_bind_eq_ok_iff, Recorded.result_monadLift, Recorded.result_pure] at h
    obtain ⟨start, hstart, steps, hsteps, operation, hoperation, _, -, h⟩ := h
    obtain rfl : source = start := Except.ok.inj hstart
    obtain rfl := Except.ok.inj h
    have hsteps := supplied_of_steps hr hsteps
    -- what is at the end of the path is resolved from the table that the path reaches
    have hend := supplied_of_resolve hr _ (supplied_of_endAlias hsource hsteps) target operation hoperation
    rw [JoinChain.toOperation, Operation.tables, Operation.tablesOfTarget, tables_of_renameFarSide]
    exact List.forall_mem_cons.2 ⟨hsource, List.forall_mem_append.2 ⟨hsteps, hend⟩⟩

theorem supplied_of_resolveAll (hr : r.Supplies P) (source : TableAlias) (hsource : P source.table) :
    (l : List Source.Operation) → ∀ operations, (r.resolveAll (some source) l).result = .ok operations →
      ∀ table ∈ Operation.tablesOfAll operations, P table
  | [] => by
    intro operations h
    unfold resolveAll at h
    obtain rfl := Except.ok.inj h
    simp [Operation.tablesOfAll]
  | argument :: rest => by
    intro operations h
    unfold resolveAll at h
    obtain ⟨first, hfirst, h⟩ := Recorded.result_bind_eq_ok_iff.1 h
    obtain ⟨others, hothers, h⟩ := Recorded.result_bind_eq_ok_iff.1 h
    obtain rfl := Except.ok.inj h
    rw [Operation.tablesOfAll]
    exact List.forall_mem_append.2 ⟨supplied_of_resolve hr source hsource argument first hfirst,
      supplied_of_resolveAll hr source hsource rest others hothers⟩

end

/-! ## What is inferred -/

/-- A path starts on a side of its first join, or where it ends. -/
theorem supplied_of_sourceFromEnd (hr : r.Supplies P) {terminal : Option TableAlias}
    (hterminal : ∀ a, terminal = some a → P a.table) (h : r.sourceFromEnd joins terminal = .ok (some source)) :
    P source.table := by
  unfold sourceFromEnd at h
  split at h
  · cases h
  · rename_i terminal
    obtain ⟨cursor, hcursor, h⟩ := bind_eq_ok_iff.1 h
    cases joins with
    | nil =>
      obtain rfl := Option.some.inj (pure_eq_ok_iff.1 h)
      obtain rfl := Except.ok.inj hcursor
      exact hterminal terminal rfl
    | cons first rest =>
      obtain ⟨database, -, h⟩ := bind_eq_ok_iff.1 h
      obtain rfl := Option.some.inj (pure_eq_ok_iff.1 h)
      obtain ⟨id, join, addressed, hjoin, hmem⟩ := mem_tables_of_walkBack hcursor first (by simp)
      exact hr.join id join (lookupJoin_eq_ok_iff.1 hjoin).2.2 cursor hmem

mutual

/-- Where an expression is inferred to start, when it is one that resolves. -/
theorem supplied_of_sources (hr : r.Supplies P) : (expression : Source.Operation) → ∀ source found operation,
    r.sources expression = .ok found → (r.resolve source expression).result = .ok operation →
      ∀ a ∈ found, P a.table
  | .column reference => by
    intro source found operation hfound h
    unfold sources at hfound
    obtain ⟨inferred, hinferred, hfound⟩ := bind_eq_ok_iff.1 hfound
    obtain rfl := pure_eq_ok_iff.1 hfound
    unfold resolve at h
    obtain ⟨column, hcolumn, -⟩ := Recorded.result_bind_eq_ok_iff.1 h
    -- inferring only looks the table up, and it is resolving that has found the column there
    obtain rfl : inferred = column.tableAlias :=
      Except.ok.inj (hinferred.symm.trans (lookupTable_of_column hcolumn))
    simpa using supplied_of_column hr hcolumn
  | .targetColumn _ => by
    intro source found operation hfound _
    unfold sources at hfound
    obtain rfl := Except.ok.inj hfound
    simp
  | .joinPath joins target => by
    intro source found operation hfound h
    unfold sources at hfound
    obtain ⟨inferred, hinferred, hfound⟩ := bind_eq_ok_iff.1 hfound
    obtain rfl := pure_eq_ok_iff.1 hfound
    unfold resolve at h
    obtain ⟨chain, hchain, -⟩ := Recorded.result_bind_eq_ok_iff.1 h
    cases inferred with
    | none => simp
    | some a => simpa using supplied_of_sourceOfPath hr joins target source a chain hinferred hchain
  | .literal _ => by
    intro source found operation hfound _
    unfold sources at hfound
    obtain rfl := Except.ok.inj hfound
    simp
  | .function name arguments => by
    intro source found operation hfound h
    unfold sources at hfound
    unfold resolve at h
    obtain ⟨resolved, hresolved, -⟩ := Recorded.result_bind_eq_ok_iff.1 h
    exact supplied_of_sourcesOfAll hr arguments source found resolved hfound hresolved

theorem supplied_of_sourceOfPath (hr : r.Supplies P) (joins : List Source.JoinReference) :
    (target : Option Source.Operation) → ∀ source a chain, r.sourceOfPath joins target = .ok (some a) →
      (r.resolvePath source joins target).result = .ok chain → P a.table
  | none => by
    intro source a chain hinferred _
    unfold sourceOfPath at hinferred
    cases hinferred
  | some target => by
    intro source a chain hinferred h
    unfold sourceOfPath at hinferred
    obtain ⟨found, hfound, hinferred⟩ := bind_eq_ok_iff.1 hinferred
    unfold resolvePath at h
    simp only [Recorded.result_bind_eq_ok_iff] at h
    obtain ⟨start, -, steps, -, operation, hoperation, -⟩ := h
    -- the source is inferred from what stands at the end, which resolves too
    refine supplied_of_sourceFromEnd hr (fun terminal hterminal => ?_) hinferred
    exact supplied_of_sources hr target _ found operation hfound hoperation terminal (List.mem_of_head? hterminal)

theorem supplied_of_sourcesOfAll (hr : r.Supplies P) : (l : List Source.Operation) → ∀ source found operations,
    r.sourcesOfAll l = .ok found → (r.resolveAll source l).result = .ok operations → ∀ a ∈ found, P a.table
  | [] => by
    intro source found operations hfound _
    unfold sourcesOfAll at hfound
    obtain rfl := Except.ok.inj hfound
    simp
  | argument :: rest => by
    intro source found operations hfound h
    unfold sourcesOfAll at hfound
    obtain ⟨inferred, hinferred, hfound⟩ := bind_eq_ok_iff.1 hfound
    obtain ⟨others, hothers, hfound⟩ := bind_eq_ok_iff.1 hfound
    obtain rfl := pure_eq_ok_iff.1 hfound
    unfold resolveAll at h
    obtain ⟨operation, hoperation, h⟩ := Recorded.result_bind_eq_ok_iff.1 h
    obtain ⟨operations, hoperations, -⟩ := Recorded.result_bind_eq_ok_iff.1 h
    exact List.forall_mem_append.2 ⟨supplied_of_sources hr argument source inferred operation hinferred hoperation,
      supplied_of_sourcesOfAll hr rest source others operations hothers hoperations⟩

end

/-! ## What views mention -/

section ViewRoots

variable {view column : Name} {roots found added : List TableAlias}

theorem mem_of_addViewRoots (h : r.addViewRoots view column roots found = .ok added) :
    ∀ a ∈ added, a ∈ roots ∨ a ∈ found := by
  induction found generalizing roots with
  | nil =>
    obtain rfl := Except.ok.inj h
    exact fun _ => .inl
  | cons root rest ih =>
    intro a ha
    unfold addViewRoots at h
    split at h
    · split at h
      · exact (ih h a ha).imp_right (List.mem_cons_of_mem _)
      · rcases ih h a ha with hold | hrest
        · refine (List.mem_append.1 hold).imp_right fun hroot => ?_
          rw [List.mem_singleton.1 hroot]
          exact List.mem_cons_self
        · exact .inr (List.mem_cons_of_mem _ hrest)
    · exact absurd h (found_ne_ok _ _ _)

/-- The tables that the columns of a view start from are inferred from them. -/
theorem exists_column_of_viewRoots {columns : List Source.ViewColumn}
    (h : r.viewRoots view roots columns = .ok added) : ∀ a ∈ added, a ∈ roots ∨
      ∃ c ∈ columns, ∃ found, r.sources c.operation = .ok found ∧ a ∈ found := by
  induction columns generalizing roots with
  | nil =>
    obtain rfl := Except.ok.inj h
    exact fun _ => .inl
  | cons first rest ih =>
    intro a ha
    unfold viewRoots at h
    obtain ⟨inferred, hinferred, h⟩ := bind_eq_ok_iff.1 h
    obtain ⟨next, hnext, hrest⟩ := bind_eq_ok_iff.1 h
    obtain ⟨found, hfound, rfl⟩ := map_eq_ok_iff.1 hinferred
    rcases ih hrest a ha with hold | ⟨c, hc, hsource⟩
    · refine (mem_of_addViewRoots hnext a hold).imp_right fun hmem => ?_
      exact ⟨first, List.mem_cons_self, found, hfound, List.mem_eraseDups.1 hmem⟩
    · exact .inr ⟨c, List.mem_cons_of_mem _ hc, hsource⟩

end ViewRoots

/-- The main table of a view is inferred from one of its columns. -/
theorem exists_column_of_viewMainTable {view : Source.View} (h : r.viewMainTable view = .ok main) :
    ∃ c ∈ view.columns, ∃ found, r.sources c.operation = .ok found ∧ main ∈ found := by
  unfold viewMainTable at h
  obtain ⟨roots, hroots, h⟩ := bind_eq_ok_iff.1 h
  split at h
  · exact absurd h (found_ne_ok _ _ _)
  · obtain rfl := pure_eq_ok_iff.1 h
    exact (exists_column_of_viewRoots hroots _ List.mem_cons_self).resolve_left List.not_mem_nil
  · exact absurd h (found_ne_ok _ _ _)

theorem supplied_of_filter (hr : r.Supplies P) {reference : Source.FilterReference} {pointer : FilterPointer}
    (h : (r.filter (some main) reference).result = .ok pointer) :
    ∀ table ∈ pointer.joins.flatMap JoinStep.tables, P table := by
  simp only [Resolver.filter, Recorded.result_bind_eq_ok_iff] at h
  obtain ⟨joins, hjoins, database, -, h⟩ := h
  have hsteps : ∀ table ∈ joins.flatMap JoinStep.tables, P table := by
    unfold filterJoins at hjoins
    split at hjoins
    · obtain rfl := Except.ok.inj hjoins
      simp
    · exact supplied_of_steps hr hjoins
  split at h
  · exact absurd h (found_ne_ok _ _ _)
  · split at h
    · exact absurd h (found_ne_ok _ _ _)
    · simp only [Recorded.result_bind_eq_ok_iff, Recorded.result_pure] at h
      obtain ⟨_, -, h⟩ := h
      obtain rfl := Except.ok.inj h
      exact hsteps

theorem supplied_of_filter? (hr : r.Supplies P) {reference : Option Source.FilterReference}
    {filter : Option FilterPointer} (h : (r.filter? main reference).result = .ok filter) :
    ∀ pointer ∈ filter, ∀ table ∈ pointer.joins.flatMap JoinStep.tables, P table := by
  rintro pointer rfl
  cases reference with
  | none => cases h
  | some reference =>
    obtain ⟨found, hfound, h⟩ := Recorded.result_bind_eq_ok_iff.1 h
    obtain rfl := Option.some.inj (Except.ok.inj h)
    exact supplied_of_filter hr hfound

/-- A view that resolves mentions such tables only. -/
theorem supplied_of_view (hr : r.Supplies P) {source : Source.View} {v : View}
    (h : (r.view source).result = .ok v) : ∀ table ∈ v.tables, P table := by
  simp only [Resolver.view, Recorded.result_bind_eq_ok_iff, Recorded.result_monadLift, Recorded.result_pure] at h
  obtain ⟨main, hmain, columns, hcolumns, filter, hfilter, groupBy, hgroupBy, h⟩ := h
  obtain rfl := Except.ok.inj h
  have hcolumns := Recorded.result_forAll_eq_ok_iff.1 hcolumns
  -- the column that the main table is inferred from has been resolved
  have hroot : P main.table := by
    obtain ⟨written, hwritten, found, hfound, hmem⟩ := exists_column_of_viewMainTable hmain
    obtain ⟨column, -, hcolumn⟩ := exists_of_mem_left hcolumns hwritten
    exact supplied_of_sources hr written.operation _ found column.operation hfound
      (exists_of_viewColumn hcolumn).1 main hmem
  refine List.forall_mem_cons.2 ⟨hroot, List.forall_mem_append.2 ⟨List.forall_mem_append.2 ⟨?_, ?_⟩, ?_⟩⟩
  · refine List.forall_mem_flatMap.2 fun c hc => ?_
    obtain ⟨written, -, hcolumn⟩ := exists_of_mem_right hcolumns hc
    exact supplied_of_resolve hr main hroot written.operation _ (exists_of_viewColumn hcolumn).1
  · exact List.forall_mem_flatMap.2 fun pointer hpointer =>
      supplied_of_filter? hr hfilter pointer (Option.mem_toList.1 hpointer)
  · refine List.forall_mem_flatMap.2 fun operation hoperation => ?_
    obtain ⟨written, -, hgroup⟩ := exists_of_mem_right (Recorded.result_forAll_eq_ok_iff.1 hgroupBy) hoperation
    exact supplied_of_resolve hr main hroot written _ (exists_of_viewGroupBy hgroup).1

end Resolver

end ObjectRelational
