import ObjectRelational.Proofs.Store.ViewSimulation

/-!
# Where aliases come from

An expression holds aliases: tables, each with the database that it is reached through. An alias comes
from the name of a table, from the table where a path of joins starts or ends, or from the far side of a
self join. A relation between databases and tables that holds for what names and joins lead to therefore
holds for every alias of what is resolved.

* `Operation.aliases` and `View.aliases` list the aliases. `Operation.aliases_mapAliases`: mapping the
  aliases maps what is listed.
* `Resolver.Relates`: a relation holds for what the resolver looks up.
* `Resolver.through_of_sourceFromEnd`, `Resolver.through_of_steps`: it holds where paths start, and where
  their joins end.
* `Resolver.resolve_through`, `Resolver.through_of_view`: so it does for all aliases of expressions and
  views.
-/

namespace ObjectRelational

/-! ## Aliases -/

namespace Operation

mutual

/-- The aliases of an expression, in order and with repetitions. -/
def aliases : Operation → List TableAlias
  | column reference => [reference.tableAlias]
  | join source _ target => source :: aliasesOfTarget target
  | literal _ => []
  | function _ arguments => aliasesOfAll arguments

/-- The aliases at the end of a path. -/
def aliasesOfTarget : Option Operation → List TableAlias
  | none => []
  | some target => aliases target

/-- The aliases of expressions. -/
def aliasesOfAll : List Operation → List TableAlias
  | [] => []
  | argument :: rest => aliases argument ++ aliasesOfAll rest

end

theorem aliasesOfAll_eq_flatMap (l : List Operation) : aliasesOfAll l = l.flatMap aliases := by
  induction l with
  | nil => rfl
  | cons argument rest ih => rw [aliasesOfAll, ih, List.flatMap_cons]

mutual

/-- Mapping the aliases of an expression maps what is listed. -/
theorem aliases_mapAliases (f : TableAlias → TableAlias) (g : DatabaseId → DatabaseId) :
    (operation : Operation) → (operation.mapAliases f g).aliases = operation.aliases.map f
  | column _ => rfl
  | join source _ target => congrArg (f source :: ·) (aliasesOfTarget_mapAliases f g target)
  | literal _ => rfl
  | function _ arguments => aliasesOfAll_mapAliases f g arguments

theorem aliasesOfTarget_mapAliases (f : TableAlias → TableAlias) (g : DatabaseId → DatabaseId) :
    (target : Option Operation) →
      aliasesOfTarget (mapAliasesOfTarget f g target) = (aliasesOfTarget target).map f
  | none => rfl
  | some target => aliases_mapAliases f g target

theorem aliasesOfAll_mapAliases (f : TableAlias → TableAlias) (g : DatabaseId → DatabaseId) :
    (l : List Operation) → aliasesOfAll (mapAliasesOfAll f g l) = (aliasesOfAll l).map f
  | [] => rfl
  | argument :: rest => by
    rw [mapAliasesOfAll, aliasesOfAll, aliasesOfAll, aliases_mapAliases f g argument,
      aliasesOfAll_mapAliases f g rest, List.map_append]

end

end Operation

/-- The aliases of a chain. -/
def JoinChain.aliases (chain : JoinChain) : List TableAlias := chain.toOperation.aliases

/-- The aliases of a view: its main table, and those of its columns and groups. -/
def View.aliases (v : View) : List TableAlias :=
  v.mainTable :: (v.columns.flatMap (·.operation.aliases) ++ v.groupBy.flatMap Operation.aliases)

/-- The relation holds between the database that the table is reached through and the table. -/
def TableAlias.Through (R : DatabaseId → TableId → Prop) (a : TableAlias) : Prop :=
  R a.database a.table

namespace Resolver

/-- The relation holds for what the resolver looks up: between a database and the tables that names denote
in it, between a database and the tables of the joins that names denote in it, and for the far side of
the self join that is resolved. -/
structure Relates (r : Resolver) (R : DatabaseId → TableId → Prop) : Prop where
  table : ∀ {d schema name table}, r.store.findTable? d schema name = some table → R d table
  join : ∀ {d name id j}, r.store.findJoin? d name = some id → r.store.join? id = some j →
    ∀ table ∈ j.tables, R d table
  selfJoinTarget : ∀ a, r.selfJoinTarget = some a → a.Through R

variable {r : Resolver} {R : DatabaseId → TableId → Prop}

theorem Relates.mono {R' : DatabaseId → TableId → Prop} (hr : r.Relates R)
    (h : ∀ d table, R d table → R' d table) : r.Relates R' where
  table hfound := h _ _ (hr.table hfound)
  join hfound hj table htable := h _ _ (hr.join hfound hj table htable)
  selfJoinTarget a ha := h _ _ (hr.selfJoinTarget a ha)

/-! ## Lookups -/

theorem through_of_lookupTable (hr : r.Relates R) {database schema : Option Name} {table : Name}
    {found : TableAlias} (h : r.lookupTable database schema table = .ok found) : found.Through R := by
  unfold lookupTable at h
  obtain ⟨id, -, h⟩ := bind_eq_ok_iff.1 h
  cases schema
  all_goals
    dsimp only at h
    split at h
    · split at h
      · rename_i named hnamed
        obtain rfl := pure_eq_ok_iff.1 h
        exact hr.table hnamed
      · exact absurd h (found_ne_ok _ _ _)
    · exact absurd h (found_ne_ok _ _ _)

theorem related_of_lookupJoin (hr : r.Relates R) {reference : Source.JoinReference} {id : JoinId}
    {join : Join} {database : DatabaseId} (h : r.lookupJoin reference = .ok (id, join, database)) :
    ∀ table ∈ join.tables, R database table := by
  obtain ⟨-, hnamed, hfound⟩ := lookupJoin_eq_ok_iff.1 h
  exact hr.join hnamed hfound

/-! ## Where expressions start -/

/-- Going back along joins ends on a table of the join that is gone along last. -/
theorem mem_tables_of_walkBack {cursor first : TableId} {joins : List Source.JoinReference}
    (h : r.walkBack cursor joins = .ok first) : ∀ reference, joins.getLast? = some reference →
      ∃ id join database, r.lookupJoin reference = .ok (id, join, database) ∧ first ∈ join.tables := by
  induction joins generalizing cursor with
  | nil => simp
  | cons next rest ih =>
    intro reference hlast
    unfold walkBack at h
    obtain ⟨⟨id, join, database⟩, hjoin, h⟩ := bind_eq_ok_iff.1 h
    dsimp only at h
    split at h
    · rename_i before hbefore
      cases rest with
      | nil =>
        obtain rfl := Option.some.inj hlast
        obtain rfl := Except.ok.inj h
        exact ⟨id, join, database, hjoin, (Join.mem_tables_of_otherSide? hbefore).2⟩
      | cons following others =>
        rw [List.getLast?_cons_cons] at hlast
        exact ih h reference hlast
    · exact absurd h (found_ne_ok _ _ _)

/-- A path starts on a table of its first join, which is addressed in the database that the table is
reached through; a path without joins starts where it ends. -/
theorem through_of_sourceFromEnd (hr : r.Relates R) {joins : List Source.JoinReference}
    {terminal : Option TableAlias} {source : TableAlias}
    (hterminal : ∀ a, terminal = some a → a.Through R)
    (h : r.sourceFromEnd joins terminal = .ok (some source)) : source.Through R := by
  unfold sourceFromEnd at h
  split at h
  · cases h
  · rename_i terminal
    obtain ⟨cursor, hcursor, h⟩ := bind_eq_ok_iff.1 h
    cases joins with
    | nil =>
      obtain rfl := Option.some.inj (pure_eq_ok_iff.1 h)
      obtain rfl := Except.ok.inj hcursor
      exact hterminal terminal rfl
    | cons first rest =>
      obtain ⟨database, hdatabase, h⟩ := bind_eq_ok_iff.1 h
      obtain rfl := Option.some.inj (pure_eq_ok_iff.1 h)
      obtain ⟨id, join, addressed, hjoin, hmem⟩ :=
        mem_tables_of_walkBack hcursor first (by simp)
      obtain rfl : addressed = database :=
        Except.ok.inj ((lookupJoin_eq_ok_iff.1 hjoin).1.symm.trans hdatabase)
      exact related_of_lookupJoin hr hjoin cursor hmem

mutual

theorem sources_through (hr : r.Relates R) : (operation : Source.Operation) →
    ∀ found, r.sources operation = .ok found → ∀ a ∈ found, a.Through R
  | .column reference => by
    intro found h
    unfold sources at h
    obtain ⟨a, ha, h⟩ := bind_eq_ok_iff.1 h
    obtain rfl := pure_eq_ok_iff.1 h
    simpa using through_of_lookupTable hr ha
  | .joinPath joins target => by
    intro found h
    unfold sources at h
    obtain ⟨source, hsource, h⟩ := bind_eq_ok_iff.1 h
    obtain rfl := pure_eq_ok_iff.1 h
    cases source with
    | none => simp
    | some a => simpa using sourceOfPath_through hr joins target a hsource
  | .function _ arguments => by
    intro found h
    unfold sources at h
    exact sourcesOfAll_through hr arguments found h
  | .targetColumn _ => by
    intro found h
    unfold sources at h
    obtain rfl := Except.ok.inj h
    simp
  | .literal _ => by
    intro found h
    unfold sources at h
    obtain rfl := Except.ok.inj h
    simp

theorem sourceOfPath_through (hr : r.Relates R) (joins : List Source.JoinReference) :
    (target : Option Source.Operation) → ∀ source, r.sourceOfPath joins target = .ok (some source) →
      source.Through R
  | none => by
    intro source h
    unfold sourceOfPath at h
    cases h
  | some target => by
    intro source h
    unfold sourceOfPath at h
    obtain ⟨found, hfound, h⟩ := bind_eq_ok_iff.1 h
    exact through_of_sourceFromEnd hr
      (fun a ha => sources_through hr target found hfound a (List.mem_of_head? ha)) h

theorem sourcesOfAll_through (hr : r.Relates R) : (l : List Source.Operation) →
    ∀ found, r.sourcesOfAll l = .ok found → ∀ a ∈ found, a.Through R
  | [] => by
    intro found h
    unfold sourcesOfAll at h
    obtain rfl := Except.ok.inj h
    simp
  | argument :: rest => by
    intro found h
    unfold sourcesOfAll at h
    obtain ⟨first, hfirst, h⟩ := bind_eq_ok_iff.1 h
    obtain ⟨others, hothers, h⟩ := bind_eq_ok_iff.1 h
    obtain rfl := pure_eq_ok_iff.1 h
    exact List.forall_mem_append.2 ⟨sources_through hr argument first hfirst,
      sourcesOfAll_through hr rest others hothers⟩

end

theorem inferRoots_through (hr : r.Relates R) {operation : Source.Operation} {roots : List TableAlias}
    (h : r.inferRoots operation = .ok roots) : ∀ a ∈ roots, a.Through R := by
  obtain ⟨found, hfound, rfl⟩ := map_eq_ok_iff.1 h
  exact fun a ha => sources_through hr operation found hfound a (List.mem_eraseDups.1 ha)

theorem through_of_startOf (hr : r.Relates R) {path : Source.JoinPath} {source : Option TableAlias}
    (hsource : ∀ a, source = some a → a.Through R) {start : TableAlias}
    (h : r.startOf path source = .ok start) : start.Through R := by
  cases source with
  | some given =>
    obtain rfl := Except.ok.inj h
    exact hsource _ rfl
  | none =>
    unfold startOf at h
    obtain ⟨inferred, hinferred, h⟩ := bind_eq_ok_iff.1 h
    split at h
    · obtain rfl := pure_eq_ok_iff.1 h
      exact sourceOfPath_through hr path.joins path.target _ hinferred
    · exact absurd h (found_ne_ok _ _ _)
    · exact absurd h (found_ne_ok _ _ _)

/-! ## Where paths end -/

/-- A join leads to one of its tables, and the database that it is addressed in is where it was found. -/
theorem through_of_steps (hr : r.Relates R) {cursor : TableId} {joins : List Source.JoinReference}
    {steps : List JoinStep} (h : (r.steps cursor joins).result = .ok steps) :
    ∀ step ∈ steps, R step.database step.target := by
  induction joins generalizing cursor steps with
  | nil =>
    obtain rfl := Except.ok.inj h
    simp
  | cons reference rest ih =>
    unfold Resolver.steps at h
    simp only [Recorded.result_bind_eq_ok_iff] at h
    obtain ⟨⟨id, join, database⟩, hjoin, _, -, _, -, hrest⟩ := h
    dsimp only at hrest
    split at hrest
    · exact absurd hrest (found_ne_ok _ _ _)
    · rename_i next hnext
      obtain ⟨following, hfollowing, hsteps⟩ := Recorded.result_bind_eq_ok_iff.1 hrest
      obtain rfl := Except.ok.inj hsteps
      exact List.forall_mem_cons.2 ⟨related_of_lookupJoin hr hjoin next
        (Join.mem_tables_of_otherSide? hnext).2, ih hfollowing⟩

theorem through_endAlias {source : TableAlias} (hsource : source.Through R) {steps : List JoinStep}
    (hsteps : ∀ step ∈ steps, R step.database step.target) : (endAlias source steps).Through R := by
  unfold endAlias
  cases hlast : steps.getLast? with
  | none => exact hsource
  | some step => exact hsteps step (List.mem_of_getLast? hlast)

/-- Names do not matter to the relation. -/
theorem renameFarSide_through {steps : List JoinStep} {operation : Operation}
    (h : ∀ a ∈ operation.aliases, a.Through R) :
    ∀ a ∈ (r.renameFarSide steps operation).aliases, a.Through R := by
  unfold renameFarSide
  split
  · exact h
  · split
    · split
      · unfold Operation.renameAlias
        rw [Operation.aliases_mapAliases]
        refine List.forall_mem_map.2 fun a ha => ?_
        split
        · exact h a ha
        · exact h a ha
      · exact h
    · exact h

/-! ## Expressions -/

mutual

/-- The relation holds for all aliases of an expression that resolves, if it does for the table that its
paths start from. -/
theorem resolve_through (hr : r.Relates R) (source : Option TableAlias)
    (hsource : ∀ a, source = some a → a.Through R) : (expression : Source.Operation) → ∀ operation,
      (r.resolve source expression).result = .ok operation → ∀ a ∈ operation.aliases, a.Through R
  | .column reference => by
    intro operation h
    unfold resolve at h
    obtain ⟨column, hcolumn, h⟩ := Recorded.result_bind_eq_ok_iff.1 h
    obtain rfl := Except.ok.inj h
    exact List.forall_mem_singleton.2 (through_of_lookupTable hr (lookupTable_of_column hcolumn))
  | .targetColumn column => by
    intro operation h
    unfold resolve at h
    split at h
    · rename_i target htarget
      obtain ⟨column, hcolumn, h⟩ := Recorded.result_bind_eq_ok_iff.1 h
      obtain rfl := Except.ok.inj h
      refine List.forall_mem_singleton.2 ?_
      rw [tableAlias_of_columnOf hcolumn]
      exact hr.selfJoinTarget target htarget
    · exact absurd h (found_ne_ok _ _ _)
  | .joinPath joins target => by
    intro operation h
    unfold resolve at h
    obtain ⟨chain, hchain, h⟩ := Recorded.result_bind_eq_ok_iff.1 h
    obtain rfl := Except.ok.inj h
    exact resolvePath_through hr source hsource joins target chain hchain
  | .literal value => by
    intro operation h
    unfold resolve at h
    obtain rfl := Except.ok.inj h
    simp [Operation.aliases]
  | .function name arguments => by
    intro operation h
    unfold resolve at h
    obtain ⟨resolved, hresolved, h⟩ := Recorded.result_bind_eq_ok_iff.1 h
    obtain rfl := Except.ok.inj h
    rw [Operation.aliases, Operation.aliasesOfAll_eq_flatMap]
    exact resolveAll_through hr source hsource arguments resolved hresolved

theorem resolvePath_through (hr : r.Relates R) (source : Option TableAlias)
    (hsource : ∀ a, source = some a → a.Through R) (joins : List Source.JoinReference) :
    (target : Option Source.Operation) → ∀ chain, (r.resolvePath source joins target).result = .ok chain →
      ∀ a ∈ chain.aliases, a.Through R
  | none => by
    intro chain h
    unfold resolvePath at h
    simp only [Recorded.result_bind_eq_ok_iff, Recorded.result_monadLift, Recorded.result_pure] at h
    obtain ⟨start, hstart, steps, -, h⟩ := h
    obtain rfl := Except.ok.inj h
    exact List.forall_mem_singleton.2 (through_of_startOf hr hsource hstart)
  | some target => by
    intro chain h
    unfold resolvePath at h
    simp only [Recorded.result_bind_eq_ok_iff, Recorded.result_monadLift, Recorded.result_pure] at h
    obtain ⟨start, hstart, steps, hsteps, operation, hoperation, _, -, h⟩ := h
    obtain rfl := Except.ok.inj h
    have hstart := through_of_startOf hr hsource hstart
    -- what is at the end of the path starts from the table that the path reaches
    have hreached : ∀ a, some (endAlias start steps) = some a → a.Through R := by
      rintro _ ⟨⟩
      exact through_endAlias hstart (through_of_steps hr hsteps)
    exact List.forall_mem_cons.2 ⟨hstart,
      renameFarSide_through (resolve_through hr _ hreached target operation hoperation)⟩

theorem resolveAll_through (hr : r.Relates R) (source : Option TableAlias)
    (hsource : ∀ a, source = some a → a.Through R) : (l : List Source.Operation) → ∀ operations,
      (r.resolveAll source l).result = .ok operations →
        ∀ a ∈ operations.flatMap Operation.aliases, a.Through R
  | [] => by
    intro operations h
    unfold resolveAll at h
    obtain rfl := Except.ok.inj h
    simp
  | argument :: rest => by
    intro operations h
    unfold resolveAll at h
    simp only [Recorded.result_bind_eq_ok_iff, Recorded.result_pure] at h
    obtain ⟨first, hfirst, others, hothers, h⟩ := h
    obtain rfl := Except.ok.inj h
    rw [List.flatMap_cons]
    exact List.forall_mem_append.2 ⟨resolve_through hr source hsource argument first hfirst,
      resolveAll_through hr source hsource rest others hothers⟩

end

/-! ## Views -/

theorem addViewRoots_through {view column : Name} {roots found added : List TableAlias}
    (hroots : ∀ a ∈ roots, a.Through R) (hfound : ∀ a ∈ found, a.Through R)
    (h : r.addViewRoots view column roots found = .ok added) : ∀ a ∈ added, a.Through R := by
  induction found generalizing roots with
  | nil =>
    obtain rfl := Except.ok.inj h
    exact hroots
  | cons root rest ih =>
    obtain ⟨hroot, hrest⟩ := List.forall_mem_cons.1 hfound
    unfold addViewRoots at h
    split at h
    · split at h
      · exact ih hroots hrest h
      · exact ih (List.forall_mem_append.2 ⟨hroots, List.forall_mem_singleton.2 hroot⟩) hrest h
    · exact absurd h (found_ne_ok _ _ _)

theorem viewRoots_through (hr : r.Relates R) {view : Name} {roots all : List TableAlias}
    {columns : List Source.ViewColumn} (hroots : ∀ a ∈ roots, a.Through R)
    (h : r.viewRoots view roots columns = .ok all) :
    ∀ a ∈ all, a.Through R := by
  induction columns generalizing roots with
  | nil =>
    obtain rfl := Except.ok.inj h
    exact hroots
  | cons column rest ih =>
    unfold viewRoots at h
    obtain ⟨found, hfound, h⟩ := bind_eq_ok_iff.1 h
    obtain ⟨added, hadded, h⟩ := bind_eq_ok_iff.1 h
    exact ih (addViewRoots_through hroots (inferRoots_through hr hfound) hadded) h

theorem through_of_viewMainTable (hr : r.Relates R) {view : Source.View} {main : TableAlias}
    (h : r.viewMainTable view = .ok main) : main.Through R := by
  unfold viewMainTable at h
  obtain ⟨roots, hroots, h⟩ := bind_eq_ok_iff.1 h
  split at h
  · exact absurd h (found_ne_ok _ _ _)
  · obtain rfl := pure_eq_ok_iff.1 h
    exact viewRoots_through hr (by simp) hroots _ List.mem_cons_self
  · exact absurd h (found_ne_ok _ _ _)

/-- The relation holds for all aliases of a view that resolves. -/
theorem through_of_view (hr : r.Relates R) {source : Source.View} {view : View}
    (h : (r.view source).result = .ok view) : ∀ a ∈ view.aliases, a.Through R := by
  simp only [Resolver.view, Recorded.result_bind_eq_ok_iff, Recorded.result_monadLift,
    Recorded.result_pure] at h
  obtain ⟨main, hmain, columns, hcolumns, filter, -, groupBy, hgroupBy, h⟩ := h
  obtain rfl := Except.ok.inj h
  have hmain := through_of_viewMainTable hr hmain
  have hsource : ∀ a, some main = some a → a.Through R := by
    rintro _ ⟨⟩
    exact hmain
  refine List.forall_mem_cons.2 ⟨hmain, List.forall_mem_append.2
    ⟨List.forall_mem_flatMap.2 fun c hc => ?_, List.forall_mem_flatMap.2 fun operation hoperation => ?_⟩⟩
  · obtain ⟨written, -, hresolved⟩ :=
      exists_of_mem_right (Recorded.result_forAll_eq_ok_iff.1 hcolumns) hc
    obtain ⟨resolved, hresolve, h⟩ := Recorded.result_bind_eq_ok_iff.1 hresolved
    split at h
    · exact absurd h (found_ne_ok _ _ _)
    · obtain rfl := Except.ok.inj h
      exact resolve_through hr _ hsource _ _ hresolve
  · obtain ⟨written, -, hresolved⟩ :=
      exists_of_mem_right (Recorded.result_forAll_eq_ok_iff.1 hgroupBy) hoperation
    obtain ⟨resolved, hresolve, h⟩ := Recorded.result_bind_eq_ok_iff.1 hresolved
    split at h
    · exact absurd h (found_ne_ok _ _ _)
    · obtain rfl := Except.ok.inj h
      exact resolve_through hr _ hsource _ _ hresolve

end Resolver

end ObjectRelational
