import Mathlib.Data.Set.Insert
import ObjectRelational.Proofs.Store.InferredRoots
import ObjectRelational.Proofs.Store.PathEnds

/-!
# Names at the ends of paths

Behind a self join, a table is known by the name of the far side, and under its own name elsewhere. What is
evaluated behind a self join is renamed by table, as a whole. Another path in there that comes back to the
table by other joins is renamed with it, although it ends on another row. In the condition of a self join the
far side keeps its name at the end of every path.

* `Operation.direct_roots`: columns that are read directly belong to the tables that an expression starts from.
* `Store.BehindSelfJoin`: a path stands at the end of another one that ends on the far side of a table.
* `Store.EndsNamed`: the names at the ends of all paths of an expression.
* `Operation.Named`: the same, case by case. `Operation.Named.renameAlias`: what renaming makes of it.
  `Operation.Named.endsNamed`: the two agree.
* `Resolver.named_comesAbout`: whatever is resolved is named so.
* `Store.terminals_named`: the names in a store that is built. `Store.not_all_terminals_named`: a path that
  is renamed although it does not end on the far side.
-/

namespace ObjectRelational

/-! ## Columns that are read directly -/

namespace Operation

mutual

theorem directColumns_mapAliases (f : TableAlias → TableAlias) (g : DatabaseId → DatabaseId) :
    (operation : Operation) → (operation.mapAliases f g).directColumns =
      operation.directColumns.map fun c => { c with tableAlias := f c.tableAlias }
  | .column _ => by simp [mapAliases, directColumns]
  | .join _ _ _ => by simp [mapAliases, directColumns]
  | .literal _ => by simp [mapAliases, directColumns]
  | .function _ arguments => by
    simp [mapAliases, directColumns, directColumnsOfAll_mapAliases f g arguments]

theorem directColumnsOfAll_mapAliases (f : TableAlias → TableAlias) (g : DatabaseId → DatabaseId) :
    (l : List Operation) → directColumnsOfAll (mapAliasesOfAll f g l) =
      (directColumnsOfAll l).map fun c => { c with tableAlias := f c.tableAlias }
  | [] => by simp [mapAliasesOfAll, directColumnsOfAll]
  | argument :: rest => by
    simp [mapAliasesOfAll, directColumnsOfAll, directColumns_mapAliases f g argument,
      directColumnsOfAll_mapAliases f g rest]

end

mutual

/-- The tables of columns that are read directly are among those that an expression starts from. -/
theorem direct_roots : (operation : Operation) → ∀ c ∈ operation.directColumns,
    c.tableAlias ∈ operation.roots
  | .column reference => by simp [directColumns, roots]
  | .join _ _ _ => by simp [directColumns]
  | .literal _ => by simp [directColumns]
  | .function _ arguments => by
    simpa [directColumns, roots] using direct_rootsOfAll arguments

theorem direct_rootsOfAll : (l : List Operation) → ∀ c ∈ directColumnsOfAll l,
    c.tableAlias ∈ rootsOfAll l
  | [] => by simp [directColumnsOfAll]
  | argument :: rest => by
    rw [directColumnsOfAll, rootsOfAll]
    exact List.forall_mem_append.2
      ⟨fun c hc => List.mem_append_left _ (direct_roots argument c hc),
        fun c hc => List.mem_append_right _ (direct_rootsOfAll rest c hc)⟩

end

theorem chain?_eq_some_iff {operation : Operation} {chain : JoinChain} :
    operation.chain? = some chain ↔ operation = chain.toOperation := by
  obtain ⟨source, steps, target⟩ := chain
  cases operation <;> simp [chain?, JoinChain.toOperation]

theorem mem_directColumnsOfAll {c : ColumnRef} : {l : List Operation} →
    (c ∈ directColumnsOfAll l ↔ ∃ argument ∈ l, c ∈ argument.directColumns)
  | [] => by simp [directColumnsOfAll]
  | argument :: rest => by
    simp [directColumnsOfAll, mem_directColumnsOfAll (l := rest)]

end Operation

namespace Store

variable {s : Store}

/-! ## Names at the end of a path -/

/-- The table that a step reaches is known by the name of the far side if the step goes along a self join,
and by its own name otherwise. -/
def Names (s : Store) (step : JoinStep) : Prop :=
  ∃ join, s.join? step.join = some join ∧ step.targetAlias =
    if join.selfJoin then selfJoinAlias (s.tableName step.target) else s.tableName step.target

/-- The table that steps reach if the last of them goes along a self join. -/
def farSides (s : Store) (steps : List JoinStep) : Set TableId :=
  {table | ∃ step join, steps.getLast? = some step ∧ s.join? step.join = some join ∧
    join.selfJoin = true ∧ step.target = table}

/-- The part stands at the end of a path that ends on the far side of the table. -/
def BehindSelfJoin (s : Store) (operation part : Operation) (table : TableId) : Prop :=
  ∃ source steps target, (Operation.join source steps (some target)).PartOf operation ∧
    part.PartOf target ∧ table ∈ s.farSides steps

/-- The columns that are read directly at the end of a path belong to the table where the path ends, and
have the name that it has there. When the path stands behind a self join of this table they have the name
of the far side instead. Only the far side of the condition itself keeps its own name. -/
structure EndNamed (s : Store) (far : Option TableAlias) (behind : Prop) (last : JoinStep)
    (target : Operation) : Prop where
  step : s.Names last
  table : ∀ c ∈ target.directColumns, c.tableAlias.table = last.target
  kept : ∀ c ∈ target.directColumns, some c.tableAlias ≠ far → ¬ behind →
    c.tableAlias.name = last.targetAlias
  renamed : ∀ c ∈ target.directColumns, some c.tableAlias ≠ far → behind →
    c.tableAlias.name = selfJoinAlias (s.tableName last.target)

/-- All paths with joins have these names at their ends, at whatever depth. -/
def EndsNamed (s : Store) (far : Option TableAlias) (operation : Operation) : Prop :=
  ∀ source steps target last, (Operation.join source steps (some target)).PartOf operation →
    steps.getLast? = some last → s.EndNamed far
      (s.BehindSelfJoin operation (.join source steps (some target)) last.target) last target

theorem mem_farSides_iff {steps : List JoinStep} {last : JoinStep} {join : Join} {table : TableId}
    (hlast : steps.getLast? = some last) (hjoin : s.join? last.join = some join) :
    table ∈ s.farSides steps ↔ join.selfJoin = true ∧ table = last.target := by
  constructor
  · rintro ⟨step, other, hstep, hother, hself, rfl⟩
    obtain rfl : last = step := Option.some.inj (hlast.symm.trans hstep)
    obtain rfl : join = other := Option.some.inj (hjoin.symm.trans hother)
    exact ⟨hself, rfl⟩
  · rintro ⟨hself, rfl⟩
    exact ⟨last, join, hlast, hjoin, hself, rfl⟩

end Store

/-! ## Names case by case -/

namespace Operation

variable {s : Store} {far : Option TableAlias} {crossed : Set TableId} {operation : Operation}

/-- Columns that are read directly have their tables' own names, except for those of the far side. -/
def DirectlyNamed (s : Store) (far : Option TableAlias) (operation : Operation) : Prop :=
  ∀ c ∈ operation.directColumns, some c.tableAlias ≠ far →
    c.tableAlias.name = s.tableName c.tableAlias.table

/-- The ends of the paths of an expression have their names, if the expression stands behind self joins of
the tables `crossed`. -/
inductive Named (s : Store) (far : Option TableAlias) : Set TableId → Operation → Prop
  | column {crossed : Set TableId} {reference : ColumnRef} : Named s far crossed (.column reference)
  | literal {crossed : Set TableId} {value : Literal} : Named s far crossed (.literal value)
  | function {crossed : Set TableId} {name : String} {arguments : List Operation}
      (h : ∀ argument ∈ arguments, Named s far crossed argument) :
      Named s far crossed (.function name arguments)
  | bareJoin {crossed : Set TableId} {source : TableAlias} {steps : List JoinStep} :
      Named s far crossed (.join source steps none)
  | join {crossed : Set TableId} {source : TableAlias} {steps : List JoinStep} {target : Operation}
      (hend : ∀ last, steps.getLast? = some last →
        s.EndNamed far (last.target ∈ crossed) last target)
      (h : Named s far (crossed ∪ s.farSides steps) target) :
      Named s far crossed (.join source steps (some target))

/-- Renaming the table at the end of a path puts the path behind a self join of it. -/
theorem endNamed_renameAlias {last : JoinStep} {target : Operation}
    (h : s.EndNamed far (last.target ∈ crossed) last target) (table : TableId) :
    s.EndNamed far (last.target ∈ insert table crossed) last
      (target.renameAlias table (selfJoinAlias (s.tableName table))) := by
  -- all columns at the end are of one table, so that either all of them are renamed or none
  have hcolumns : ∀ c ∈ (target.renameAlias table (selfJoinAlias (s.tableName table))).directColumns,
      (last.target = table ∧ c.tableAlias.table = table ∧
        c.tableAlias.name = selfJoinAlias (s.tableName table)) ∨
      last.target ≠ table ∧ c ∈ target.directColumns := by
    intro c hc
    rw [renameAlias, directColumns_mapAliases] at hc
    obtain ⟨old, hold, rfl⟩ := List.mem_map.1 hc
    have htable := h.table old hold
    by_cases hsame : old.tableAlias.table = table
    · rw [if_pos hsame]
      exact .inl ⟨htable ▸ hsame, hsame, rfl⟩
    · rw [if_neg hsame]
      exact .inr ⟨htable ▸ hsame, hold⟩
  refine ⟨h.step, fun c hc => ?_, fun c hc hfar hbehind => ?_, fun c hc hfar hbehind => ?_⟩
  · rcases hcolumns c hc with ⟨hlast, htable, -⟩ | ⟨-, hold⟩
    · exact htable.trans hlast.symm
    · exact h.table c hold
  · obtain ⟨hne, hnot⟩ := not_or.1 hbehind
    rcases hcolumns c hc with ⟨hlast, -⟩ | ⟨-, hold⟩
    · exact absurd hlast hne
    · exact h.kept c hold hfar hnot
  · rcases hcolumns c hc with ⟨hlast, -, hname⟩ | ⟨hne, hold⟩
    · rw [hname, hlast]
    · exact h.renamed c hold hfar (hbehind.resolve_left hne)

/-- What is renamed stands behind a self join of the table. -/
theorem Named.renameAlias (h : operation.Named s far crossed) (table : TableId) :
    (operation.renameAlias table (selfJoinAlias (s.tableName table))).Named s far
      (insert table crossed) := by
  -- induction on what is named; the steps of paths stay, and only what is read at their ends can change
  induction h with
  | column => exact .column
  | literal => exact .literal
  | bareJoin => exact .bareJoin
  | function _ ih =>
    rw [Operation.renameAlias, Operation.mapAliases, mapAliasesOfAll_eq_map]
    refine .function fun argument hargument => ?_
    obtain ⟨old, hold, rfl⟩ := List.mem_map.1 hargument
    exact ih old hold
  | @join crossed source steps target hend _ ih =>
    have hsteps : steps.map (JoinStep.mapDatabase id) = steps := List.map_id'' (fun _ => rfl) steps
    rw [Operation.renameAlias, Operation.mapAliases, hsteps]
    refine .join (fun last hlast => endNamed_renameAlias (hend last hlast) table) ?_
    rw [Set.insert_union]
    exact ih

section PathEnd

variable {start : TableAlias} {steps : List JoinStep} {last : JoinStep} {join : Join}

/-- A path that ends on a far side gives what is evaluated there the name of the far side. -/
theorem Named.join_of_selfJoin (hlast : steps.getLast? = some last)
    (hjoin : s.join? last.join = some join) (hself : join.selfJoin = true)
    (halias : last.targetAlias = selfJoinAlias (s.tableName last.target))
    (hnamed : operation.Named s far ∅)
    (htable : ∀ c ∈ operation.directColumns, c.tableAlias.table = last.target) :
    (Operation.join start steps
      (some (operation.renameAlias last.target last.targetAlias))).Named s far ∅ := by
  have hrenamed : ∀ c ∈ (operation.renameAlias last.target last.targetAlias).directColumns,
      c.tableAlias.table = last.target ∧ c.tableAlias.name = last.targetAlias := by
    intro c hc
    rw [Operation.renameAlias, directColumns_mapAliases] at hc
    obtain ⟨old, hold, rfl⟩ := List.mem_map.1 hc
    rw [if_pos (htable old hold)]
    exact ⟨htable old hold, rfl⟩
  refine .join (fun step hstep => ?_) ?_
  -- the path itself stands behind no self join, and what is evaluated at its end behind this one
  · obtain rfl : last = step := Option.some.inj (hlast.symm.trans hstep)
    exact ⟨⟨join, hjoin, by rw [hself, if_pos rfl, halias]⟩, fun c hc => (hrenamed c hc).1,
      fun c hc _ _ => (hrenamed c hc).2, fun _ _ _ hmem => absurd hmem (Set.notMem_empty _)⟩
  · have hfar : ∅ ∪ s.farSides steps = insert last.target ∅ := by
      ext table
      simp [Store.mem_farSides_iff hlast hjoin, hself]
    rw [hfar, halias]
    exact hnamed.renameAlias last.target

/-- Behind any other join the tables keep their names. -/
theorem Named.join_of_not_selfJoin (hlast : steps.getLast? = some last)
    (hjoin : s.join? last.join = some join) (hself : join.selfJoin = false)
    (halias : last.targetAlias = s.tableName last.target) (hnamed : operation.Named s far ∅)
    (hdirect : operation.DirectlyNamed s far)
    (htable : ∀ c ∈ operation.directColumns, c.tableAlias.table = last.target) :
    (Operation.join start steps (some operation)).Named s far ∅ := by
  refine .join (fun step hstep => ?_) ?_
  · obtain rfl : last = step := Option.some.inj (hlast.symm.trans hstep)
    refine ⟨⟨join, hjoin, by rw [hself, if_neg Bool.false_ne_true, halias]⟩, htable,
      fun c hc hne _ => ?_, fun _ _ _ hmem => absurd hmem (Set.notMem_empty _)⟩
    rw [hdirect c hc hne, htable c hc, halias]
  · have hfar : ∅ ∪ s.farSides steps = ∅ := by
      ext table
      simp [Store.mem_farSides_iff hlast hjoin, hself]
    rw [hfar]
    exact hnamed

end PathEnd

/-- A part of a named expression is named, too. The self joins that it stands behind are those of the whole
expression, and those of paths that it stands at the end of. -/
theorem Named.exists_of_partOf {part : Operation} (h : operation.Named s far crossed)
    (hpart : part.PartOf operation) : ∃ crossed', part.Named s far crossed' ∧ crossed ⊆ crossed' ∧
      ∀ table ∈ crossed', table ∈ crossed ∨ s.BehindSelfJoin operation part table := by
  induction hpart generalizing crossed with
  | self => exact ⟨crossed, h, Set.Subset.rfl, fun _ => .inl⟩
  | @target source steps target hpart ih =>
    cases h with
    | join _ htarget =>
      obtain ⟨crossed', hnamed, hcrossed, hall⟩ := ih htarget
      refine ⟨crossed', hnamed, Set.subset_union_left.trans hcrossed, fun table htable => ?_⟩
      rcases hall table htable with (hold | hhere) | ⟨source', steps', target', hpath, hrest⟩
      · exact .inl hold
      · exact .inr ⟨source, steps, target, .self, hpart, hhere⟩
      · exact .inr ⟨source', steps', target', .target hpath, hrest⟩
  | argument hargument hpart ih =>
    cases h with
    | function harguments =>
      obtain ⟨crossed', hnamed, hcrossed, hall⟩ := ih (harguments _ hargument)
      refine ⟨crossed', hnamed, hcrossed, fun table htable => (hall table htable).imp_right ?_⟩
      rintro ⟨source', steps', target', hpath, hrest⟩
      exact ⟨source', steps', target', .argument hargument hpath, hrest⟩

/-- An expression that stands behind no self join has the names that its paths tell. -/
theorem Named.endsNamed (h : operation.Named s far ∅) : s.EndsNamed far operation := by
  intro source steps target last hpart hlast
  -- the tables behind which one occurrence of the path stands
  obtain ⟨crossed, hnamed, -, hall⟩ := h.exists_of_partOf hpart
  cases hnamed with
  | join hend _ =>
    have hnamed := hend last hlast
    refine ⟨hnamed.step, hnamed.table, fun c hc hfar hbehind => hnamed.kept c hc hfar fun hcrossed =>
      hbehind ((hall _ hcrossed).resolve_left (Set.notMem_empty _)), fun c hc hfar hbehind => ?_⟩
    -- another occurrence of the path may be the one that stands behind the table
    obtain ⟨source', steps', target', hpath, hwithin, hreached⟩ := hbehind
    obtain ⟨_, houter, -⟩ := h.exists_of_partOf hpath
    cases houter with
    | join _ htarget =>
      obtain ⟨crossed', hinner, hcrossed', -⟩ := htarget.exists_of_partOf hwithin
      cases hinner with
      | join hend' _ => exact (hend' last hlast).renamed c hc hfar (hcrossed' (.inr hreached))

end Operation

/-! ## Names of what is resolved -/

namespace Store

variable {s t : Store}

theorem Before.tableName_eq (h : s.Before t) (id : TableId) : t.tableName id = s.tableName id :=
  h.keeps.sameNames_refl.tableName_eq id

theorem Before.join?_eq_some (h : s.Before t) {id : JoinId} {join : Join}
    (hjoin : s.join? id = some join) : t.join? id = some join := by
  obtain ⟨more, hmore⟩ := h.joins
  obtain ⟨hlt, -⟩ := List.getElem?_eq_some_iff.1 hjoin
  unfold join?
  rw [← hmore]
  exact (List.getElem?_append_left hlt).trans hjoin

/-- The table that a name leads to has this name. -/
theorem Cataloged.tableName_of_findTable? (h : s.Cataloged) {database : DatabaseId}
    {schema name : String} {id : TableId} (hfound : s.findTable? database schema name = some id) :
    s.tableName id = name := by
  obtain ⟨owner, d, hd, hdeclared, -⟩ := exists_declarer_of_findVisible? hfound
  obtain ⟨table, htable, -, -, hname⟩ := (h.finds.table owner d hd _ _ _).1 hdeclared
  rw [tableName, htable]
  exact hname

end Store

namespace Resolver

variable {r : Resolver} {t : Store} {cursor : TableId} {joins : List Source.JoinReference}
  {steps : List JoinStep}

/-- A table that is looked up is known by its own name. -/
theorem name_of_lookupTable (hr : r.store.Cataloged) {database schema : Option Name} {table : Name}
    {found : TableAlias} (h : r.lookupTable database schema table = .ok found) :
    found.name = r.store.tableName found.table := by
  obtain ⟨id, -, hfound⟩ := findTable?_of_lookupTable h
  rw [hr.tableName_of_findTable? hfound]
  unfold lookupTable at h
  obtain ⟨_, -, h⟩ := bind_eq_ok_iff.1 h
  cases schema
  all_goals
    dsimp only at h
    split at h
    · split at h
      · obtain rfl := pure_eq_ok_iff.1 h
        rfl
      · exact absurd h (found_ne_ok _ _ _)
    · exact absurd h (found_ne_ok _ _ _)

/-- Each step that is resolved goes along a join of the store, and names the table that it reaches. -/
theorem names_of_steps (h : (r.steps cursor joins).result = .ok steps) :
    ∀ step ∈ steps, r.store.Names step := by
  induction joins generalizing cursor steps with
  | nil =>
    obtain rfl := Except.ok.inj h
    simp
  | cons reference rest ih =>
    obtain ⟨id, join, database, next, following, hjoin, -, hfollowing, rfl⟩ :=
      steps_cons_eq_ok_iff.1 h
    exact List.forall_mem_cons.2
      ⟨⟨join, (lookupJoin_eq_ok_iff.1 hjoin).2.2, rfl⟩, ih hfollowing⟩

/-- A path whose end is accepted has the names that it tells there, once what is evaluated behind a self join
is renamed. -/
theorem named_join {start : TableAlias} {operation : Operation} (hbefore : r.store.Before t)
    {far : Option TableAlias} (hsteps : (r.steps start.table joins).result = .ok steps)
    (hnamed : operation.Named t far ∅) (hdirect : operation.DirectlyNamed t far)
    (hcheck : r.checkClaimedEnd joins steps (endAlias start steps) operation = .ok ()) :
    (Operation.join start steps (some (r.renameFarSide steps operation))).Named t far ∅ := by
  cases hlast : steps.getLast? with
  | none =>
    have hfar : ∅ ∪ t.farSides steps = ∅ := by simp [Store.farSides, hlast]
    rw [renameFarSide, hlast]
    exact .join (by simp [hlast]) (by rwa [hfar])
  | some last =>
    obtain ⟨join, hjoin, halias⟩ := names_of_steps hsteps last (List.mem_of_getLast? hlast)
    have htable : ∀ c ∈ operation.directColumns, c.tableAlias.table = last.target := by
      have hroots := table_of_checkClaimedEnd hcheck (length_of_steps hsteps)
        (by rintro rfl; cases hlast)
      rw [stepsEnd, hlast] at hroots
      exact fun c hc => hroots _ (List.mem_eraseDups.2 (operation.direct_roots c hc))
    rw [← hbefore.tableName_eq] at halias
    rw [renameFarSide, hlast]
    dsimp only
    rw [hjoin]
    dsimp only
    cases hself : join.selfJoin with
    | true =>
      rw [hself, if_pos rfl] at halias
      exact .join_of_selfJoin hlast (hbefore.join?_eq_some hjoin) hself halias hnamed htable
    | false =>
      rw [hself, if_neg Bool.false_ne_true] at halias
      exact .join_of_not_selfJoin hlast (hbefore.join?_eq_some hjoin) hself halias hnamed hdirect htable

/-- Whatever is resolved against a store in the making is named as the store that is to come tells. -/
theorem named_comesAbout (hr : r.store.Cataloged) (hbefore : r.store.Before t) :
    r.ComesAbout fun operation => operation.Named t r.selfJoinTarget ∅ ∧
      operation.DirectlyNamed t r.selfJoinTarget where
  column reference column hcolumn := by
    refine ⟨.column, fun c hc _ => ?_⟩
    obtain rfl := List.mem_singleton.1 hc
    rw [hbefore.tableName_eq]
    exact name_of_lookupTable hr (lookupTable_of_column hcolumn)
  targetColumn far name column hfar hcolumn := by
    refine ⟨.column, fun c hc hne => ?_⟩
    obtain rfl := List.mem_singleton.1 hc
    rw [tableAlias_of_columnOf hcolumn, hfar] at hne
    exact absurd rfl hne
  literal value := ⟨.literal, fun c hc => absurd hc List.not_mem_nil⟩
  function name arguments harguments := by
    refine ⟨.function fun argument hargument => (harguments argument hargument).1, fun c hc => ?_⟩
    obtain ⟨argument, hargument, hc⟩ := Operation.mem_directColumnsOfAll.1 hc
    exact (harguments argument hargument).2 c hc
  bareJoin start steps := ⟨.bareJoin, fun c hc => absurd hc List.not_mem_nil⟩
  join start joins steps operation hsteps hoperation hcheck :=
    ⟨named_join hbefore hsteps hoperation.1 hoperation.2 hcheck, fun c hc => absurd hc List.not_mem_nil⟩

/-- An expression that resolves has the names of its paths. -/
theorem endsNamed_of_resolve (hr : r.store.Cataloged) (hbefore : r.store.Before t)
    {source : Option TableAlias} {expression : Source.Operation} {operation : Operation}
    (h : (r.resolve source expression).result = .ok operation) :
    t.EndsNamed r.selfJoinTarget operation :=
  ((named_comesAbout hr hbefore).resolve source expression operation h).1.endsNamed

end Resolver

/-! ## Names in a store that is built -/

namespace Store

variable {s : Store}

/-- The far side that the condition of a join can name. -/
def farSideOf (s : Store) (j : Join) : Option TableAlias :=
  if j.selfJoin then j.tables.head?.map (s.farSide j.database) else none

/-- In a store that is built, whatever is resolved has the names of its paths at their ends, and so have the
conditions of joins and filters and the columns and groups of views. A path that stands behind a self join of
the table that it ends on has the name of the far side there, also when its own last join is another one. -/
theorem terminals_named {settings : ResolutionSettings} {sources : List Source.Database}
    (hbuild : build settings sources = .ok s) :
    (∀ r : Resolver, r.store = s → ∀ start path chain,
      (r.joinPath start path).result = .ok chain → s.EndsNamed r.selfJoinTarget chain.toOperation) ∧
    (∀ j ∈ s.joins, s.EndsNamed (s.farSideOf j) j.condition) ∧
    (∀ f ∈ s.filters, s.EndsNamed none f.condition) ∧
    ∀ table ∈ s.tables, ∀ v, table.view = some v →
      (∀ c ∈ v.columns, s.EndsNamed none c.operation) ∧
      ∀ operation ∈ v.groupBy, s.EndsNamed none operation := by
  have htraced := traced_of_build hbuild
  refine ⟨?_, fun j hj => ?_, fun f hf => ?_, fun table htable v hv => ?_⟩
  · rintro r rfl start path chain hchain
    exact ((Resolver.named_comesAbout (cataloged_of_build hbuild) (.refl _)).resolvePath start
      path.joins path.target chain hchain).1.endsNamed
  · obtain ⟨before, hcataloged, hbefore, database, source, hresolved⟩ := htraced.joins j hj
    obtain ⟨far, hfar, hcondition⟩ := hresolved.condition
    have hsame : s.farSideOf j = far := by
      unfold farSideOf
      rcases hfar with ⟨hself, -, rfl⟩ | ⟨hself, table, htables, rfl⟩
      · rw [hself, if_neg Bool.false_ne_true]
      · rw [hself, if_pos rfl, htables, hresolved.owner]
        simp [farSide, hbefore.tableName_eq]
    rw [hsame]
    exact Resolver.endsNamed_of_resolve hcataloged hbefore hcondition
  · obtain ⟨before, hcataloged, hbefore, database, source, hresolved⟩ := htraced.filters f hf
    exact Resolver.endsNamed_of_resolve hcataloged hbefore hresolved.condition
  · obtain ⟨before, hcataloged, hbefore, source, hview⟩ := htraced.views table htable v hv
    simp only [Resolver.view, Recorded.result_bind_eq_ok_iff, Recorded.result_pure] at hview
    obtain ⟨main, -, columns, hcolumns, filter, -, groupBy, hgroupBy, hview⟩ := hview
    obtain rfl := Except.ok.inj hview
    refine ⟨fun c hc => ?_, fun operation hoperation => ?_⟩
    · obtain ⟨written, -, hcolumn⟩ :=
        exists_of_mem_right (Recorded.result_forAll_eq_ok_iff.1 hcolumns) hc
      exact Resolver.endsNamed_of_resolve hcataloged hbefore
        (Resolver.exists_of_viewColumn hcolumn).1
    · obtain ⟨written, -, hgroup⟩ :=
        exists_of_mem_right (Recorded.result_forAll_eq_ok_iff.1 hgroupBy) hoperation
      exact Resolver.endsNamed_of_resolve hcataloged hbefore (Resolver.exists_of_viewGroupBy hgroup).1

/-- The way to the firm of the manager goes on behind a self join, and ends under the name of the firm. -/
theorem terminals_named_of_managers :
    ∃ s chain, build {} [employeeTables] = .ok s ∧
      ((s.resolverIn "default" ⟨0⟩).joinPath none Resolver.managersFirm).result = .ok chain ∧
      s.EndsNamed none chain.toOperation := by
  obtain ⟨s, chain, hbuild, hchain, -⟩ := Resolver.exists_chain_of_managers
  exact ⟨s, chain, hbuild, hchain,
    (terminals_named hbuild).1 _ rfl none Resolver.managersFirm chain hchain⟩

/-- From a person to the manager, and from there by way of the firm to a person whom it employs. -/
def managersColleagues : Source.JoinPath where
  joins := [{ name := ⟨"manager", {}⟩ }]
  target := some (.joinPath [{ name := ⟨"employer", {}⟩ }, { name := ⟨"employer", {}⟩ }]
    (some (exampleColumn "PERSON" "ID")))

/-- The person that the inner path ends on is known by the name of the manager, from whom the path
starts. -/
theorem not_all_terminals_named :
    ¬ ∀ (settings : ResolutionSettings) (sources : List Source.Database) (s : Store),
      build settings sources = .ok s → ∀ (defaultSchema : String) (database : DatabaseId)
      (start : Option TableAlias) (path : Source.JoinPath) (chain : JoinChain),
      ((s.resolverIn defaultSchema database).joinPath start path).result = .ok chain →
      ∀ source steps target last,
        (Operation.join source steps (some target)).PartOf chain.toOperation →
        steps.getLast? = some last → ∀ c ∈ target.directColumns,
          c.tableAlias.name = last.targetAlias := by
  intro h
  obtain ⟨s, hbuild, haccepted⟩ : ∃ s, build {} [employeeTables] = .ok s ∧
      (((s.resolverIn "default" ⟨0⟩).joinPath (some ⟨"PERSON", ⟨0⟩, ⟨0⟩⟩)
          managersColleagues).result.map fun chain => do
        let inner ← (← chain.target).chain?
        let target ← inner.target
        return ((← inner.steps.getLast?).targetAlias, ← target.directColumns.head?)) =
      .ok (some ("PERSON", ⟨⟨"t_PERSON", ⟨0⟩, ⟨0⟩⟩, "ID"⟩)) :=
    Resolver.exists_of_bind_toOption (by decide +kernel)
  obtain ⟨⟨start, outer, _⟩, hchain, hinner⟩ := map_eq_ok_iff.1 haccepted
  simp only [bind, pure, Option.bind_eq_some_iff] at hinner
  obtain ⟨path, rfl, ⟨source, steps, _⟩, hpath, target, rfl, last, hlast, c, hc, hends⟩ := hinner
  obtain rfl := Operation.chain?_eq_some_iff.1 hpath
  obtain ⟨hlastAlias, rfl⟩ := Prod.mk.inj (Option.some.inj hends)
  have hname : "t_PERSON" = last.targetAlias := h {} [employeeTables] s hbuild "default" ⟨0⟩ _ _ _
    hchain source steps target last (.target .self) hlast _ (List.mem_of_head? hc)
  rw [hlastAlias] at hname
  exact absurd hname (by decide)

end Store

end ObjectRelational
