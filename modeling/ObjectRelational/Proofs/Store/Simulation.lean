import ObjectRelational.Proofs.Store.Correspondence
import ObjectRelational.Proofs.Store.Resolution

/-!
# Resolving in stores with the same names

An expression resolves to the same in two stores with the same names, up to the handles, when the joins
that it goes along and the tables whose columns it reads are the same.

* `Source.Operation.joinReferences`, `Source.Operation.columnReferences`: what an expression refers to.
* `Resolver.Alike`: two resolvers over stores with the same names.
* `Resolver.FindsAlike`, `Resolver.ReadsAlike`: a join and a column that are the same for both.
* `Resolver.Alike.resolve_eq`: expressions resolve alike.
-/

namespace ObjectRelational

namespace Source.Operation

mutual

/-- The joins that an expression goes along, at any depth. -/
def joinReferences : Operation → List JoinReference
  | joinPath joins target => joins ++ joinReferencesOfTarget target
  | function _ arguments => joinReferencesOfAll arguments
  | _ => []

/-- The joins that the expression at the end of a path goes along. -/
def joinReferencesOfTarget : Option Operation → List JoinReference
  | none => []
  | some target => joinReferences target

/-- The joins that expressions go along. -/
def joinReferencesOfAll : List Operation → List JoinReference
  | [] => []
  | argument :: rest => joinReferences argument ++ joinReferencesOfAll rest

end

mutual

/-- The columns that an expression reads, at any depth. -/
def columnReferences : Operation → List ColumnReference
  | column reference => [reference]
  | joinPath _ target => columnReferencesOfTarget target
  | function _ arguments => columnReferencesOfAll arguments
  | _ => []

/-- The columns that the expression at the end of a path reads. -/
def columnReferencesOfTarget : Option Operation → List ColumnReference
  | none => []
  | some target => columnReferences target

/-- The columns that expressions read. -/
def columnReferencesOfAll : List Operation → List ColumnReference
  | [] => []
  | argument :: rest => columnReferences argument ++ columnReferencesOfAll rest

end

end Source.Operation

/-- The columns of a table are the same in two stores. -/
def Store.SameColumns (ρ : Renumbering) (s s' : Store) (table : TableId) : Prop :=
  ∀ name, ((s'.table? (ρ.table table)).bind fun t => t.column? name) =
    ((s.table? table).bind fun t => t.column? name).map (Column.renumber ρ)

theorem Store.SameNames.checkEnd_eq {ρ : Renumbering} {s s' : Store} (h : SameNames ρ s s')
    (steps : List JoinStep) (claimed : TableAlias) (span : Span) :
    s'.checkEnd (steps.map (JoinStep.renumber ρ)) (claimed.renumber ρ) span =
      s.checkEnd steps claimed span := by
  unfold checkEnd
  rw [List.getLast?_map]
  cases steps.getLast? with
  | none => rfl
  | some last =>
    simp only [Option.map_some, JoinStep.renumber, TableAlias.renumber, Renumbering.table_inj,
      h.describe_eq, Store.describeAlias]

namespace Resolver

/-- Two resolvers over stores with the same names, in the same database. -/
structure Alike (ρ : Renumbering) (r r' : Resolver) : Prop where
  names : r.store.SameNames ρ r'.store
  database : r'.database = ρ.database r.database
  defaultSchema : r'.defaultSchema = r.defaultSchema
  selfJoinTarget : r'.selfJoinTarget = r.selfJoinTarget.map (TableAlias.renumber ρ)
  targetColumns : ∀ a, r.selfJoinTarget = some a → r.store.SameColumns ρ r'.store a.table

/-- A join of a path is the same for two resolvers. -/
def FindsAlike (ρ : Renumbering) (r r' : Resolver) (reference : Source.JoinReference) : Prop :=
  ∀ id, r.lookupAddressed reference.database = .ok id →
    r'.store.findJoin? (ρ.database id) reference.name.value =
        (r.store.findJoin? id reference.name.value).map ρ.join ∧
      ∀ join, r.store.findJoin? id reference.name.value = some join →
        r'.store.join? (ρ.join join) = (r.store.join? join).map (Join.renumber ρ)

/-- The table of a column has the same columns for two resolvers. -/
def ReadsAlike (ρ : Renumbering) (r r' : Resolver) (reference : Source.ColumnReference) : Prop :=
  ∀ found, r.lookupTable reference.database reference.schema reference.table = .ok found →
    r.store.SameColumns ρ r'.store found.table

namespace Alike

variable {ρ : Renumbering} {r r' : Resolver}

/-! ## Lookups -/

theorem lookupDatabase_eq (h : Alike ρ r r') (name : Name) :
    r'.lookupDatabase name = ρ.database <$> r.lookupDatabase name := by
  unfold lookupDatabase
  rw [h.names.databaseNamed]
  cases r.store.databaseNamed? name.value <;> rfl

theorem lookupAddressed_eq (h : Alike ρ r r') (marker : Option Name) :
    r'.lookupAddressed marker = ρ.database <$> r.lookupAddressed marker := by
  cases marker with
  | none => exact congrArg Except.ok h.database
  | some name => exact h.lookupDatabase_eq name

theorem lookupTable_eq (h : Alike ρ r r') (database schema : Option Name) (table : Name) :
    r'.lookupTable database schema table =
      TableAlias.renumber ρ <$> r.lookupTable database schema table := by
  unfold lookupTable
  refine bind_eq_map (h.lookupAddressed_eq database) fun id _ => ?_
  cases schema
  all_goals
    simp only [h.defaultSchema, h.names.hasSchema_eq, h.names.findTable?_eq,
      h.names.databaseName_eq]
    split
    · cases r.store.findTable? id _ table.value <;> rfl
    · rfl

theorem lookupJoin_eq (h : Alike ρ r r') {reference : Source.JoinReference}
    (hfinds : FindsAlike ρ r r' reference) :
    r'.lookupJoin reference =
      (fun found => (ρ.join found.1, found.2.1.renumber ρ, ρ.database found.2.2)) <$>
        r.lookupJoin reference := by
  unfold lookupJoin
  refine bind_eq_map (h.lookupAddressed_eq reference.database) fun id hid => ?_
  obtain ⟨hfound, hjoin⟩ := hfinds id hid
  rw [hfound, h.names.databaseName_eq]
  cases hname : r.store.findJoin? id reference.name.value with
  | none => rfl
  | some join =>
    simp only [Option.map_some, hjoin join hname]
    cases r.store.join? join <;> rfl

/-! ## Where expressions start -/

theorem walkBack_eq (h : Alike ρ r r') {joins : List Source.JoinReference}
    (hfinds : ∀ reference ∈ joins, FindsAlike ρ r r' reference) (cursor : TableId) :
    r'.walkBack (ρ.table cursor) joins = ρ.table <$> r.walkBack cursor joins := by
  induction joins generalizing cursor with
  | nil => rfl
  | cons reference rest ih =>
    unfold walkBack
    refine bind_eq_map (h.lookupJoin_eq (hfinds reference List.mem_cons_self)) fun found _ => ?_
    obtain ⟨_, join, database⟩ := found
    simp only [Join.otherSide?_renumber, h.names.describe_eq]
    cases join.otherSide? cursor with
    | none => rfl
    | some before => exact ih (fun r hr => hfinds r (List.mem_cons_of_mem _ hr)) before

theorem sourceFromEnd_eq (h : Alike ρ r r') {joins : List Source.JoinReference}
    (hfinds : ∀ reference ∈ joins, FindsAlike ρ r r' reference) (terminal : Option TableAlias) :
    r'.sourceFromEnd joins (terminal.map (TableAlias.renumber ρ)) =
      Option.map (TableAlias.renumber ρ) <$> r.sourceFromEnd joins terminal := by
  cases terminal with
  | none => rfl
  | some terminal =>
    have hback := h.walkBack_eq (fun reference hreference =>
      hfinds reference (List.mem_reverse.1 hreference)) terminal.table
    unfold sourceFromEnd
    refine bind_eq_map hback fun cursor _ => ?_
    cases joins.head? with
    | none => simp [TableAlias.renumber, h.names.tableName_eq, bind, Except.bind, pure, Except.pure,
        Functor.map, Except.map]
    | some first =>
      refine bind_eq_map (h.lookupAddressed_eq first.database) fun database _ => ?_
      simp [TableAlias.renumber, h.names.tableName_eq]

mutual

theorem sources_eq (h : Alike ρ r r') : (operation : Source.Operation) →
    (∀ reference ∈ operation.joinReferences, FindsAlike ρ r r' reference) →
      r'.sources operation = List.map (TableAlias.renumber ρ) <$> r.sources operation
  | .column reference => by
    intro _
    unfold sources
    refine bind_eq_map (h.lookupTable_eq _ _ _) fun found _ => ?_
    simp
  | .joinPath joins target => by
    intro hfinds
    simp only [Source.Operation.joinReferences, List.forall_mem_append] at hfinds
    unfold sources
    refine bind_eq_map (sourceOfPath_eq h joins target hfinds.1 hfinds.2) fun source _ => ?_
    cases source <;> simp
  | .function _ arguments => by
    intro hfinds
    simp only [Source.Operation.joinReferences] at hfinds
    unfold sources
    exact sourcesOfAll_eq h arguments hfinds
  | .targetColumn _ => by
    intro _
    unfold sources
    rfl
  | .literal _ => by
    intro _
    unfold sources
    rfl

theorem sourceOfPath_eq (h : Alike ρ r r') (joins : List Source.JoinReference) :
    (target : Option Source.Operation) →
    (∀ reference ∈ joins, FindsAlike ρ r r' reference) →
    (∀ reference ∈ Source.Operation.joinReferencesOfTarget target, FindsAlike ρ r r' reference) →
      r'.sourceOfPath joins target =
        Option.map (TableAlias.renumber ρ) <$> r.sourceOfPath joins target
  | none => by
    intro _ _
    unfold sourceOfPath
    rfl
  | some target => by
    intro hjoins hfinds
    simp only [Source.Operation.joinReferencesOfTarget] at hfinds
    unfold sourceOfPath
    refine bind_eq_map (sources_eq h target hfinds) fun found _ => ?_
    rw [List.head?_map]
    exact h.sourceFromEnd_eq hjoins found.head?

theorem sourcesOfAll_eq (h : Alike ρ r r') : (l : List Source.Operation) →
    (∀ reference ∈ Source.Operation.joinReferencesOfAll l, FindsAlike ρ r r' reference) →
      r'.sourcesOfAll l = List.map (TableAlias.renumber ρ) <$> r.sourcesOfAll l
  | [] => by
    intro _
    unfold sourcesOfAll
    rfl
  | argument :: rest => by
    intro hfinds
    simp only [Source.Operation.joinReferencesOfAll, List.forall_mem_append] at hfinds
    unfold sourcesOfAll
    refine bind_eq_map (sources_eq h argument hfinds.1) fun first _ => ?_
    refine bind_eq_map (sourcesOfAll_eq h rest hfinds.2) fun others _ => ?_
    simp

end

theorem inferRoots_eq (h : Alike ρ r r') {operation : Source.Operation}
    (hfinds : ∀ reference ∈ operation.joinReferences, FindsAlike ρ r r' reference) :
    r'.inferRoots operation = List.map (TableAlias.renumber ρ) <$> r.inferRoots operation := by
  unfold inferRoots
  rw [sources_eq h operation hfinds]
  cases r.sources operation with
  | error failure => rfl
  | ok found => exact congrArg Except.ok (eraseDups_map_of_injective TableAlias.renumber_injective _)

theorem inferSource_eq (h : Alike ρ r r') {path : Source.JoinPath}
    (hjoins : ∀ reference ∈ path.joins, FindsAlike ρ r r' reference)
    (hfinds : ∀ reference ∈ Source.Operation.joinReferencesOfTarget path.target,
      FindsAlike ρ r r' reference) :
    r'.inferSource path = Option.map (TableAlias.renumber ρ) <$> r.inferSource path :=
  sourceOfPath_eq h path.joins path.target hjoins hfinds

theorem tablesOf_eq (h : Alike ρ r r') (references : List Source.ColumnReference) :
    r'.tablesOf references = List.map ρ.table <$> r.tablesOf references := by
  induction references with
  | nil => rfl
  | cons reference rest ih =>
    unfold tablesOf
    refine bind_eq_map (h.lookupTable_eq _ _ _) fun found _ => ?_
    refine bind_eq_map ih fun others _ => ?_
    simp [TableAlias.renumber]

theorem referencedTables_eq (h : Alike ρ r r') (operation : Source.Operation) :
    r'.referencedTables operation = List.map ρ.table <$> r.referencedTables operation := by
  unfold referencedTables
  rw [h.tablesOf_eq]
  cases r.tablesOf operation.directColumns with
  | error failure => rfl
  | ok found => exact congrArg Except.ok (eraseDups_map_of_injective Renumbering.table_injective _)

/-! ## Names -/

theorem addressed_eq (h : Alike ρ r r') (marker : Option Name) :
    r'.addressed marker = ρ.database <$> r.addressed marker := by
  have hlookup : (monadLift (r'.lookupAddressed marker) : Recorded DatabaseId) =
      ρ.database <$> (monadLift (r.lookupAddressed marker) : Recorded DatabaseId) := by
    rw [h.lookupAddressed_eq, Recorded.monadLift_map]
  unfold addressed
  refine Recorded.bind_eq_map hlookup fun id _ => ?_
  cases marker <;> simp

theorem table_eq (h : Alike ρ r r') (database schema : Option Name) (table : Name) :
    r'.table database schema table = TableAlias.renumber ρ <$> r.table database schema table := by
  have hlookup : (monadLift (r'.lookupTable database schema table) : Recorded TableAlias) =
      TableAlias.renumber ρ <$>
        (monadLift (r.lookupTable database schema table) : Recorded TableAlias) := by
    rw [h.lookupTable_eq, Recorded.monadLift_map]
  unfold Resolver.table
  refine Recorded.bind_eq_map hlookup fun found _ => ?_
  refine Recorded.bind_eq_map (h.addressed_eq database) fun _ _ => ?_
  simp [TableAlias.renumber, h.names.tableSymbol_eq]

theorem columnOf_eq (h : Alike ρ r r') {owner : TableAlias}
    (hcolumns : r.store.SameColumns ρ r'.store owner.table)
    (column : Name) :
    r'.columnOf (owner.renumber ρ) column = ColumnRef.renumber ρ <$> r.columnOf owner column := by
  unfold columnOf
  simp only [TableAlias.renumber, hcolumns column.value, Option.isSome_map, h.names.columnSymbol_eq,
    h.names.tableName_eq]
  split
  · simp [ColumnRef.renumber, TableAlias.renumber]
  · rfl

theorem column_eq (h : Alike ρ r r') {reference : Source.ColumnReference}
    (hreads : ReadsAlike ρ r r' reference) :
    r'.column reference = ColumnRef.renumber ρ <$> r.column reference := by
  unfold Resolver.column
  refine Recorded.bind_eq_map (h.table_eq _ _ _) fun owner howner => ?_
  have hlookup : r.lookupTable reference.database reference.schema reference.table = .ok owner := by
    simp only [Resolver.table, Recorded.result_bind_eq_ok_iff, Recorded.result_pure] at howner
    obtain ⟨found, hfound, _, -, _, -, hsame⟩ := howner
    obtain rfl := Except.ok.inj hsame
    exact hfound
  exact h.columnOf_eq (hreads owner hlookup) reference.column

/-! ## Paths -/

theorem steps_eq (h : Alike ρ r r') {joins : List Source.JoinReference}
    (hfinds : ∀ reference ∈ joins, FindsAlike ρ r r' reference) (cursor : TableId) :
    r'.steps (ρ.table cursor) joins = List.map (JoinStep.renumber ρ) <$> r.steps cursor joins := by
  induction joins generalizing cursor with
  | nil => rfl
  | cons reference rest ih =>
    obtain ⟨hfirst, hrest⟩ := List.forall_mem_cons.1 hfinds
    unfold steps
    rw [h.lookupJoin_eq hfirst]
    refine Recorded.bind_eq_map (Recorded.monadLift_map _ _) fun found _ => ?_
    obtain ⟨id, join, database⟩ := found
    refine Recorded.bind_eq_map (h.addressed_eq reference.database) fun _ _ => ?_
    have howner : r'.store.databaseName (join.renumber ρ).database =
        r.store.databaseName join.database := h.names.databaseName_eq join.database
    rw [howner]
    refine Recorded.bind_congr_map fun _ _ => ?_
    simp only [Join.otherSide?_renumber, h.names.describe_eq]
    cases join.otherSide? cursor with
    | none => rfl
    | some next =>
      refine Recorded.bind_eq_map (ih hrest next) fun following _ => ?_
      simp [stepAlong, JoinStep.renumber, Join.renumber, h.names.tableName_eq]

/-- The joins that a path has gone along are the same. -/
theorem join?_of_steps {joins : List Source.JoinReference}
    (hfinds : ∀ reference ∈ joins, FindsAlike ρ r r' reference) {cursor : TableId}
    {steps : List JoinStep} (hsteps : (r.steps cursor joins).result = .ok steps) :
    ∀ step ∈ steps,
      r'.store.join? (ρ.join step.join) = (r.store.join? step.join).map (Join.renumber ρ) := by
  induction joins generalizing cursor steps with
  | nil =>
    obtain rfl := Except.ok.inj hsteps
    simp
  | cons reference rest ih =>
    obtain ⟨hfirst, hrest⟩ := List.forall_mem_cons.1 hfinds
    unfold Resolver.steps at hsteps
    simp only [Recorded.result_bind_eq_ok_iff, Recorded.result_monadLift] at hsteps
    obtain ⟨⟨join, found, database⟩, hjoin, _, -, _, -, hsteps⟩ := hsteps
    dsimp only at hsteps
    split at hsteps
    · exact absurd hsteps (found_ne_ok _ _ _)
    · simp only [Recorded.result_bind_eq_ok_iff, Recorded.result_pure] at hsteps
      obtain ⟨following, hfollowing, hsteps⟩ := hsteps
      obtain rfl := Except.ok.inj hsteps
      refine List.forall_mem_cons.2 ⟨?_, ih hrest hfollowing⟩
      obtain ⟨hid, hname, -⟩ := lookupJoin_eq_ok_iff.1 hjoin
      exact (hfirst database hid).2 join hname

theorem renameFarSide_eq {steps : List JoinStep}
    (hsteps : ∀ step ∈ steps,
      r'.store.join? (ρ.join step.join) = (r.store.join? step.join).map (Join.renumber ρ))
    (operation : Operation) :
    r'.renameFarSide (steps.map (JoinStep.renumber ρ)) (operation.renumber ρ) =
      (r.renameFarSide steps operation).renumber ρ := by
  unfold renameFarSide
  rw [List.getLast?_map]
  cases hlast : steps.getLast? with
  | none => rfl
  | some step =>
    have hjoin : r'.store.join? (step.renumber ρ).join =
        (r.store.join? step.join).map (Join.renumber ρ) :=
      hsteps step (List.mem_of_getLast? hlast)
    simp only [Option.map_some, hjoin]
    cases r.store.join? step.join with
    | none => rfl
    | some join =>
      simp only [Option.map_some, Join.renumber]
      split
      · exact Operation.renameAlias_renumber step.target step.targetAlias operation
      · rfl

theorem checkClaimedEnd_eq (h : Alike ρ r r') (joins : List Source.JoinReference)
    (steps : List JoinStep) (reached : TableAlias) (operation : Operation) :
    r'.checkClaimedEnd joins (steps.map (JoinStep.renumber ρ)) (reached.renumber ρ)
        (operation.renumber ρ) =
      r.checkClaimedEnd joins steps reached operation := by
  have hclaimed : ((operation.renumber ρ).rootAliases.find? fun a =>
      a.table ≠ (reached.renumber ρ).table) =
      (operation.rootAliases.find? fun a => a.table ≠ reached.table).map (TableAlias.renumber ρ) := by
    rw [Operation.rootAliases_renumber, List.find?_map]
    congr 1
    simp only [Function.comp_def, TableAlias.renumber, ne_eq, Renumbering.table_inj]
  unfold checkClaimedEnd
  rw [hclaimed]
  cases operation.rootAliases.find? fun a => a.table ≠ reached.table with
  | none => rfl
  | some claimed =>
    cases joins.getLast? with
    | none => rfl
    | some last => exact h.names.checkEnd_eq steps claimed last.name.span

theorem startOf_eq (h : Alike ρ r r') (path : Source.JoinPath)
    (hjoins : ∀ reference ∈ path.joins, FindsAlike ρ r r' reference)
    (hfinds : ∀ reference ∈ Source.Operation.joinReferencesOfTarget path.target,
      FindsAlike ρ r r' reference) (source : Option TableAlias) :
    r'.startOf path (source.map (TableAlias.renumber ρ)) =
      TableAlias.renumber ρ <$> r.startOf path source := by
  cases source with
  | some source => rfl
  | none =>
    unfold startOf
    refine bind_eq_map (h.inferSource_eq hjoins hfinds) fun start _ => ?_
    cases start with
    | some source => rfl
    | none => cases path.joins.head? <;> rfl

/-! ## Expressions -/

mutual

theorem resolve_eq (h : Alike ρ r r') : (operation : Source.Operation) →
    (∀ reference ∈ operation.joinReferences, FindsAlike ρ r r' reference) →
    (∀ reference ∈ operation.columnReferences, ReadsAlike ρ r r' reference) →
    ∀ source : Option TableAlias, r'.resolve (source.map (TableAlias.renumber ρ)) operation =
      Operation.renumber ρ <$> r.resolve source operation
  | .column reference => by
    intro _ hreads source
    unfold resolve
    have hcolumn := h.column_eq (hreads reference (by simp [Source.Operation.columnReferences]))
    refine Recorded.bind_eq_map hcolumn fun found _ => ?_
    simp [Operation.renumber]
  | .targetColumn column => by
    intro _ _ source
    unfold resolve
    rw [h.selfJoinTarget]
    cases htarget : r.selfJoinTarget with
    | none => rfl
    | some target =>
      have hcolumn := h.columnOf_eq (h.targetColumns target htarget) column
      refine Recorded.bind_eq_map hcolumn fun found _ => ?_
      simp [Operation.renumber]
  | .joinPath joins target => by
    intro hfinds hreads source
    simp only [Source.Operation.joinReferences, List.forall_mem_append] at hfinds
    simp only [Source.Operation.columnReferences] at hreads
    unfold resolve
    have hpath := resolvePath_eq h joins target hfinds.1 hfinds.2 hreads source
    refine Recorded.bind_eq_map hpath fun chain _ => ?_
    simp [JoinChain.toOperation, JoinChain.renumber, Operation.renumber,
      Operation.renumberTarget_eq_map]
  | .literal value => by
    intro _ _ source
    unfold resolve
    simp [Operation.renumber]
  | .function name arguments => by
    intro hfinds hreads source
    simp only [Source.Operation.joinReferences] at hfinds
    simp only [Source.Operation.columnReferences] at hreads
    unfold resolve
    refine Recorded.bind_eq_map (resolveAll_eq h arguments hfinds hreads source) fun resolved _ => ?_
    simp [Operation.renumber, Operation.renumberAll_eq_map]

theorem resolvePath_eq (h : Alike ρ r r') (joins : List Source.JoinReference) :
    (target : Option Source.Operation) →
    (∀ reference ∈ joins, FindsAlike ρ r r' reference) →
    (∀ reference ∈ Source.Operation.joinReferencesOfTarget target, FindsAlike ρ r r' reference) →
    (∀ reference ∈ Source.Operation.columnReferencesOfTarget target, ReadsAlike ρ r r' reference) →
    ∀ source : Option TableAlias, r'.resolvePath (source.map (TableAlias.renumber ρ)) joins target =
      JoinChain.renumber ρ <$> r.resolvePath source joins target
  | none => by
    intro hjoins hfinds _ source
    unfold resolvePath
    rw [h.startOf_eq ⟨joins, none⟩ hjoins hfinds]
    refine Recorded.bind_eq_map (Recorded.monadLift_map _ _) fun start _ => ?_
    refine Recorded.bind_eq_map (h.steps_eq hjoins start.table) fun steps _ => ?_
    simp [JoinChain.renumber]
  | some target => by
    intro hjoins hfinds hreads source
    unfold resolvePath
    rw [h.startOf_eq ⟨joins, some target⟩ hjoins hfinds]
    simp only [Source.Operation.joinReferencesOfTarget] at hfinds
    simp only [Source.Operation.columnReferencesOfTarget] at hreads
    refine Recorded.bind_eq_map (Recorded.monadLift_map _ _) fun start _ => ?_
    refine Recorded.bind_eq_map (h.steps_eq hjoins start.table) fun steps hsteps => ?_
    -- the target is resolved where the steps end
    have htarget := resolve_eq h target hfinds hreads (some (endAlias start steps))
    dsimp only
    rw [endAlias_renumber]
    refine Recorded.bind_eq_map htarget fun operation _ => ?_
    rw [h.checkClaimedEnd_eq]
    refine Recorded.bind_congr_map fun _ _ => ?_
    simp [JoinChain.renumber, renameFarSide_eq (join?_of_steps hjoins hsteps) operation]

theorem resolveAll_eq (h : Alike ρ r r') : (l : List Source.Operation) →
    (∀ reference ∈ Source.Operation.joinReferencesOfAll l, FindsAlike ρ r r' reference) →
    (∀ reference ∈ Source.Operation.columnReferencesOfAll l, ReadsAlike ρ r r' reference) →
    ∀ source : Option TableAlias, r'.resolveAll (source.map (TableAlias.renumber ρ)) l =
      List.map (Operation.renumber ρ) <$> r.resolveAll source l
  | [] => by
    intro _ _ source
    unfold resolveAll
    simp
  | argument :: rest => by
    intro hfinds hreads source
    simp only [Source.Operation.joinReferencesOfAll, List.forall_mem_append] at hfinds
    simp only [Source.Operation.columnReferencesOfAll, List.forall_mem_append] at hreads
    unfold resolveAll
    have hfirst := resolve_eq h argument hfinds.1 hreads.1 source
    have hothers := resolveAll_eq h rest hfinds.2 hreads.2 source
    refine Recorded.bind_eq_map hfirst fun first _ => ?_
    refine Recorded.bind_eq_map hothers fun others _ => ?_
    simp

end

end Alike

end Resolver

end ObjectRelational
