import ObjectRelational.Proofs.Store.Resolution
import ObjectRelational.Store.Build

/-!
# Stores are closed

A build goes in phases, each of which refers to what the phases before it have registered. None takes
anything away: elements are added at the end, so that handles stay valid, and the columns of a view are
added to a table that had none.

* `Store.Extends`: a closed store that has all that another one has.
* `Store.extends_addTable`, `Store.extends_addJoin` and their companions: each step of a build extends
  the store.
* `Store.Awaits`: views whose definitions are still to be resolved. `Store.extends_defineViews`: they
  are.
* `Store.closed_of_build`: a store that is built is closed.
-/

namespace ObjectRelational.Store

variable {s s' s'' : Store} {defaultSchema : String} {database : DatabaseId} {owner : Name}

/-! ## Extensions -/

/-- A closed store that has all that another one has. -/
structure Extends (s s' : Store) : Prop where
  closed : s'.Closed
  grows : s.Grows s'

theorem Closed.extends_self (h : s.Closed) : s.Extends s := ⟨h, .refl s⟩

theorem Extends.trans (h : s.Extends s') (h' : s'.Extends s'') : s.Extends s'' :=
  ⟨h'.closed, h.grows.trans h'.grows⟩

/-- A store grows when its lists do, and none of its tables loses a column. -/
theorem grows_of_lists (hdatabases : s.databases.length ≤ s'.databases.length)
    (htables : ∀ id t, s.table? id = some t → ∃ t', s'.table? id = some t' ∧
      ∀ name, (t.column? name).isSome → (t'.column? name).isSome)
    (hjoins : s.joins <+: s'.joins) (hfilters : s.filters <+: s'.filters) : s.Grows s' where
  database h := Nat.lt_of_lt_of_le h hdatabases
  table {id} h := by
    obtain ⟨t', ht', -⟩ := htables id _ (List.getElem?_eq_getElem h)
    exact (hasTable_of_table? ht').1
  join h := Nat.lt_of_lt_of_le h hjoins.length_le
  filter h := Nat.lt_of_lt_of_le h hfilters.length_le
  column := by
    rintro id name ⟨t, ht, hcolumn⟩
    obtain ⟨t', ht', hcolumns⟩ := htables id t ht
    exact ⟨t', ht', hcolumns name hcolumn⟩
  leads := by
    rintro id source target ⟨j, hj, hleads⟩
    obtain ⟨more, hmore⟩ := hjoins
    refine ⟨j, ?_, hleads⟩
    unfold join?
    rw [← hmore, List.getElem?_append_left (hasJoin_of_join? hj).1]
    exact hj

/-- Tables that are kept where they are keep their columns. -/
theorem table?_of_isPrefix (h : s.tables <+: s'.tables) {id : TableId} {t : Table}
    (ht : s.table? id = some t) : s'.table? id = some t := by
  obtain ⟨more, hmore⟩ := h
  unfold table?
  rw [← hmore, List.getElem?_append_left (hasTable_of_table? ht).1]
  exact ht

/-- A store that has grown out of a closed one is closed if all of its new elements fit. -/
theorem Closed.extends_of_grows (hs : s.Closed) (hgrows : s.Grows s')
    (hdatabases : ∀ d ∈ s'.databases, d ∈ s.databases ∨ d.FitsIn s')
    (htables : ∀ t ∈ s'.tables, t ∈ s.tables ∨ t.FitsIn s')
    (hjoins : ∀ j ∈ s'.joins, j ∈ s.joins ∨ j.FitsIn s')
    (hfilters : ∀ f ∈ s'.filters, f ∈ s.filters ∨ f.FitsIn s') : s.Extends s' := by
  refine ⟨⟨fun d hd => ?_, fun t ht => ?_, fun j hj => ?_, fun f hf => ?_⟩, hgrows⟩
  · exact (hdatabases d hd).elim (fun h => (hs.databases d h).grow hgrows) id
  · exact (htables t ht).elim (fun h => (hs.tables t h).grow hgrows) id
  · exact (hjoins j hj).elim (fun h => (hs.joins j h).grow hgrows) id
  · exact (hfilters f hf).elim (fun h => (hs.filters f h).grow hgrows) id

/-- What a list holds when one of its elements is changed. -/
theorem mem_or_of_mem_modify {α : Type} {f : α → α} {l : List α} {i : Nat} {a : α}
    (h : a ∈ l.modify i f) : a ∈ l ∨ ∃ old, l[i]? = some old ∧ f old = a := by
  obtain ⟨j, hj⟩ := List.mem_iff_getElem?.1 h
  rw [List.getElem?_modify] at hj
  obtain ⟨old, hold, ha⟩ := Option.map_eq_some_iff.1 hj
  split at ha
  · rename_i hij
    exact .inr ⟨old, hij ▸ hold, ha⟩
  · exact .inl (ha ▸ List.mem_of_getElem? hold)

theorem Closed.extends_modifyDatabase (hs : s.Closed) {id : DatabaseId} {f : Database → Database}
    (hf : ∀ d, d.FitsIn s → (f d).FitsIn s) : s.Extends (s.modifyDatabase id f) := by
  have hgrows : s.Grows (s.modifyDatabase id f) :=
    grows_of_lists (by simp [modifyDatabase]) (fun _ t ht => ⟨t, ht, fun _ h => h⟩)
      (List.prefix_refl _) (List.prefix_refl _)
  refine hs.extends_of_grows hgrows (fun d hd => ?_) (fun _ => .inl) (fun _ => .inl) fun _ => .inl
  rcases mem_or_of_mem_modify hd with hd | ⟨old, hold, rfl⟩
  · exact .inl hd
  · exact .inr ((hf old (hs.databases old (List.mem_of_getElem? hold))).grow hgrows)

/-- What doing one item keeps holds after all of them are done. -/
theorem forEach_invariant {α : Type} {P : Store → Prop} {act : Store → DatabaseId → α → Recorded Store}
    {items : List α} (hstep : ∀ s, ∀ i < items.length, ∀ a s', P s →
      (act s ⟨i⟩ a).result = .ok s' → P s') (hs : P s)
    (h : (forEach act s items).result = .ok s') : P s' := by
  unfold forEach at h
  rw [Recorded.result_foldlM] at h
  refine foldlM_invariant (P := P) ?_ hs h
  rintro before ⟨a, i⟩ hmem after hbefore hact
  exact hstep before i (List.mem_zipIdx' hmem).1 a after hbefore hact

/-! ## Databases and includes -/

theorem closed_empty : ({} : Store).Closed :=
  ⟨by simp, by simp, by simp, by simp⟩

theorem extends_addDatabase (hs : s.Closed) {source : Source.Database}
    (h : addDatabase s source = .ok s') :
    s.Extends s' ∧ s'.databases.length = s.databases.length + 1 := by
  unfold addDatabase at h
  split at h
  · exact absurd h (found_ne_ok _ _ _)
  · obtain rfl := Except.ok.inj h
    refine ⟨hs.extends_of_grows ?_ (fun d hd => ?_) (fun _ => .inl) (fun _ => .inl) fun _ => .inl,
      by simp⟩
    · exact grows_of_lists (by simp) (fun _ t ht => ⟨t, ht, fun _ h => h⟩) (List.prefix_refl _)
        (List.prefix_refl _)
    · -- a new database declares nothing yet
      refine (List.mem_append.1 hd).imp_right fun hd => ?_
      obtain rfl := List.mem_singleton.1 hd
      exact ⟨by simp, by simp, by simp, by simp⟩

theorem extends_addDatabases (hs : s.Closed) {sources : List Source.Database}
    (h : sources.foldlM addDatabase s = .ok s') :
    s.Extends s' ∧ s'.databases.length = s.databases.length + sources.length := by
  induction sources generalizing s with
  | nil =>
    obtain rfl := pure_eq_ok_iff.1 h
    exact ⟨hs.extends_self, rfl⟩
  | cons source rest ih =>
    rw [List.foldlM_cons] at h
    obtain ⟨next, hnext, hrest⟩ := bind_eq_ok_iff.1 h
    obtain ⟨hextends, hlength⟩ := extends_addDatabase hs hnext
    obtain ⟨hfollowing, hall⟩ := ih hextends.closed hrest
    refine ⟨hextends.trans hfollowing, ?_⟩
    rw [hall, hlength, List.length_cons]
    omega

theorem hasDatabase_of_resolveIncludes {found includes : List DatabaseId} {names : List Name}
    (hfound : ∀ id ∈ found, s.HasDatabase id)
    (h : (s.resolveIncludes owner found names).result = .ok includes) :
    ∀ id ∈ includes, s.HasDatabase id := by
  induction names generalizing found with
  | nil =>
    obtain rfl := Except.ok.inj h
    exact hfound
  | cons name rest ih =>
    unfold resolveIncludes at h
    split at h
    · exact absurd h (found_ne_ok _ _ _)
    · rename_i id hid
      obtain ⟨_, -, h⟩ := Recorded.result_bind_eq_ok_iff.1 h
      refine ih ?_ h
      split
      · exact hfound
      · exact List.forall_mem_append.2
          ⟨hfound, List.forall_mem_singleton.2 (hasDatabase_of_databaseNamed? hid)⟩

theorem extends_addIncludes (hs : s.Closed) {source : Source.Database}
    (h : (s.addIncludes database source).result = .ok s') : s.Extends s' := by
  simp only [addIncludes, Recorded.result_bind_eq_ok_iff, Recorded.result_pure] at h
  obtain ⟨includes, hincludes, h⟩ := h
  obtain rfl := Except.ok.inj h
  have hfit := hasDatabase_of_resolveIncludes (by simp) hincludes
  exact hs.extends_modifyDatabase fun d hd => ⟨hfit, hd.tables, hd.joins, hd.filters⟩

/-! ## Tables -/

theorem Closed.extends_append_table (hs : s.Closed) {t : Table}
    (ht : t.FitsIn { s with tables := s.tables ++ [t] }) :
    s.Extends { s with tables := s.tables ++ [t] } := by
  refine hs.extends_of_grows ?_ (fun _ => .inl) (fun t' ht' => ?_) (fun _ => .inl) fun _ => .inl
  · exact grows_of_lists (Nat.le_refl _)
      (fun _ t' ht' => ⟨t', table?_of_isPrefix (List.prefix_append _ _) ht', fun _ h => h⟩)
      (List.prefix_refl _) (List.prefix_refl _)
  · refine (List.mem_append.1 ht').imp_right fun ht' => ?_
    rwa [List.mem_singleton.1 ht']

theorem table_of_tableColumns {id : TableId} {table : Name} {seen : List String}
    {sources : List Source.Column} {columns : List Column}
    (h : tableColumns id table seen sources = .ok columns) : ∀ c ∈ columns, c.table = id := by
  induction sources generalizing seen columns with
  | nil =>
    obtain rfl := Except.ok.inj h
    simp
  | cons source rest ih =>
    unfold tableColumns at h
    dsimp only at h
    split at h
    · exact absurd h (found_ne_ok _ _ _)
    · obtain ⟨others, hothers, h⟩ := bind_eq_ok_iff.1 h
      obtain rfl := pure_eq_ok_iff.1 h
      exact List.forall_mem_cons.2 ⟨rfl, ih hothers⟩

theorem mem_of_checkColumnsExist {table : String} {clauses : List Source.MilestoningClause}
    {columns : List (String × DataType)} {names : List String}
    (h : Milestoning.checkColumnsExist table clauses columns names = .ok ()) :
    ∀ name ∈ names, ∃ c ∈ columns, c.1 = name := by
  induction names with
  | nil => simp
  | cons name rest ih =>
    unfold Milestoning.checkColumnsExist at h
    split at h
    · rename_i hany
      exact List.forall_mem_cons.2 ⟨by simpa using hany, ih h⟩
    · exact absurd h (found_ne_ok _ _ _)

/-- The columns that hold the times of the rows are columns of the table. -/
theorem mem_of_ofClauses? {table : String} {clauses : List Source.MilestoningClause}
    {columns : List (String × DataType)} {milestoning : Milestoning}
    (h : Milestoning.ofClauses? table clauses columns = .ok (some milestoning)) :
    ∀ name ∈ milestoning.columns, ∃ c ∈ columns, c.1 = name := by
  unfold Milestoning.ofClauses? at h
  obtain ⟨read, -, h⟩ := bind_eq_ok_iff.1 h
  obtain ⟨combined, -, h⟩ := bind_eq_ok_iff.1 h
  split at h
  · cases h
  · obtain ⟨_, hexist, h⟩ := bind_eq_ok_iff.1 h
    obtain ⟨_, -, h⟩ := bind_eq_ok_iff.1 h
    obtain rfl := Option.some.inj (pure_eq_ok_iff.1 h)
    exact mem_of_checkColumnsExist hexist

theorem isSome_column?_iff {t : Table} {name : String} :
    (t.column? name).isSome ↔ ∃ c ∈ t.columns, c.name = name := by
  simp [Table.column?, List.find?_isSome]

variable {schema container : String} {names names' : List (String × TableId)}

theorem extends_addTable (hs : s.Closed) (hdatabase : s.HasDatabase database)
    (hnames : ∀ n ∈ names, s.HasTable n.2) {source : Source.Table}
    (h : addTable database schema container (s, names) source = .ok (s', names')) :
    s.Extends s' ∧ s.tables <+: s'.tables ∧ ∀ n ∈ names', s'.HasTable n.2 := by
  unfold addTable at h
  dsimp only at h
  split at h
  · exact absurd h (found_ne_ok _ _ _)
  · obtain ⟨columns, hcolumns, h⟩ := bind_eq_ok_iff.1 h
    obtain ⟨milestoning, hmilestoning, h⟩ := bind_eq_ok_iff.1 h
    obtain ⟨rfl, rfl⟩ := Prod.mk.inj (pure_eq_ok_iff.1 h)
    have hextends := hs.extends_append_table
      (t := ⟨source.name.value, schema, database, columns, milestoning, none, source.span⟩) {
        database := hdatabase
        columns := fun c hc => by
          rw [table_of_tableColumns hcolumns c hc]
          simp [HasTable, nextTable]
        milestoning := by
          rintro m rfl name hname
          obtain ⟨c, hc, rfl⟩ := mem_of_ofClauses? hmilestoning name hname
          obtain ⟨column, hcolumn, rfl⟩ := List.mem_map.1 hc
          exact isSome_column?_iff.2 ⟨column, hcolumn, rfl⟩
        view := by simp }
    refine ⟨hextends, List.prefix_append _ _, List.forall_mem_append.2 ⟨fun n hn => ?_, ?_⟩⟩
    · exact hextends.grows.table (hnames n hn)
    · simp [HasTable, nextTable]

/-! ## Names of views -/

/-- Views wait for their definitions: they have names, as tables without columns, and each waits
once. -/
structure Awaits (s : Store) (pending : List (TableId × DatabaseId × Source.View)) : Prop where
  database : ∀ p ∈ pending, s.HasDatabase p.2.1
  table : ∀ p ∈ pending, ∃ t, s.table? p.1 = some t ∧ t.columns = []
  nodup : (pending.map (·.1)).Nodup

theorem Awaits.of_isPrefix {pending : List (TableId × DatabaseId × Source.View)} (h : s.Awaits pending)
    (hgrows : s.Grows s') (htables : s.tables <+: s'.tables) : s'.Awaits pending := by
  refine ⟨fun p hp => hgrows.database (h.database p hp), fun p hp => ?_, h.nodup⟩
  obtain ⟨t, ht, hempty⟩ := h.table p hp
  exact ⟨t, table?_of_isPrefix htables ht, hempty⟩

variable {draft draft' : Draft}

theorem extends_addViewName (hs : draft.store.Closed) (hdatabase : draft.store.HasDatabase database)
    (hawaits : draft.store.Awaits draft.pendingViews)
    (hnames : ∀ n ∈ names, draft.store.HasTable n.2) {source : Source.View}
    (h : addViewName database schema container (draft, names) source = .ok (draft', names')) :
    draft.store.Extends draft'.store ∧ draft'.store.Awaits draft'.pendingViews ∧
      ∀ n ∈ names', draft'.store.HasTable n.2 := by
  unfold addViewName at h
  dsimp only at h
  split at h
  · exact absurd h (found_ne_ok _ _ _)
  · obtain ⟨rfl, rfl⟩ := Prod.mk.inj (pure_eq_ok_iff.1 h)
    have hextends := hs.extends_append_table
      (t := ⟨source.name.value, schema, database, [], none, none, source.span⟩) {
        database := hdatabase
        columns := by simp
        milestoning := by simp
        view := by simp }
    have hkept := hawaits.of_isPrefix hextends.grows (List.prefix_append _ _)
    refine ⟨hextends, ⟨?_, ?_, ?_⟩, List.forall_mem_append.2 ⟨fun n hn => ?_, ?_⟩⟩
    · exact List.forall_mem_append.2
        ⟨hkept.database, List.forall_mem_singleton.2 (hextends.grows.database hdatabase)⟩
    · refine List.forall_mem_append.2 ⟨hkept.table, List.forall_mem_singleton.2 ?_⟩
      refine ⟨⟨source.name.value, schema, database, [], none, none, source.span⟩, ?_, rfl⟩
      simp [table?, nextTable]
    · -- the handle is new, since the views that wait have tables already
      rw [List.map_append, List.nodup_append]
      refine ⟨hawaits.nodup, List.nodup_singleton _, ?_⟩
      intro id hid other hother hsame
      obtain ⟨p, hp, rfl⟩ := List.mem_map.1 hid
      obtain ⟨t, ht, -⟩ := hawaits.table p hp
      have hlt : p.1.index < draft.store.tables.length := (hasTable_of_table? ht).1
      rw [hsame, List.mem_singleton.1 hother] at hlt
      exact Nat.lt_irrefl _ hlt
    · exact hextends.grows.table (hnames n hn)
    · simp [HasTable, nextTable]

/-! ## Schemas -/

theorem extends_addTables (hs : s.Closed) (hdatabase : s.HasDatabase database)
    {sources : List Source.Table}
    (h : sources.foldlM (addTable database schema container) (s, []) = .ok (s', names)) :
    s.Extends s' ∧ s.tables <+: s'.tables ∧ ∀ n ∈ names, s'.HasTable n.2 := by
  refine foldlM_invariant (P := fun state : Store × List (String × TableId) =>
    s.Extends state.1 ∧ s.tables <+: state.1.tables ∧ ∀ n ∈ state.2, state.1.HasTable n.2) ?_
    ⟨hs.extends_self, List.prefix_refl _, by simp⟩ h
  rintro ⟨before, known⟩ table - ⟨after, known'⟩ ⟨hextends, htables, hknown⟩ hadd
  obtain ⟨hnext, hmore, hknown'⟩ := extends_addTable hextends.closed
    (hextends.grows.database hdatabase) hknown hadd
  exact ⟨hextends.trans hnext, htables.trans hmore, hknown'⟩

theorem extends_addViewNames (hs : s.Closed) (hdatabase : s.HasDatabase database)
    {pending : List (TableId × DatabaseId × Source.View)} (hawaits : s.Awaits pending)
    (hnames : ∀ n ∈ names, s.HasTable n.2) {sources : List Source.View}
    (h : sources.foldlM (addViewName database schema container) (⟨s, pending⟩, names) =
      .ok (draft, names')) :
    s.Extends draft.store ∧ draft.store.Awaits draft.pendingViews ∧
      ∀ n ∈ names', draft.store.HasTable n.2 := by
  refine foldlM_invariant (P := fun state : Draft × List (String × TableId) =>
    s.Extends state.1.store ∧ state.1.store.Awaits state.1.pendingViews ∧
      ∀ n ∈ state.2, state.1.store.HasTable n.2) ?_ ⟨hs.extends_self, hawaits, hnames⟩ h
  rintro ⟨before, known⟩ view - ⟨after, known'⟩ ⟨hextends, hwaiting, hknown⟩ hadd
  obtain ⟨hnext, hwaiting', hknown'⟩ := extends_addViewName hextends.closed
    (hextends.grows.database hdatabase) hwaiting hknown hadd
  exact ⟨hextends.trans hnext, hwaiting', hknown'⟩

/-- A schema registers its tables and the names of its views. -/
theorem extends_addSchema (hs : draft.store.Closed) (hdatabase : draft.store.HasDatabase database)
    (hawaits : draft.store.Awaits draft.pendingViews) {source : Source.Schema}
    (h : addSchema database owner draft source = .ok draft') :
    draft.store.Extends draft'.store ∧ draft'.store.Awaits draft'.pendingViews := by
  unfold addSchema at h
  dsimp only at h
  split at h
  · exact absurd h (found_ne_ok _ _ _)
  · obtain ⟨⟨tables, names⟩, htables, h⟩ := bind_eq_ok_iff.1 h
    obtain ⟨⟨views, allNames⟩, hviews, h⟩ := bind_eq_ok_iff.1 h
    obtain rfl := pure_eq_ok_iff.1 h
    obtain ⟨hfirst, hkept, hnames⟩ := extends_addTables hs hdatabase htables
    obtain ⟨hsecond, hwaiting, hallNames⟩ := extends_addViewNames hfirst.closed
      (hfirst.grows.database hdatabase) (hawaits.of_isPrefix hfirst.grows hkept) hnames hviews
    have hregistered : views.store.Extends (views.store.modifyDatabase database fun d =>
        { d with schemas := d.schemas ++ [⟨source.name.value, allNames⟩] }) :=
      hsecond.closed.extends_modifyDatabase fun d hd => ⟨hd.includes,
        List.forall_mem_append.2 ⟨hd.tables, List.forall_mem_singleton.2 hallNames⟩, hd.joins,
        hd.filters⟩
    exact ⟨(hfirst.trans hsecond).trans hregistered,
      hwaiting.of_isPrefix hregistered.grows (List.prefix_refl _)⟩

theorem extends_addAllSchemas (hs : s.Closed) {sources : List Source.Database}
    (hdatabases : ∀ i < sources.length, s.HasDatabase ⟨i⟩)
    (h : sources.zipIdx.foldlM addSchemas ⟨s, []⟩ = .ok draft) :
    s.Extends draft.store ∧ draft.store.Awaits draft.pendingViews := by
  refine foldlM_invariant (P := fun draft : Draft =>
    s.Extends draft.store ∧ draft.store.Awaits draft.pendingViews) ?_
    ⟨hs.extends_self, ⟨by simp, by simp, by simp⟩⟩ h
  rintro before ⟨source, i⟩ hmem after hbefore hadd
  have hid : s.HasDatabase ⟨i⟩ := hdatabases i (List.mem_zipIdx' hmem).1
  refine foldlM_invariant (P := fun draft : Draft =>
    s.Extends draft.store ∧ draft.store.Awaits draft.pendingViews) ?_ hbefore hadd
  rintro draft schema - draft' ⟨hextends, hawaits⟩ hschema
  obtain ⟨hnext, hawaits'⟩ := extends_addSchema hextends.closed (hextends.grows.database hid)
    hawaits hschema
  exact ⟨hextends.trans hnext, hawaits'⟩

/-! ## Joins and filters -/

theorem closed_resolverIn (hs : s.Closed) (hdatabase : s.HasDatabase database) :
    (s.resolverIn defaultSchema database).Closed :=
  ⟨hs, hdatabase, by simp [resolverIn]⟩

/-- What a join has of its source. It is about the tables that its condition refers to: two, or the only
one of a self join, which is its own far side. -/
structure ResolvedJoin (s : Store) (defaultSchema : String) (database : DatabaseId) (source : Source.Join)
    (join : Join) : Prop where
  name : join.name = source.name.value
  owner : join.database = database
  tables : (s.resolverIn defaultSchema database).referencedTables source.condition = .ok join.tables
  selfJoin : join.selfJoin = source.condition.usesTarget
  condition : ∃ far : Option TableAlias,
    (join.selfJoin = false ∧ join.tables.length = 2 ∧ far = none ∨
      join.selfJoin = true ∧ ∃ table, join.tables = [table] ∧ far = some (s.farSide database table)) ∧
    (Resolver.resolve { s.resolverIn defaultSchema database with selfJoinTarget := far } none
      source.condition).result = .ok join.condition

theorem resolvedJoin_of_resolveJoin {source : Source.Join} {join : Join}
    (h : (s.resolveJoin defaultSchema database source).result = .ok join) :
    s.ResolvedJoin defaultSchema database source join := by
  unfold resolveJoin at h
  obtain ⟨tables, htables, h⟩ := Recorded.result_bind_eq_ok_iff.1 h
  dsimp only at h
  split at h
  · rename_i htarget
    split at h
    · rename_i table
      obtain ⟨condition, hcondition, h⟩ := Recorded.result_bind_eq_ok_iff.1 h
      obtain rfl := Except.ok.inj h
      exact ⟨rfl, rfl, htables, htarget.symm, _, .inr ⟨rfl, table, rfl, rfl⟩, hcondition⟩
    · exact absurd h (found_ne_ok _ _ _)
  · rename_i htarget
    split at h
    · rename_i hlength
      obtain ⟨condition, hcondition, h⟩ := Recorded.result_bind_eq_ok_iff.1 h
      obtain rfl := Except.ok.inj h
      exact ⟨rfl, rfl, htables, (eq_false_of_ne_true htarget).symm, _, .inl ⟨rfl, hlength, rfl⟩,
        hcondition⟩
    · exact absurd h (found_ne_ok _ _ _)

/-- A join that is resolved is about the tables that its condition refers to, and the far side of a self
join is one of them. -/
theorem exists_of_resolveJoin {source : Source.Join} {join : Join}
    (h : (s.resolveJoin defaultSchema database source).result = .ok join) :
    join.database = database ∧
      (s.resolverIn defaultSchema database).referencedTables source.condition = .ok join.tables ∧
      ∃ far : Option TableAlias, (∀ a ∈ far, ∃ table ∈ join.tables, a = s.farSide database table) ∧
        (Resolver.resolve { s.resolverIn defaultSchema database with selfJoinTarget := far } none
          source.condition).result = .ok join.condition := by
  have hjoin := resolvedJoin_of_resolveJoin h
  obtain ⟨far, hfar, hcondition⟩ := hjoin.condition
  refine ⟨hjoin.owner, hjoin.tables, far, ?_, hcondition⟩
  rcases hfar with ⟨-, -, rfl⟩ | ⟨-, table, htable, rfl⟩
  · simp
  · rintro _ ⟨⟩
    exact ⟨table, by simp [htable], rfl⟩

theorem fitsIn_of_resolveJoin (hs : s.Closed) (hdatabase : s.HasDatabase database)
    {source : Source.Join} {join : Join}
    (h : (s.resolveJoin defaultSchema database source).result = .ok join) : join.FitsIn s := by
  obtain ⟨howner, htables, far, hfar, hcondition⟩ := exists_of_resolveJoin h
  have hr : (s.resolverIn defaultSchema database).Closed := closed_resolverIn hs hdatabase
  have htables := Resolver.referencedTables_fit hr htables
  have hr' : Resolver.Closed { s.resolverIn defaultSchema database with selfJoinTarget := far } := by
    refine ⟨hs, hdatabase, fun a ha => ?_⟩
    obtain ⟨table, htable, rfl⟩ := hfar a ha
    exact ⟨htables table htable, hdatabase⟩
  exact ⟨howner ▸ hdatabase, htables, Resolver.resolve_fits hr' none (by simp) _ _ hcondition⟩

theorem extends_addJoin (hs : s.Closed) (hdatabase : s.HasDatabase database) {source : Source.Join}
    (h : (addJoin defaultSchema database owner s source).result = .ok s') :
    s.Extends s' ∧ s'.tables = s.tables := by
  unfold addJoin at h
  dsimp only at h
  split at h
  · exact absurd h (found_ne_ok _ _ _)
  · obtain ⟨join, hjoin, h⟩ := Recorded.result_bind_eq_ok_iff.1 h
    obtain rfl := Except.ok.inj h
    have hgrows : s.Grows { s with joins := s.joins ++ [join] } :=
      grows_of_lists (Nat.le_refl _) (fun _ t ht => ⟨t, ht, fun _ h => h⟩) (List.prefix_append _ _)
        (List.prefix_refl _)
    have hadded := hs.extends_of_grows hgrows (fun _ => .inl) (fun _ => .inl) (fun j hj => by
      refine (List.mem_append.1 hj).imp_right fun hj => ?_
      rw [List.mem_singleton.1 hj]
      exact (fitsIn_of_resolveJoin hs hdatabase hjoin).grow hgrows) fun _ => .inl
    refine ⟨hadded.trans (hadded.closed.extends_modifyDatabase fun d hd => ⟨hd.includes, hd.tables,
      List.forall_mem_append.2 ⟨hd.joins, ?_⟩, hd.filters⟩), rfl⟩
    simp [HasJoin]

/-- What a filter has of its source. -/
structure ResolvedFilter (s : Store) (defaultSchema : String) (database : DatabaseId)
    (source : Source.Filter) (filter : Filter) : Prop where
  name : filter.name = source.name.value
  owner : filter.database = database
  tables : (s.resolverIn defaultSchema database).referencedTables source.condition = .ok filter.tables
  condition : ((s.resolverIn defaultSchema database).resolve none source.condition).result =
    .ok filter.condition

theorem resolvedFilter_of_resolveFilter {source : Source.Filter} {filter : Filter}
    (h : (s.resolveFilter defaultSchema database source).result = .ok filter) :
    s.ResolvedFilter defaultSchema database source filter := by
  simp only [resolveFilter, Recorded.result_bind_eq_ok_iff, Recorded.result_monadLift,
    Recorded.result_pure] at h
  obtain ⟨tables, htables, condition, hcondition, h⟩ := h
  obtain rfl := Except.ok.inj h
  exact ⟨rfl, rfl, htables, hcondition⟩

theorem fitsIn_of_resolveFilter (hs : s.Closed) (hdatabase : s.HasDatabase database)
    {source : Source.Filter} {filter : Filter}
    (h : (s.resolveFilter defaultSchema database source).result = .ok filter) : filter.FitsIn s := by
  have hr : (s.resolverIn defaultSchema database).Closed := closed_resolverIn hs hdatabase
  have hfilter := resolvedFilter_of_resolveFilter h
  exact ⟨hfilter.owner ▸ hdatabase, Resolver.referencedTables_fit hr hfilter.tables,
    Resolver.resolve_fits hr none (by simp) _ _ hfilter.condition⟩

theorem extends_addFilter (hs : s.Closed) (hdatabase : s.HasDatabase database)
    {source : Source.Filter}
    (h : (addFilter defaultSchema database owner s source).result = .ok s') :
    s.Extends s' ∧ s'.tables = s.tables := by
  unfold addFilter at h
  dsimp only at h
  split at h
  · exact absurd h (found_ne_ok _ _ _)
  · obtain ⟨filter, hfilter, h⟩ := Recorded.result_bind_eq_ok_iff.1 h
    obtain rfl := Except.ok.inj h
    have hgrows : s.Grows { s with filters := s.filters ++ [filter] } :=
      grows_of_lists (Nat.le_refl _) (fun _ t ht => ⟨t, ht, fun _ h => h⟩) (List.prefix_refl _)
        (List.prefix_append _ _)
    have hadded := hs.extends_of_grows hgrows (fun _ => .inl) (fun _ => .inl) (fun _ => .inl)
      fun f hf => by
        refine (List.mem_append.1 hf).imp_right fun hf => ?_
        rw [List.mem_singleton.1 hf]
        exact (fitsIn_of_resolveFilter hs hdatabase hfilter).grow hgrows
    refine ⟨hadded.trans (hadded.closed.extends_modifyDatabase fun d hd => ⟨hd.includes, hd.tables,
      hd.joins, List.forall_mem_append.2 ⟨hd.filters, ?_⟩⟩), rfl⟩
    simp [HasFilter]

theorem extends_addJoinsAndFilters (hs : s.Closed) (hdatabase : s.HasDatabase database)
    {source : Source.Database}
    (h : (addJoinsAndFilters defaultSchema s database source).result = .ok s') :
    s.Extends s' ∧ s'.tables = s.tables := by
  unfold addJoinsAndFilters at h
  obtain ⟨joined, hjoins, hfilters⟩ := Recorded.result_bind_eq_ok_iff.1 h
  rw [Recorded.result_foldlM] at hjoins hfilters
  have hjoined : s.Extends joined ∧ joined.tables = s.tables := by
    refine foldlM_invariant (P := fun s' : Store => s.Extends s' ∧ s'.tables = s.tables) ?_
      ⟨hs.extends_self, rfl⟩ hjoins
    rintro before join - after ⟨hextends, htables⟩ hadd
    obtain ⟨hnext, hsame⟩ := extends_addJoin hextends.closed (hextends.grows.database hdatabase) hadd
    exact ⟨hextends.trans hnext, hsame.trans htables⟩
  refine foldlM_invariant (P := fun s' : Store => s.Extends s' ∧ s'.tables = s.tables) ?_ hjoined
    hfilters
  rintro before filter - after ⟨hextends, htables⟩ hadd
  obtain ⟨hnext, hsame⟩ := extends_addFilter hextends.closed (hextends.grows.database hdatabase) hadd
  exact ⟨hextends.trans hnext, hsame.trans htables⟩

/-! ## Views -/

theorem table?_modifyTable (s : Store) (id other : TableId) (f : Table → Table) :
    (s.modifyTable id f).table? other =
      (s.table? other).map fun t => if id = other then f t else t := by
  unfold modifyTable table?
  rw [List.getElem?_modify, Option.map_eq_map]
  cases id
  cases other
  simp

theorem extends_defineView (hs : s.Closed) {pending : TableId × DatabaseId × Source.View}
    {rest : List (TableId × DatabaseId × Source.View)} (hawaits : s.Awaits (pending :: rest))
    (h : (defineView defaultSchema s pending).result = .ok s') : s.Extends s' ∧ s'.Awaits rest := by
  obtain ⟨id, database, source⟩ := pending
  simp only [defineView, Recorded.result_bind_eq_ok_iff, Recorded.result_pure] at h
  obtain ⟨view, hview, h⟩ := h
  obtain rfl := Except.ok.inj h
  have hview := Resolver.fitsIn_of_view
    (closed_resolverIn hs (hawaits.database _ List.mem_cons_self)) hview
  obtain ⟨waiting, hwaiting, hempty⟩ := hawaits.table _ List.mem_cons_self
  have hother : ∀ other t, other ≠ id → s.table? other = some t →
      (s.modifyTable id fun t => { t with
        columns := s.viewColumns id view, view := some view }).table? other = some t := by
    intro other t hne ht
    rw [table?_modifyTable, ht, Option.map_some, if_neg hne.symm]
  have hgrows : s.Grows (s.modifyTable id fun t => { t with
      columns := s.viewColumns id view, view := some view }) := by
    refine grows_of_lists (Nat.le_refl _) (fun other t ht => ?_) (List.prefix_refl _)
      (List.prefix_refl _)
    by_cases hsame : other = id
    · -- the view had no columns that it could lose
      obtain rfl := hsame
      obtain rfl : t = waiting := Option.some.inj (ht.symm.trans hwaiting)
      refine ⟨{ t with columns := s.viewColumns other view, view := some view }, ?_, ?_⟩
      · rw [table?_modifyTable, ht, Option.map_some, if_pos rfl]
      · simp [isSome_column?_iff, hempty]
    · exact ⟨t, hother other t hsame ht, fun _ h => h⟩
  refine ⟨hs.extends_of_grows hgrows (fun _ => .inl) (fun t ht => ?_) (fun _ => .inl) fun _ => .inl,
    fun p hp => hgrows.database (hawaits.database p (List.mem_cons_of_mem _ hp)), fun p hp => ?_,
    (List.nodup_cons.1 hawaits.nodup).2⟩
  · rcases mem_or_of_mem_modify ht with ht | ⟨old, hold, rfl⟩
    · exact .inl ht
    · obtain rfl : old = waiting := Option.some.inj (hold.symm.trans hwaiting)
      have hfits := hs.tables old (List.mem_of_getElem? hold)
      refine .inr ⟨hgrows.database hfits.database, fun c hc => ?_, fun m hm name hname => ?_, ?_⟩
      · obtain ⟨column, -, rfl⟩ := List.mem_map.1 hc
        exact hgrows.table (hasTable_of_table? hwaiting).1
      · have hcolumn := hfits.milestoning m hm name hname
        simp [isSome_column?_iff, hempty] at hcolumn
      · rintro v ⟨⟩
        exact hview.grow hgrows
  · obtain ⟨t, ht, hnone⟩ := hawaits.table p (List.mem_cons_of_mem _ hp)
    have hne : p.1 ≠ id := by
      rintro rfl
      exact (List.nodup_cons.1 hawaits.nodup).1 (List.mem_map.2 ⟨p, hp, rfl⟩)
    exact ⟨t, hother p.1 t hne ht, hnone⟩

theorem extends_defineViews (hs : s.Closed) {pending : List (TableId × DatabaseId × Source.View)}
    (hawaits : s.Awaits pending)
    (h : pending.foldlM (fun s p => (defineView defaultSchema s p).result) s = .ok s') :
    s.Extends s' := by
  induction pending generalizing s with
  | nil =>
    obtain rfl := pure_eq_ok_iff.1 h
    exact hs.extends_self
  | cons first rest ih =>
    rw [List.foldlM_cons] at h
    obtain ⟨next, hnext, hrest⟩ := bind_eq_ok_iff.1 h
    obtain ⟨hextends, hwaiting⟩ := extends_defineView hs hawaits hnext
    exact hextends.trans (ih hextends.closed hwaiting hrest)

/-! ## All phases -/

/-- The first three phases extend the store, and the views wait for their definitions. -/
theorem extends_of_phases {sources : List Source.Database} {registered included : Store}
    (hregistered : sources.foldlM addDatabase {} = .ok registered)
    (hincluded : (forEach addIncludes registered sources).result = .ok included)
    (hdraft : sources.zipIdx.foldlM addSchemas ⟨included, []⟩ = .ok draft) :
    included.Extends draft.store ∧ draft.store.Awaits draft.pendingViews ∧
      ∀ i < sources.length, included.HasDatabase ⟨i⟩ := by
  obtain ⟨hregister, hlength⟩ := extends_addDatabases closed_empty hregistered
  have hdatabases : ∀ i < sources.length, registered.HasDatabase ⟨i⟩ := by
    intro i hi
    simpa [HasDatabase, hlength] using hi
  have hinclude : registered.Extends included := by
    refine forEach_invariant (P := registered.Extends) ?_ hregister.closed.extends_self hincluded
    intro before i hi source after hextends hadd
    exact hextends.trans (extends_addIncludes hextends.closed hadd)
  have hknown : ∀ i < sources.length, included.HasDatabase ⟨i⟩ := fun i hi =>
    hinclude.grows.database (hdatabases i hi)
  obtain ⟨hdeclare, hawaits⟩ := extends_addAllSchemas hinclude.closed hknown hdraft
  exact ⟨hdeclare, hawaits, hknown⟩

/-- The fourth phase extends the store, and keeps its tables. -/
theorem extends_addAllJoinsAndFilters (hs : s.Closed) {sources : List Source.Database}
    (hdatabases : ∀ i < sources.length, s.HasDatabase ⟨i⟩)
    (h : (forEach (addJoinsAndFilters defaultSchema) s sources).result = .ok s') :
    s.Extends s' ∧ s'.tables = s.tables := by
  refine forEach_invariant (P := fun s' => s.Extends s' ∧ s'.tables = s.tables) ?_ ⟨hs.extends_self, rfl⟩ h
  rintro before i hi source after ⟨hextends, hkept⟩ hadd
  obtain ⟨hnext, hsame⟩ := extends_addJoinsAndFilters hextends.closed
    (hextends.grows.database (hdatabases i hi)) hadd
  exact ⟨hextends.trans hnext, hsame.trans hkept⟩

theorem closed_of_assemble {sources : List Source.Database}
    (h : (assemble defaultSchema sources).result = .ok s) : s.Closed := by
  simp only [assemble, Recorded.result_bind_eq_ok_iff, Recorded.result_monadLift] at h
  obtain ⟨registered, hregistered, included, hincluded, draft, hdraft, joined, hjoined, hviews⟩ := h
  obtain ⟨hdeclare, hawaits, hdatabases⟩ := extends_of_phases hregistered hincluded hdraft
  obtain ⟨hjoin, htables⟩ := extends_addAllJoinsAndFilters hdeclare.closed
    (fun i hi => hdeclare.grows.database (hdatabases i hi)) hjoined
  rw [Recorded.result_foldlM] at hviews
  exact (extends_defineViews hjoin.closed
    (hawaits.of_isPrefix hjoin.grows (htables ▸ List.prefix_refl _)) hviews).closed

/-- A store that is built is closed. -/
theorem closed_of_build {settings : ResolutionSettings} {sources : List Source.Database}
    (h : build settings sources = .ok s) : s.Closed := by
  obtain ⟨assembled, hassembled, rfl⟩ := map_eq_ok_iff.1 h
  have hclosed := closed_of_assemble hassembled
  have hgrows : assembled.Grows { assembled with
      usages := keptUsages settings (assemble settings.defaultSchema sources).usages } :=
    ⟨id, id, id, id, id, id⟩
  exact (hclosed.extends_of_grows hgrows (fun _ => .inl) (fun _ => .inl) (fun _ => .inl)
    fun _ => .inl).closed

end ObjectRelational.Store
