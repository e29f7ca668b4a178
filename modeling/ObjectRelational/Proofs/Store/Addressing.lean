import ObjectRelational.Proofs.Store.Aliases
import ObjectRelational.Proofs.Store.JoinsOverViews
import ObjectRelational.Proofs.Store.Visibility

/-!
# Tables and the databases that they are reached through

What a database declares is known to belong to it, so what a name denotes is declared by a database that
is seen. A join may be about tables that its own database does not see, where its condition addresses them
in other databases; and it leads to its tables all the same. So a table is reached through a database that
sees it, unless a join that is seen brings the table along.

* `Store.Declares`, `Store.SeesTable`: the database that declares a table, and those that see it.
* `Store.Addresses`: a database sees the table, or a join that is about it.
* `Store.Owned`: what a database lists is its own. `Store.Owned.relates`: names and joins lead to what is
  addressed.
* `Store.Addressed`: all aliases of a store are addressed. `Store.addressed_addJoin`,
  `Store.addressed_addFilter`, `Store.addressed_defineView`: each step of a build keeps this.
* `Store.addressed_of_build`: a store that is built is addressed.
* `Store.Strays`: the table comes from a join that leads out of what its database sees.
  `Store.seesTable_or_strays`: nothing else is addressed without being seen.
-/

namespace ObjectRelational.Store

variable {s s' : Store} {d d' : DatabaseId} {table : TableId}

/-! ## Tables that are seen -/

/-- The table is one that the database declares. -/
def Declares (s : Store) (d : DatabaseId) (table : TableId) : Prop :=
  ∃ t, s.table? table = some t ∧ t.database = d

/-- The database sees the one that declares the table. -/
def SeesTable (s : Store) (d : DatabaseId) (table : TableId) : Prop :=
  ∃ owner ∈ s.visibleDatabases d, s.Declares owner table

/-- The database sees the table, or it sees a join that is about the table. -/
def Addresses (s : Store) (d : DatabaseId) (table : TableId) : Prop :=
  s.SeesTable d table ∨ ∃ j ∈ s.joins, j.database ∈ s.visibleDatabases d ∧ table ∈ j.tables

theorem Declares.of_isPrefix (h : s.tables <+: s'.tables) (htable : s.Declares d table) :
    s'.Declares d table := by
  obtain ⟨t, ht, hdatabase⟩ := htable
  exact ⟨t, table?_of_isPrefix h ht, hdatabase⟩

namespace KeepsNames

theorem visibleDatabases_eq (h : KeepsNames s s') (d : DatabaseId) :
    s'.visibleDatabases d = s.visibleDatabases d := by
  unfold visibleDatabases
  rw [h.size_eq, h.includesOf_eq]

theorem declares (h : KeepsNames s s') (htable : s.Declares d table) : s'.Declares d table := by
  obtain ⟨t, ht, hdatabase⟩ := htable
  have hbare := h.table?_eq table
  rw [ht, Option.map_some] at hbare
  obtain ⟨t', ht', hsame⟩ := Option.map_eq_some_iff.1 hbare
  exact ⟨t', ht', (Table.mk.inj hsame).2.2.1.trans hdatabase⟩

theorem addresses (h : KeepsNames s s') (hjoins : s.joins ⊆ s'.joins) (htable : s.Addresses d table) :
    s'.Addresses d table := by
  unfold Addresses SeesTable at htable ⊢
  rw [h.visibleDatabases_eq]
  rcases htable with ⟨owner, howner, hdeclares⟩ | ⟨j, hj, hvisible, hmem⟩
  · exact .inl ⟨owner, howner, h.declares hdeclares⟩
  · exact .inr ⟨j, hjoins hj, hvisible, hmem⟩

end KeepsNames

/-- What a database lists is its own: the tables of its schemas, and its joins. -/
structure Owned (s : Store) : Prop where
  tables : ∀ id d, s.database? id = some d → ∀ schema ∈ d.schemas, ∀ n ∈ schema.tables,
    s.Declares id n.2
  joins : ∀ id d, s.database? id = some d → ∀ n ∈ d.joins,
    ∃ j, s.join? n.2 = some j ∧ j.database = id

/-- What names and joins lead to is addressed. -/
theorem Owned.relates (h : s.Owned) {defaultSchema : String} {database : DatabaseId} :
    (s.resolverIn defaultSchema database).Relates s.Addresses where
  table {d schema name table} hfound := by
    obtain ⟨owner, howner, declared, hdeclared, hfound⟩ := exists_visible_of_findVisible? hfound
    obtain ⟨found, hschema, hfound⟩ := Option.bind_eq_some_iff.1 hfound
    exact .inl ⟨owner, howner, h.tables owner declared hdeclared found
      (List.mem_of_find?_eq_some hschema) _ (mem_of_lookup hfound)⟩
  join {d name id j} hfound hj table htable := by
    obtain ⟨owner, howner, declared, hdeclared, hfound⟩ := exists_visible_of_findVisible? hfound
    obtain ⟨own, hown, hdatabase⟩ := h.joins owner declared hdeclared _ (mem_of_lookup hfound)
    obtain rfl : own = j := Option.some.inj (hown.symm.trans hj)
    exact .inr ⟨own, (hasJoin_of_join? hj).2, hdatabase ▸ howner, htable⟩
  selfJoinTarget := by simp [resolverIn]

/-! ## Schemas -/

section Schemas

variable {database : DatabaseId} {owner : Name} {schema container : String}
  {names names' : List (String × TableId)} {draft draft' : Draft}

theorem Owned.append_table (h : s.Owned) (t : Table) : Owned { s with tables := s.tables ++ [t] } :=
  ⟨fun id d hd schema hschema n hn =>
    (h.tables id d hd schema hschema n hn).of_isPrefix (List.prefix_append _ _), h.joins⟩

theorem declares_nextTable (s : Store) (t : Table) :
    Declares { s with tables := s.tables ++ [t] } t.database s.nextTable :=
  ⟨t, by simp [table?, nextTable], rfl⟩

theorem owned_addTable (hs : s.Owned) (hnames : ∀ n ∈ names, s.Declares database n.2)
    {source : Source.Table}
    (h : addTable database schema container (s, names) source = .ok (s', names')) :
    s'.Owned ∧ ∀ n ∈ names', s'.Declares database n.2 := by
  unfold addTable at h
  dsimp only at h
  split at h
  · exact absurd h (found_ne_ok _ _ _)
  · obtain ⟨columns, -, h⟩ := bind_eq_ok_iff.1 h
    obtain ⟨milestoning, -, h⟩ := bind_eq_ok_iff.1 h
    obtain ⟨rfl, rfl⟩ := Prod.mk.inj (pure_eq_ok_iff.1 h)
    refine ⟨hs.append_table _, List.forall_mem_append.2 ⟨fun n hn => ?_,
      List.forall_mem_singleton.2 (declares_nextTable s _)⟩⟩
    exact (hnames n hn).of_isPrefix (List.prefix_append _ _)

theorem owned_addViewName (hs : draft.store.Owned)
    (hnames : ∀ n ∈ names, draft.store.Declares database n.2) {source : Source.View}
    (h : addViewName database schema container (draft, names) source = .ok (draft', names')) :
    draft'.store.Owned ∧ ∀ n ∈ names', draft'.store.Declares database n.2 := by
  unfold addViewName at h
  dsimp only at h
  split at h
  · exact absurd h (found_ne_ok _ _ _)
  · obtain ⟨rfl, rfl⟩ := Prod.mk.inj (pure_eq_ok_iff.1 h)
    refine ⟨hs.append_table _, List.forall_mem_append.2 ⟨fun n hn => ?_,
      List.forall_mem_singleton.2 (declares_nextTable draft.store _)⟩⟩
    exact (hnames n hn).of_isPrefix (List.prefix_append _ _)

/-- A database may list more of its own. -/
theorem Owned.modifyDatabase (h : s.Owned) {f : Database → Database}
    (htables : ∀ d, ∀ schema ∈ (f d).schemas, schema ∈ d.schemas ∨
      ∀ n ∈ schema.tables, s.Declares database n.2)
    (hjoins : ∀ d, ∀ n ∈ (f d).joins, n ∈ d.joins ∨ ∃ j, s.join? n.2 = some j ∧ j.database = database) :
    (s.modifyDatabase database f).Owned := by
  refine ⟨fun id d hd schema hschema n hn => ?_, fun id d hd n hn => ?_⟩
  all_goals
    rw [database?_modifyDatabase] at hd
    obtain ⟨old, hold, rfl⟩ := Option.map_eq_some_iff.1 hd
  · split at hschema
    · rename_i hsame
      subst hsame
      exact (htables old schema hschema).elim (fun hmem => h.tables _ old hold schema hmem n hn)
        fun hnew => hnew n hn
    · exact h.tables id old hold schema hschema n hn
  · split at hn
    · rename_i hsame
      subst hsame
      exact (hjoins old n hn).elim (h.joins _ old hold n) id
    · exact h.joins id old hold n hn

theorem owned_addSchema (hs : draft.store.Owned) {source : Source.Schema}
    (h : addSchema database owner draft source = .ok draft') : draft'.store.Owned := by
  unfold addSchema at h
  dsimp only at h
  split at h
  · exact absurd h (found_ne_ok _ _ _)
  · obtain ⟨⟨tables, names⟩, htables, h⟩ := bind_eq_ok_iff.1 h
    obtain ⟨⟨views, allNames⟩, hviews, h⟩ := bind_eq_ok_iff.1 h
    obtain rfl := pure_eq_ok_iff.1 h
    obtain ⟨hfirst, hnames⟩ := foldlM_invariant
      (P := fun state : Store × List (String × TableId) =>
        state.1.Owned ∧ ∀ n ∈ state.2, state.1.Declares database n.2)
      (fun _ _ _ _ hbefore hadd => owned_addTable hbefore.1 hbefore.2 hadd) ⟨hs, by simp⟩ htables
    obtain ⟨hsecond, hallNames⟩ := foldlM_invariant
      (P := fun state : Draft × List (String × TableId) =>
        state.1.store.Owned ∧ ∀ n ∈ state.2, state.1.store.Declares database n.2)
      (fun _ _ _ _ hbefore hadd => owned_addViewName hbefore.1 hbefore.2 hadd) ⟨hfirst, hnames⟩ hviews
    refine hsecond.modifyDatabase (fun d schema hschema => ?_) fun d n hn => .inl hn
    refine (List.mem_append.1 hschema).imp_right fun hnew => ?_
    rw [List.mem_singleton.1 hnew]
    exact hallNames

theorem owned_addAllSchemas (hs : s.Owned) {sources : List Source.Database}
    (h : sources.zipIdx.foldlM addSchemas ⟨s, []⟩ = .ok draft) : draft.store.Owned := by
  refine foldlM_invariant (P := fun draft : Draft => draft.store.Owned) ?_ hs h
  rintro before ⟨source, i⟩ - after hbefore hadd
  refine foldlM_invariant (P := fun draft : Draft => draft.store.Owned) ?_ hbefore hadd
  rintro draft schema - draft' hdraft hschema
  exact owned_addSchema hdraft hschema

end Schemas

/-! ## Aliases of a store -/

/-- The aliases of a store: those of the conditions of joins and filters, and those of the views. -/
def aliases (s : Store) : List TableAlias :=
  s.joins.flatMap (·.condition.aliases) ++ s.filters.flatMap (·.condition.aliases) ++
    s.tables.flatMap fun t => t.view.toList.flatMap View.aliases

/-- What a database lists is its own, and all aliases of the store are addressed. -/
structure Addressed (s : Store) : Prop where
  owned : s.Owned
  aliases : ∀ a ∈ s.aliases, a.Through s.Addresses

theorem aliases_of_draft (hjoins : s.joins = []) (hfilters : s.filters = [])
    (hplain : ∀ t ∈ s.tables, t.view = none) : s.aliases = [] := by
  unfold aliases
  rw [hjoins, hfilters, List.flatMap_nil, List.flatMap_nil, List.nil_append, List.nil_append,
    List.flatMap_eq_nil_iff]
  intro t ht
  rw [hplain t ht]
  rfl

section Steps

variable {defaultSchema : String} {database : DatabaseId} {owner : Name}

/-- The condition of a join holds what the resolver leads to, and its far side is one of its tables. -/
theorem through_of_resolveJoin {R : DatabaseId → TableId → Prop}
    (hr : (s.resolverIn defaultSchema database).Relates R) {source : Source.Join} {join : Join}
    (h : (s.resolveJoin defaultSchema database source).result = .ok join)
    (hjoin : ∀ table ∈ join.tables, R database table) : ∀ a ∈ join.condition.aliases, a.Through R := by
  obtain ⟨-, -, far, hfar, hcondition⟩ := exists_of_resolveJoin h
  have hr' : Resolver.Relates { s.resolverIn defaultSchema database with selfJoinTarget := far } R := by
    refine ⟨hr.table, hr.join, fun a ha => ?_⟩
    obtain ⟨table, htable, rfl⟩ := hfar a ha
    exact hjoin table htable
  exact Resolver.resolve_through hr' none (by simp) _ _ hcondition

theorem through_of_resolveFilter {R : DatabaseId → TableId → Prop}
    (hr : (s.resolverIn defaultSchema database).Relates R) {source : Source.Filter} {filter : Filter}
    (h : (s.resolveFilter defaultSchema database source).result = .ok filter) :
    ∀ a ∈ filter.condition.aliases, a.Through R :=
  Resolver.resolve_through hr none (by simp) _ _ (resolvedFilter_of_resolveFilter h).condition

/-! ## Joins and filters -/

theorem Owned.append_join (h : s.Owned) (join : Join) : Owned { s with joins := s.joins ++ [join] } := by
  refine ⟨h.tables, fun id d hd n hn => ?_⟩
  obtain ⟨j, hj, hdatabase⟩ := h.joins id d hd n hn
  exact ⟨j, (List.getElem?_append_left (hasJoin_of_join? hj).1).trans hj, hdatabase⟩

theorem keepsNames_withJoin (s : Store) (database : DatabaseId) (name : String) (join : Join) :
    KeepsNames s (s.withJoin database name join) := by
  have hadded : KeepsNames s { s with joins := s.joins ++ [join] } := ⟨rfl, rfl⟩
  exact hadded.modifyDatabase database fun _ => rfl

theorem keepsNames_withFilter (s : Store) (database : DatabaseId) (name : String) (filter : Filter) :
    KeepsNames s (s.withFilter database name filter) := by
  have hadded : KeepsNames s { s with filters := s.filters ++ [filter] } := ⟨rfl, rfl⟩
  exact hadded.modifyDatabase database fun _ => rfl

theorem mem_aliases_withJoin {name : String} {join : Join} {a : TableAlias}
    (h : a ∈ (s.withJoin database name join).aliases) : a ∈ s.aliases ∨ a ∈ join.condition.aliases := by
  simp only [aliases, withJoin, modifyDatabase, List.flatMap_append, List.flatMap_singleton,
    List.mem_append] at h ⊢
  tauto

theorem mem_aliases_withFilter {name : String} {filter : Filter} {a : TableAlias}
    (h : a ∈ (s.withFilter database name filter).aliases) :
    a ∈ s.aliases ∨ a ∈ filter.condition.aliases := by
  simp only [aliases, withFilter, modifyDatabase, List.flatMap_append, List.flatMap_singleton,
    List.mem_append] at h ⊢
  tauto

/-- What holds for a database and its tables holds for them in the store with one more join. -/
theorem addresses_withJoin {name : String} {join : Join} (h : s.Addresses d table) :
    (s.withJoin database name join).Addresses d table :=
  (keepsNames_withJoin s database name join).addresses (List.subset_append_left _ _) h

/-- A join is addressed in its own database, which sees it from now on. -/
theorem addressed_addJoin (hs : s.Closed) (hdatabase : s.HasDatabase database) (h : s.Addressed)
    {source : Source.Join} (hadd : (addJoin defaultSchema database owner s source).result = .ok s') :
    s'.Addressed := by
  obtain ⟨-, join, hjoin, rfl⟩ := exists_of_addJoin hadd
  have hr : (s.resolverIn defaultSchema database).Relates
      (s.withJoin database source.name.value join).Addresses :=
    h.owned.relates.mono fun _ _ => addresses_withJoin
  have hjoined : join.database = database := (exists_of_resolveJoin hjoin).1
  have hself : database ∈ (s.withJoin database source.name.value join).visibleDatabases database := by
    rw [(keepsNames_withJoin s database source.name.value join).visibleDatabases_eq]
    exact mem_visibleDatabases_self hs hdatabase
  have hcondition := through_of_resolveJoin hr hjoin fun table htable =>
    .inr ⟨join, List.mem_append_right _ List.mem_cons_self, hjoined ▸ hself, htable⟩
  refine ⟨(h.owned.append_join join).modifyDatabase (fun _ _ => .inl) (fun d n hn => ?_), ?_⟩
  · refine (List.mem_append.1 hn).imp_right fun hnew => ?_
    rw [List.mem_singleton.1 hnew]
    exact ⟨join, by simp [join?], hjoined⟩
  · intro a ha
    exact (mem_aliases_withJoin ha).elim (fun hold => addresses_withJoin (h.aliases a hold))
      (hcondition a)

theorem addressed_addFilter (h : s.Addressed) {source : Source.Filter}
    (hadd : (addFilter defaultSchema database owner s source).result = .ok s') : s'.Addressed := by
  obtain ⟨-, filter, hfilter, rfl⟩ := exists_of_addFilter hadd
  have hmono : ∀ {d table}, s.Addresses d table →
      (s.withFilter database source.name.value filter).Addresses d table :=
    (keepsNames_withFilter s database source.name.value filter).addresses (List.Subset.refl _)
  have hcondition := through_of_resolveFilter h.owned.relates hfilter
  have howned : Owned { s with filters := s.filters ++ [filter] } := ⟨h.owned.tables, h.owned.joins⟩
  refine ⟨howned.modifyDatabase (fun _ _ => .inl) (fun _ _ => .inl), fun a ha => ?_⟩
  exact hmono ((mem_aliases_withFilter ha).elim (h.aliases a) (hcondition a))

theorem addressed_addJoinsAndFilters (hs : s.Closed) (hdatabase : s.HasDatabase database)
    (h : s.Addressed) {source : Source.Database}
    (hadd : (addJoinsAndFilters defaultSchema s database source).result = .ok s') : s'.Addressed := by
  unfold addJoinsAndFilters at hadd
  obtain ⟨joined, hjoins, hfilters⟩ := Recorded.result_bind_eq_ok_iff.1 hadd
  rw [Recorded.result_foldlM] at hjoins hfilters
  have hjoined : s.Extends joined ∧ joined.Addressed := by
    refine foldlM_invariant (P := fun s' : Store => s.Extends s' ∧ s'.Addressed) ?_
      ⟨hs.extends_self, h⟩ hjoins
    rintro before join - after ⟨hextends, haddressed⟩ hadd
    have hknown := hextends.grows.database hdatabase
    exact ⟨hextends.trans (extends_addJoin hextends.closed hknown hadd).1,
      addressed_addJoin hextends.closed hknown haddressed hadd⟩
  exact foldlM_invariant (P := Addressed) (fun _ _ _ _ hbefore => addressed_addFilter hbefore) hjoined.2
    hfilters

/-! ## Views -/

theorem keepsNames_withView (s : Store) (table : TableId) (view : View) :
    KeepsNames s (s.withView table view) :=
  (KeepsNames.refl s).modifyTable table fun _ => rfl

theorem mem_aliases_withView {view : View} {a : TableAlias} (h : a ∈ (s.withView table view).aliases) :
    a ∈ s.aliases ∨ a ∈ view.aliases := by
  unfold aliases at h ⊢
  rcases List.mem_append.1 h with h | h
  · exact .inl (List.mem_append_left _ h)
  · obtain ⟨t, ht, ha⟩ := List.mem_flatMap.1 h
    rcases mem_or_of_mem_modify ht with ht | ⟨old, -, rfl⟩
    · exact .inl (List.mem_append_right _ (List.mem_flatMap.2 ⟨t, ht, ha⟩))
    · exact .inr (by simpa using ha)

theorem addressed_defineView (h : s.Addressed) {pending : TableId × DatabaseId × Source.View}
    (hdefine : (defineView defaultSchema s pending).result = .ok s') : s'.Addressed := by
  rw [defineView_eq, Recorded.result_map] at hdefine
  obtain ⟨view, hview, rfl⟩ := map_eq_ok_iff.1 hdefine
  have hkeeps := keepsNames_withView s pending.1 view
  have hmono : ∀ {d table}, s.Addresses d table → (s.withView pending.1 view).Addresses d table :=
    hkeeps.addresses (List.Subset.refl _)
  have hcondition := Resolver.through_of_view h.owned.relates hview
  refine ⟨⟨fun id d hd schema hschema n hn => ?_, h.owned.joins⟩, fun a ha => ?_⟩
  · exact hkeeps.declares (h.owned.tables id d hd schema hschema n hn)
  · exact hmono ((mem_aliases_withView ha).elim (h.aliases a) (hcondition a))

end Steps

/-! ## All phases -/

/-- A store that is built is addressed. -/
theorem addressed_of_build {settings : ResolutionSettings} {sources : List Source.Database}
    (h : build settings sources = .ok s) : s.Addressed := by
  obtain ⟨included, draft, joined, built, hnames, hincludes, hdraft, hjoins, hviews, rfl⟩ :=
    exists_phases_of_build h
  have hincluded := included_of_forEach hnames hincludes
  have hdeclared := declared_of_addSchemas hnames hincluded hdraft
  obtain ⟨hextends, -, hdatabases⟩ :=
    extends_of_phases (foldlM_addDatabase_eq_ok_iff.2 ⟨hnames, rfl⟩) hincludes hdraft
  -- nothing is listed before the third phase, which lists tables, and nothing has a condition there
  have hstart : included.Owned := by
    refine ⟨fun id d hd schema hschema => ?_, fun id d hd n hn => ?_⟩
    · rw [(hincluded.empty d (List.mem_of_getElem? hd)).1] at hschema
      cases hschema
    · rw [(hincluded.empty d (List.mem_of_getElem? hd)).2.1] at hn
      cases hn
  have hfront : draft.store.Addressed := by
    refine ⟨owned_addAllSchemas hstart hdraft, ?_⟩
    rw [aliases_of_draft hdeclared.joins hdeclared.filters hdeclared.plain]
    simp
  have hmiddle : draft.store.Extends joined ∧ joined.Addressed := by
    refine forEach_invariant (P := fun s => draft.store.Extends s ∧ s.Addressed) ?_
      ⟨hextends.closed.extends_self, hfront⟩ hjoins
    rintro before i hi source after ⟨hgrown, haddressed⟩ hadd
    have hknown := hgrown.grows.database (hextends.grows.database (hdatabases i hi))
    exact ⟨hgrown.trans (extends_addJoinsAndFilters hgrown.closed hknown hadd).1,
      addressed_addJoinsAndFilters hgrown.closed hknown haddressed hadd⟩
  rw [Recorded.result_foldlM] at hviews
  have hbuilt : built.Addressed :=
    foldlM_invariant (P := Addressed) (fun _ _ _ _ hbefore => addressed_defineView hbefore) hmiddle.2
      hviews
  exact ⟨⟨hbuilt.owned.tables, hbuilt.owned.joins⟩, hbuilt.aliases⟩

/-! ## Tables that are not seen -/

/-- A join that the database sees is about the table, and the database of the join does not see the
table. -/
def Strays (s : Store) (d : DatabaseId) (table : TableId) : Prop :=
  ∃ j ∈ s.joins, j.database ∈ s.visibleDatabases d ∧ table ∈ j.tables ∧ ¬ s.SeesTable j.database table

/-- What is addressed without being seen is brought along by a join. -/
theorem seesTable_or_strays (hs : s.Closed) (h : s.Addresses d table) :
    s.SeesTable d table ∨ s.Strays d table := by
  rcases h with hsees | ⟨j, hj, hvisible, htable⟩
  · exact .inl hsees
  · by_cases hsees : s.SeesTable j.database table
    · -- seeing is transitive
      obtain ⟨owner, howner, hdeclares⟩ := hsees
      have hd := hasDatabase_of_mem_visible hvisible (hs.joins j hj).database
      exact .inl ⟨owner, visibleDatabases_subset hs hd hvisible howner, hdeclares⟩
    · exact .inr ⟨j, hj, hvisible, htable, hsees⟩

/-- A database that is addressed is one of the store. -/
theorem hasDatabase_of_addresses (hs : s.Closed) (h : s.Addresses d table) : s.HasDatabase d := by
  rcases h with ⟨owner, howner, t, ht, rfl⟩ | ⟨j, hj, hvisible, -⟩
  · exact hasDatabase_of_mem_visible howner (hs.tables t (hasTable_of_table? ht).2).database
  · exact hasDatabase_of_mem_visible hvisible (hs.joins j hj).database

/-- A database that sees as much as another one addresses what the other one does. -/
theorem addresses_of_subset (hsubset : s.visibleDatabases d ⊆ s.visibleDatabases d')
    (h : s.Addresses d table) : s.Addresses d' table := by
  rcases h with ⟨owner, howner, hdeclares⟩ | ⟨j, hj, hvisible, htable⟩
  · exact .inl ⟨owner, hsubset howner, hdeclares⟩
  · exact .inr ⟨j, hj, hsubset hvisible, htable⟩

end ObjectRelational.Store
