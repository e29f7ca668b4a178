import ObjectRelational.Proofs.Graph.Reachability
import ObjectRelational.Proofs.Lookup
import ObjectRelational.Proofs.Recorded
import ObjectRelational.Proofs.Store.Bounds
import ObjectRelational.Store.View

/-!
# What resolves fits

An expression that resolves against a closed store fits in it: names are looked up in what the store
lists, joins are followed from one side to the other, and columns are checked to be there.

* `Store.Answers`: no lookup leads out of a store. `Store.Closed.answers`: none does in a closed one.
* `Resolver.Closed`: a resolver over a closed store, whose own handles fit.
* `Resolver.fitsIn_of_lookupTable` and its companions: what a name denotes fits.
* `Resolver.fitsIn_of_steps`: threaded joins fit, and end within bounds.
* `Resolver.resolve_fits`: so does an expression that resolves from a table that fits.
* `Resolver.fitsIn_of_filter`, `Resolver.fitsIn_of_view`: and so do filters and views.
-/

namespace ObjectRelational

/-- A join leads from one of its tables to one of them. -/
theorem Join.mem_tables_of_otherSide? {j : Join} {source target : TableId}
    (h : j.otherSide? source = some target) : source ∈ j.tables ∧ target ∈ j.tables := by
  unfold otherSide? at h
  split at h
  · split at h
    · rename_i hcontains
      obtain rfl := Option.some.inj h
      have hmem : source ∈ j.tables := by simpa [contains] using hcontains
      exact ⟨hmem, hmem⟩
    · cases h
  · split at h
    · rename_i a b hab
      rw [hab]
      split at h
      · rename_i hsource
        obtain rfl := Option.some.inj h
        simp [hsource]
      · split at h
        · rename_i hsource
          obtain rfl := Option.some.inj h
          simp [hsource]
        · cases h
    · cases h

namespace Store

variable {store : Store}

/-! ## Elements by handle -/

theorem hasDatabase_of_database? {id : DatabaseId} {d : Database} (h : store.database? id = some d) :
    store.HasDatabase id ∧ d ∈ store.databases :=
  ⟨(List.getElem?_eq_some_iff.1 h).1, List.mem_of_getElem? h⟩

theorem hasTable_of_table? {id : TableId} {t : Table} (h : store.table? id = some t) :
    store.HasTable id ∧ t ∈ store.tables :=
  ⟨(List.getElem?_eq_some_iff.1 h).1, List.mem_of_getElem? h⟩

theorem hasJoin_of_join? {id : JoinId} {j : Join} (h : store.join? id = some j) :
    store.HasJoin id ∧ j ∈ store.joins :=
  ⟨(List.getElem?_eq_some_iff.1 h).1, List.mem_of_getElem? h⟩

theorem hasFilter_of_filter? {id : FilterId} {f : Filter} (h : store.filter? id = some f) :
    store.HasFilter id ∧ f ∈ store.filters :=
  ⟨(List.getElem?_eq_some_iff.1 h).1, List.mem_of_getElem? h⟩

theorem hasDatabase_of_databaseNamed? {name : String} {id : DatabaseId}
    (h : store.databaseNamed? name = some id) : store.HasDatabase id := by
  obtain ⟨index, hindex, rfl⟩ := Option.map_eq_some_iff.1 h
  exact (List.findIdx?_eq_some_iff_getElem.1 hindex).1

/-- What a visible database declares is declared by a database of the store. -/
theorem exists_of_findVisible? {α : Type} {id : DatabaseId} {declared : Database → Option α} {a : α}
    (h : store.findVisible? id declared = some a) : ∃ d ∈ store.databases, declared d = some a := by
  obtain ⟨visible, -, hdeclared⟩ := List.exists_of_findSome?_eq_some h
  obtain ⟨d, hd, hdeclared⟩ := Option.bind_eq_some_iff.1 hdeclared
  exact ⟨d, (hasDatabase_of_database? hd).2, hdeclared⟩

theorem mem_of_lookup {α : Type} {l : List (String × α)} {name : String} {a : α}
    (h : l.lookup name = some a) : (name, a) ∈ l := by
  obtain ⟨before, after, rfl, -⟩ := List.lookup_eq_some_iff.1 h
  simp

theorem Closed.hasTable_of_findTable? (hstore : store.Closed) {id : DatabaseId} {schema name : String}
    {table : TableId} (h : store.findTable? id schema name = some table) : store.HasTable table := by
  obtain ⟨d, hd, hdeclared⟩ := exists_of_findVisible? h
  obtain ⟨s, hs, htable⟩ := Option.bind_eq_some_iff.1 hdeclared
  exact (hstore.databases d hd).tables s (List.mem_of_find?_eq_some hs) _ (mem_of_lookup htable)

theorem Closed.hasJoin_of_findJoin? (hstore : store.Closed) {id : DatabaseId} {name : String}
    {join : JoinId} (h : store.findJoin? id name = some join) : store.HasJoin join := by
  obtain ⟨d, hd, hdeclared⟩ := exists_of_findVisible? h
  exact (hstore.databases d hd).joins _ (mem_of_lookup hdeclared)

theorem Closed.hasFilter_of_findFilter? (hstore : store.Closed) {id : DatabaseId} {name : String}
    {filter : FilterId} (h : store.findFilter? id name = some filter) : store.HasFilter filter := by
  obtain ⟨d, hd, hdeclared⟩ := exists_of_findVisible? h
  exact (hstore.databases d hd).filters _ (mem_of_lookup hdeclared)

/-- What a database sees are databases of the store. -/
theorem Closed.hasDatabase_of_mem_visibleDatabases (hstore : store.Closed) {id : DatabaseId}
    (hid : store.HasDatabase id) : ∀ d ∈ store.visibleDatabases id, store.HasDatabase d := by
  intro d hd
  obtain ⟨start, hstart, hreaches⟩ := Graph.reaches_of_mem_breadthFirst hd
  obtain rfl := List.mem_singleton.1 hstart
  refine hreaches.mem_of_forall_step (s := store.HasDatabase) (fun a _ b hb => ?_) hid
  unfold includesOf at hb
  split at hb
  · rename_i found hfound
    exact (hstore.databases found (hasDatabase_of_database? hfound).2).includes b hb
  · simp at hb

/-- The far side of a join is a table of the store. -/
theorem Closed.hasTable_of_otherSide? (hstore : store.Closed) {id : JoinId} {j : Join}
    (hj : store.join? id = some j) {source target : TableId}
    (h : j.otherSide? source = some target) : store.HasTable source ∧ store.HasTable target := by
  have htables := (hstore.joins j (hasJoin_of_join? hj).2).tables
  obtain ⟨hsource, htarget⟩ := Join.mem_tables_of_otherSide? h
  exact ⟨htables source hsource, htables target htarget⟩

/-- No lookup in the store leads out of it: names denote elements of the store, a database sees
databases of the store, and what an element belongs to or is about is an element of the store. -/
structure Answers (store : Store) : Prop where
  databaseNamed : ∀ name id, store.databaseNamed? name = some id → (store.database? id).isSome
  visible : ∀ id, store.HasDatabase id → ∀ d ∈ store.visibleDatabases id, (store.database? d).isSome
  findTable : ∀ id schema name table, store.findTable? id schema name = some table →
    (store.table? table).isSome
  findJoin : ∀ id name join, store.findJoin? id name = some join → (store.join? join).isSome
  findFilter : ∀ id name filter, store.findFilter? id name = some filter →
    (store.filter? filter).isSome
  ofTable : ∀ id t, store.table? id = some t → (store.database? t.database).isSome ∧
    ∀ c ∈ t.columns, (store.table? c.table).isSome
  ofJoin : ∀ id j, store.join? id = some j → (store.database? j.database).isSome ∧
    ∀ t ∈ j.tables, (store.table? t).isSome
  ofFilter : ∀ id f, store.filter? id = some f → (store.database? f.database).isSome ∧
    ∀ t ∈ f.tables, (store.table? t).isSome

theorem isSome_database?_iff {id : DatabaseId} :
    (store.database? id).isSome ↔ store.HasDatabase id := by
  simp [database?, HasDatabase]

theorem isSome_table?_iff {id : TableId} : (store.table? id).isSome ↔ store.HasTable id := by
  simp [table?, HasTable]

theorem isSome_join?_iff {id : JoinId} : (store.join? id).isSome ↔ store.HasJoin id := by
  simp [join?, HasJoin]

theorem isSome_filter?_iff {id : FilterId} : (store.filter? id).isSome ↔ store.HasFilter id := by
  simp [filter?, HasFilter]

theorem Closed.answers (hstore : store.Closed) : store.Answers where
  databaseNamed _ _ h := isSome_database?_iff.2 (hasDatabase_of_databaseNamed? h)
  visible _ h d hd := isSome_database?_iff.2 (hstore.hasDatabase_of_mem_visibleDatabases h d hd)
  findTable _ _ _ _ h := isSome_table?_iff.2 (hstore.hasTable_of_findTable? h)
  findJoin _ _ _ h := isSome_join?_iff.2 (hstore.hasJoin_of_findJoin? h)
  findFilter _ _ _ h := isSome_filter?_iff.2 (hstore.hasFilter_of_findFilter? h)
  ofTable _ t h := by
    have ht := hstore.tables t (hasTable_of_table? h).2
    exact ⟨isSome_database?_iff.2 ht.database, fun c hc => isSome_table?_iff.2 (ht.columns c hc)⟩
  ofJoin _ j h := by
    have hj := hstore.joins j (hasJoin_of_join? h).2
    exact ⟨isSome_database?_iff.2 hj.database, fun t ht => isSome_table?_iff.2 (hj.tables t ht)⟩
  ofFilter _ f h := by
    have hf := hstore.filters f (hasFilter_of_filter? h).2
    exact ⟨isSome_database?_iff.2 hf.database, fun t ht => isSome_table?_iff.2 (hf.tables t ht)⟩

end Store

namespace Resolver

/-- The store of the resolver is closed, and the handles of the resolver fit in it. -/
structure Closed (r : Resolver) : Prop where
  store : r.store.Closed
  database : r.store.HasDatabase r.database
  selfJoinTarget : ∀ a, r.selfJoinTarget = some a → a.FitsIn r.store

variable {r : Resolver}

/-! ## Lookups -/

theorem hasDatabase_of_lookupDatabase {name : Name} {id : DatabaseId}
    (h : r.lookupDatabase name = .ok id) : r.store.HasDatabase id := by
  unfold lookupDatabase at h
  split at h
  · rename_i found hfound
    obtain rfl := Except.ok.inj h
    exact Store.hasDatabase_of_databaseNamed? hfound
  · exact absurd h (found_ne_ok _ _ _)

theorem hasDatabase_of_lookupAddressed (hr : r.Closed) {marker : Option Name} {id : DatabaseId}
    (h : r.lookupAddressed marker = .ok id) : r.store.HasDatabase id := by
  cases marker with
  | none =>
    obtain rfl := Except.ok.inj h
    exact hr.database
  | some name => exact hasDatabase_of_lookupDatabase h

theorem fitsIn_of_lookupTable (hr : r.Closed) {database schema : Option Name} {table : Name}
    {found : TableAlias} (h : r.lookupTable database schema table = .ok found) :
    found.FitsIn r.store := by
  unfold lookupTable at h
  obtain ⟨id, hid, h⟩ := bind_eq_ok_iff.1 h
  cases schema
  all_goals
    dsimp only at h
    split at h
    · split at h
      · rename_i id' hfound
        obtain rfl := pure_eq_ok_iff.1 h
        exact ⟨hr.store.hasTable_of_findTable? hfound, hasDatabase_of_lookupAddressed hr hid⟩
      · exact absurd h (found_ne_ok _ _ _)
    · exact absurd h (found_ne_ok _ _ _)

/-- A join that is found is the one that its name denotes in the database that it is addressed in. -/
theorem lookupJoin_eq_ok_iff {reference : Source.JoinReference} {id : JoinId} {join : Join}
    {database : DatabaseId} : r.lookupJoin reference = .ok (id, join, database) ↔
      r.lookupAddressed reference.database = .ok database ∧
        r.store.findJoin? database reference.name.value = some id ∧ r.store.join? id = some join := by
  unfold lookupJoin
  rw [bind_eq_ok_iff]
  constructor
  · rintro ⟨addressed, haddressed, h⟩
    split at h
    · exact absurd h (found_ne_ok _ _ _)
    · rename_i named hnamed
      split at h
      · exact absurd h (found_ne_ok _ _ _)
      · rename_i found hfound
        obtain ⟨rfl, hrest⟩ := Prod.mk.inj (pure_eq_ok_iff.1 h)
        obtain ⟨rfl, rfl⟩ := Prod.mk.inj hrest
        exact ⟨haddressed, hnamed, hfound⟩
  · rintro ⟨haddressed, hnamed, hfound⟩
    refine ⟨database, haddressed, ?_⟩
    rw [hnamed]
    dsimp only
    rw [hfound]
    rfl

theorem join?_of_lookupJoin (hr : r.Closed) {reference : Source.JoinReference} {id : JoinId}
    {join : Join} {database : DatabaseId} (h : r.lookupJoin reference = .ok (id, join, database)) :
    r.store.join? id = some join ∧ r.store.HasDatabase database := by
  obtain ⟨haddressed, -, hfound⟩ := lookupJoin_eq_ok_iff.1 h
  exact ⟨hfound, hasDatabase_of_lookupAddressed hr haddressed⟩

/-! ## Where expressions start -/

theorem hasTable_of_walkBack (hr : r.Closed) {cursor first : TableId} {joins : List Source.JoinReference}
    (hcursor : r.store.HasTable cursor) (h : r.walkBack cursor joins = .ok first) :
    r.store.HasTable first := by
  induction joins generalizing cursor with
  | nil =>
    obtain rfl := Except.ok.inj h
    exact hcursor
  | cons reference rest ih =>
    unfold walkBack at h
    obtain ⟨⟨id, join, database⟩, hjoin, h⟩ := bind_eq_ok_iff.1 h
    dsimp only at h
    split at h
    · rename_i before hbefore
      have hfound := (join?_of_lookupJoin hr hjoin).1
      exact ih (hr.store.hasTable_of_otherSide? hfound hbefore).2 h
    · exact absurd h (found_ne_ok _ _ _)

theorem fitsIn_of_sourceFromEnd (hr : r.Closed) {joins : List Source.JoinReference}
    {terminal : Option TableAlias} {source : TableAlias}
    (hterminal : ∀ a, terminal = some a → a.FitsIn r.store)
    (h : r.sourceFromEnd joins terminal = .ok (some source)) : source.FitsIn r.store := by
  unfold sourceFromEnd at h
  split at h
  · cases h
  · rename_i terminal
    obtain ⟨cursor, hcursor, h⟩ := bind_eq_ok_iff.1 h
    have htable := hasTable_of_walkBack hr (hterminal _ rfl).table hcursor
    dsimp only at h
    split at h
    · obtain ⟨database, hdatabase, h⟩ := bind_eq_ok_iff.1 h
      obtain rfl := Option.some.inj (pure_eq_ok_iff.1 h)
      exact ⟨htable, hasDatabase_of_lookupAddressed hr hdatabase⟩
    · obtain ⟨database, hdatabase, h⟩ := bind_eq_ok_iff.1 h
      obtain rfl := Option.some.inj (pure_eq_ok_iff.1 h)
      obtain rfl := Except.ok.inj hdatabase
      exact ⟨htable, (hterminal _ rfl).database⟩

mutual

theorem sources_fit (hr : r.Closed) : (operation : Source.Operation) →
    ∀ found, r.sources operation = .ok found → ∀ a ∈ found, a.FitsIn r.store
  | .column reference => by
    intro found h
    unfold sources at h
    obtain ⟨a, ha, h⟩ := bind_eq_ok_iff.1 h
    obtain rfl := pure_eq_ok_iff.1 h
    simpa using fitsIn_of_lookupTable hr ha
  | .joinPath joins target => by
    intro found h
    unfold sources at h
    obtain ⟨source, hsource, h⟩ := bind_eq_ok_iff.1 h
    obtain rfl := pure_eq_ok_iff.1 h
    cases source with
    | none => simp
    | some a => simpa using sourceOfPath_fits hr joins target a hsource
  | .function _ arguments => by
    intro found h
    unfold sources at h
    exact sourcesOfAll_fit hr arguments found h
  | .targetColumn _ => by
    intro found h
    unfold sources at h
    obtain rfl := Except.ok.inj h
    simp
  | .literal _ => by
    intro found h
    unfold sources at h
    obtain rfl := Except.ok.inj h
    simp

theorem sourceOfPath_fits (hr : r.Closed) (joins : List Source.JoinReference) :
    (target : Option Source.Operation) → ∀ source, r.sourceOfPath joins target = .ok (some source) →
      source.FitsIn r.store
  | none => by
    intro source h
    unfold sourceOfPath at h
    cases h
  | some target => by
    intro source h
    unfold sourceOfPath at h
    obtain ⟨found, hfound, h⟩ := bind_eq_ok_iff.1 h
    exact fitsIn_of_sourceFromEnd hr
      (fun a ha => sources_fit hr target found hfound a (List.mem_of_head? ha)) h

theorem sourcesOfAll_fit (hr : r.Closed) : (l : List Source.Operation) →
    ∀ found, r.sourcesOfAll l = .ok found → ∀ a ∈ found, a.FitsIn r.store
  | [] => by
    intro found h
    unfold sourcesOfAll at h
    obtain rfl := Except.ok.inj h
    simp
  | argument :: rest => by
    intro found h
    unfold sourcesOfAll at h
    obtain ⟨first, hfirst, h⟩ := bind_eq_ok_iff.1 h
    obtain ⟨others, hothers, h⟩ := bind_eq_ok_iff.1 h
    obtain rfl := pure_eq_ok_iff.1 h
    intro a ha
    exact (List.mem_append.1 ha).elim (sources_fit hr argument first hfirst a)
      (sourcesOfAll_fit hr rest others hothers a)

end

theorem inferRoots_fit (hr : r.Closed) {operation : Source.Operation} {roots : List TableAlias}
    (h : r.inferRoots operation = .ok roots) : ∀ a ∈ roots, a.FitsIn r.store := by
  obtain ⟨found, hfound, rfl⟩ := map_eq_ok_iff.1 h
  exact fun a ha => sources_fit hr operation found hfound a (List.mem_eraseDups.1 ha)

theorem tablesOf_fit (hr : r.Closed) {references : List Source.ColumnReference} {tables : List TableId}
    (h : r.tablesOf references = .ok tables) : ∀ t ∈ tables, r.store.HasTable t := by
  induction references generalizing tables with
  | nil =>
    obtain rfl := Except.ok.inj h
    simp
  | cons reference rest ih =>
    unfold tablesOf at h
    obtain ⟨found, hfound, h⟩ := bind_eq_ok_iff.1 h
    obtain ⟨others, hothers, h⟩ := bind_eq_ok_iff.1 h
    obtain rfl := pure_eq_ok_iff.1 h
    exact List.forall_mem_cons.2 ⟨(fitsIn_of_lookupTable hr hfound).table, ih hothers⟩

theorem referencedTables_fit (hr : r.Closed) {operation : Source.Operation} {tables : List TableId}
    (h : r.referencedTables operation = .ok tables) : ∀ t ∈ tables, r.store.HasTable t := by
  obtain ⟨found, hfound, rfl⟩ := map_eq_ok_iff.1 h
  exact fun t ht => tablesOf_fit hr hfound t (List.mem_eraseDups.1 ht)

/-! ## Names -/

theorem hasDatabase_of_addressed (hr : r.Closed) {marker : Option Name} {id : DatabaseId}
    (h : (r.addressed marker).result = .ok id) : r.store.HasDatabase id := by
  unfold addressed at h
  obtain ⟨found, hfound, h⟩ := Recorded.result_bind_eq_ok_iff.1 h
  rw [Recorded.result_monadLift] at hfound
  have hdatabase := hasDatabase_of_lookupAddressed hr hfound
  cases marker with
  | none =>
    obtain rfl := Except.ok.inj h
    exact hdatabase
  | some name =>
    obtain ⟨_, -, h⟩ := Recorded.result_bind_eq_ok_iff.1 h
    obtain rfl := Except.ok.inj h
    exact hdatabase

theorem fitsIn_of_table (hr : r.Closed) {database schema : Option Name} {table : Name}
    {found : TableAlias} (h : (r.table database schema table).result = .ok found) :
    found.FitsIn r.store := by
  simp only [Resolver.table, Recorded.result_bind_eq_ok_iff, Recorded.result_pure] at h
  obtain ⟨resolved, hresolved, _, -, _, -, h⟩ := h
  obtain rfl := Except.ok.inj h
  exact fitsIn_of_lookupTable hr hresolved

/-- A column that resolves is one of its table. -/
theorem fitsIn_of_columnOf {owner : TableAlias} (howner : owner.FitsIn r.store) {column : Name}
    {reference : ColumnRef} (h : (r.columnOf owner column).result = .ok reference) :
    reference.FitsIn r.store := by
  unfold columnOf at h
  split at h
  · rename_i hsome
    simp only [Recorded.result_bind_eq_ok_iff, Recorded.result_pure] at h
    obtain ⟨_, -, h⟩ := h
    obtain rfl := Except.ok.inj h
    obtain ⟨found, hfound⟩ := Option.isSome_iff_exists.1 hsome
    obtain ⟨t, ht, hcolumn⟩ := Option.bind_eq_some_iff.1 hfound
    exact ⟨howner, t, ht, by simp [hcolumn]⟩
  · exact absurd h (found_ne_ok _ _ _)

theorem fitsIn_of_column (hr : r.Closed) {source : Source.ColumnReference} {reference : ColumnRef}
    (h : (r.column source).result = .ok reference) : reference.FitsIn r.store := by
  obtain ⟨owner, howner, h⟩ := Recorded.result_bind_eq_ok_iff.1 h
  exact fitsIn_of_columnOf (fitsIn_of_table hr howner) h

/-! ## Paths -/

/-- Joins that are threaded from a table fit, and end on a table. -/
theorem fitsIn_of_steps (hr : r.Closed) {cursor : TableId} (hcursor : r.store.HasTable cursor)
    {joins : List Source.JoinReference} {steps : List JoinStep}
    (h : (r.steps cursor joins).result = .ok steps) : ∀ step ∈ steps, step.FitsIn r.store := by
  induction joins generalizing cursor steps with
  | nil =>
    obtain rfl := Except.ok.inj h
    simp
  | cons reference rest ih =>
    unfold Resolver.steps at h
    simp only [Recorded.result_bind_eq_ok_iff] at h
    obtain ⟨⟨id, join, database⟩, hjoin, _, -, _, -, hrest⟩ := h
    dsimp only at hrest
    split at hrest
    · exact absurd hrest (found_ne_ok _ _ _)
    · rename_i next hnext
      obtain ⟨following, hfollowing, hsteps⟩ := Recorded.result_bind_eq_ok_iff.1 hrest
      obtain rfl := Except.ok.inj hsteps
      obtain ⟨hfound, hdatabase⟩ := join?_of_lookupJoin hr hjoin
      obtain ⟨hsource, htarget⟩ := hr.store.hasTable_of_otherSide? hfound hnext
      exact List.forall_mem_cons.2 ⟨⟨(Store.hasJoin_of_join? hfound).1, hdatabase, hsource, htarget,
        join, hfound, hnext⟩, ih htarget hfollowing⟩

theorem fitsIn_endAlias {source : TableAlias} (hsource : source.FitsIn r.store)
    {steps : List JoinStep} (hsteps : ∀ step ∈ steps, step.FitsIn r.store) :
    (endAlias source steps).FitsIn r.store := by
  unfold endAlias
  cases hlast : steps.getLast? with
  | none => exact hsource
  | some step =>
    have hstep := hsteps step (List.mem_of_getLast? hlast)
    exact ⟨hstep.target, hstep.database⟩

theorem fitsIn_of_startOf (hr : r.Closed) {path : Source.JoinPath} {source : Option TableAlias}
    (hsource : ∀ a, source = some a → a.FitsIn r.store) {start : TableAlias}
    (h : r.startOf path source = .ok start) : start.FitsIn r.store := by
  cases source with
  | some given =>
    obtain rfl := Except.ok.inj h
    exact hsource _ rfl
  | none =>
    unfold startOf at h
    obtain ⟨inferred, hinferred, h⟩ := bind_eq_ok_iff.1 h
    split at h
    · rename_i found hfound
      obtain rfl := pure_eq_ok_iff.1 h
      exact sourceOfPath_fits hr path.joins path.target _ hinferred
    · exact absurd h (found_ne_ok _ _ _)
    · exact absurd h (found_ne_ok _ _ _)

theorem fitsIn_renameFarSide {steps : List JoinStep} {operation : Operation}
    (h : operation.FitsIn r.store) : (r.renameFarSide steps operation).FitsIn r.store := by
  unfold renameFarSide
  split
  · exact h
  · split
    · split
      · refine h.mapAliases (fun _ hd => hd) (fun a ha => ?_) fun a => ?_
        · split
          · exact ⟨ha.table, ha.database⟩
          · exact ha
        · split <;> rfl
      · exact h
    · exact h

/-! ## Expressions -/

mutual

/-- An expression that resolves fits, if the table does that its paths start from. -/
theorem resolve_fits (hr : r.Closed) (source : Option TableAlias)
    (hsource : ∀ a, source = some a → a.FitsIn r.store) : (expression : Source.Operation) → ∀ operation,
      (r.resolve source expression).result = .ok operation → operation.FitsIn r.store
  | .column reference => by
    intro operation h
    unfold resolve at h
    obtain ⟨column, hcolumn, h⟩ := Recorded.result_bind_eq_ok_iff.1 h
    obtain rfl := Except.ok.inj h
    exact .column (fitsIn_of_column hr hcolumn)
  | .targetColumn column => by
    intro operation h
    unfold resolve at h
    split at h
    · rename_i target htarget
      obtain ⟨column, hcolumn, h⟩ := Recorded.result_bind_eq_ok_iff.1 h
      obtain rfl := Except.ok.inj h
      exact .column (fitsIn_of_columnOf (hr.selfJoinTarget target htarget) hcolumn)
    · exact absurd h (found_ne_ok _ _ _)
  | .joinPath joins target => by
    intro operation h
    unfold resolve at h
    obtain ⟨chain, hchain, h⟩ := Recorded.result_bind_eq_ok_iff.1 h
    obtain rfl := Except.ok.inj h
    exact resolvePath_fits hr source hsource joins target chain hchain
  | .literal value => by
    intro operation h
    unfold resolve at h
    obtain rfl := Except.ok.inj h
    exact .literal
  | .function name arguments => by
    intro operation h
    unfold resolve at h
    obtain ⟨resolved, hresolved, h⟩ := Recorded.result_bind_eq_ok_iff.1 h
    obtain rfl := Except.ok.inj h
    exact .function (resolveAll_fits hr source hsource arguments resolved hresolved)

theorem resolvePath_fits (hr : r.Closed) (source : Option TableAlias)
    (hsource : ∀ a, source = some a → a.FitsIn r.store) (joins : List Source.JoinReference) :
    (target : Option Source.Operation) → ∀ chain,
      (r.resolvePath source joins target).result = .ok chain → chain.FitsIn r.store
  | none => by
    intro chain h
    unfold resolvePath at h
    simp only [Recorded.result_bind_eq_ok_iff, Recorded.result_monadLift, Recorded.result_pure] at h
    obtain ⟨start, hstart, steps, hsteps, h⟩ := h
    obtain rfl := Except.ok.inj h
    have hfits := fitsIn_of_startOf hr hsource hstart
    exact .join hfits (fitsIn_of_steps hr hfits.table hsteps) (by simp)
  | some target => by
    intro chain h
    unfold resolvePath at h
    simp only [Recorded.result_bind_eq_ok_iff, Recorded.result_monadLift, Recorded.result_pure] at h
    obtain ⟨start, hstart, steps, hsteps, operation, hoperation, _, -, h⟩ := h
    obtain rfl := Except.ok.inj h
    have hfits := fitsIn_of_startOf hr hsource hstart
    have hsteps := fitsIn_of_steps hr hfits.table hsteps
    -- what is at the end of the path starts from the table that the path reaches
    have hreached := (fitsIn_endAlias hfits hsteps).of_some
    have hend : (r.renameFarSide steps operation).FitsIn r.store :=
      fitsIn_renameFarSide (resolve_fits hr _ hreached target operation hoperation)
    exact .join hfits hsteps (by rintro _ ⟨⟩; exact hend)

theorem resolveAll_fits (hr : r.Closed) (source : Option TableAlias)
    (hsource : ∀ a, source = some a → a.FitsIn r.store) : (l : List Source.Operation) →
      ∀ operations, (r.resolveAll source l).result = .ok operations →
        ∀ operation ∈ operations, operation.FitsIn r.store
  | [] => by
    intro operations h
    unfold resolveAll at h
    obtain rfl := Except.ok.inj h
    simp
  | argument :: rest => by
    intro operations h
    unfold resolveAll at h
    simp only [Recorded.result_bind_eq_ok_iff, Recorded.result_pure] at h
    obtain ⟨first, hfirst, others, hothers, h⟩ := h
    obtain rfl := Except.ok.inj h
    exact List.forall_mem_cons.2 ⟨resolve_fits hr source hsource argument first hfirst,
      resolveAll_fits hr source hsource rest others hothers⟩

end

/-! ## Filters and views -/

theorem fitsIn_of_filter (hr : r.Closed) {source : TableAlias} (hsource : source.FitsIn r.store)
    {reference : Source.FilterReference} {pointer : FilterPointer}
    (h : (r.filter (some source) reference).result = .ok pointer) : pointer.FitsIn r.store := by
  simp only [Resolver.filter, Recorded.result_bind_eq_ok_iff] at h
  obtain ⟨joins, hjoins, database, hdatabase, h⟩ := h
  have hsteps : ∀ step ∈ joins, step.FitsIn r.store := by
    unfold filterJoins at hjoins
    split at hjoins
    · obtain rfl := Except.ok.inj hjoins
      simp
    · exact fitsIn_of_steps hr hsource.table hjoins
  split at h
  · exact absurd h (found_ne_ok _ _ _)
  · split at h
    · exact absurd h (found_ne_ok _ _ _)
    · rename_i found hfound
      simp only [Recorded.result_bind_eq_ok_iff, Recorded.result_pure] at h
      obtain ⟨_, -, h⟩ := h
      obtain rfl := Except.ok.inj h
      exact ⟨(Store.hasFilter_of_filter? hfound).1, hasDatabase_of_addressed hr hdatabase, hsteps⟩

theorem fitsIn_of_filter? (hr : r.Closed) {source : TableAlias} (hsource : source.FitsIn r.store)
    {reference : Option Source.FilterReference} {filter : Option FilterPointer}
    (h : (r.filter? source reference).result = .ok filter) :
    ∀ pointer, filter = some pointer → pointer.FitsIn r.store := by
  rintro pointer rfl
  cases reference with
  | none => cases h
  | some reference =>
    obtain ⟨found, hfound, h⟩ := Recorded.result_bind_eq_ok_iff.1 h
    obtain rfl := Option.some.inj (Except.ok.inj h)
    exact fitsIn_of_filter hr hsource hfound

theorem addViewRoots_fit {view column : Name} {roots found added : List TableAlias}
    (hroots : ∀ a ∈ roots, a.FitsIn r.store) (hfound : ∀ a ∈ found, a.FitsIn r.store)
    (h : r.addViewRoots view column roots found = .ok added) : ∀ a ∈ added, a.FitsIn r.store := by
  induction found generalizing roots with
  | nil =>
    obtain rfl := Except.ok.inj h
    exact hroots
  | cons root rest ih =>
    obtain ⟨hroot, hrest⟩ := List.forall_mem_cons.1 hfound
    unfold addViewRoots at h
    split at h
    · split at h
      · exact ih hroots hrest h
      · exact ih (List.forall_mem_append.2 ⟨hroots, by simpa using hroot⟩) hrest h
    · exact absurd h (found_ne_ok _ _ _)

theorem viewRoots_fit (hr : r.Closed) {view : Name} {roots all : List TableAlias}
    {columns : List Source.ViewColumn} (hroots : ∀ a ∈ roots, a.FitsIn r.store)
    (h : r.viewRoots view roots columns = .ok all) :
    ∀ a ∈ all, a.FitsIn r.store := by
  induction columns generalizing roots with
  | nil =>
    obtain rfl := Except.ok.inj h
    exact hroots
  | cons column rest ih =>
    unfold viewRoots at h
    obtain ⟨found, hfound, h⟩ := bind_eq_ok_iff.1 h
    obtain ⟨added, hadded, h⟩ := bind_eq_ok_iff.1 h
    exact ih (addViewRoots_fit hroots (inferRoots_fit hr hfound) hadded) h

theorem fitsIn_of_viewMainTable (hr : r.Closed) {view : Source.View} {main : TableAlias}
    (h : r.viewMainTable view = .ok main) : main.FitsIn r.store := by
  unfold viewMainTable at h
  obtain ⟨roots, hroots, h⟩ := bind_eq_ok_iff.1 h
  split at h
  · exact absurd h (found_ne_ok _ _ _)
  · obtain rfl := pure_eq_ok_iff.1 h
    exact viewRoots_fit hr (by simp) hroots _ List.mem_cons_self
  · exact absurd h (found_ne_ok _ _ _)

/-- A view that resolves fits. -/
theorem fitsIn_of_view (hr : r.Closed) {source : Source.View} {view : View}
    (h : (r.view source).result = .ok view) : view.FitsIn r.store := by
  simp only [Resolver.view, Recorded.result_bind_eq_ok_iff, Recorded.result_monadLift,
    Recorded.result_pure] at h
  obtain ⟨main, hmain, columns, hcolumns, filter, hfilter, groupBy, hgroupBy, h⟩ := h
  obtain rfl := Except.ok.inj h
  have hfits := fitsIn_of_viewMainTable hr hmain
  have hsource := hfits.of_some
  refine ⟨hfits, fitsIn_of_filter? hr hfits hfilter, fun operation hoperation => ?_, fun c hc => ?_⟩
  · obtain ⟨written, -, hresolved⟩ :=
      exists_of_mem_right (Recorded.result_forAll_eq_ok_iff.1 hgroupBy) hoperation
    obtain ⟨resolved, hresolve, h⟩ := Recorded.result_bind_eq_ok_iff.1 hresolved
    split at h
    · exact absurd h (found_ne_ok _ _ _)
    · obtain rfl := Except.ok.inj h
      exact resolve_fits hr _ hsource _ _ hresolve
  · obtain ⟨written, -, hresolved⟩ :=
      exists_of_mem_right (Recorded.result_forAll_eq_ok_iff.1 hcolumns) hc
    obtain ⟨resolved, hresolve, h⟩ := Recorded.result_bind_eq_ok_iff.1 hresolved
    split at h
    · exact absurd h (found_ne_ok _ _ _)
    · obtain rfl := Except.ok.inj h
      exact resolve_fits hr _ hsource _ _ hresolve

end Resolver

end ObjectRelational
