import ObjectRelational.Proofs.Store.Phases.Joins

/-!
# Defining views

The last phase of a build resolves the definitions of the views, in the order in which their names were
registered. A view that reads a column of a view of another database finds it only when that database
has been gone through before, so that another order of the databases changes nothing as long as such
databases stay in their order.

* `exists_view_of_pending`: a table that waits for its definition is declared as a view.
* `Store.SameJoined.readsAlike`: a column is read alike when the database of its table has been gone
  through in both orders or in none.
* `Store.SameJoined.views_of_perm`: views are defined in another order too.
-/

namespace ObjectRelational

/-! ## Views that wait -/

section Pending

variable {first : Nat} {database : DatabaseId} {schemas : List Source.Schema}
  {p : TableId × DatabaseId × Source.View} {found : Schema} {name : String} {id : TableId}

theorem mem_pendingEntries {views : List Source.View} (hp : p ∈ pendingEntries first database views) :
    p.2.1 = database ∧ p.2.2 ∈ views ∧ first ≤ p.1.index ∧ p.1.index < first + views.length := by
  obtain ⟨⟨view, i⟩, hmem, rfl⟩ := List.mem_map.1 hp
  obtain ⟨hle, hlt, hview⟩ := List.mem_zipIdx hmem
  exact ⟨rfl, hview ▸ List.getElem_mem _, hle, hlt⟩

/-- A view that waits is declared, and has a handle of its database. -/
theorem mem_pendingOf (hp : p ∈ pendingOf first database schemas) :
    p.2.1 = database ∧ (∃ s ∈ schemas, p.2.2 ∈ s.views) ∧ first ≤ p.1.index ∧
      p.1.index < first + (schemas.map (·.tableCount)).sum := by
  induction schemas generalizing first with
  | nil => simp [pendingOf] at hp
  | cons s rest ih =>
    simp only [List.map_cons, List.sum_cons, List.mem_cons, Source.Schema.tableCount]
    rcases List.mem_append.1 hp with hp | hp
    · obtain ⟨hdatabase, hview, hle, hlt⟩ := mem_pendingEntries hp
      exact ⟨hdatabase, ⟨s, .inl rfl, hview⟩, by omega, by omega⟩
    · obtain ⟨hdatabase, ⟨other, hother, hview⟩, hle, hlt⟩ := ih hp
      simp only [Source.Schema.tableCount] at hle hlt
      exact ⟨hdatabase, ⟨other, .inr hother, hview⟩, by omega, by omega⟩

/-- A name of a schema denotes a table or a view of it, which are numbered one after the other. -/
theorem mem_schemaEntry {s : Source.Schema} (hentry : (name, id) ∈ (schemaEntry first s).tables) :
    first ≤ id.index ∧ id.index < first + s.tableCount ∧
      (first + s.tables.length ≤ id.index → ∃ view ∈ s.views, view.name.value = name) := by
  simp only [Source.Schema.tableCount]
  rcases List.mem_append.1 hentry with hentry | hentry
  · obtain ⟨⟨table, i⟩, hmem, hsame⟩ := List.mem_map.1 hentry
    obtain ⟨rfl, rfl⟩ := Prod.mk.inj hsame
    obtain ⟨hle, hlt, -⟩ := List.mem_zipIdx hmem
    dsimp only
    exact ⟨hle, by omega, fun hview => by omega⟩
  · obtain ⟨⟨view, i⟩, hmem, hsame⟩ := List.mem_map.1 hentry
    obtain ⟨rfl, rfl⟩ := Prod.mk.inj hsame
    obtain ⟨hle, hlt, hview⟩ := List.mem_zipIdx hmem
    dsimp only
    exact ⟨by omega, by omega, fun _ => ⟨view, hview ▸ List.getElem_mem _, rfl⟩⟩

/-- The names of the schemas of a database denote tables of its own. -/
theorem mem_schemaEntries (hfound : found ∈ schemaEntries first schemas)
    (hentry : (name, id) ∈ found.tables) :
    first ≤ id.index ∧ id.index < first + (schemas.map (·.tableCount)).sum := by
  induction schemas generalizing first with
  | nil => simp [schemaEntries] at hfound
  | cons s rest ih =>
    simp only [List.map_cons, List.sum_cons]
    rcases List.mem_cons.1 hfound with rfl | hfound
    · obtain ⟨hle, hlt, -⟩ := mem_schemaEntry hentry
      exact ⟨hle, by omega⟩
    · obtain ⟨hle, hlt⟩ := ih hfound
      exact ⟨by omega, by omega⟩

/-- A table that waits for its definition is declared as a view. -/
theorem exists_view_of_pending (hfound : found ∈ schemaEntries first schemas)
    (hentry : (name, p.1) ∈ found.tables) (hp : p ∈ pendingOf first database schemas) :
    ∃ s ∈ schemas, s.name.value = found.name ∧ ∃ view ∈ s.views, view.name.value = name := by
  induction schemas generalizing first with
  | nil => simp [schemaEntries] at hfound
  | cons s rest ih =>
    rcases List.mem_cons.1 hfound with rfl | hfound
    · obtain ⟨hle, hlt, hview⟩ := mem_schemaEntry hentry
      refine ⟨s, List.mem_cons_self, rfl, hview ?_⟩
      rcases List.mem_append.1 hp with hp | hp
      · exact (mem_pendingEntries hp).2.2.1
      · have hrest := (mem_pendingOf hp).2.2.1
        omega
    · obtain ⟨hle, -⟩ := mem_schemaEntries hfound hentry
      rcases List.mem_append.1 hp with hp | hp
      · have hfirst := (mem_pendingEntries hp).2.2.2
        simp only [Source.Schema.tableCount] at hle
        omega
      · obtain ⟨other, hother, hview⟩ := ih hfound hp
        exact ⟨other, List.mem_cons_of_mem _ hother, hview⟩

end Pending

namespace Store

variable {ρ : Renumbering} {s s' t start start' base base' : Store} {defaultSchema : String}
  {sources sources' pre post : List Source.Database} {d e : Source.Database}
  {pending pending' : Source.Database → List (TableId × DatabaseId × Source.View)}

/-! ## Defining one view -/

/-- The store with the definition of a view. -/
def withView (s : Store) (table : TableId) (view : View) : Store :=
  s.modifyTable table fun t => { t with columns := s.viewColumns table view, view := some view }

theorem defineView_eq (defaultSchema : String) (s : Store) (p : TableId × DatabaseId × Source.View) :
    defineView defaultSchema s p =
      s.withView p.1 <$> (s.resolverIn defaultSchema p.2.1).view p.2.2 := by
  rw [map_eq_pure_bind]
  rfl

theorem table?_withView (s : Store) (table other : TableId) (view : View) :
    (s.withView table view).table? other = (s.table? other).map fun t =>
      if table = other then { t with columns := s.viewColumns table view, view := some view }
      else t := by
  unfold withView modifyTable table?
  rw [List.getElem?_modify, Option.map_eq_map]
  cases table
  cases other
  simp

/-- Views are defined when all joins and filters are registered. -/
theorem joins_filters_of_defineViews {pending : List (TableId × DatabaseId × Source.View)}
    (h : (pending.foldlM (defineView defaultSchema) s).result = .ok t) :
    s.joins = t.joins ∧ s.filters = t.filters := by
  rw [Recorded.result_foldlM] at h
  refine foldlM_invariant (P := fun t => s.joins = t.joins ∧ s.filters = t.filters) ?_ ⟨rfl, rfl⟩ h
  intro before waiting _ after hbefore hdefine
  rw [defineView_eq, Recorded.result_map] at hdefine
  rcases map_eq_ok_iff.1 hdefine with ⟨view, -, rfl⟩
  exact hbefore

/-- A view is defined among the tables of its database. -/
theorem tablesIn_withView_self (s : Store) {table : TableId} {k : Nat}
    (hindex : table.index = offset (·.tableCount) sources d + k) (view : View) :
    tablesIn sources (s.withView table view) d = (tablesIn sources s d).modify k fun t =>
      { t with columns := s.viewColumns table view, view := some view } := by
  unfold tablesIn withView modifyTable
  rw [hindex]
  exact block_modify_self _ _ _

/-- A view is defined among the tables of no other database. -/
theorem tablesIn_withView_of_ne (h : DistinctNames sources) (hd : d ∈ sources) (he : e ∈ sources)
    (hne : e ≠ d) (s : Store) {table : TableId} {k : Nat} (hk : k < d.tableCount)
    (hindex : table.index = offset (·.tableCount) sources d + k) (view : View) :
    tablesIn sources (s.withView table view) e = tablesIn sources s e := by
  unfold tablesIn withView modifyTable
  rw [hindex]
  exact block_modify_of_ne h hd he hne _ _ hk

/-- The last phase: of what was there at the start, only views that wait are changed. -/
structure Defined (sources : List Source.Database) (start : Store)
    (pending : Source.Database → List (TableId × DatabaseId × Source.View)) (s : Store) : Prop where
  databases : s.databases = start.databases
  joins : s.joins = start.joins
  filters : s.filters = start.filters
  keeps : KeepsNames start s
  plain : ∀ id, (∀ d ∈ sources, ∀ p ∈ pending d, p.1 ≠ id) → s.table? id = start.table? id

theorem defined_start (sources : List Source.Database) (start : Store)
    (pending : Source.Database → List (TableId × DatabaseId × Source.View)) :
    Defined sources start pending start :=
  ⟨rfl, rfl, rfl, .refl start, fun _ _ => rfl⟩

theorem Defined.withView (hs : Defined sources start pending s) (hd : d ∈ sources)
    {p : TableId × DatabaseId × Source.View} (hp : p ∈ pending d) (view : View) :
    Defined sources start pending (s.withView p.1 view) where
  databases := hs.databases
  joins := hs.joins
  filters := hs.filters
  keeps := hs.keeps.modifyTable _ fun _ => rfl
  plain := by
    intro id hid
    rw [table?_withView, hs.plain id hid]
    simp [hid d hd p hp]

/-! ## Views that read views -/

/-- The stores that the last phase starts from when the databases are listed in two orders. -/
structure SameJoined (ρ : Renumbering) (defaultSchema : String)
    (sources sources' : List Source.Database) (start start' : Store) : Prop
    extends SameStart ρ defaultSchema sources sources' start start' where
  database : ∀ id, start'.database? (ρ.database id) =
    (start.database? id).map (Database.renumber ρ)
  join : ∀ id, start'.join? (ρ.join id) = (start.join? id).map (Join.renumber ρ)
  filter : ∀ id, start'.filter? (ρ.filter id) = (start.filter? id).map (Filter.renumber ρ)
  schemas : ∀ d ∈ sources, ∀ found, start.database? (handleIn sources d) = some found →
    found.schemas = entriesIn sources d

variable (h : SameJoined ρ defaultSchema sources sources' start start')
include h

theorem SameJoined.findsAlike (hs : Defined sources start pending s)
    (hs' : Defined sources' start' pending' s') (database : DatabaseId)
    (reference : Source.JoinReference) :
    Resolver.FindsAlike ρ (s.resolverIn defaultSchema database)
      (s'.resolverIn defaultSchema (ρ.database database)) reference := by
  intro id _
  refine ⟨(hs.keeps.sameNames hs'.keeps h.names).findVisible?_eq fun e _ => ?_, fun join _ => ?_⟩
  · have hdatabase := h.database e
    unfold database? at hdatabase ⊢
    simp only [hs.databases, hs'.databases, hdatabase]
    cases start.databases[e.index]? with
    | none => rfl
    | some found => exact lookup_map_snd found.joins reference.name.value
  · have hjoin := h.join join
    unfold join? at hjoin ⊢
    simp only [resolverIn, hs.joins, hs'.joins, hjoin]

theorem SameJoined.filtersAlike (hs : Defined sources start pending s)
    (hs' : Defined sources' start' pending' s') (database : DatabaseId) :
    Resolver.FiltersAlike ρ (s.resolverIn defaultSchema database)
      (s'.resolverIn defaultSchema (ρ.database database)) where
  named id name := by
    refine (hs.keeps.sameNames hs'.keeps h.names).findVisible?_eq fun e _ => ?_
    have hdatabase := h.database e
    unfold database? at hdatabase ⊢
    simp only [hs.databases, hs'.databases, hdatabase]
    cases start.databases[e.index]? with
    | none => rfl
    | some found => exact lookup_map_snd found.filters name
  filter id := by
    have hfilter := h.filter id
    unfold filter? at hfilter ⊢
    simp only [resolverIn, hs.filters, hs'.filters, hfilter]

omit h in
theorem mem_pendingIn {p : TableId × DatabaseId × Source.View} (hp : p ∈ pendingIn sources d) :
    ∃ k < d.tableCount, p.1.index = offset (·.tableCount) sources d + k := by
  obtain ⟨-, -, hle, hlt⟩ := mem_pendingOf hp
  have hsize : (d.schemas.map (·.tableCount)).sum = d.tableCount := rfl
  exact ⟨p.1.index - offset (·.tableCount) sources d, by omega, by omega⟩

omit h in
/-- A table that is found by name and waits for its definition is a view of the database that declares
the name. -/
theorem eq_of_pendingIn (hnames : DistinctNames sources) (hd : d ∈ sources) (he : e ∈ sources)
    {found : Schema} (hfound : found ∈ entriesIn sources e) {name : String}
    {p : TableId × DatabaseId × Source.View} (hentry : (name, p.1) ∈ found.tables)
    (hp : p ∈ pendingIn sources d) : e = d := by
  obtain ⟨hle, hlt⟩ := mem_schemaEntries hfound hentry
  obtain ⟨k, hk, hindex⟩ := mem_pendingIn hp
  by_contra hne
  have hapart := offset_add_le_or (·.tableCount) hnames hd he hne
  have hsize : (e.schemas.map (·.tableCount)).sum = e.tableCount := rfl
  omega

/-- A database depends on the one that declares a view of which it reads a column. -/
theorem SameJoined.dependsOn_of_read (hs : Defined sources start (pendingIn sources) s)
    (hd : d ∈ sources) (he : e ∈ sources) {p : TableId × DatabaseId × Source.View}
    (hp : p ∈ pendingIn sources e) {reference : Source.ColumnReference}
    (hreference : reference ∈ d.viewReferences) {found : TableAlias}
    (hfound : (s.resolverIn defaultSchema (handleIn sources d)).lookupTable reference.database
      reference.schema reference.table = .ok found)
    (hid : p.1 = found.table) : DependsOn defaultSchema sources d e := by
  obtain ⟨id, haddressed, hfind⟩ := Resolver.findTable?_of_lookupTable hfound
  obtain ⟨first, hfirst, rfl, hname⟩ :=
    exists_handleIn_of_lookupAddressed (h.named.of_keepsNames hs.keeps) h.distinct hd haddressed
  -- a database that is visible from the addressed one has a schema with the view
  obtain ⟨owner, howner, hfind⟩ := List.exists_of_findSome?_eq_some hfind
  obtain ⟨declaring, hdeclaring, rfl, hsees⟩ :=
    exists_sees_of_visible (h.includes.of_keepsNames hs.keeps) hfirst howner
  obtain ⟨database, hdatabase, hfind⟩ := Option.bind_eq_some_iff.1 hfind
  obtain ⟨schema, hschema, hfind⟩ := Option.bind_eq_some_iff.1 hfind
  have hentries : database.schemas = entriesIn sources declaring := by
    refine h.schemas declaring hdeclaring database ?_
    rw [← hdatabase]
    simp only [database?, resolverIn, hs.databases]
  have hmem : schema ∈ entriesIn sources declaring := hentries ▸ List.mem_of_find?_eq_some hschema
  have hentry : (reference.table.value, p.1) ∈ schema.tables := hid ▸ mem_of_lookup hfind
  have hschemaName : schema.name = (reference.schema.map (·.value)).getD defaultSchema := by
    unfold Database.schema? at hschema
    exact of_decide_eq_true (List.find?_some hschema :)
  -- the handle of the view is one of the database that declares it
  obtain rfl := eq_of_pendingIn h.distinct he hdeclaring hmem hentry hp
  have hdeclares := exists_view_of_pending hmem hentry hp
  rw [hschemaName] at hdeclares
  exact .view reference hreference (hname ▸ hsees) hdeclares

/-- A view reads the same columns, when the databases that are in front in both orders, or in none, have
the same tables. -/
theorem SameJoined.readsAlike (hs : Defined sources start (pendingIn sources) s)
    (hs' : Defined sources' start' (fun d => renumberPending ρ (pendingIn sources d)) s')
    (hd : d ∈ sources) {pre pre' : List Source.Database}
    (hfront : ∀ e ∈ sources, DependsOn defaultSchema sources d e → (e ∈ pre ↔ e ∈ pre'))
    (hagree : ∀ e ∈ sources, e = d ∨ (e ∈ pre ↔ e ∈ pre') →
      tablesIn sources' s' e = (tablesIn sources s e).map (Table.renumber ρ))
    {reference : Source.ColumnReference} (hreference : reference ∈ d.viewReferences) :
    Resolver.ReadsAlike ρ (s.resolverIn defaultSchema (handleIn sources d))
      (s'.resolverIn defaultSchema (ρ.database (handleIn sources d))) reference := by
  intro found hfound
  have hsame : s'.table? (ρ.table found.table) = (s.table? found.table).map (Table.renumber ρ) := by
    by_cases hpending : ∃ e ∈ sources, ∃ p ∈ pendingIn sources e, p.1 = found.table
    · obtain ⟨e, he, p, hp, hid⟩ := hpending
      -- a view, which may be defined already or not
      have hdepends := h.dependsOn_of_read hs hd he hp hreference hfound hid
      obtain ⟨k, hk, hindex⟩ := mem_pendingIn hp
      have hmoved :=
        h.carries.tables.getElem?_of_block he (hagree e he (.inr (hfront e he hdepends))) hk
      rw [← hid]
      simpa only [table?, Renumbering.table, hindex] using hmoved
    · -- no view, so that this phase does not change it
      have hplain : ∀ e ∈ sources, ∀ p ∈ pendingIn sources e, p.1 ≠ found.table :=
        fun e he p hp hid => hpending ⟨e, he, p, hp, hid⟩
      rw [hs.plain _ hplain, hs'.plain, h.table]
      intro e he p hp hid
      obtain ⟨q, hq, rfl⟩ := List.mem_map.1 hp
      exact hplain e (h.perm.subset he) q hq (Renumbering.table_inj.1 hid)
  intro name
  simp only [resolverIn] at hsame ⊢
  rw [hsame]
  cases s.table? found.table with
  | none => rfl
  | some table => exact table.column?_renumber name

/-! ## The views of one database -/

omit h

/-- A store in which views of a database are being defined. -/
structure Defining (sources : List Source.Database) (start : Store)
    (pending : Source.Database → List (TableId × DatabaseId × Source.View)) (d : Source.Database)
    (base s : Store) : Prop where
  defined : Defined sources start pending s
  others : ∀ e ∈ sources, e ≠ d →
    tablesIn sources s e = tablesIn sources base e

theorem Defining.defineView (hs : Defining sources start pending d base s)
    (hnames : DistinctNames sources) (hd : d ∈ sources) {p : TableId × DatabaseId × Source.View}
    (hp : p ∈ pending d)
    (hblock : ∃ k < d.tableCount, p.1.index = offset (·.tableCount) sources d + k)
    (hdefine : (Store.defineView defaultSchema s p).result = .ok t) :
    Defining sources start pending d base t := by
  rw [defineView_eq, Recorded.result_map] at hdefine
  obtain ⟨view, -, rfl⟩ := map_eq_ok_iff.1 hdefine
  obtain ⟨k, hk, hindex⟩ := hblock
  refine ⟨hs.defined.withView hd hp view, fun e he hne => ?_⟩
  rw [tablesIn_withView_of_ne hnames hd he hne s hk hindex view, hs.others e he hne]

theorem Defining.defineViews (hs : Defining sources start pending d base s)
    (hnames : DistinctNames sources) (hd : d ∈ sources)
    (hblock : ∀ p ∈ pending d, ∃ k < d.tableCount, p.1.index = offset (·.tableCount) sources d + k)
    (hdefine : ((pending d).foldlM (Store.defineView defaultSchema) s).result = .ok t) :
    Defining sources start pending d base t := by
  rw [Recorded.result_foldlM] at hdefine
  exact foldlM_invariant (fun _ p hp _ hs hdefine => hs.defineView hnames hd hp (hblock p hp) hdefine)
    hs hdefine

/-- A view is defined alike. -/
theorem SameJoined.defineView (h : SameJoined ρ defaultSchema sources sources' start start')
    (hs : Defined sources start (pendingIn sources) s)
    (hs' : Defined sources' start' (fun d => renumberPending ρ (pendingIn sources d)) s')
    (hd : d ∈ sources) {pre pre' : List Source.Database}
    (hfront : ∀ e ∈ sources, DependsOn defaultSchema sources d e → (e ∈ pre ↔ e ∈ pre'))
    (hagree : ∀ e ∈ sources, e = d ∨ (e ∈ pre ↔ e ∈ pre') →
      tablesIn sources' s' e = (tablesIn sources s e).map (Table.renumber ρ))
    {p : TableId × DatabaseId × Source.View} (hp : p ∈ pendingIn sources d)
    (hdefine : (Store.defineView defaultSchema s p).result = .ok t) :
    ∃ t', Store.defineView defaultSchema s' (ρ.table p.1, ρ.database p.2.1, p.2.2) =
        ⟨(Store.defineView defaultSchema s p).usages, .ok t'⟩ ∧
      tablesIn sources' t' d = (tablesIn sources t d).map (Table.renumber ρ) := by
  obtain ⟨hdatabase, ⟨schema, hschema, hview⟩, -, -⟩ := mem_pendingOf hp
  have halike := h.alike hs.keeps hs'.keeps p.2.1
  have hreads : ∀ reference ∈ p.2.2.columnReferences,
      Resolver.ReadsAlike ρ (s.resolverIn defaultSchema p.2.1)
        (s'.resolverIn defaultSchema (ρ.database p.2.1)) reference := by
    intro reference hreference
    rw [hdatabase]
    exact h.readsAlike hs hs' hd hfront hagree (List.mem_flatMap.2
      ⟨schema, hschema, List.mem_flatMap.2 ⟨p.2.2, hview, hreference⟩⟩)
  have hviews := halike.view_eq (h.filtersAlike hs hs' p.2.1) (h.findsAlike hs hs' p.2.1) hreads
  have hdefine' := defineView_eq defaultSchema s p
  rw [hdefine', Recorded.result_map] at hdefine
  obtain ⟨view, hresolved, rfl⟩ := map_eq_ok_iff.1 hdefine
  have hcolumns := halike.viewColumns_eq hreads hresolved p.1
  refine ⟨s'.withView (ρ.table p.1) (view.renumber ρ), ?_, ?_⟩
  · rw [hdefine', defineView_eq]
    dsimp only
    rw [hviews]
    refine Recorded.ext_result (by simp) ?_
    simp only [Recorded.result_map, hresolved]
    rfl
  · obtain ⟨k, hk, hindex⟩ := mem_pendingIn hp
    have hindex' : (ρ.table p.1).index = offset (·.tableCount) sources' d + k := by
      rw [← h.carries.tables d hd k hk, ← hindex]
      rfl
    simp only [resolverIn] at hcolumns
    rw [tablesIn_withView_self s hindex, tablesIn_withView_self s' hindex', hcolumns,
      hagree d hd (.inl rfl)]
    exact (map_modify (fun table => by simp [Table.renumber]) _ _).symm

/-! ## All databases -/

/-- Going through what the items of a list have is going through the items. -/
theorem foldlM_flatMap {m : Type → Type} [Monad m] [LawfulMonad m] {σ α β : Type} (f : α → List β)
    (g : σ → β → m σ) (l : List α) (s : σ) :
    (l.flatMap f).foldlM g s = l.foldlM (fun s a => (f a).foldlM g s) s := by
  induction l generalizing s with
  | nil => rfl
  | cons a rest ih =>
    rw [List.flatMap_cons, List.foldlM_append, List.foldlM_cons]
    exact bind_congr ih

/-- The last phase changes the tables of one database at a time. -/
theorem frames_defineViews (hnames : DistinctNames sources)
    (hblock : ∀ d ∈ sources, ∀ p ∈ pending d,
      ∃ k < d.tableCount, p.1.index = offset (·.tableCount) sources d + k) :
    Recorded.Frames (fun s d => (pending d).foldlM (Store.defineView defaultSchema) s) sources
      (tablesIn sources) fun _ => Defined sources start pending := by
  intro pre d post s t hsplit hs hdefine
  have hd : d ∈ sources := by simp [hsplit]
  have hstart : Defining sources start pending d s s := ⟨hs, fun _ _ _ => rfl⟩
  have hall := hstart.defineViews hnames hd (hblock d hd) hdefine
  exact ⟨hall.defined, hall.others⟩

/-- The views that wait have handles of their databases in another order too. -/
theorem SameStart.mem_renumberPending (h : SameStart ρ defaultSchema sources sources' start start')
    (hd : d ∈ sources) {p : TableId × DatabaseId × Source.View}
    (hp : p ∈ renumberPending ρ (pendingIn sources d)) :
    ∃ k < d.tableCount, p.1.index = offset (·.tableCount) sources' d + k := by
  obtain ⟨q, hq, rfl⟩ := List.mem_map.1 hp
  obtain ⟨k, hk, hindex⟩ := mem_pendingIn hq
  refine ⟨k, hk, ?_⟩
  rw [← h.carries.tables d hd k hk, ← hindex]
  rfl

/-- The two stores in which views of a database are being defined. -/
structure DefiningAlike (ρ : Renumbering) (sources sources' : List Source.Database)
    (start start' : Store) (d : Source.Database) (base base' s s' : Store) : Prop where
  left : Defining sources start (pendingIn sources) d base s
  right : Defining sources' start' (fun d => renumberPending ρ (pendingIn sources d)) d base' s'
  own : tablesIn sources' s' d = (tablesIn sources s d).map (Table.renumber ρ)

/-- The views of a database are defined alike. -/
theorem SameJoined.stepsAlike_defineViews
    (h : SameJoined ρ defaultSchema sources sources' start start') :
    Recorded.StepsAlike
      (fun s d => (pendingIn sources d).foldlM (Store.defineView defaultSchema) s)
      (fun s d => (renumberPending ρ (pendingIn sources d)).foldlM (Store.defineView defaultSchema) s)
      sources sources' (tablesIn sources) (tablesIn sources') (List.map (Table.renumber ρ))
      (fun _ => Defined sources start (pendingIn sources))
      fun _ => Defined sources' start' fun d => renumberPending ρ (pendingIn sources d) := by
  intro pre d post pre' post' s t s' hsplit hsplit' hs hs' hdefine hagree
  have hdistinct' := h.distinct.of_perm h.perm
  have hd : d ∈ sources := by simp [hsplit]
  have hd' : d ∈ sources' := by simp [hsplit']
  have hfront := h.inSameOrder.mem_iff h.distinct h.perm hsplit hsplit'
  have hstart : DefiningAlike ρ sources sources' start start' d s s' s s' :=
    ⟨⟨hs, fun _ _ _ => rfl⟩, ⟨hs', fun _ _ _ => rfl⟩, hagree d hd (.inl rfl)⟩
  have hstep : ∀ done p rest u u' v, pendingIn sources d = done ++ p :: rest →
      DefiningAlike ρ sources sources' start start' d s s' u u' →
      (Store.defineView defaultSchema u p).result = .ok v →
      ∃ v', Store.defineView defaultSchema u' (ρ.table p.1, ρ.database p.2.1, p.2.2) =
          ⟨(Store.defineView defaultSchema u p).usages, .ok v'⟩ ∧
        DefiningAlike ρ sources sources' start start' d s s' v v' := by
    intro done p rest u u' v hpending hu hv
    have hp : p ∈ pendingIn sources d := by simp [hpending]
    have hp' : (ρ.table p.1, ρ.database p.2.1, p.2.2) ∈ renumberPending ρ (pendingIn sources d) :=
      List.mem_map_of_mem hp
    -- the tables of the other databases are as they were, so that they still agree
    have hagree' := Recorded.agree_of_others hu.left.others
      (fun e he hne => hu.right.others e (h.perm.mem_iff.2 he) hne) hu.own hagree
    obtain ⟨v', hv', hown⟩ :=
      h.defineView hu.left.defined hu.right.defined hd hfront hagree' hp hv
    refine ⟨v', hv', hu.left.defineView h.distinct hd hp (mem_pendingIn hp) hv, ?_, hown⟩
    exact hu.right.defineView hdistinct' hd' hp' (h.mem_renumberPending hd hp') (by rw [hv'])
  obtain ⟨t', hrun', ht⟩ := Recorded.foldlM_sideBySide
    (R := fun _ => DefiningAlike ρ sources sources' start start' d s s') hstep hstart hdefine
  refine ⟨t', ?_, ht.right.defined, ht.own, fun e he hne =>
    ht.right.others e (h.perm.mem_iff.2 he) hne⟩
  dsimp only
  rw [renumberPending, List.foldlM_map]
  exact hrun'

/-- Views are defined in another order too, and are the same. -/
theorem SameJoined.views_of_perm (h : SameJoined ρ defaultSchema sources sources' start start')
    (htables : ∀ d ∈ sources, tablesIn sources' start' d =
      (tablesIn sources start d).map (Table.renumber ρ))
    (hrun : ((sources.flatMap (pendingIn sources)).foldlM (Store.defineView defaultSchema)
      start).result = .ok s) :
    ∃ s', ((sources'.flatMap fun d => renumberPending ρ (pendingIn sources d)).foldlM
          (Store.defineView defaultSchema) start').result = .ok s' ∧
      ((sources'.flatMap fun d => renumberPending ρ (pendingIn sources d)).foldlM
          (Store.defineView defaultSchema) start').usages.Perm
        ((sources.flatMap (pendingIn sources)).foldlM (Store.defineView defaultSchema)
          start).usages ∧
      Defined sources start (pendingIn sources) s ∧
      Defined sources' start' (fun d => renumberPending ρ (pendingIn sources d)) s' ∧
      ∀ d ∈ sources, tablesIn sources' s' d = (tablesIn sources s d).map (Table.renumber ρ) := by
  rw [foldlM_flatMap] at hrun ⊢
  rw [foldlM_flatMap]
  exact Recorded.foldlM_of_perm (frames_defineViews h.distinct fun _ _ _ hp => mem_pendingIn hp)
    h.stepsAlike_defineViews h.distinct.nodup h.perm (defined_start _ _ _) (defined_start _ _ _)
    htables hrun

end Store

end ObjectRelational
