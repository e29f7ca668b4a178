import Mathlib.Logic.Hydra
import ObjectRelational.Proofs.Store.JoinsOverViews
import ObjectRelational.Proofs.Store.MentionedTables
import ObjectRelational.Proofs.Store.NearestFirst
import ObjectRelational.Proofs.Store.UniqueNames

/-!
# Expanding views

Nothing checks that views are not recursive. While a view is defined, the views behind it have no columns yet, and
joins have been there before any view had one, so that it mentions only tables that are no views and views in front
of it. Putting its definition in the place of a view therefore comes to an end, in whatever order it is done.

* `Store.viewHandles`: the views of databases, in the order in which they are defined.
* `Store.DefinedInOrder`: views mention tables that are no views and views in front of them.
* `Store.Expands`: the definition of a view is put in its place. `Store.ExpandsFully`: this ends, with tables that
  are no views.
* `Store.DefinedInOrder.expandsFully`: where views are defined in an order, all of them expand fully.
* `Store.views_well_founded`: the views of every store that is built do.
-/

namespace ObjectRelational

/-- What an expression reads directly are columns that are there. -/
theorem Operation.FitsIn.exists_hasColumn {s : Store} {operation : Operation} (h : operation.FitsIn s) :
    ∀ table ∈ operation.directTables, ∃ name, s.HasColumn table name := by
  induction h with
  | column hfits => simpa [directTables, directColumns] using ⟨_, hfits.column⟩
  | join => simp [directTables, directColumns]
  | literal => simp [directTables, directColumns]
  | function _ ih =>
    rw [directTables_function]
    exact List.forall_mem_flatMap.2 ih

namespace Store

variable {s t : Store} {defaultSchema : String} {sources : List Source.Database} {id : TableId} {v : View}
  {order : List TableId} {start tables tables' : Multiset TableId}
  {pending : List (TableId × DatabaseId × Source.View)}

/-! ## Definitions of views -/

/-- The definition of a view. -/
def definition? (s : Store) (id : TableId) : Option View := (s.table? id).bind (·.view)

/-- There is a table of the handle, and it is no view. -/
def IsPhysical (s : Store) (id : TableId) : Prop := ∃ table, s.table? id = some table ∧ table.view = none

/-- The views of the databases, in the order in which the last phase of a build defines them: database by database,
and schema by schema in each. -/
def viewHandles (sources : List Source.Database) : List TableId :=
  (sources.flatMap (pendingIn sources)).map (·.1)

/-- Every view is in the list, and mentions only tables that are no views and views that are in front of it. -/
def DefinedInOrder (s : Store) (order : List TableId) : Prop :=
  ∀ id v, s.definition? id = some v → ∃ earlier later, order = earlier ++ id :: later ∧
    ∀ table ∈ v.tables, s.IsPhysical table ∨ table ∈ earlier ∧ s.isView table

theorem isView_iff : s.isView id ↔ ∃ v, s.definition? id = some v := Option.isSome_iff_exists

theorem IsPhysical.not_isView (h : s.IsPhysical id) : ¬ s.isView id := by
  obtain ⟨table, htable, hview⟩ := h
  simp [isView, htable, hview]

/-! ## The last phase -/

/-- A view that is there after the last phase has been there before it, or is defined in it, when the views in front
of it have been. -/
theorem exists_of_definition?_of_defineViews
    (hdefine : (pending.foldlM (defineView defaultSchema) s).result = .ok t) (h : t.definition? id = some v) :
    s.definition? id = some v ∨ ∃ earlier p later before, pending = earlier ++ p :: later ∧ p.1 = id ∧
      (earlier.foldlM (defineView defaultSchema) s).result = .ok before ∧
      ((before.resolverIn defaultSchema p.2.1).view p.2.2).result = .ok v := by
  induction pending generalizing s with
  | nil =>
    obtain rfl := Except.ok.inj hdefine
    exact .inl h
  | cons p rest ih =>
    obtain ⟨next, hnext, hrest⟩ := Recorded.result_foldlM_cons.1 hdefine
    rcases ih hrest with hbefore | ⟨earlier, q, later, before, rfl, hid, hearlier, hview⟩
    · -- the views behind the first one have left it as it is: it is the first one, or older than that
      rw [defineView_eq, Recorded.result_map] at hnext
      obtain ⟨view, hview, rfl⟩ := map_eq_ok_iff.1 hnext
      obtain ⟨_, hfound, hv⟩ := Option.bind_eq_some_iff.1 hbefore
      rw [table?_withView] at hfound
      obtain ⟨table, htable, rfl⟩ := Option.map_eq_some_iff.1 hfound
      split at hv
      · rename_i hid
        obtain rfl := Option.some.inj hv
        exact .inr ⟨[], p, rest, s, rfl, hid, rfl, hview⟩
      · exact .inl (Option.bind_eq_some_iff.2 ⟨table, htable, hv⟩)
    · exact .inr ⟨p :: earlier, q, later, before, rfl, hid,
        Recorded.result_foldlM_cons.2 ⟨next, hnext, hearlier⟩, hview⟩

/-- A table that has columns before the last phase is no view. -/
theorem isPhysical_of_hasColumn (hdefine : (pending.foldlM (defineView defaultSchema) s).result = .ok t)
    (hplain : ∀ table ∈ s.tables, table.view = none)
    (hempty : ∀ p ∈ pending, ∃ table, s.table? p.1 = some table ∧ table.columns = []) {name : String}
    (h : s.HasColumn id name) : t.IsPhysical id := by
  obtain ⟨table, htable, hcolumn⟩ := h
  obtain ⟨hviews, hsame⟩ := table?_before_defineViews hdefine hplain hempty id
  by_cases hview : t.isView id
  · have hnone := hviews hview name
    rw [htable, Option.bind_some] at hnone
    simp [hnone] at hcolumn
  · exact ⟨table, (hsame hview).symm.trans htable, hplain table (List.mem_of_getElem? htable)⟩

/-- When some of the views are defined, the tables that have columns are these views and tables that are no views,
and the sides of joins are tables that are no views. -/
theorem supplies_of_defineViews {earlier later : List (TableId × DatabaseId × Source.View)} {before : Store}
    {database : DatabaseId} (hdefine : ((earlier ++ later).foldlM (defineView defaultSchema) s).result = .ok t)
    (hearlier : (earlier.foldlM (defineView defaultSchema) s).result = .ok before)
    (hplain : ∀ table ∈ s.tables, table.view = none)
    (hempty : ∀ p ∈ earlier ++ later, ∃ table, s.table? p.1 = some table ∧ table.columns = [])
    (hjoins : ∀ join ∈ s.joins, ∀ table ∈ join.tables, ∃ name, s.HasColumn table name) :
    (before.resolverIn defaultSchema database).Supplies
      (fun table => t.IsPhysical table ∨ table ∈ earlier.map (·.1) ∧ t.isView table) where
  column id table name htable hcolumn := by
    by_cases hid : ∃ p ∈ earlier, p.1 = id
    · obtain ⟨p, hp, rfl⟩ := hid
      obtain ⟨waiting, hwaiting, -⟩ := hempty p (List.mem_append_left _ hp)
      exact .inr ⟨List.mem_map_of_mem hp, isView_of_defineViews hdefine (by rw [hwaiting]; rfl)
        (.inr ⟨p, List.mem_append_left _ hp, rfl⟩)⟩
    · -- what is not defined yet is as it was before the phase
      have hsame := table?_of_defineViews hearlier fun p hp hpid => hid ⟨p, hp, hpid⟩
      exact .inl (isPhysical_of_hasColumn hdefine hplain hempty ⟨table, hsame ▸ htable, hcolumn⟩)
  join id join hjoin table htable := by
    have hmem : join ∈ s.joins := (joins_filters_of_defineViews hearlier).1 ▸ List.mem_of_getElem? hjoin
    obtain ⟨name, hcolumn⟩ := hjoins join hmem table htable
    exact .inl (isPhysical_of_hasColumn hdefine hplain hempty hcolumn)

/-- The last phase of a build starts from a closed store that has no views and in which they wait, in their order. -/
theorem exists_lastPhase_of_build {settings : ResolutionSettings} (hbuild : build settings sources = .ok s) :
    ∃ (joined built : Store) (pending : List (TableId × DatabaseId × Source.View)), joined.Closed ∧
      (∀ table ∈ joined.tables, table.view = none) ∧ joined.Awaits pending ∧ pending.map (·.1) = viewHandles sources ∧
      (pending.foldlM (defineView settings.defaultSchema) joined).result = .ok built ∧
      s = { built with usages := keptUsages settings (assemble settings.defaultSchema sources).usages } := by
  obtain ⟨included, draft, joined, built, hnames, hincludes, hdraft, hjoins, hviews, hs⟩ :=
    exists_phases_of_build hbuild
  have hdeclared := declared_of_addSchemas hnames (included_of_forEach hnames hincludes) hdraft
  obtain ⟨hextends, hawaits, hdatabases⟩ :=
    extends_of_phases (foldlM_addDatabase_eq_ok_iff.2 ⟨hnames, rfl⟩) hincludes hdraft
  obtain ⟨hjoined, htables⟩ := extends_addAllJoinsAndFilters hextends.closed
    (fun i hi => hextends.grows.database (hdatabases i hi)) hjoins
  exact ⟨joined, built, draft.pendingViews, hjoined.closed, htables ▸ hdeclared.plain,
    hawaits.of_isPrefix hjoined.grows (htables ▸ List.prefix_refl _), by rw [hdeclared.pendingViews, viewHandles],
    hviews, hs⟩

/-- No view is in the list twice. -/
theorem nodup_viewHandles_of_build {settings : ResolutionSettings} (hbuild : build settings sources = .ok s) :
    (viewHandles sources).Nodup := by
  obtain ⟨joined, built, pending, -, -, hawaits, horder, -⟩ := exists_lastPhase_of_build hbuild
  exact horder ▸ hawaits.nodup

/-- The views of a store that is built are defined in the order of their databases. -/
theorem definedInOrder_of_build {settings : ResolutionSettings} (hbuild : build settings sources = .ok s) :
    s.DefinedInOrder (viewHandles sources) := by
  have hof := (joins_filters_of_build hbuild).1
  obtain ⟨joined, built, pending, hclosed, hplain, hawaits, horder, hviews, rfl⟩ := exists_lastPhase_of_build hbuild
  -- joins are resolved before any view has columns
  have hsides : ∀ join ∈ joined.joins, ∀ table ∈ join.tables, ∃ name, joined.HasColumn table name := by
    intro join hjoin table htable
    have hkept : joined.joins = built.joins := (joins_filters_of_defineViews hviews).1
    obtain ⟨_, -, hsource⟩ := exists_of_mem_right hof (hkept ▸ hjoin)
    exact (hclosed.joins join hjoin).condition.exists_hasColumn table ((hsource.tables.mem_iff table).1 htable)
  intro id v hv
  rcases exists_of_definition?_of_defineViews hviews hv with hold |
    ⟨earlier, p, later, before, rfl, rfl, hearlier, hview⟩
  · -- there is no view before the last phase
    obtain ⟨table, htable, hv⟩ := Option.bind_eq_some_iff.1 hold
    rw [hplain table (List.mem_of_getElem? htable)] at hv
    cases hv
  · refine ⟨earlier.map (·.1), later.map (·.1), ?_, ?_⟩
    · rw [← horder, List.map_append, List.map_cons]
    · exact Resolver.supplied_of_view (supplies_of_defineViews hviews hearlier hplain hawaits.table hsides) hview

/-! ## Expansion -/

/-- The definition of the one table mentions the other. -/
def Mentions (s : Store) (mentioned id : TableId) : Prop :=
  ∃ v, s.definition? id = some v ∧ mentioned ∈ v.tables

/-- In the place of a view come the tables that its definition mentions. -/
def Expands (s : Store) (tables tables' : Multiset TableId) : Prop :=
  ∃ id v others, s.definition? id = some v ∧ tables = id ::ₘ others ∧ tables' = ↑v.tables + others

/-- In whatever order views are replaced by their definitions, this ends, and what is there in the end are tables
that are no views. -/
structure ExpandsFully (s : Store) (start : Multiset TableId) : Prop where
  ends : Acc (fun after before => s.Expands before after) start
  physical : ∀ last, Relation.ReflTransGen s.Expands start last → (∀ next, ¬ s.Expands last next) →
    ∀ table ∈ last, s.IsPhysical table

/-- A view can be replaced wherever it is. -/
theorem exists_expands (hid : s.isView id) (hmem : id ∈ tables) : ∃ next, s.Expands tables next := by
  obtain ⟨v, hv⟩ := isView_iff.1 hid
  obtain ⟨others, hothers⟩ := Multiset.exists_cons_of_mem hmem
  exact ⟨_, id, v, others, hv, hothers, rfl⟩

/-- The place of a view in the order comes down to those of the views that it mentions. -/
theorem DefinedInOrder.wellFounded_mentions (h : s.DefinedInOrder order) (hnodup : order.Nodup) :
    WellFounded s.Mentions := by
  let rank : TableId → Nat := fun id => if s.isView id then order.idxOf id + 1 else 0
  refine Subrelation.wf (r := fun a b => rank a < rank b) ?_ (measure rank).wf
  rintro mentioned id ⟨v, hv, hmem⟩
  obtain ⟨earlier, later, rfl, htables⟩ := h id v hv
  have hrank : rank id = earlier.length + 1 := by
    have hnew : id ∉ earlier := fun hid =>
      List.disjoint_of_nodup_append hnodup hid List.mem_cons_self
    simp [rank, isView_iff.2 ⟨v, hv⟩, List.idxOf_append_of_notMem hnew]
  rw [hrank]
  -- a table that is no view has the rank zero, and a view in front has a smaller place
  rcases htables mentioned hmem with hphysical | ⟨hearlier, hview⟩
  · simp [rank, hphysical.not_isView]
  · have hindex := List.idxOf_lt_length_of_mem hearlier
    simpa [rank, hview, List.idxOf_append_of_mem hearlier] using hindex

/-- Tables that come in the place of one that mentions them are a cut of it. -/
theorem Expands.cutExpand (h : s.Expands tables tables') : Relation.CutExpand s.Mentions tables' tables := by
  obtain ⟨id, v, others, hv, rfl, rfl⟩ := h
  refine ⟨v.tables, id, fun mentioned hmem => ⟨v, hv, by simpa using hmem⟩, ?_⟩
  rw [← Multiset.singleton_add, add_assoc, add_comm, add_comm others]

theorem DefinedInOrder.wellFounded_expands (h : s.DefinedInOrder order) (hnodup : order.Nodup) :
    WellFounded (fun after before => s.Expands before after) :=
  Subrelation.wf Expands.cutExpand (h.wellFounded_mentions hnodup).cutExpand

/-- What comes from views are views and tables that are no views. -/
theorem DefinedInOrder.known_of_reach (h : s.DefinedInOrder order)
    (hstart : ∀ id ∈ start, s.IsPhysical id ∨ s.isView id) (hreach : Relation.ReflTransGen s.Expands start tables) :
    ∀ id ∈ tables, s.IsPhysical id ∨ s.isView id := by
  induction hreach with
  | refl => exact hstart
  | tail _ hstep ih =>
    obtain ⟨id, v, others, hv, rfl, rfl⟩ := hstep
    obtain ⟨earlier, later, -, htables⟩ := h id v hv
    intro table htable
    rcases Multiset.mem_add.1 htable with hnew | hold
    · exact (htables table (by simpa using hnew)).imp_right And.right
    · exact ih table (Multiset.mem_cons_of_mem hold)

theorem DefinedInOrder.expandsFully (h : s.DefinedInOrder order) (hnodup : order.Nodup)
    (hstart : ∀ id ∈ start, s.IsPhysical id ∨ s.isView id) : s.ExpandsFully start where
  ends := (h.wellFounded_expands hnodup).apply start
  physical last hreach hlast table htable := by
    refine (h.known_of_reach hstart hreach table htable).resolve_right fun hview => ?_
    obtain ⟨next, hnext⟩ := exists_expands hview htable
    exact hlast next hnext

/-- There is an end of the replacing. -/
theorem ExpandsFully.exists_last (h : s.ExpandsFully start) :
    ∃ last, Relation.ReflTransGen s.Expands start last ∧ ∀ table ∈ last, s.IsPhysical table := by
  obtain ⟨hends, hphysical⟩ := h
  induction hends with
  | intro start _ ih =>
    by_cases hnext : ∃ next, s.Expands start next
    · obtain ⟨next, hnext⟩ := hnext
      obtain ⟨last, hreach, hlast⟩ := ih next hnext fun last hreach =>
        hphysical last (.head hnext hreach)
      exact ⟨last, .head hnext hreach, hlast⟩
    · exact ⟨start, .refl, hphysical start .refl (not_exists.1 hnext)⟩

/-! ## Stores that are built -/

/-- Views mention tables that are no views and views that are defined before them, and replacing views by their
definitions ends with tables that are no views. -/
theorem views_well_founded {settings : ResolutionSettings} (hbuild : build settings sources = .ok s) :
    s.DefinedInOrder (viewHandles sources) ∧ ∀ id, s.isView id → s.ExpandsFully {id} := by
  have horder := definedInOrder_of_build hbuild
  refine ⟨horder, fun id hview => ?_⟩
  refine horder.expandsFully (nodup_viewHandles_of_build hbuild) fun other hother => ?_
  rw [Multiset.mem_singleton.1 hother]
  exact .inr hview

/-- Two databases that include each other. The one has a table and a view of it, the other a view of that view. -/
def mutualViews : List Source.Database := [
  { name := ⟨"staff", {}⟩
    includes := [⟨"reports", {}⟩]
    schemas := [{
      name := ⟨"default", {}⟩
      tables := [{ name := ⟨"PERSON", {}⟩, columns := [⟨⟨"ID", {}⟩, .integer, true, true⟩] }]
      views := [{
        name := ⟨"EMPLOYEE", {}⟩
        columns := [⟨⟨"NUMBER", {}⟩, exampleColumn "PERSON" "ID", true⟩] }] }] },
  { name := ⟨"reports", {}⟩
    includes := [⟨"staff", {}⟩]
    schemas := [{
      name := ⟨"default", {}⟩
      views := [{
        name := ⟨"HEADCOUNT", {}⟩
        columns := [⟨⟨"NUMBER", {}⟩, exampleColumn "EMPLOYEE" "NUMBER", false⟩] }] }] }]

/-- A view of a view expands to tables that are no views. -/
theorem views_well_founded_of_mutual :
    ∃ s, build {} mutualViews = .ok s ∧ (s.definition? ⟨2⟩).map View.tables = some [⟨1⟩, ⟨1⟩] ∧
      s.DefinedInOrder [⟨1⟩, ⟨2⟩] ∧
      ∃ last, Relation.ReflTransGen s.Expands {⟨2⟩} last ∧ ∀ table ∈ last, s.IsPhysical table := by
  obtain ⟨s, hbuild, hmentions⟩ : ∃ s, build {} mutualViews = .ok s ∧
      (decide ((s.definition? ⟨2⟩).map View.tables = some [⟨1⟩, ⟨1⟩])) = true :=
    exists_build_of_any _ (by decide +kernel)
  have hmentions := of_decide_eq_true hmentions
  obtain ⟨v, hv, -⟩ := Option.map_eq_some_iff.1 hmentions
  obtain ⟨horder, hexpands⟩ := views_well_founded hbuild
  exact ⟨s, hbuild, hmentions, horder, (hexpands ⟨2⟩ (isView_iff.2 ⟨v, hv⟩)).exists_last⟩

end Store

end ObjectRelational
