import ObjectRelational.Proofs.Store.Usages

/-!
# Where elements of a store come from

Joins, filters and views are resolved against the store in the making, in which joins and filters that come
later are missing and views that come later have no columns. The names of databases, schemas and tables are
there already, so that what was resolved stays what it is in the store that is built.

* `Store.Traced`: every join, filter and view has been resolved against a store that has become this one.
* `Store.Traced.grow`: what a step adds has to be resolved against the store in front of the step.
* `Store.declares_of_pendingIn`: a view that waits belongs to the database in which it is resolved.
* `Store.TracedFrom`: what the steps of the last two phases keep. `Store.traced_of_build`: every store that is
  built is traced.
-/

namespace ObjectRelational

/-! ## Views that wait -/

/-- A view that waits has its name in a schema. -/
theorem exists_entry_of_pendingOf {first : Nat} {database : DatabaseId} {schemas : List Source.Schema}
    {p : TableId × DatabaseId × Source.View} (hp : p ∈ pendingOf first database schemas) :
    ∃ found ∈ schemaEntries first schemas, (p.2.2.name.value, p.1) ∈ found.tables := by
  induction schemas generalizing first with
  | nil => simp [pendingOf] at hp
  | cons s rest ih =>
    rcases List.mem_append.1 hp with hp | hp
    · obtain ⟨view, hview, rfl⟩ := List.mem_map.1 hp
      exact ⟨_, List.mem_cons_self, List.mem_append_right _ (List.mem_map_of_mem hview)⟩
    · obtain ⟨found, hfound, hentry⟩ := ih hp
      exact ⟨found, List.mem_cons_of_mem _ hfound, hentry⟩

namespace Store

variable {s t u : Store} {defaultSchema : String} {database : DatabaseId}

/-- A view that waits belongs to the database in which it is resolved. -/
theorem declares_of_pendingIn {sources : List Source.Database} {included : Store} {draft : Draft}
    (hnames : DistinctNames sources)
    (hdeclared : Declared sources included (entriesIn sources) (pendingIn sources) sources draft)
    (hincluded : Included sources included) (hregistered : draft.store.Registered) :
    ∀ p ∈ draft.pendingViews, draft.store.Declares p.2.1 p.1 := by
  intro p hp
  rw [hdeclared.pendingViews] at hp
  obtain ⟨d, hd, hp⟩ := List.mem_flatMap.1 hp
  obtain ⟨hdatabase, -⟩ := mem_pendingOf hp
  obtain ⟨schema, hschema, hentry⟩ := exists_entry_of_pendingOf hp
  obtain ⟨owner, howner, -⟩ := hincluded.named.database?_handleIn hnames hd
  have hfound := hdeclared.declared d hd
  rw [howner, Option.map_some] at hfound
  obtain ⟨t, ht, howned, -⟩ := (hregistered.tables (handleIn sources d) schema.name
    p.2.2.name.value p.1).1 ⟨_, hfound, schema, hschema, rfl, hentry⟩
  exact ⟨t, ht, howned.trans hdatabase.symm⟩

/-! ## What is traced -/

/-- The join or filter or view was resolved against a store in the making that has become this one. -/
def ResolvedBefore (t : Store) (resolved : Store → Prop) : Prop :=
  ∃ s : Store, s.Cataloged ∧ s.Before t ∧ resolved s

/-- Every join, filter and view of the store was resolved against a store in the making. -/
structure Traced (defaultSchema : String) (t : Store) : Prop where
  joins : ∀ j ∈ t.joins, t.ResolvedBefore fun s => ∃ database source,
    s.ResolvedJoin defaultSchema database source j
  filters : ∀ f ∈ t.filters, t.ResolvedBefore fun s => ∃ database source,
    s.ResolvedFilter defaultSchema database source f
  views : ∀ table ∈ t.tables, ∀ v, table.view = some v → t.ResolvedBefore fun s => ∃ source,
    ((s.resolverIn defaultSchema table.database).view source).result = .ok v

theorem ResolvedBefore.mono {resolved : Store → Prop} (h : s.ResolvedBefore resolved)
    (hbefore : s.Before t) : t.ResolvedBefore resolved := by
  obtain ⟨first, hcataloged, hfirst, hresolved⟩ := h
  exact ⟨first, hcataloged, hfirst.trans hbefore, hresolved⟩

/-- What a step adds is resolved against the store in front of it. -/
theorem Traced.grow (h : s.Traced defaultSchema) (hs : s.Cataloged) (hbefore : s.Before t)
    (hjoins : ∀ j ∈ t.joins, j ∈ s.joins ∨
      ∃ database source, s.ResolvedJoin defaultSchema database source j)
    (hfilters : ∀ f ∈ t.filters, f ∈ s.filters ∨
      ∃ database source, s.ResolvedFilter defaultSchema database source f)
    (hviews : ∀ table ∈ t.tables, ∀ v, table.view = some v → table ∈ s.tables ∨
      ∃ source, ((s.resolverIn defaultSchema table.database).view source).result = .ok v) :
    t.Traced defaultSchema where
  joins j hj := (hjoins j hj).elim (fun hold => (h.joins j hold).mono hbefore)
    fun hnew => ⟨s, hs, hbefore, hnew⟩
  filters f hf := (hfilters f hf).elim (fun hold => (h.filters f hold).mono hbefore)
    fun hnew => ⟨s, hs, hbefore, hnew⟩
  views table htable v hv := (hviews table htable v hv).elim
    (fun hold => (h.views table hold v hv).mono hbefore) fun hnew => ⟨s, hs, hbefore, hnew⟩

/-- A store without joins, filters and views has nothing to trace. -/
theorem traced_of_plain (hjoins : s.joins = []) (hfilters : s.filters = [])
    (hplain : ∀ table ∈ s.tables, table.view = none) : s.Traced defaultSchema where
  joins := by simp [hjoins]
  filters := by simp [hfilters]
  views table htable v hv := by simp [hplain table htable] at hv

/-! ## Steps -/

/-- The store is traced, and has the names of the store that the phase has started from. -/
structure TracedFrom (defaultSchema : String) (start s : Store) : Prop where
  traced : s.Traced defaultSchema
  cataloged : s.Cataloged
  same : start.SameDatabases s
  keeps : KeepsNames start s

namespace TracedFrom

variable {start : Store}

/-- A join or filter that is registered has been resolved against the store in front of it. -/
theorem addCondition (h : TracedFrom defaultSchema start s) (hdatabase : start.HasDatabase database)
    {owner : Name} {source : Source.Join ⊕ Source.Filter}
    (hadd : (Store.addCondition defaultSchema database owner s source).result = .ok t) :
    TracedFrom defaultSchema start t := by
  have hknown := h.same.hasDatabase hdatabase
  cases source with
  | inl source =>
    have hregisters := registers_addJoin h.cataloged hknown hadd
    obtain ⟨-, join, hjoin, rfl⟩ := exists_of_addJoin hadd
    refine ⟨h.traced.grow h.cataloged hregisters.before (fun j hj => ?_) (fun _ => .inl)
      fun _ hold _ _ => .inl hold, hregisters.cataloged, h.same.trans hregisters.same,
      h.keeps.trans hregisters.before.keeps⟩
    refine (List.mem_append.1 hj).imp_right fun hj => ?_
    rw [List.mem_singleton.1 hj]
    exact ⟨database, source, resolvedJoin_of_resolveJoin hjoin⟩
  | inr source =>
    have hregisters := registers_addFilter h.cataloged hknown hadd
    obtain ⟨-, filter, hfilter, rfl⟩ := exists_of_addFilter hadd
    refine ⟨h.traced.grow h.cataloged hregisters.before (fun _ => .inl) (fun f hf => ?_)
      fun _ hold _ _ => .inl hold, hregisters.cataloged, h.same.trans hregisters.same,
      h.keeps.trans hregisters.before.keeps⟩
    refine (List.mem_append.1 hf).imp_right fun hf => ?_
    rw [List.mem_singleton.1 hf]
    exact ⟨database, source, resolvedFilter_of_resolveFilter hfilter⟩

/-- All joins and filters are registered, database by database. -/
theorem addConditions (h : TracedFrom defaultSchema start s) {sources : List Source.Database}
    (hdatabases : ∀ i < sources.length, start.HasDatabase ⟨i⟩)
    (hadd : (forEach (addJoinsAndFilters defaultSchema) s sources).result = .ok t) :
    TracedFrom defaultSchema start t := by
  refine forEach_invariant (P := TracedFrom defaultSchema start) ?_ h hadd
  intro before i hi source after hbefore hadd
  rw [addJoinsAndFilters_eq, Recorded.result_foldlM] at hadd
  exact foldlM_invariant (fun _ _ _ _ hbefore => hbefore.addCondition (hdatabases i hi)) hbefore hadd

/-- A view that is defined has been resolved in the database that it belongs to. -/
theorem defineView (h : TracedFrom defaultSchema start s)
    {pending : TableId × DatabaseId × Source.View} (hpending : start.Declares pending.2.1 pending.1)
    (hdefine : (Store.defineView defaultSchema s pending).result = .ok t) :
    TracedFrom defaultSchema start t := by
  rw [defineView_eq, Recorded.result_map] at hdefine
  obtain ⟨view, hview, rfl⟩ := map_eq_ok_iff.1 hdefine
  have hkeeps := keepsNames_withView s pending.1 view
  refine ⟨h.traced.grow h.cataloged ⟨hkeeps, List.prefix_refl _, List.prefix_refl _⟩ (fun _ => .inl)
    (fun _ => .inl) fun table htable v hv => ?_, h.cataloged.withView pending.1 view, h.same,
    h.keeps.trans hkeeps⟩
  refine (mem_or_of_mem_modify htable).imp_right ?_
  rintro ⟨old, hold, rfl⟩
  obtain ⟨owned, howned, hdatabase⟩ := h.keeps.declares hpending
  obtain rfl : old = owned := Option.some.inj (hold.symm.trans howned)
  obtain rfl := Option.some.inj hv
  exact ⟨pending.2.2, hdatabase ▸ hview⟩

theorem defineViews (h : TracedFrom defaultSchema start s)
    {pending : List (TableId × DatabaseId × Source.View)}
    (hpending : ∀ p ∈ pending, start.Declares p.2.1 p.1)
    (hdefine : (pending.foldlM (Store.defineView defaultSchema) s).result = .ok t) :
    TracedFrom defaultSchema start t := by
  rw [Recorded.result_foldlM] at hdefine
  exact foldlM_invariant (fun _ p hp _ hbefore => hbefore.defineView (hpending p hp)) h hdefine

end TracedFrom

/-! ## All phases -/

/-- All joins, filters and views of a store that is built have been resolved on the way to it. -/
theorem traced_of_build {settings : ResolutionSettings} {sources : List Source.Database}
    (hbuild : build settings sources = .ok t) : t.Traced settings.defaultSchema := by
  obtain ⟨included, draft, joined, built, hnames, hincludes, hdraft, hjoins, hviews, rfl⟩ :=
    exists_phases_of_build hbuild
  have hincluded := included_of_forEach hnames hincludes
  have hdeclared := declared_of_addSchemas hnames hincluded hdraft
  obtain ⟨-, -, hdatabases⟩ :=
    extends_of_phases (foldlM_addDatabase_eq_ok_iff.2 ⟨hnames, rfl⟩) hincludes hdraft
  obtain ⟨hfront, hsame⟩ := (hincluded.cataloged hnames).addAllSchemas hdatabases hdraft
  have hstart : TracedFrom settings.defaultSchema draft.store draft.store :=
    ⟨traced_of_plain hdeclared.joins hdeclared.filters hdeclared.plain, hfront, .refl _, .refl _⟩
  have hmiddle := hstart.addConditions (fun i hi => hsame.hasDatabase (hdatabases i hi)) hjoins
  have hbuilt := hmiddle.defineViews
    (declares_of_pendingIn hnames hdeclared hincluded hfront.registered) hviews
  -- the usages of a store do not matter
  have hunused : ∀ {s : Store}, s.Before built → s.Before { built with
      usages := keptUsages settings (assemble settings.defaultSchema sources).usages } :=
    fun h => ⟨⟨h.keeps.databases, h.keeps.tables⟩, h.joins, h.filters⟩
  have hmono : ∀ {resolved : Store → Prop}, built.ResolvedBefore resolved →
      ResolvedBefore { built with
        usages := keptUsages settings (assemble settings.defaultSchema sources).usages } resolved :=
    fun ⟨s, hs, hbefore, hresolved⟩ => ⟨s, hs, hunused hbefore, hresolved⟩
  exact ⟨fun j hj => hmono (hbuilt.traced.joins j hj),
    fun f hf => hmono (hbuilt.traced.filters f hf),
    fun table htable v hv => hmono (hbuilt.traced.views table htable v hv)⟩

end Store

end ObjectRelational
