import ObjectRelational.Proofs.Store.Origins
import ObjectRelational.Proofs.Store.Path

/-!
# Tables that are inferred

The table that a view or mapping starts from is inferred from its expressions, before any of them is
resolved from that table. The two recursions agree: when all the tables that are inferred for an
expression are the one that it is then resolved from, it starts from no other one.

* `Resolver.roots_of_resolve`: this holds for every expression.
* `Resolver.viewRoots_collects`: the tables that the columns of a view start from are gathered.
* `View.Rooted`: a view is about its main table. `Store.views_rooted`: so is every view of a store that is
  built, and its database sees the table.
-/

namespace ObjectRelational

namespace Resolver

variable {r : Resolver} {main : TableAlias}

/-! ## Expressions -/

mutual

/-- When all tables that are inferred for an expression are the one that it is resolved from, it starts
from no other table. A path starts where it is told to, and literals start nowhere. -/
theorem roots_of_resolve (hr : r.selfJoinTarget = none) : (expression : Source.Operation) →
    ∀ found operation, r.sources expression = .ok found → (∀ a ∈ found, a.table = main.table) →
      (r.resolve (some main) expression).result = .ok operation →
        ∀ a ∈ operation.roots, a.table = main.table
  | .column reference => by
    intro found operation hfound hmain h
    unfold sources at hfound
    obtain ⟨inferred, hinferred, hfound⟩ := bind_eq_ok_iff.1 hfound
    obtain rfl := pure_eq_ok_iff.1 hfound
    unfold resolve at h
    obtain ⟨column, hcolumn, h⟩ := Recorded.result_bind_eq_ok_iff.1 h
    obtain rfl := Except.ok.inj h
    have hsame : inferred = column.tableAlias :=
      Except.ok.inj (hinferred.symm.trans (lookupTable_of_column hcolumn))
    simpa [Operation.roots, hsame] using hmain
  | .targetColumn column => by
    intro found operation _ _ h
    unfold resolve at h
    rw [hr] at h
    exact absurd h (found_ne_ok _ _ _)
  | .joinPath joins target => by
    intro found operation _ _ h
    unfold resolve at h
    obtain ⟨chain, hchain, h⟩ := Recorded.result_bind_eq_ok_iff.1 h
    obtain rfl := Except.ok.inj h
    simp [JoinChain.toOperation, Operation.roots, (threads_of_resolvePath hchain).1]
  | .literal value => by
    intro found operation _ _ h
    unfold resolve at h
    obtain rfl := Except.ok.inj h
    simp [Operation.roots]
  | .function name arguments => by
    intro found operation hfound hmain h
    unfold sources at hfound
    unfold resolve at h
    obtain ⟨resolved, hresolved, h⟩ := Recorded.result_bind_eq_ok_iff.1 h
    obtain rfl := Except.ok.inj h
    rw [Operation.roots]
    exact rootsOfAll_of_resolveAll hr arguments found resolved hfound hmain hresolved

theorem rootsOfAll_of_resolveAll (hr : r.selfJoinTarget = none) : (l : List Source.Operation) →
    ∀ found resolved, r.sourcesOfAll l = .ok found → (∀ a ∈ found, a.table = main.table) →
      (r.resolveAll (some main) l).result = .ok resolved →
        ∀ a ∈ Operation.rootsOfAll resolved, a.table = main.table
  | [] => by
    intro found resolved _ _ h
    unfold resolveAll at h
    obtain rfl := Except.ok.inj h
    simp [Operation.rootsOfAll]
  | argument :: rest => by
    intro found resolved hfound hmain h
    unfold sourcesOfAll at hfound
    obtain ⟨inferred, hinferred, hfound⟩ := bind_eq_ok_iff.1 hfound
    obtain ⟨others, hothers, hfound⟩ := bind_eq_ok_iff.1 hfound
    obtain rfl := pure_eq_ok_iff.1 hfound
    obtain ⟨hfirst, hrest⟩ := List.forall_mem_append.1 hmain
    unfold resolveAll at h
    obtain ⟨operation, hoperation, h⟩ := Recorded.result_bind_eq_ok_iff.1 h
    obtain ⟨operations, hoperations, h⟩ := Recorded.result_bind_eq_ok_iff.1 h
    obtain rfl := Except.ok.inj h
    rw [Operation.rootsOfAll]
    exact List.forall_mem_append.2
      ⟨roots_of_resolve hr argument inferred operation hinferred hfirst hoperation,
        rootsOfAll_of_resolveAll hr rest others operations hothers hrest hoperations⟩

end

/-- The expression is inferred to start from the table, or from none. -/
def StartsOn (r : Resolver) (table : TableId) (expression : Source.Operation) : Prop :=
  ∃ found, r.inferRoots expression = .ok found ∧ ∀ a ∈ found, a.table = table

theorem rootAliases_of_resolve (hr : r.selfJoinTarget = none) {expression : Source.Operation}
    {operation : Operation} (hstarts : r.StartsOn main.table expression)
    (h : (r.resolve (some main) expression).result = .ok operation) :
    ∀ a ∈ operation.rootAliases, a.table = main.table := by
  obtain ⟨roots, hroots, hmain⟩ := hstarts
  obtain ⟨found, hfound, rfl⟩ := map_eq_ok_iff.1 hroots
  intro a ha
  exact roots_of_resolve hr expression found operation hfound
    (fun a ha => hmain a (List.mem_eraseDups.2 ha)) h a (List.mem_eraseDups.1 ha)

/-! ## The main table of a view -/

section ViewRoots

variable {view : Name} {column : Name} {roots found added : List TableAlias}

/-- Tables are added to those that are known, and each of them is there in the end. -/
theorem addViewRoots_collects (h : r.addViewRoots view column roots found = .ok added) :
    (∀ a ∈ roots, a ∈ added) ∧ (∀ a ∈ found, ∃ known ∈ added, known.table = a.table) ∧
      ∀ a ∈ added, a ∈ roots ∨ r.seesTable a.table := by
  induction found generalizing roots with
  | nil =>
    obtain rfl := Except.ok.inj h
    exact ⟨fun _ => id, by simp, fun _ => .inl⟩
  | cons root rest ih =>
    unfold addViewRoots at h
    split at h
    · rename_i hsees
      split at h
      · rename_i hknown
        obtain ⟨known, hmem, hsame⟩ := List.any_eq_true.1 hknown
        obtain ⟨hkept, hrest, hadded⟩ := ih h
        exact ⟨hkept, List.forall_mem_cons.2
          ⟨⟨known, hkept known hmem, of_decide_eq_true hsame⟩, hrest⟩, hadded⟩
      · obtain ⟨hkept, hrest, hadded⟩ := ih h
        refine ⟨fun a ha => hkept a (List.mem_append_left _ ha), List.forall_mem_cons.2
          ⟨⟨root, hkept root (by simp), rfl⟩, hrest⟩, fun a ha => ?_⟩
        rcases hadded a ha with hold | hnew
        · refine (List.mem_append.1 hold).imp_right fun hroot => ?_
          rw [List.mem_singleton.1 hroot]
          exact hsees
        · exact .inr hnew
    · exact absurd h (found_ne_ok _ _ _)

/-- The tables that the columns of a view start from are gathered. -/
theorem viewRoots_collects {columns : List Source.ViewColumn}
    (h : r.viewRoots view roots columns = .ok added) :
    (∀ a ∈ roots, a ∈ added) ∧
      (∀ c ∈ columns, ∃ found, r.inferRoots c.operation = .ok found ∧
        ∀ a ∈ found, ∃ known ∈ added, known.table = a.table) ∧
      ∀ a ∈ added, a ∈ roots ∨ r.seesTable a.table := by
  induction columns generalizing roots with
  | nil =>
    obtain rfl := Except.ok.inj h
    exact ⟨fun _ => id, by simp, fun _ => .inl⟩
  | cons first rest ih =>
    unfold viewRoots at h
    obtain ⟨found, hfound, h⟩ := bind_eq_ok_iff.1 h
    obtain ⟨next, hnext, h⟩ := bind_eq_ok_iff.1 h
    obtain ⟨hkept, hfirst, hadded⟩ := addViewRoots_collects hnext
    obtain ⟨hkept', hrest, hadded'⟩ := ih h
    refine ⟨fun a ha => hkept' a (hkept a ha), List.forall_mem_cons.2 ⟨⟨found, hfound, ?_⟩, hrest⟩,
      fun a ha => (hadded' a ha).elim (hadded a) .inr⟩
    intro a ha
    obtain ⟨known, hknown, hsame⟩ := hfirst a ha
    exact ⟨known, hkept' known hknown, hsame⟩

end ViewRoots

/-- All columns of a view start from its main table, which its database sees. -/
theorem startsOn_of_viewMainTable {view : Source.View} (h : r.viewMainTable view = .ok main) :
    (∀ c ∈ view.columns, r.StartsOn main.table c.operation) ∧ r.seesTable main.table := by
  unfold viewMainTable at h
  obtain ⟨roots, hroots, h⟩ := bind_eq_ok_iff.1 h
  split at h
  · exact absurd h (found_ne_ok _ _ _)
  · obtain rfl := pure_eq_ok_iff.1 h
    obtain ⟨-, hcolumns, hadded⟩ := viewRoots_collects hroots
    refine ⟨fun c hc => ?_, (hadded _ List.mem_cons_self).resolve_left List.not_mem_nil⟩
    obtain ⟨found, hfound, hall⟩ := hcolumns c hc
    refine ⟨found, hfound, fun a ha => ?_⟩
    obtain ⟨known, hknown, hsame⟩ := hall a ha
    rw [← hsame, List.mem_singleton.1 hknown]
  · exact absurd h (found_ne_ok _ _ _)

end Resolver

/-! ## Views -/

/-- A view is about its main table: its columns start from it and are more than paths, and its groups read
their columns there. -/
structure View.Rooted (v : View) : Prop where
  columns : ∀ c ∈ v.columns, ∀ a ∈ c.operation.rootAliases, a.table = v.mainTable.table
  evaluated : ∀ c ∈ v.columns, c.operation.isBareJoin = false
  groupBy : ∀ operation ∈ v.groupBy, ∀ c ∈ operation.directColumns,
    c.tableAlias.table = v.mainTable.table

namespace Resolver

variable {r : Resolver} {main : TableAlias}

theorem exists_of_viewColumn {view : Name} {source : Source.ViewColumn} {column : ViewColumn}
    (h : (r.viewColumn view main source).result = .ok column) :
    (r.resolve (some main) source.operation).result = .ok column.operation ∧
      column.operation.isBareJoin = false := by
  unfold viewColumn at h
  obtain ⟨operation, hoperation, h⟩ := Recorded.result_bind_eq_ok_iff.1 h
  split at h
  · exact absurd h (found_ne_ok _ _ _)
  · rename_i hbare
    obtain rfl := Except.ok.inj h
    exact ⟨hoperation, eq_false_of_ne_true hbare⟩

theorem exists_of_viewGroupBy {view : Source.View} {source : Source.Operation} {operation : Operation}
    (h : (r.viewGroupBy view main source).result = .ok operation) :
    (r.resolve (some main) source).result = .ok operation ∧
      ∀ c ∈ operation.directColumns, c.tableAlias.table = main.table := by
  unfold viewGroupBy at h
  obtain ⟨resolved, hresolved, h⟩ := Recorded.result_bind_eq_ok_iff.1 h
  split at h
  · exact absurd h (found_ne_ok _ _ _)
  · rename_i hnone
    obtain rfl := Except.ok.inj h
    exact ⟨hresolved, by simpa using hnone⟩

/-- A view that resolves is about its main table, which its database sees. -/
theorem rooted_of_view (hr : r.selfJoinTarget = none) {source : Source.View} {v : View}
    (h : (r.view source).result = .ok v) : v.Rooted ∧ r.seesTable v.mainTable.table := by
  simp only [Resolver.view, Recorded.result_bind_eq_ok_iff, Recorded.result_pure] at h
  obtain ⟨main, hmain, columns, hcolumns, filter, -, groupBy, hgroupBy, h⟩ := h
  obtain rfl := Except.ok.inj h
  obtain ⟨hstarts, hsees⟩ := startsOn_of_viewMainTable hmain
  refine ⟨⟨fun c hc => ?_, fun c hc => ?_, fun operation hoperation => ?_⟩, hsees⟩
  · obtain ⟨written, hwritten, hcolumn⟩ :=
      exists_of_mem_right (Recorded.result_forAll_eq_ok_iff.1 hcolumns) hc
    exact rootAliases_of_resolve hr (hstarts written hwritten) (exists_of_viewColumn hcolumn).1
  · obtain ⟨_, -, hcolumn⟩ := exists_of_mem_right (Recorded.result_forAll_eq_ok_iff.1 hcolumns) hc
    exact (exists_of_viewColumn hcolumn).2
  · obtain ⟨_, -, hgroup⟩ :=
      exists_of_mem_right (Recorded.result_forAll_eq_ok_iff.1 hgroupBy) hoperation
    exact (exists_of_viewGroupBy hgroup).2

end Resolver

namespace Store

variable {s t : Store} {database : DatabaseId} {table : TableId} {defaultSchema : String}

/-- A table that was seen while the store was in the making is seen in the store. -/
theorem seesTable_of_resolverIn (ht : t.Closed) (hdatabase : t.HasDatabase database)
    (hkeeps : KeepsNames s t) (h : (s.resolverIn defaultSchema database).seesTable table) :
    t.SeesTable database table := by
  unfold Resolver.seesTable at h
  split at h
  · cases h
  · rename_i found hfound
    refine ⟨found.database, ?_, hkeeps.declares ⟨found, hfound, rfl⟩⟩
    rcases Bool.or_eq_true_iff.1 h with hown | hincluded
    · rw [of_decide_eq_true hown]
      exact mem_visibleDatabases_self ht hdatabase
    · unfold includesTransitively at hincluded
      refine mem_visibleDatabases_of_includesTransitively ht hdatabase ?_
      unfold includesTransitively
      rw [hkeeps.size_eq, hkeeps.includesOf_eq]
      exact hincluded

/-- Every view of a store that is built is about its main table, and the database of the view sees the one
that declares the table. -/
theorem views_rooted {settings : ResolutionSettings} {sources : List Source.Database}
    (hbuild : build settings sources = .ok t) :
    ∀ table ∈ t.tables, ∀ v, table.view = some v →
      v.Rooted ∧ t.SeesTable table.database v.mainTable.table := by
  intro table htable v hv
  have hclosed := closed_of_build hbuild
  obtain ⟨s, -, hbefore, source, hview⟩ := (traced_of_build hbuild).views table htable v hv
  obtain ⟨hrooted, hsees⟩ := Resolver.rooted_of_view rfl hview
  exact ⟨hrooted, seesTable_of_resolverIn hclosed (hclosed.tables table htable).database
    hbefore.keeps hsees⟩

end Store

end ObjectRelational
