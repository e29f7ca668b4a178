import ObjectRelational.Proofs.Graph.Distance
import ObjectRelational.Proofs.Graph.SearchLoop
import ObjectRelational.Proofs.Lookup
import ObjectRelational.Proofs.Store.Build
import ObjectRelational.Proofs.Store.Registration
import ObjectRelational.Proofs.Store.Visibility

/-!
# Lookups find what is nearest

A database sees itself first and then what its includes reach, in the order of the distances, whether
includes run in circles or not. A name is looked up in all of these in turn: what a nearer database
declares hides what a farther one does.

* `Store.declared_iff`: what one database declares under a name is what it lists under it.
* `Store.visit_answers_visibleDatabases`, `Store.seek_answers_includesTransitively`: the loops that search
  the includes come to an end.
* `Store.FindsNearest`: a lookup finds what the first declaring database in sight declares.
  `Store.findsNearest_findVisible?`: so does every lookup.
* `Store.lookups_nearest_first`: this holds of every store that is built.
-/

namespace ObjectRelational.Store

variable {store : Store} {d owner : DatabaseId}

/-! ## Searches -/

section Closed

variable (hstore : store.Closed)
include hstore

/-- The loop that starts from a database ends with the databases that it sees. -/
theorem visit_answers_visibleDatabases (hd : store.HasDatabase d) :
    Graph.QueueSearch.Answers (Graph.QueueSearch.visit store.includesOf) { queue := [d] }
      (store.visibleDatabases d) :=
  Graph.QueueSearch.visit_answers_reachable hstore.closed_includesOf length_databaseIds.le
    (List.cons_subset.2 ⟨mem_databaseIds_iff.2 hd, List.nil_subset _⟩)

/-- The loop that starts from what a database includes, and looks for another one, ends with the answer
whether the database includes it, directly or not. -/
theorem seek_answers_includesTransitively (other : DatabaseId) :
    Graph.QueueSearch.Answers (Graph.QueueSearch.seek store.includesOf other)
      { queue := store.includesOf d } (store.includesTransitively d other) :=
  Graph.QueueSearch.seek_answers_reachable hstore.closed_includesOf length_databaseIds.le
    fun _ h => mem_databaseIds_iff.2 (hstore.hasDatabase_of_mem_includesOf h)

end Closed

/-! ## What one database declares -/

/-- What is found by name in one database is what it lists under the name, if this is so in every database
of the store. -/
theorem declared_iff {α : Type} {declared : Database → Option α} {Lists Named : DatabaseId → α → Prop}
    (hregistered : ∀ owner a, Lists owner a ↔ Named owner a)
    (hlists : ∀ owner a, Lists owner a → ∃ found, store.database? owner = some found)
    (hfinds : ∀ owner found, store.database? owner = some found →
      ∀ a, declared found = some a ↔ Named owner a) (owner : DatabaseId) (a : α) :
    (store.database? owner).bind declared = some a ↔ Lists owner a := by
  cases hfound : store.database? owner with
  | none =>
    refine iff_of_false (by simp) fun hlisted => ?_
    obtain ⟨found, hsome⟩ := hlists owner a hlisted
    rw [hfound] at hsome
    cases hsome
  | some found => exact (hfinds owner found hfound a).trans (hregistered owner a).symm

theorem tableDeclared_iff (hstore : store.Cataloged) (schema name : String) (owner : DatabaseId)
    (id : TableId) : ((store.database? owner).bind fun found =>
      (found.schema? schema).bind fun s => s.table? name) = some id ↔
      store.ListsTable owner schema name id :=
  declared_iff (fun owner id => hstore.registered.tables owner schema name id)
    (fun _ _ ⟨found, hfound, _⟩ => ⟨found, hfound⟩)
    (fun owner found hfound id => hstore.finds.table owner found hfound schema name id) owner id

theorem joinDeclared_iff (hstore : store.Cataloged) (name : String) (owner : DatabaseId) (id : JoinId) :
    ((store.database? owner).bind fun found => found.joins.lookup name) = some id ↔
      store.ListsJoin owner name id :=
  declared_iff (fun owner id => hstore.registered.joins owner name id)
    (fun _ _ ⟨found, hfound, _⟩ => ⟨found, hfound⟩)
    (fun owner found hfound id => hstore.finds.join owner found hfound name id) owner id

theorem filterDeclared_iff (hstore : store.Cataloged) (name : String) (owner : DatabaseId)
    (id : FilterId) : ((store.database? owner).bind fun found => found.filters.lookup name) = some id ↔
      store.ListsFilter owner name id :=
  declared_iff (fun owner id => hstore.registered.filters owner name id)
    (fun _ _ ⟨found, hfound, _⟩ => ⟨found, hfound⟩)
    (fun owner found hfound id => hstore.finds.filter owner found hfound name id) owner id

/-! ## Lookups -/

/-- A lookup from a database finds something if a visible database declares it, and then it finds what
the first one of these declares. No visible database that declares anything is nearer than this one. -/
structure FindsNearest {α : Type} (store : Store) (d : DatabaseId) (Declares : DatabaseId → α → Prop)
    (found : Option α) : Prop where
  isSome_iff : found.isSome ↔ ∃ owner ∈ store.visibleDatabases d, ∃ a, Declares owner a
  first_iff : ∀ a, found = some a ↔ ∃ front owner back,
    store.visibleDatabases d = front ++ owner :: back ∧ Declares owner a ∧
      ∀ passed ∈ front, ∀ b, ¬ Declares passed b
  nearest : ∀ a, found = some a → ∃ owner ∈ store.visibleDatabases d, Declares owner a ∧
    ∀ other ∈ store.visibleDatabases d, ∀ b, Declares other b →
      Graph.distance store.includesOf d owner ≤ Graph.distance store.includesOf d other

theorem pairwise_distance_visibleDatabases (store : Store) (d : DatabaseId) :
    (store.visibleDatabases d).Pairwise fun a b =>
      Graph.distance store.includesOf d a ≤ Graph.distance store.includesOf d b :=
  Graph.pairwise_distance_reachable _ _ d

/-- What is found first is nearest, as visible databases stand in the order of their distances. -/
theorem findsNearest_findVisible? {α : Type} {declared : Database → Option α}
    {Declares : DatabaseId → α → Prop}
    (hdeclared : ∀ owner a, (store.database? owner).bind declared = some a ↔ Declares owner a) :
    store.FindsNearest d Declares (store.findVisible? d declared) := by
  have hnone : ∀ owner, (store.database? owner).bind declared = none ↔ ∀ a, ¬ Declares owner a := by
    intro owner
    rw [Option.eq_none_iff_forall_ne_some]
    exact forall_congr' fun a => not_congr (hdeclared owner a)
  have hfirst : ∀ a, store.findVisible? d declared = some a ↔ ∃ front owner back,
      store.visibleDatabases d = front ++ owner :: back ∧ Declares owner a ∧
        ∀ passed ∈ front, ∀ b, ¬ Declares passed b := by
    intro a
    simp only [findVisible?, List.findSome?_eq_some_iff, hdeclared, hnone]
  refine ⟨?_, hfirst, fun a ha => ?_⟩
  · rw [isSome_findVisible?_iff]
    simp only [Option.isSome_iff_exists, hdeclared]
  · obtain ⟨owner, hvisible, howner, hleast⟩ :=
      exists_least_of_findSome? (store.pairwise_distance_visibleDatabases d) ha
    refine ⟨owner, hvisible, (hdeclared owner a).1 howner, fun other hother b hb => ?_⟩
    exact hleast other hother (Option.isSome_iff_exists.2 ⟨b, (hdeclared other b).2 hb⟩)

/-- A database sees itself first and then, each once and the nearer ones first, exactly the databases
that its includes reach; it includes another one, directly or not, if one or more includes lead to it. The
loops that search for this come to an end, whatever circles the includes run in. And a table, a join or a
filter is the one that the first database in sight declares. -/
theorem lookups_nearest_first {settings : ResolutionSettings} {sources : List Source.Database}
    (h : build settings sources = .ok store) (hd : store.HasDatabase d) :
    Graph.QueueSearch.Answers (Graph.QueueSearch.visit store.includesOf) { queue := [d] }
        (store.visibleDatabases d) ∧
      (∃ rest, store.visibleDatabases d = d :: rest) ∧ (store.visibleDatabases d).Nodup ∧
      (∀ d', d' ∈ store.visibleDatabases d ↔ Graph.Reaches store.includesOf d d') ∧
      ((store.visibleDatabases d).Pairwise fun a b =>
        Graph.distance store.includesOf d a ≤ Graph.distance store.includesOf d b) ∧
      (∀ other, Graph.QueueSearch.Answers (Graph.QueueSearch.seek store.includesOf other)
          { queue := store.includesOf d } (store.includesTransitively d other) ∧
        (store.includesTransitively d other = true ↔
          Relation.TransGen (Graph.Step store.includesOf) d other)) ∧
      (∀ schema name, store.FindsNearest d (fun owner id => store.ListsTable owner schema name id)
        (store.findTable? d schema name)) ∧
      (∀ name, store.FindsNearest d (fun owner id => store.ListsJoin owner name id)
        (store.findJoin? d name)) ∧
      ∀ name, store.FindsNearest d (fun owner id => store.ListsFilter owner name id)
        (store.findFilter? d name) := by
  have hclosed := closed_of_build h
  have hcataloged := cataloged_of_build h
  have hfirst : ∃ rest, store.visibleDatabases d = d :: rest := by
    obtain ⟨size, hsize⟩ := Nat.exists_eq_add_of_lt (Nat.zero_lt_of_lt hd)
    unfold visibleDatabases
    rw [hsize, Nat.zero_add]
    exact Graph.exists_reachable_eq_cons size store.includesOf d
  exact ⟨visit_answers_visibleDatabases hclosed hd, hfirst, Graph.reachable_nodup _ _ _,
    fun d' => mem_visibleDatabases_iff hclosed hd, store.pairwise_distance_visibleDatabases d,
    fun other => ⟨seek_answers_includesTransitively hclosed other,
      includesTransitively_iff_transGen hclosed⟩,
    fun schema name => findsNearest_findVisible? (tableDeclared_iff hcataloged schema name),
    fun name => findsNearest_findVisible? (joinDeclared_iff hcataloged name),
    fun name => findsNearest_findVisible? (filterDeclared_iff hcataloged name)⟩

/-! ## Databases in a circle -/

/-- A database with a table, or with none. -/
def databaseWith (name : String) (includes tables : List String) : Source.Database where
  name := ⟨name, {}⟩
  includes := includes.map fun i => ⟨i, {}⟩
  schemas := [{
    name := ⟨"default", {}⟩
    tables := tables.map fun t => { name := ⟨t, {}⟩, columns := [⟨⟨"ID", {}⟩, .integer, true, false⟩] } }]

/-- The first and the second database include each other; behind them are two that have a table of one
name, the nearer of which the farther one includes too. -/
def circleOfDatabases : List Source.Database :=
  [databaseWith "first" ["second", "near"] [], databaseWith "second" ["first", "far"] [],
    databaseWith "near" [] ["T"], databaseWith "far" ["near"] ["T"]]

/-- What can be checked of the store that is built holds of a store that is built. -/
theorem exists_build_of_any {settings : ResolutionSettings} {sources : List Source.Database}
    (p : Store → Bool) (h : (build settings sources).toOption.any p) :
    ∃ store, build settings sources = .ok store ∧ p store := by
  cases hbuild : build settings sources with
  | error failure => simp [hbuild, Except.toOption] at h
  | ok store => exact ⟨store, rfl, by simpa [hbuild, Except.toOption] using h⟩

/-- Around a circle each database is seen once and each of the two includes itself; and the table of the
nearer database hides that of the farther one. -/
theorem lookups_nearest_first_of_circle :
    ∃ store, build {} circleOfDatabases = .ok store ∧ store.HasDatabase ⟨0⟩ ∧
      store.visibleDatabases ⟨0⟩ = [⟨0⟩, ⟨1⟩, ⟨2⟩, ⟨3⟩] ∧
      Graph.Reaches store.includesOf ⟨0⟩ ⟨3⟩ ∧
      Relation.TransGen (Graph.Step store.includesOf) ⟨0⟩ ⟨0⟩ ∧
      store.ListsTable ⟨3⟩ "default" "T" ⟨1⟩ ∧ store.findTable? ⟨0⟩ "default" "T" = some ⟨0⟩ ∧
      ∃ owner ∈ store.visibleDatabases ⟨0⟩, store.ListsTable owner "default" "T" ⟨0⟩ ∧
        Graph.distance store.includesOf ⟨0⟩ owner ≤ Graph.distance store.includesOf ⟨0⟩ ⟨3⟩ := by
  obtain ⟨store, hbuild, hfacts⟩ : ∃ store, build {} circleOfDatabases = .ok store ∧ _ :=
    exists_build_of_any (fun store => store.databases.length = 4 ∧
      store.visibleDatabases ⟨0⟩ = [⟨0⟩, ⟨1⟩, ⟨2⟩, ⟨3⟩] ∧ store.includesTransitively ⟨0⟩ ⟨0⟩ ∧
      store.findTable? ⟨0⟩ "default" "T" = some ⟨0⟩ ∧
      ((store.database? ⟨3⟩).bind fun found =>
        (found.schema? "default").bind fun s => s.table? "T") = some ⟨1⟩) (by decide +kernel)
  obtain ⟨hlength, hvisible, hcircle, hfound, hfar⟩ := of_decide_eq_true hfacts
  have hd : store.HasDatabase ⟨0⟩ := by simp [HasDatabase, hlength]
  obtain ⟨-, -, -, hreaches, -, hincludes, htables, -, -⟩ := lookups_nearest_first hbuild hd
  have hlists : store.ListsTable ⟨3⟩ "default" "T" ⟨1⟩ :=
    (tableDeclared_iff (cataloged_of_build hbuild) _ _ _ _).1 hfar
  obtain ⟨owner, howner, hdeclares, hnearest⟩ := (htables "default" "T").nearest ⟨0⟩ hfound
  have hseen : ⟨3⟩ ∈ store.visibleDatabases ⟨0⟩ := by simp [hvisible]
  exact ⟨store, hbuild, hd, hvisible, (hreaches ⟨3⟩).1 hseen, (hincludes ⟨0⟩).2.1 hcircle, hlists, hfound,
    owner, howner, hdeclares, hnearest ⟨3⟩ hseen ⟨1⟩ hlists⟩

end ObjectRelational.Store
