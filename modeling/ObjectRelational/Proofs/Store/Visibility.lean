import ObjectRelational.Proofs.Store.Resolution

/-!
# What databases see

Databases include each other in any way, cycles included. A database sees what its includes reach, so it
sees all that any database sees which it sees itself; and what a lookup finds from a database is found,
perhaps elsewhere, from all those that see as much.

* `Store.mem_visibleDatabases_iff`, `Store.includesTransitively_iff`,
  `Store.includesTransitively_iff_transGen`: what the searches list.
* `Store.visibleDatabases_subset`: seeing is transitive.
* `Store.Offers`: one database offers all that another one does. `Store.offers_of_subset`: it does so when
  it sees as much.
-/

namespace ObjectRelational.Store

variable {store : Store} {d d' : DatabaseId}

theorem mem_databaseIds_iff : d ∈ store.databaseIds ↔ store.HasDatabase d := by
  obtain ⟨index⟩ := d
  simp [databaseIds, HasDatabase]

theorem length_databaseIds : store.databaseIds.length = store.databases.length := by
  simp [databaseIds]

/-! ## Searches -/

section Closed

variable (hstore : store.Closed)
include hstore

theorem Closed.hasDatabase_of_mem_includesOf (h : d' ∈ store.includesOf d) : store.HasDatabase d' := by
  unfold includesOf at h
  split at h
  · rename_i found hfound
    exact (hstore.databases found (hasDatabase_of_database? hfound).2).includes d' h
  · simp at h

theorem Closed.closed_includesOf : Graph.Closed store.includesOf store.databaseIds :=
  fun _ _ _ h => mem_databaseIds_iff.2 (hstore.hasDatabase_of_mem_includesOf h)

/-- A database sees the databases that its includes reach. -/
theorem mem_visibleDatabases_iff (hd : store.HasDatabase d) :
    d' ∈ store.visibleDatabases d ↔ Graph.Reaches store.includesOf d d' := by
  have hstart : [d] ⊆ store.databaseIds := List.cons_subset.2 ⟨mem_databaseIds_iff.2 hd, by simp⟩
  unfold visibleDatabases
  rw [Graph.mem_reachable_iff hstore.closed_includesOf length_databaseIds.le hstart]
  simp

/-- One database leads to another if one of its includes reaches it. -/
theorem includesTransitively_iff : store.includesTransitively d d' = true ↔
    ∃ next ∈ store.includesOf d, Graph.Reaches store.includesOf next d' := by
  have hstart : store.includesOf d ⊆ store.databaseIds :=
    fun _ h => mem_databaseIds_iff.2 (hstore.hasDatabase_of_mem_includesOf h)
  unfold includesTransitively
  rw [decide_eq_true_iff, Graph.mem_reachable_iff hstore.closed_includesOf length_databaseIds.le hstart]

theorem includesTransitively_iff_transGen : store.includesTransitively d d' = true ↔
    Relation.TransGen (Graph.Step store.includesOf) d d' := by
  rw [includesTransitively_iff hstore, Relation.TransGen.head'_iff]
  rfl

theorem mem_visibleDatabases_of_includesTransitively (hd : store.HasDatabase d)
    (h : store.includesTransitively d d' = true) : d' ∈ store.visibleDatabases d := by
  obtain ⟨next, hnext, hreaches⟩ := (includesTransitively_iff hstore).1 h
  exact (mem_visibleDatabases_iff hstore hd).2 ((Graph.Reaches.step hnext).trans hreaches)

omit hstore in
/-- Only a database of the store sees one. -/
theorem hasDatabase_of_mem_visible (h : d' ∈ store.visibleDatabases d) (hd' : store.HasDatabase d') :
    store.HasDatabase d := by
  by_contra hd
  -- a handle that is out of bounds includes nothing
  have hnone : store.includesOf d = [] := by
    unfold includesOf
    rw [database?, List.getElem?_eq_none (Nat.le_of_not_lt hd)]
  obtain ⟨start, hstart, hreaches⟩ := Graph.reaches_of_mem_breadthFirst h
  obtain rfl := List.mem_singleton.1 hstart
  obtain rfl : d' = start := hreaches.mem_of_forall_step (s := (· = start))
    (fun a ha b hb => by simp [ha, hnone] at hb) rfl
  exact hd hd'

theorem mem_visibleDatabases_self (hd : store.HasDatabase d) : d ∈ store.visibleDatabases d :=
  (mem_visibleDatabases_iff hstore hd).2 (Graph.Reaches.refl d)

/-- A database sees all that any database sees which it sees. -/
theorem visibleDatabases_subset (hd : store.HasDatabase d) (h : d' ∈ store.visibleDatabases d) :
    store.visibleDatabases d' ⊆ store.visibleDatabases d := by
  have hd' := hstore.hasDatabase_of_mem_visibleDatabases hd d' h
  intro e he
  rw [mem_visibleDatabases_iff hstore hd] at h ⊢
  exact h.trans ((mem_visibleDatabases_iff hstore hd').1 he)

end Closed

/-! ## Lookups -/

/-- What a lookup finds is declared by a visible database. -/
theorem exists_visible_of_findVisible? {α : Type} {declared : Database → Option α} {a : α}
    (h : store.findVisible? d declared = some a) : ∃ owner ∈ store.visibleDatabases d,
      ∃ found, store.database? owner = some found ∧ declared found = some a := by
  obtain ⟨owner, howner, hdeclared⟩ := List.exists_of_findSome?_eq_some h
  obtain ⟨found, hfound, hdeclared⟩ := Option.bind_eq_some_iff.1 hdeclared
  exact ⟨owner, howner, found, hfound, hdeclared⟩

/-- A lookup finds something if a visible database declares it. -/
theorem isSome_findVisible?_iff {α : Type} {declared : Database → Option α} :
    (store.findVisible? d declared).isSome ↔ ∃ visible ∈ store.visibleDatabases d,
      ((store.database? visible).bind declared).isSome := by
  simp [findVisible?, List.findSome?_isSome_iff]

/-- The second database offers whatever the first one does: it sees every database that the first one
sees, and whatever name a lookup from the first one finds, one from the second finds too. -/
structure Offers (store : Store) (d d' : DatabaseId) : Prop where
  databases : store.visibleDatabases d ⊆ store.visibleDatabases d'
  schema : ∀ name, store.hasSchema d name → store.hasSchema d' name
  table : ∀ schema name,
    (store.findTable? d schema name).isSome → (store.findTable? d' schema name).isSome
  join : ∀ name, (store.findJoin? d name).isSome → (store.findJoin? d' name).isSome
  filter : ∀ name, (store.findFilter? d name).isSome → (store.findFilter? d' name).isSome

/-- A database that sees as much as another one offers what the other one does. -/
theorem offers_of_subset (h : store.visibleDatabases d ⊆ store.visibleDatabases d') :
    store.Offers d d' := by
  have hfound : ∀ {α : Type} (declared : Database → Option α),
      (store.findVisible? d declared).isSome → (store.findVisible? d' declared).isSome := by
    intro α declared hsome
    obtain ⟨visible, hvisible, hdeclared⟩ := isSome_findVisible?_iff.1 hsome
    exact isSome_findVisible?_iff.2 ⟨visible, h hvisible, hdeclared⟩
  exact ⟨h, fun _ => hfound _, fun _ _ => hfound _, fun _ => hfound _, fun _ => hfound _⟩

end ObjectRelational.Store
