import ObjectRelational.Proofs.Store.Phases.Dependence

/-!
# Registering joins and filters

The fourth phase of a build resolves the conditions of the joins and filters of each database. A condition
that goes along a join finds it only when the database that declares it has been gone through before, so
that another order of the databases changes nothing as long as such databases stay in their order.

* `Source.Database.conditions`, `Store.addCondition`: joins and filters, one after the other.
* `Store.Share`: what a database has registered in this phase.
* `Store.resolveJoin_eq`, `Store.resolveFilter_eq`: conditions resolve alike.
* `Store.SameStart.findsAlike`: a join is found alike when its database has been gone through in both
  orders or in none.
* `Store.SameStart.joins_of_perm`: joins and filters are registered in another order too.
-/

namespace ObjectRelational

/-- The joins of a database and then its filters. -/
def Source.Database.conditions (d : Source.Database) : List (Source.Join ⊕ Source.Filter) :=
  d.joins.map .inl ++ d.filters.map .inr

namespace Store

variable {ρ : Renumbering} {s s' t : Store} {database : DatabaseId} {defaultSchema : String}

/-! ## Conditions -/

/-- The condition of a join resolves alike. -/
theorem resolveJoin_eq
    (h : Resolver.Alike ρ (s.resolverIn defaultSchema database)
      (s'.resolverIn defaultSchema (ρ.database database)))
    (hcolumns : ∀ table, SameColumns ρ s s' table) {source : Source.Join}
    (hfinds : ∀ reference ∈ source.condition.joinReferences,
      Resolver.FindsAlike ρ (s.resolverIn defaultSchema database)
        (s'.resolverIn defaultSchema (ρ.database database)) reference) :
    s'.resolveJoin defaultSchema (ρ.database database) source =
      Join.renumber ρ <$> s.resolveJoin defaultSchema database source := by
  unfold resolveJoin
  have htables := h.referencedTables_eq source.condition
  dsimp only
  rw [htables]
  refine Recorded.bind_eq_map (Recorded.monadLift_map _ _) fun tables _ => ?_
  have hresolve := h.resolve_eq source.condition hfinds (fun _ _ _ _ => hcolumns _) none
  cases source.condition.usesTarget with
  | true =>
    match tables with
    | [] => rfl
    | [table] =>
      -- a self join: the far side is the same table under a name of its own
      have hfar : s'.farSide (ρ.database database) (ρ.table table) =
          (s.farSide database table).renumber ρ := by
        have hname := h.names.tableName_eq table
        simp only [resolverIn] at hname
        simp only [farSide, TableAlias.renumber, hname]
      have hself : Resolver.Alike ρ
          { s.resolverIn defaultSchema database with
            selfJoinTarget := some (s.farSide database table) }
          { s'.resolverIn defaultSchema (ρ.database database) with
            selfJoinTarget := some (s'.farSide (ρ.database database) (ρ.table table)) } :=
        { names := h.names
          database := h.database
          defaultSchema := h.defaultSchema
          selfJoinTarget := congrArg some hfar
          targetColumns := fun _ _ => hcolumns _ }
      refine Recorded.bind_eq_map
        (hself.resolve_eq source.condition hfinds (fun _ _ _ _ => hcolumns _) none)
        fun condition _ => ?_
      simp [Join.renumber]
    | _ :: _ :: _ =>
      simp only [List.map_cons, List.length_cons, List.length_map]
      rfl
  | false =>
    simp only [List.length_map, Bool.false_eq_true, if_false]
    split
    · refine Recorded.bind_eq_map hresolve fun condition _ => ?_
      simp [Join.renumber]
    · rfl

/-- The condition of a filter resolves alike. -/
theorem resolveFilter_eq
    (h : Resolver.Alike ρ (s.resolverIn defaultSchema database)
      (s'.resolverIn defaultSchema (ρ.database database)))
    (hcolumns : ∀ table, SameColumns ρ s s' table) {source : Source.Filter}
    (hfinds : ∀ reference ∈ source.condition.joinReferences,
      Resolver.FindsAlike ρ (s.resolverIn defaultSchema database)
        (s'.resolverIn defaultSchema (ρ.database database)) reference) :
    s'.resolveFilter defaultSchema (ρ.database database) source =
      Filter.renumber ρ <$> s.resolveFilter defaultSchema database source := by
  unfold resolveFilter
  have htables := h.referencedTables_eq source.condition
  dsimp only
  rw [htables]
  refine Recorded.bind_eq_map (Recorded.monadLift_map _ _) fun tables _ => ?_
  refine Recorded.bind_eq_map
    (h.resolve_eq source.condition hfinds (fun _ _ _ _ => hcolumns _) none) fun condition _ => ?_
  simp [Filter.renumber]

/-! ## Adding a join or filter -/

/-- The store with one more join, which a database declares. -/
def withJoin (s : Store) (database : DatabaseId) (name : String) (join : Join) : Store :=
  ({ s with joins := s.joins ++ [join] }).modifyDatabase database fun d =>
    { d with joins := d.joins ++ [(name, JoinId.mk s.joins.length)] }

/-- The store with one more filter, which a database declares. -/
def withFilter (s : Store) (database : DatabaseId) (name : String) (filter : Filter) : Store :=
  ({ s with filters := s.filters ++ [filter] }).modifyDatabase database fun d =>
    { d with filters := d.filters ++ [(name, FilterId.mk s.filters.length)] }

/-- Registers a join or filter. -/
def addCondition (defaultSchema : String) (database : DatabaseId) (owner : Name) (s : Store) :
    Source.Join ⊕ Source.Filter → Recorded Store
  | .inl join => addJoin defaultSchema database owner s join
  | .inr filter => addFilter defaultSchema database owner s filter

theorem addJoinsAndFilters_eq (defaultSchema : String) (s : Store) (id : DatabaseId)
    (d : Source.Database) : addJoinsAndFilters defaultSchema s id d =
      d.conditions.foldlM (addCondition defaultSchema id d.name) s := by
  unfold addJoinsAndFilters Source.Database.conditions
  rw [List.foldlM_append, List.foldlM_map]
  refine bind_congr fun t => ?_
  rw [List.foldlM_map]
  rfl

theorem addJoin_eq {owner : Name} {source : Source.Join}
    (hnew : s.declaresJoin database source.name.value = false) :
    addJoin defaultSchema database owner s source =
      s.withJoin database source.name.value <$> s.resolveJoin defaultSchema database source := by
  unfold addJoin
  dsimp only
  rw [if_neg (by simp [hnew]), map_eq_pure_bind]
  rfl

theorem addFilter_eq {owner : Name} {source : Source.Filter}
    (hnew : s.declaresFilter database source.name.value = false) :
    addFilter defaultSchema database owner s source =
      s.withFilter database source.name.value <$> s.resolveFilter defaultSchema database source := by
  unfold addFilter
  dsimp only
  rw [if_neg (by simp [hnew]), map_eq_pure_bind]
  rfl

/-- A join that is registered has a name of its own and a condition that resolves. -/
theorem exists_of_addJoin {owner : Name} {source : Source.Join}
    (h : (addJoin defaultSchema database owner s source).result = .ok t) :
    s.declaresJoin database source.name.value = false ∧
      ∃ join, (s.resolveJoin defaultSchema database source).result = .ok join ∧
        t = s.withJoin database source.name.value join := by
  cases hnew : s.declaresJoin database source.name.value with
  | true =>
    unfold addJoin at h
    dsimp only at h
    rw [if_pos hnew] at h
    exact absurd h (found_ne_ok _ _ _)
  | false =>
    rw [addJoin_eq hnew, Recorded.result_map] at h
    obtain ⟨join, hjoin, rfl⟩ := map_eq_ok_iff.1 h
    exact ⟨rfl, join, hjoin, rfl⟩

/-- A filter that is registered has a name of its own and a condition that resolves. -/
theorem exists_of_addFilter {owner : Name} {source : Source.Filter}
    (h : (addFilter defaultSchema database owner s source).result = .ok t) :
    s.declaresFilter database source.name.value = false ∧
      ∃ filter, (s.resolveFilter defaultSchema database source).result = .ok filter ∧
        t = s.withFilter database source.name.value filter := by
  cases hnew : s.declaresFilter database source.name.value with
  | true =>
    unfold addFilter at h
    dsimp only at h
    rw [if_pos hnew] at h
    exact absurd h (found_ne_ok _ _ _)
  | false =>
    rw [addFilter_eq hnew, Recorded.result_map] at h
    obtain ⟨filter, hfilter, rfl⟩ := map_eq_ok_iff.1 h
    exact ⟨rfl, filter, hfilter, rfl⟩

/-! ## What a database has registered -/

variable {sources sources' pre post : List Source.Database} {d e : Source.Database}

/-- What one database has of what the fourth phase registers. -/
structure Share where
  database : Option Database
  joins : List Join
  filters : List Filter

/-- What is left of a share when a database is listed at another place. -/
def Share.renumber (ρ : Renumbering) (share : Share) : Share :=
  ⟨share.database.map (Database.renumber ρ), share.joins.map (Join.renumber ρ),
    share.filters.map (Filter.renumber ρ)⟩

/-- What a database of the list has registered. -/
def share (sources : List Source.Database) (s : Store) (d : Source.Database) : Share :=
  ⟨s.database? (handleIn sources d), block (·.joins.length) sources d s.joins,
    block (·.filters.length) sources d s.filters⟩

/-- The joins and filters under the names of a database are declared by it and stand in its block. -/
structure RegisteredBy (sources : List Source.Database) (d : Source.Database) (found : Database) :
    Prop where
  join : ∀ name id, found.joins.lookup name = some id → (∃ join ∈ d.joins, join.name.value = name) ∧
    ∃ k < d.joins.length, id.index = offset (·.joins.length) sources d + k
  filter : ∀ name id, found.filters.lookup name = some id →
    (∃ filter ∈ d.filters, filter.name.value = name) ∧
      ∃ k < d.filters.length, id.index = offset (·.filters.length) sources d + k

/-- A store of the fourth phase, with numbers of joins and filters: all that was there at the start is
kept. -/
structure Joined (sources : List Source.Database) (start : Store) (joins filters : Nat) (s : Store) :
    Prop where
  keeps : KeepsNames start s
  tables : s.tables = start.tables
  joins : s.joins.length = joins
  filters : s.filters.length = filters
  registered : ∀ d ∈ sources, ∀ found, s.database? (handleIn sources d) = some found →
    RegisteredBy sources d found

theorem database?_withJoin_of_ne (h : DistinctNames sources) (hd : d ∈ sources) (he : e ∈ sources)
    (hne : e ≠ d) (s : Store) (name : String) (join : Join) :
    (s.withJoin (handleIn sources d) name join).database? (handleIn sources e) =
      s.database? (handleIn sources e) :=
  database?_modifyDatabase_of_ne _ (fun hsame => hne (handleIn_inj h hd he hsame.symm)) _

theorem database?_withFilter_of_ne (h : DistinctNames sources) (hd : d ∈ sources) (he : e ∈ sources)
    (hne : e ≠ d) (s : Store) (name : String) (filter : Filter) :
    (s.withFilter (handleIn sources d) name filter).database? (handleIn sources e) =
      s.database? (handleIn sources e) :=
  database?_modifyDatabase_of_ne _ (fun hsame => hne (handleIn_inj h hd he hsame.symm)) _

/-- A join is added to the share of its database. -/
theorem share_withJoin_self (s : Store) (name : String) (join : Join)
    (hle : offset (·.joins.length) sources d ≤ s.joins.length)
    (hfits : s.joins.length + 1 ≤ offset (·.joins.length) sources d + d.joins.length) :
    share sources (s.withJoin (handleIn sources d) name join) d =
      ⟨(s.database? (handleIn sources d)).map fun found =>
          { found with joins := found.joins ++ [(name, JoinId.mk s.joins.length)] },
        block (·.joins.length) sources d s.joins ++ [join],
        block (·.filters.length) sources d s.filters⟩ := by
  have hdatabase := database?_modifyDatabase_self { s with joins := s.joins ++ [join] }
    (handleIn sources d) fun found =>
      { found with joins := found.joins ++ [(name, JoinId.mk s.joins.length)] }
  exact (Share.mk.injEq ..).mpr ⟨hdatabase, block_append hle hfits, rfl⟩

/-- A join is added to no other share. -/
theorem share_withJoin_of_ne (h : DistinctNames sources) (hd : d ∈ sources) (he : e ∈ sources)
    (hne : e ≠ d) (s : Store) (name : String) (join : Join)
    (hle : offset (·.joins.length) sources d ≤ s.joins.length)
    (hfits : s.joins.length + 1 ≤ offset (·.joins.length) sources d + d.joins.length) :
    share sources (s.withJoin (handleIn sources d) name join) e = share sources s e :=
  (Share.mk.injEq ..).mpr ⟨database?_withJoin_of_ne h hd he hne s name join,
    block_append_of_ne h hd he hne hle hfits, rfl⟩

/-- A filter is added to the share of its database. -/
theorem share_withFilter_self (s : Store) (name : String) (filter : Filter)
    (hle : offset (·.filters.length) sources d ≤ s.filters.length)
    (hfits : s.filters.length + 1 ≤ offset (·.filters.length) sources d + d.filters.length) :
    share sources (s.withFilter (handleIn sources d) name filter) d =
      ⟨(s.database? (handleIn sources d)).map fun found =>
          { found with filters := found.filters ++ [(name, FilterId.mk s.filters.length)] },
        block (·.joins.length) sources d s.joins,
        block (·.filters.length) sources d s.filters ++ [filter]⟩ := by
  have hdatabase := database?_modifyDatabase_self { s with filters := s.filters ++ [filter] }
    (handleIn sources d) fun found =>
      { found with filters := found.filters ++ [(name, FilterId.mk s.filters.length)] }
  exact (Share.mk.injEq ..).mpr ⟨hdatabase, rfl, block_append hle hfits⟩

/-- A filter is added to no other share. -/
theorem share_withFilter_of_ne (h : DistinctNames sources) (hd : d ∈ sources) (he : e ∈ sources)
    (hne : e ≠ d) (s : Store) (name : String) (filter : Filter)
    (hle : offset (·.filters.length) sources d ≤ s.filters.length)
    (hfits : s.filters.length + 1 ≤ offset (·.filters.length) sources d + d.filters.length) :
    share sources (s.withFilter (handleIn sources d) name filter) e = share sources s e :=
  (Share.mk.injEq ..).mpr ⟨database?_withFilter_of_ne h hd he hne s name filter, rfl,
    block_append_of_ne h hd he hne hle hfits⟩

/-- An entry that is found behind others is one of them or the last one. -/
theorem lookup_append_singleton {α : Type} {entries : List (String × α)} {name other : String}
    {a b : α} (h : (entries ++ [(other, b)]).lookup name = some a) :
    entries.lookup name = some a ∨ other = name ∧ b = a := by
  rw [List.lookup_append, Option.or_eq_some_iff] at h
  rcases h with h | ⟨-, h⟩
  · exact .inl h
  · simp only [List.lookup_cons, List.lookup_nil] at h
    split at h
    · rename_i hsame
      exact .inr ⟨(eq_of_beq hsame).symm, Option.some.inj h⟩
    · cases h

variable {start : Store} {joins filters : Nat}

/-- Another join keeps the invariant. -/
theorem Joined.withJoin (hs : Joined sources start joins filters s) (h : DistinctNames sources)
    (hd : d ∈ sources) {source : Source.Join} (hsource : source ∈ d.joins)
    (hle : offset (·.joins.length) sources d ≤ joins)
    (hfits : joins + 1 ≤ offset (·.joins.length) sources d + d.joins.length) (join : Join) :
    Joined sources start (joins + 1) filters
      (s.withJoin (handleIn sources d) source.name.value join) where
  keeps := KeepsNames.modifyDatabase (t := { s with joins := s.joins ++ [join] })
    ⟨hs.keeps.databases, hs.keeps.tables⟩ _ fun _ => rfl
  tables := hs.tables
  joins := by simp [Store.withJoin, modifyDatabase, hs.joins]
  filters := hs.filters
  registered := by
    intro e he found hfound
    by_cases hne : e = d
    · subst hne
      rw [Store.withJoin, database?_modifyDatabase_self] at hfound
      obtain ⟨old, hold, rfl⟩ := Option.map_eq_some_iff.1 hfound
      have hregistered := hs.registered e he old hold
      refine ⟨fun name id hid => ?_, hregistered.filter⟩
      -- the entry that is new has the number of the join that is added
      rcases lookup_append_singleton hid with hid | ⟨rfl, rfl⟩
      · exact hregistered.join name id hid
      · refine ⟨⟨source, hsource, rfl⟩, joins - offset (·.joins.length) sources e, by omega, ?_⟩
        simp only [hs.joins]
        omega
    · rw [database?_withJoin_of_ne h hd he hne] at hfound
      exact hs.registered e he found hfound

/-- Another filter keeps the invariant. -/
theorem Joined.withFilter (hs : Joined sources start joins filters s) (h : DistinctNames sources)
    (hd : d ∈ sources) {source : Source.Filter} (hsource : source ∈ d.filters)
    (hle : offset (·.filters.length) sources d ≤ filters)
    (hfits : filters + 1 ≤ offset (·.filters.length) sources d + d.filters.length)
    (filter : Filter) :
    Joined sources start joins (filters + 1)
      (s.withFilter (handleIn sources d) source.name.value filter) where
  keeps := KeepsNames.modifyDatabase (t := { s with filters := s.filters ++ [filter] })
    ⟨hs.keeps.databases, hs.keeps.tables⟩ _ fun _ => rfl
  tables := hs.tables
  joins := hs.joins
  filters := by simp [Store.withFilter, modifyDatabase, hs.filters]
  registered := by
    intro e he found hfound
    by_cases hne : e = d
    · subst hne
      rw [Store.withFilter, database?_modifyDatabase_self] at hfound
      obtain ⟨old, hold, rfl⟩ := Option.map_eq_some_iff.1 hfound
      have hregistered := hs.registered e he old hold
      refine ⟨hregistered.join, fun name id hid => ?_⟩
      rcases lookup_append_singleton hid with hid | ⟨rfl, rfl⟩
      · exact hregistered.filter name id hid
      · refine ⟨⟨source, hsource, rfl⟩, filters - offset (·.filters.length) sources e, by omega, ?_⟩
        simp only [hs.filters]
        omega
    · rw [database?_withFilter_of_ne h hd he hne] at hfound
      exact hs.registered e he found hfound

/-- A database has no join under a name that none of its declarations has. -/
theorem Joined.lookup_eq_none (hs : Joined sources start joins filters s) (he : e ∈ sources)
    {name : String} (h : ¬ ∃ join ∈ e.joins, join.name.value = name) :
    ((s.database? (handleIn sources e)).bind fun found => found.joins.lookup name) = none := by
  rw [Option.eq_none_iff_forall_not_mem]
  intro join hjoin
  obtain ⟨found, hfound, hjoin⟩ := Option.bind_eq_some_iff.1 hjoin
  exact h ((hs.registered e he found hfound).join _ _ hjoin).1

/-! ## Joins that are found alike -/

/-- The stores that the fourth phase starts from when the databases are listed in two orders. -/
structure SameStart (ρ : Renumbering) (defaultSchema : String) (sources sources' : List Source.Database)
    (start start' : Store) : Prop where
  distinct : DistinctNames sources
  perm : sources'.Perm sources
  carries : Carries ρ sources sources'
  inSameOrder : InSameOrder defaultSchema sources sources'
  named : Named sources start
  includes : IncludesNamed sources start
  names : SameNames ρ start start'
  table : ∀ id, start'.table? (ρ.table id) = (start.table? id).map (Table.renumber ρ)

variable {start' : Store} {joins' filters' : Nat}

theorem SameStart.sameColumns (h : SameStart ρ defaultSchema sources sources' start start')
    (hs : s.tables = start.tables) (hs' : s'.tables = start'.tables) (table : TableId) :
    SameColumns ρ s s' table := by
  intro name
  have htable := h.table table
  unfold table? at htable ⊢
  rw [hs, hs', htable]
  cases start.tables[table.index]? with
  | none => rfl
  | some found => exact found.column?_renumber name

theorem SameStart.alike (h : SameStart ρ defaultSchema sources sources' start start')
    (hs : KeepsNames start s) (hs' : KeepsNames start' s') (database : DatabaseId) :
    Resolver.Alike ρ (s.resolverIn defaultSchema database)
      (s'.resolverIn defaultSchema (ρ.database database)) where
  names := hs.sameNames hs' h.names
  database := rfl
  defaultSchema := rfl
  selfJoinTarget := rfl
  targetColumns := fun _ hnone => by cases hnone

/-- A condition finds the same joins, when the databases that are in front in both orders, or in none,
have the same ones. -/
theorem SameStart.findsAlike (h : SameStart ρ defaultSchema sources sources' start start')
    (hs : Joined sources start joins filters s) (hs' : Joined sources' start' joins' filters' s')
    (hd : d ∈ sources) {pre pre' : List Source.Database}
    (hfront : ∀ e ∈ sources, DependsOn defaultSchema sources d e → (e ∈ pre ↔ e ∈ pre'))
    (hagree : ∀ e ∈ sources, e = d ∨ (e ∈ pre ↔ e ∈ pre') →
      share sources' s' e = (share sources s e).renumber ρ)
    {reference : Source.JoinReference} (hreference : reference ∈ d.joinReferences) :
    Resolver.FindsAlike ρ (s.resolverIn defaultSchema (handleIn sources d))
      (s'.resolverIn defaultSchema (ρ.database (handleIn sources d))) reference := by
  intro id hid
  have hdistinct' := h.distinct.of_perm h.perm
  obtain ⟨first, hfirst, rfl, hname⟩ :=
    exists_handleIn_of_lookupAddressed (h.named.of_keepsNames hs.keeps) h.distinct hd hid
  -- of what is visible, only databases that declare such a join have to agree
  have hvisible : ∀ id ∈ s.visibleDatabases (handleIn sources first), ∃ e ∈ sources,
      id = handleIn sources e ∧ ((∃ join ∈ e.joins, join.name.value = reference.name.value) →
        share sources' s' e = (share sources s e).renumber ρ) := by
    intro id hid
    obtain ⟨e, he, rfl, hsees⟩ :=
      exists_sees_of_visible (h.includes.of_keepsNames hs.keeps) hfirst hid
    refine ⟨e, he, rfl, fun hdeclares => hagree e he (.inr (hfront e he ?_))⟩
    exact .join reference hreference (hname ▸ hsees) hdeclares
  refine ⟨?_, fun join hjoin => ?_⟩
  · refine (hs.keeps.sameNames hs'.keeps h.names).findVisible?_eq fun id hid => ?_
    obtain ⟨e, he, rfl, hshare⟩ := hvisible id hid
    rw [h.carries.database_handleIn he]
    by_cases hdeclares : ∃ join ∈ e.joins, join.name.value = reference.name.value
    · have hdatabase := congrArg Share.database (hshare hdeclares)
      simp only [share, Share.renumber] at hdatabase
      rw [hdatabase]
      cases s.database? (handleIn sources e) with
      | none => rfl
      | some found => exact lookup_map_snd found.joins reference.name.value
    · rw [hs'.lookup_eq_none (h.perm.mem_iff.2 he) hdeclares, hs.lookup_eq_none he hdeclares,
        Option.map_none]
  · obtain ⟨id, hid, hjoin⟩ := List.exists_of_findSome?_eq_some hjoin
    obtain ⟨e, he, rfl, hshare⟩ := hvisible id hid
    obtain ⟨found, hfound, hjoin⟩ := Option.bind_eq_some_iff.1 hjoin
    obtain ⟨hdeclares, k, hk, hindex⟩ := (hs.registered e he found hfound).join _ _ hjoin
    have hmoved := h.carries.joins.getElem?_of_block he (congrArg Share.joins (hshare hdeclares)) hk
    simpa only [resolverIn, join?, Renumbering.join, hindex] using hmoved

/-! ## The joins and filters of one database -/

theorem countP_isLeft_conditions (d : Source.Database) :
    d.conditions.countP Sum.isLeft = d.joins.length := by
  simp [Source.Database.conditions, List.countP_append, List.countP_map, Function.comp_def]

theorem countP_isRight_conditions (d : Source.Database) :
    d.conditions.countP Sum.isRight = d.filters.length := by
  simp [Source.Database.conditions, List.countP_append, List.countP_map, Function.comp_def]

variable {base base' : Store} {done rest : List (Source.Join ⊕ Source.Filter)}
  {condition : Source.Join ⊕ Source.Filter}

/-- A join has fewer joins in front of it than the database has. -/
theorem countP_isLeft_lt {source : Source.Join} (h : d.conditions = done ++ .inl source :: rest) :
    done.countP Sum.isLeft < d.joins.length := by
  rw [← countP_isLeft_conditions, h, List.countP_append, List.countP_cons]
  simp only [Sum.isLeft_inl, if_true]
  omega

/-- A filter has fewer filters in front of it than the database has. -/
theorem countP_isRight_lt {source : Source.Filter} (h : d.conditions = done ++ .inr source :: rest) :
    done.countP Sum.isRight < d.filters.length := by
  rw [← countP_isRight_conditions, h, List.countP_append, List.countP_cons]
  simp only [Sum.isRight_inr, if_true]
  omega

theorem mem_joins_of_conditions {source : Source.Join}
    (h : d.conditions = done ++ .inl source :: rest) : source ∈ d.joins := by
  have hmem : Sum.inl source ∈ d.conditions := by simp [h]
  simpa [Source.Database.conditions] using hmem

theorem mem_filters_of_conditions {source : Source.Filter}
    (h : d.conditions = done ++ .inr source :: rest) : source ∈ d.filters := by
  have hmem : Sum.inr source ∈ d.conditions := by simp [h]
  simpa [Source.Database.conditions] using hmem

/-- A store in which some of the joins and filters of a database are registered. -/
structure Joining (sources : List Source.Database) (start : Store) (d : Source.Database) (base : Store)
    (done : List (Source.Join ⊕ Source.Filter)) (s : Store) : Prop where
  joined : Joined sources start (offset (·.joins.length) sources d + done.countP Sum.isLeft)
    (offset (·.filters.length) sources d + done.countP Sum.isRight) s
  others : ∀ e ∈ sources, e ≠ d → share sources s e = share sources base e

/-- A join that is registered is added to the share of its database. -/
theorem Joining.withJoin (hs : Joining sources start d base done s) (h : DistinctNames sources)
    (hd : d ∈ sources) {source : Source.Join} (hsplit : d.conditions = done ++ .inl source :: rest)
    (join : Join) :
    Joining sources start d base (done ++ [.inl source])
        (s.withJoin (handleIn sources d) source.name.value join) ∧
      share sources (s.withJoin (handleIn sources d) source.name.value join) d =
        ⟨(s.database? (handleIn sources d)).map fun found =>
            { found with joins := found.joins ++ [(source.name.value, JoinId.mk s.joins.length)] },
          block (·.joins.length) sources d s.joins ++ [join],
          block (·.filters.length) sources d s.filters⟩ := by
  have hcount := countP_isLeft_lt hsplit
  have hlength := hs.joined.joins
  have hle : offset (·.joins.length) sources d ≤ s.joins.length := by omega
  have hfits : s.joins.length + 1 ≤ offset (·.joins.length) sources d + d.joins.length := by omega
  refine ⟨⟨?_, fun e he hne => ?_⟩, share_withJoin_self s _ join hle hfits⟩
  · simpa [List.countP_append, Nat.add_assoc] using
      hs.joined.withJoin h hd (mem_joins_of_conditions hsplit) (by omega) (by omega) join
  · rw [share_withJoin_of_ne h hd he hne s _ join hle hfits, hs.others e he hne]

/-- A filter that is registered is added to the share of its database. -/
theorem Joining.withFilter (hs : Joining sources start d base done s) (h : DistinctNames sources)
    (hd : d ∈ sources) {source : Source.Filter} (hsplit : d.conditions = done ++ .inr source :: rest)
    (filter : Filter) :
    Joining sources start d base (done ++ [.inr source])
        (s.withFilter (handleIn sources d) source.name.value filter) ∧
      share sources (s.withFilter (handleIn sources d) source.name.value filter) d =
        ⟨(s.database? (handleIn sources d)).map fun found =>
            { found with
              filters := found.filters ++ [(source.name.value, FilterId.mk s.filters.length)] },
          block (·.joins.length) sources d s.joins,
          block (·.filters.length) sources d s.filters ++ [filter]⟩ := by
  have hcount := countP_isRight_lt hsplit
  have hlength := hs.joined.filters
  have hle : offset (·.filters.length) sources d ≤ s.filters.length := by omega
  have hfits : s.filters.length + 1 ≤ offset (·.filters.length) sources d + d.filters.length := by
    omega
  refine ⟨⟨?_, fun e he hne => ?_⟩, share_withFilter_self s _ filter hle hfits⟩
  · simpa [List.countP_append, Nat.add_assoc] using
      hs.joined.withFilter h hd (mem_filters_of_conditions hsplit) (by omega) (by omega) filter
  · rw [share_withFilter_of_ne h hd he hne s _ filter hle hfits, hs.others e he hne]

theorem Joining.addCondition (hs : Joining sources start d base done s) (h : DistinctNames sources)
    (hd : d ∈ sources) (hsplit : d.conditions = done ++ condition :: rest)
    (hadd : (Store.addCondition defaultSchema (handleIn sources d) d.name s condition).result = .ok t) :
    Joining sources start d base (done ++ [condition]) t := by
  cases condition with
  | inl source =>
    obtain ⟨-, join, -, rfl⟩ := exists_of_addJoin hadd
    exact (hs.withJoin h hd hsplit join).1
  | inr source =>
    obtain ⟨-, filter, -, rfl⟩ := exists_of_addFilter hadd
    exact (hs.withFilter h hd hsplit filter).1

/-- The joins and filters of a database, or the first ones of them, add to its own share only. -/
theorem Joining.addConditions (hs : Joining sources start d base [] s) (h : DistinctNames sources)
    (hd : d ∈ sources) (hsplit : d.conditions = done ++ rest)
    (hadd : (done.foldlM (Store.addCondition defaultSchema (handleIn sources d) d.name)
      s).result = .ok t) :
    Joining sources start d base done t := by
  have hframes : Recorded.Frames (Store.addCondition defaultSchema (handleIn sources d) d.name)
      d.conditions (fun _ _ => ()) (Joining sources start d base) :=
    fun _ _ _ _ _ hsplit hs hadd => ⟨hs.addCondition h hd hsplit hadd, fun _ _ _ => rfl⟩
  have hfront : d.conditions = [] ++ (done ++ rest) := hsplit
  exact (hframes.run hfront hs hadd).1

theorem declaresJoin_eq {id id' : DatabaseId}
    (h : s'.database? id' = (s.database? id).map (Database.renumber ρ)) (name : String) :
    s'.declaresJoin id' name = s.declaresJoin id name := by
  rw [declaresJoin, declaresJoin, h]
  cases s.database? id with
  | none => rfl
  | some found => simp [Database.renumber, lookup_map_snd]

theorem declaresFilter_eq {id id' : DatabaseId}
    (h : s'.database? id' = (s.database? id).map (Database.renumber ρ)) (name : String) :
    s'.declaresFilter id' name = s.declaresFilter id name := by
  rw [declaresFilter, declaresFilter, h]
  cases s.database? id with
  | none => rfl
  | some found => simp [Database.renumber, lookup_map_snd]

/-- A join is registered alike, when its condition resolves alike. -/
theorem SameStart.addJoin (h : SameStart ρ defaultSchema sources sources' start start')
    (hs : Joining sources start d base done s) (hs' : Joining sources' start' d base' done s')
    (hd : d ∈ sources) {source : Source.Join} (hsplit : d.conditions = done ++ .inl source :: rest)
    (hown : share sources' s' d = (share sources s d).renumber ρ)
    (hresolve : s'.resolveJoin defaultSchema (handleIn sources' d) source =
      Join.renumber ρ <$> s.resolveJoin defaultSchema (handleIn sources d) source)
    (hadd : (Store.addJoin defaultSchema (handleIn sources d) d.name s source).result = .ok t) :
    ∃ t', Store.addJoin defaultSchema (handleIn sources' d) d.name s' source =
        ⟨(Store.addJoin defaultSchema (handleIn sources d) d.name s source).usages, .ok t'⟩ ∧
      share sources' t' d = (share sources t d).renumber ρ := by
  obtain ⟨hdatabase, hjoins, hfilters⟩ := (Share.mk.injEq ..).mp hown
  obtain ⟨hnew, join, hjoin, rfl⟩ := exists_of_addJoin hadd
  have hnew' := (declaresJoin_eq hdatabase source.name.value).trans hnew
  have hid : JoinId.mk s'.joins.length = ρ.join ⟨s.joins.length⟩ := by
    have hmoved := h.carries.joins d hd _ (countP_isLeft_lt hsplit)
    rw [hs.joined.joins, hs'.joined.joins, ← hmoved]
    rfl
  refine ⟨s'.withJoin (handleIn sources' d) source.name.value (join.renumber ρ),
    Recorded.ext_result ?_ ?_, ?_⟩
  · simp [addJoin_eq hnew, addJoin_eq hnew', hresolve]
  · simp only [addJoin_eq hnew', hresolve, Recorded.result_map, hjoin]
    rfl
  · rw [(hs.withJoin h.distinct hd hsplit join).2,
      (hs'.withJoin (h.distinct.of_perm h.perm) (h.perm.mem_iff.2 hd) hsplit _).2,
      hdatabase, hjoins, hfilters, hid]
    simp [share, Share.renumber, Database.renumber, Function.comp_def]

/-- A filter is registered alike, when its condition resolves alike. -/
theorem SameStart.addFilter (h : SameStart ρ defaultSchema sources sources' start start')
    (hs : Joining sources start d base done s) (hs' : Joining sources' start' d base' done s')
    (hd : d ∈ sources) {source : Source.Filter} (hsplit : d.conditions = done ++ .inr source :: rest)
    (hown : share sources' s' d = (share sources s d).renumber ρ)
    (hresolve : s'.resolveFilter defaultSchema (handleIn sources' d) source =
      Filter.renumber ρ <$> s.resolveFilter defaultSchema (handleIn sources d) source)
    (hadd : (Store.addFilter defaultSchema (handleIn sources d) d.name s source).result = .ok t) :
    ∃ t', Store.addFilter defaultSchema (handleIn sources' d) d.name s' source =
        ⟨(Store.addFilter defaultSchema (handleIn sources d) d.name s source).usages, .ok t'⟩ ∧
      share sources' t' d = (share sources t d).renumber ρ := by
  obtain ⟨hdatabase, hjoins, hfilters⟩ := (Share.mk.injEq ..).mp hown
  obtain ⟨hnew, filter, hfilter, rfl⟩ := exists_of_addFilter hadd
  have hnew' := (declaresFilter_eq hdatabase source.name.value).trans hnew
  have hid : FilterId.mk s'.filters.length = ρ.filter ⟨s.filters.length⟩ := by
    have hmoved := h.carries.filters d hd _ (countP_isRight_lt hsplit)
    rw [hs.joined.filters, hs'.joined.filters, ← hmoved]
    rfl
  refine ⟨s'.withFilter (handleIn sources' d) source.name.value (filter.renumber ρ),
    Recorded.ext_result ?_ ?_, ?_⟩
  · simp [addFilter_eq hnew, addFilter_eq hnew', hresolve]
  · simp only [addFilter_eq hnew', hresolve, Recorded.result_map, hfilter]
    rfl
  · rw [(hs.withFilter h.distinct hd hsplit filter).2,
      (hs'.withFilter (h.distinct.of_perm h.perm) (h.perm.mem_iff.2 hd) hsplit _).2,
      hdatabase, hjoins, hfilters, hid]
    simp [share, Share.renumber, Database.renumber, Function.comp_def]

/-- A join or filter is registered alike. -/
theorem SameStart.addCondition (h : SameStart ρ defaultSchema sources sources' start start')
    (hs : Joining sources start d base done s) (hs' : Joining sources' start' d base' done s')
    (hd : d ∈ sources) (hsplit : d.conditions = done ++ condition :: rest)
    {pre pre' : List Source.Database}
    (hfront : ∀ e ∈ sources, DependsOn defaultSchema sources d e → (e ∈ pre ↔ e ∈ pre'))
    (hagree : ∀ e ∈ sources, e = d ∨ (e ∈ pre ↔ e ∈ pre') →
      share sources' s' e = (share sources s e).renumber ρ)
    (hadd : (Store.addCondition defaultSchema (handleIn sources d) d.name s condition).result = .ok t) :
    ∃ t', Store.addCondition defaultSchema (handleIn sources' d) d.name s' condition =
        ⟨(Store.addCondition defaultSchema (handleIn sources d) d.name s condition).usages, .ok t'⟩ ∧
      share sources' t' d = (share sources t d).renumber ρ := by
  have hown := hagree d hd (.inl rfl)
  have halike := h.alike hs.joined.keeps hs'.joined.keeps (handleIn sources d)
  have hcolumns := h.sameColumns hs.joined.tables hs'.joined.tables
  have hfinds := fun reference (hreference : reference ∈ d.joinReferences) =>
    h.findsAlike hs.joined hs'.joined hd hfront hagree hreference
  cases condition with
  | inl source =>
    have hresolve := resolveJoin_eq halike hcolumns fun reference hreference =>
      hfinds reference (List.mem_append_left _
        (List.mem_flatMap.2 ⟨source, mem_joins_of_conditions hsplit, hreference⟩))
    rw [h.carries.database_handleIn hd] at hresolve
    exact h.addJoin hs hs' hd hsplit hown hresolve hadd
  | inr source =>
    have hresolve := resolveFilter_eq halike hcolumns fun reference hreference =>
      hfinds reference (List.mem_append_right _
        (List.mem_flatMap.2 ⟨source, mem_filters_of_conditions hsplit, hreference⟩))
    rw [h.carries.database_handleIn hd] at hresolve
    exact h.addFilter hs hs' hd hsplit hown hresolve hadd

/-! ## All databases -/

/-- The store after the joins and filters of some databases are registered. -/
def JoinedBy (sources : List Source.Database) (start : Store) (pre : List Source.Database) (s : Store) :
    Prop :=
  Joined sources start (pre.map (·.joins.length)).sum (pre.map (·.filters.length)).sum s

theorem JoinedBy.joining (hs : JoinedBy sources start pre s) (h : DistinctNames sources)
    (hsplit : sources = pre ++ d :: post) : Joining sources start d s [] s := by
  have hnames := hsplit ▸ h
  refine ⟨?_, fun _ _ _ => rfl⟩
  rw [hsplit, offset_append hnames, offset_append hnames, ← hsplit]
  exact hs

theorem JoinedBy.of_joining (hs : Joining sources start d base d.conditions s) (h : DistinctNames sources)
    (hsplit : sources = pre ++ d :: post) : JoinedBy sources start (pre ++ [d]) s := by
  have hnames := hsplit ▸ h
  have hjoined := hs.joined
  rw [countP_isLeft_conditions, countP_isRight_conditions, hsplit, offset_append hnames,
    offset_append hnames, ← hsplit] at hjoined
  simpa [JoinedBy] using hjoined

/-- The fourth phase adds to one share at a time. -/
theorem frames_addJoinsAndFilters (h : DistinctNames sources) :
    Recorded.Frames (fun s d => addJoinsAndFilters defaultSchema s (handleIn sources d) d) sources
      (share sources) (JoinedBy sources start) := by
  intro pre d post s t hsplit hs hadd
  simp only [addJoinsAndFilters_eq] at hadd
  have hd : d ∈ sources := by simp [hsplit]
  have hall := (hs.joining h hsplit).addConditions h hd (List.append_nil _).symm hadd
  exact ⟨.of_joining hall h hsplit, hall.others⟩

/-- The two stores in which some of the joins and filters of a database are registered. -/
structure JoiningAlike (ρ : Renumbering) (sources sources' : List Source.Database)
    (start start' : Store) (d : Source.Database) (base base' : Store)
    (done : List (Source.Join ⊕ Source.Filter)) (s s' : Store) : Prop where
  left : Joining sources start d base done s
  right : Joining sources' start' d base' done s'
  own : share sources' s' d = (share sources s d).renumber ρ

/-- The joins and filters of a database are registered alike. -/
theorem SameStart.stepsAlike_addJoinsAndFilters
    (h : SameStart ρ defaultSchema sources sources' start start') :
    Recorded.StepsAlike (fun s d => addJoinsAndFilters defaultSchema s (handleIn sources d) d)
      (fun s d => addJoinsAndFilters defaultSchema s (handleIn sources' d) d) sources sources'
      (share sources) (share sources') (Share.renumber ρ) (JoinedBy sources start)
      (JoinedBy sources' start') := by
  intro pre d post pre' post' s t s' hsplit hsplit' hs hs' hadd hagree
  have hdistinct' := h.distinct.of_perm h.perm
  have hd : d ∈ sources := by simp [hsplit]
  have hd' : d ∈ sources' := by simp [hsplit']
  have hfront := h.inSameOrder.mem_iff h.distinct h.perm hsplit hsplit'
  simp only [addJoinsAndFilters_eq] at hadd ⊢
  have hstart : JoiningAlike ρ sources sources' start start' d s s' [] s s' :=
    ⟨hs.joining h.distinct hsplit, hs'.joining hdistinct' hsplit', hagree d hd (.inl rfl)⟩
  have hstep : ∀ done condition rest u u' v, d.conditions = done ++ condition :: rest →
      JoiningAlike ρ sources sources' start start' d s s' done u u' →
      (Store.addCondition defaultSchema (handleIn sources d) d.name u condition).result = .ok v →
      ∃ v', Store.addCondition defaultSchema (handleIn sources' d) d.name u' condition =
          ⟨(Store.addCondition defaultSchema (handleIn sources d) d.name u condition).usages,
            .ok v'⟩ ∧
        JoiningAlike ρ sources sources' start start' d s s' (done ++ [condition]) v v' := by
    intro done condition rest u u' v hconditions hu hv
    -- the shares of the other databases are as they were, so that they still agree
    have hagree' := Recorded.agree_of_others hu.left.others
      (fun e he hne => hu.right.others e (h.perm.mem_iff.2 he) hne) hu.own hagree
    obtain ⟨v', hv', hown⟩ :=
      h.addCondition hu.left hu.right hd hconditions hfront hagree' hv
    refine ⟨v', hv', hu.left.addCondition h.distinct hd hconditions hv, ?_, hown⟩
    exact hu.right.addCondition hdistinct' hd' hconditions (by rw [hv'])
  obtain ⟨t', hrun', ht⟩ := Recorded.foldlM_sideBySide hstep hstart hadd
  exact ⟨t', hrun', .of_joining ht.right hdistinct' hsplit', ht.own, fun e he hne =>
    ht.right.others e (h.perm.mem_iff.2 he) hne⟩

/-- Joins and filters are registered in another order too, and are the same. -/
theorem SameStart.joins_of_perm (h : SameStart ρ defaultSchema sources sources' start start')
    (hstart : JoinedBy sources start [] start) (hstart' : JoinedBy sources' start' [] start')
    (hshares : ∀ d ∈ sources, share sources' start' d = (share sources start d).renumber ρ)
    (hrun : (forEach (addJoinsAndFilters defaultSchema) start sources).result = .ok s) :
    ∃ s', (forEach (addJoinsAndFilters defaultSchema) start' sources').result = .ok s' ∧
      (forEach (addJoinsAndFilters defaultSchema) start' sources').usages.Perm
        (forEach (addJoinsAndFilters defaultSchema) start sources).usages ∧
      JoinedBy sources start sources s ∧ JoinedBy sources' start' sources' s' ∧
      ∀ d ∈ sources, share sources' s' d = (share sources s d).renumber ρ := by
  rw [forEach_eq h.distinct] at hrun ⊢
  rw [forEach_eq (h.distinct.of_perm h.perm)]
  exact Recorded.foldlM_of_perm (frames_addJoinsAndFilters h.distinct) h.stepsAlike_addJoinsAndFilters
    h.distinct.nodup h.perm hstart hstart' hshares hrun

end Store

end ObjectRelational
