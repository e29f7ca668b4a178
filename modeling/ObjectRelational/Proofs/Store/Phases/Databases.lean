import ObjectRelational.Proofs.Store.Build
import ObjectRelational.Proofs.Store.Correspondence
import ObjectRelational.Proofs.Store.Reordering

/-!
# Registering databases and their includes

The first two phases of a build register the databases by name and find those that each one includes. A
database is registered under its position in the list, and an include is found by name, so that the two
phases do the same in another order of the databases.

* `handleIn` is the handle of a database. `Carries`: a renumbering for another order of the databases.
* `Store.Named`: the databases of a store are those of the list.
* `Store.foldlM_addDatabase_eq_ok_iff`: the names are distinct, and that is all that is checked.
* `Store.resolveIncludes_eq`: includes are found alike.
-/

namespace ObjectRelational

/-! ## Handles -/

/-- The handle that a database gets: its position in the list. -/
def handleIn (sources : List Source.Database) (d : Source.Database) : DatabaseId :=
  ⟨(inFront sources d).length⟩

variable {sources sources' pre post : List Source.Database} {d e : Source.Database}

theorem handleIn_append (h : DistinctNames (pre ++ d :: post)) :
    handleIn (pre ++ d :: post) d = ⟨pre.length⟩ := by
  rw [handleIn, inFront_append h]

theorem offset_one (sources : List Source.Database) (d : Source.Database) :
    offset (fun _ => 1) sources d = (handleIn sources d).index := by
  simp [offset, handleIn]

theorem handleIn_inj (h : DistinctNames sources) (hd : d ∈ sources) (he : e ∈ sources)
    (hsame : handleIn sources e = handleIn sources d) : e = d := by
  by_contra hne
  have hapart := offset_add_le_or (fun _ => 1) h hd he hne
  rw [offset_one, offset_one, hsame] at hapart
  omega

/-- Going through a list with positions is going through the databases with their handles. -/
theorem foldlM_zipIdx_eq {m : Type → Type} [Monad m] [LawfulMonad m] {σ : Type}
    (h : DistinctNames sources) (f : σ → Source.Database × Nat → m σ) (s : σ) :
    sources.zipIdx.foldlM f s = sources.foldlM (fun s d => f s (d, (handleIn sources d).index)) s := by
  have hfollow : ∀ post pre, sources = pre ++ post → ∀ s, (post.zipIdx pre.length).foldlM f s =
      post.foldlM (fun s d => f s (d, (handleIn sources d).index)) s := by
    intro post
    induction post with
    | nil => exact fun _ _ _ => rfl
    | cons d post ih =>
      intro pre hsplit s
      have hhandle : (handleIn sources d).index = pre.length := by
        rw [hsplit, handleIn_append (hsplit ▸ h)]
      have hrest := ih (pre ++ [d]) (by simp [hsplit])
      rw [List.length_append, List.length_singleton] at hrest
      rw [List.zipIdx_cons, List.foldlM_cons, List.foldlM_cons, hhandle]
      exact bind_congr hrest
  exact hfollow sources [] rfl s

/-- How many tables and views a schema declares. -/
def Source.Schema.tableCount (s : Source.Schema) : Nat := s.tables.length + s.views.length

/-- How many tables and views a database declares. -/
def Source.Database.tableCount (d : Source.Database) : Nat := (d.schemas.map (·.tableCount)).sum

/-- A renumbering that moves what the databases add when they are listed in another order. -/
structure Carries (ρ : Renumbering) (sources sources' : List Source.Database) : Prop where
  databases : Moves (fun _ => 1) sources sources' ρ.databases
  tables : Moves (·.tableCount) sources sources' ρ.tables
  joins : Moves (·.joins.length) sources sources' ρ.joins
  filters : Moves (·.filters.length) sources sources' ρ.filters

theorem exists_carries (h : DistinctNames sources) (hperm : sources'.Perm sources) :
    ∃ ρ, Carries ρ sources sources' := by
  obtain ⟨databases, hdatabases⟩ := exists_moves_of_perm (fun _ => 1) h hperm
  obtain ⟨tables, htables⟩ := exists_moves_of_perm (·.tableCount) h hperm
  obtain ⟨joins, hjoins⟩ := exists_moves_of_perm (·.joins.length) h hperm
  obtain ⟨filters, hfilters⟩ := exists_moves_of_perm (·.filters.length) h hperm
  exact ⟨⟨databases, tables, joins, filters⟩, hdatabases, htables, hjoins, hfilters⟩

theorem Carries.database_handleIn {ρ : Renumbering} (h : Carries ρ sources sources')
    (hd : d ∈ sources) : ρ.database (handleIn sources d) = handleIn sources' d := by
  have hmoved := h.databases d hd 0 (Nat.zero_lt_one)
  rw [offset_one, offset_one] at hmoved
  exact congrArg DatabaseId.mk hmoved

namespace Store

variable {s s' t t' : Store} {ρ : Renumbering}

theorem forEach_eq (h : DistinctNames sources)
    (act : Store → DatabaseId → Source.Database → Recorded Store) (s : Store) :
    forEach act s sources = sources.foldlM (fun s d => act s (handleIn sources d) d) s :=
  foldlM_zipIdx_eq h (fun s item => act s ⟨item.2⟩ item.1) s

/-! ## Databases of a store -/

/-- The databases of the store are those of the list, in the same order. -/
def Named (sources : List Source.Database) (s : Store) : Prop :=
  s.databases.map (·.name) = sources.map (·.name.value)

theorem Named.database?_append (hs : Named (pre ++ d :: post) s) :
    ∃ found, s.database? ⟨pre.length⟩ = some found ∧ found.name = d.name.value := by
  have hnamed : (s.databases.map (·.name))[pre.length]? =
      ((pre ++ d :: post).map (·.name.value))[pre.length]? := by rw [hs]
  rw [List.getElem?_map, List.getElem?_map, List.getElem?_append_right (Nat.le_refl _),
    Nat.sub_self, List.getElem?_cons_zero, Option.map_some] at hnamed
  exact Option.map_eq_some_iff.1 hnamed

theorem Named.database?_handleIn (hs : Named sources s) (h : DistinctNames sources)
    (hd : d ∈ sources) :
    ∃ found, s.database? (handleIn sources d) = some found ∧ found.name = d.name.value := by
  obtain ⟨pre, post, rfl⟩ := List.append_of_mem hd
  rw [handleIn_append h]
  exact hs.database?_append

/-- A database of the list is found by its name. -/
theorem Named.databaseNamed?_of_mem (hs : Named sources s) (h : DistinctNames sources)
    (hd : d ∈ sources) : s.databaseNamed? d.name.value = some (handleIn sources d) := by
  obtain ⟨pre, post, rfl⟩ := List.append_of_mem hd
  have hfind : s.databases.findIdx? (fun found => found.name = d.name.value) =
      ((pre ++ d :: post).map (·.name.value)).findIdx? fun name => name = d.name.value := by
    rw [← hs, List.findIdx?_map]
    rfl
  have hfront : ∀ name ∈ pre.map (·.name.value), ¬ name = d.name.value := by
    intro name hname hsame
    simp only [DistinctNames, List.map_append, List.map_cons, List.nodup_append] at h
    exact h.2.2 _ hname _ List.mem_cons_self hsame
  unfold databaseNamed?
  rw [hfind, handleIn_append h, List.map_append, List.findIdx?_append,
    List.findIdx?_eq_none_iff.2 (by simpa using hfront)]
  simp [List.findIdx?_cons]

theorem Named.databaseNamed?_eq_none (hs : Named sources s) {name : String}
    (hname : ∀ d ∈ sources, d.name.value ≠ name) : s.databaseNamed? name = none := by
  have hfind : s.databases.findIdx? (fun found => found.name = name) =
      (sources.map (·.name.value)).findIdx? fun other => other = name := by
    rw [← hs, List.findIdx?_map]
    rfl
  unfold databaseNamed?
  rw [hfind, List.findIdx?_eq_none_iff.2 (by simpa using hname), Option.map_none]

theorem Named.length_eq (hs : Named sources s) : s.databases.length = sources.length := by
  simpa using congrArg List.length hs

/-- Names denote the renumbered databases when the databases are listed in another order. -/
theorem Named.databaseNamed?_eq (hs : Named sources s) (hs' : Named sources' s')
    (h : DistinctNames sources) (hperm : sources'.Perm sources) (hρ : Carries ρ sources sources')
    (name : String) : s'.databaseNamed? name = (s.databaseNamed? name).map ρ.database := by
  by_cases hname : ∃ d ∈ sources, d.name.value = name
  · obtain ⟨d, hd, rfl⟩ := hname
    rw [hs.databaseNamed?_of_mem h hd, hs'.databaseNamed?_of_mem (h.of_perm hperm)
      (hperm.mem_iff.2 hd), Option.map_some, hρ.database_handleIn hd]
  · have hnone : ∀ d ∈ sources, d.name.value ≠ name := fun d hd hsame => hname ⟨d, hd, hsame⟩
    rw [hs.databaseNamed?_eq_none hnone,
      hs'.databaseNamed?_eq_none fun d hd => hnone d (hperm.subset hd), Option.map_none]

/-- What holds of the databases of the list holds of all handles. -/
theorem Named.database?_eq (hs : Named sources s) (hs' : Named sources' s')
    (h : DistinctNames sources) (hperm : sources'.Perm sources) (hρ : Carries ρ sources sources')
    {f : Database → Database}
    (hdatabases : ∀ d ∈ sources, s'.database? (handleIn sources' d) =
      (s.database? (handleIn sources d)).map f) (id : DatabaseId) :
    s'.database? (ρ.database id) = (s.database? id).map f := by
  -- each database is a block of one element
  have hblock : ∀ (l : List Source.Database) (s : Store) (d : Source.Database),
      block (fun _ => 1) l d s.databases = (s.database? (handleIn l d)).toList := by
    intro l s d
    unfold block database?
    rw [offset_one]
    cases hget : s.databases[(handleIn l d).index]? with
    | none => simp [List.drop_eq_nil_of_le (List.getElem?_eq_none_iff.1 hget)]
    | some found =>
      obtain ⟨hlt, hget⟩ := List.getElem?_eq_some_iff.1 hget
      rw [List.drop_eq_getElem_cons hlt, hget]
      simp
  refine hρ.databases.getElem?_eq h hperm ?_ ?_ (fun d hd => ?_) id.index
  · simpa using hs.length_eq
  · simpa using hs'.length_eq
  · rw [hblock, hblock, hdatabases d hd]
    cases s.database? (handleIn sources d) <;> rfl

/-! ## Databases -/

/-- The store after the databases are registered. -/
def registered (sources : List Source.Database) : Store where
  databases := sources.map fun d => ⟨d.name.value, [], [], [], [], d.span⟩

theorem database?_registered (h : DistinctNames sources) (hd : d ∈ sources) :
    (registered sources).database? (handleIn sources d) =
      some ⟨d.name.value, [], [], [], [], d.span⟩ := by
  obtain ⟨pre, post, rfl⟩ := List.append_of_mem hd
  rw [handleIn_append h]
  simp [database?, registered]

theorem named_registered (sources : List Source.Database) : Named sources (registered sources) := by
  simp [Named, registered]

/-- Databases are registered when their names are distinct. -/
theorem foldlM_addDatabase_eq_ok_iff :
    sources.foldlM addDatabase {} = .ok s ↔ DistinctNames sources ∧ s = registered sources := by
  -- along the rest of the list, with the front of it registered
  have hfollow : ∀ post pre, DistinctNames pre →
      (post.foldlM addDatabase (registered pre) = .ok s ↔
        DistinctNames (pre ++ post) ∧ s = registered (pre ++ post)) := by
    intro post
    induction post with
    | nil =>
      intro pre hpre
      simp [pure, Except.pure, hpre, eq_comm]
    | cons d post ih =>
      intro pre hpre
      have hknown : ((registered pre).databaseNamed? d.name.value).isSome ↔
          ∃ e ∈ pre, e.name.value = d.name.value := by
        simp [databaseNamed?, registered, List.findIdx?_isSome]
      have hsplit : pre ++ d :: post = (pre ++ [d]) ++ post := by simp
      rw [List.foldlM_cons]
      by_cases hnew : ∃ e ∈ pre, e.name.value = d.name.value
      · have hfails : ∀ t, addDatabase (registered pre) d ≠ .ok t := by
          intro t
          rw [addDatabase, if_pos (hknown.2 hnew)]
          exact found_ne_ok _ _ _
        refine ⟨fun h => ?_, fun h => ?_⟩
        · obtain ⟨t, ht, -⟩ := bind_eq_ok_iff.1 h
          exact absurd ht (hfails t)
        · obtain ⟨e, he, hsame⟩ := hnew
          have hnodup := h.1
          simp only [DistinctNames, List.map_append, List.map_cons, List.nodup_append] at hnodup
          exact absurd hsame (hnodup.2.2 _ (List.mem_map_of_mem he) _ List.mem_cons_self)
      · have hdistinct : DistinctNames (pre ++ [d]) := by
          simp only [DistinctNames, List.map_append, List.map_cons, List.map_nil, List.nodup_append]
          refine ⟨hpre, List.nodup_singleton _, fun name hname other hother hsame => ?_⟩
          obtain ⟨e, he, rfl⟩ := List.mem_map.1 hname
          exact hnew ⟨e, he, hsame.trans (List.mem_singleton.1 hother)⟩
        have hadds : addDatabase (registered pre) d = .ok (registered (pre ++ [d])) := by
          rw [addDatabase, if_neg (fun hsome => hnew (hknown.1 hsome))]
          simp [registered]
        rw [hsplit, ← ih (pre ++ [d]) hdistinct, hadds]
        rfl
  exact hfollow sources [] (by simp [DistinctNames])

/-! ## Includes -/

theorem database?_modifyDatabase (s : Store) (id other : DatabaseId) (f : Database → Database) :
    (s.modifyDatabase id f).database? other =
      (s.database? other).map fun d => if id = other then f d else d := by
  unfold modifyDatabase database?
  rw [List.getElem?_modify, Option.map_eq_map]
  cases id
  cases other
  simp

theorem database?_modifyDatabase_self (s : Store) (id : DatabaseId) (f : Database → Database) :
    (s.modifyDatabase id f).database? id = (s.database? id).map f := by
  simp [database?_modifyDatabase]

theorem database?_modifyDatabase_of_ne (s : Store) {id other : DatabaseId} (hne : id ≠ other)
    (f : Database → Database) : (s.modifyDatabase id f).database? other = s.database? other := by
  simp [database?_modifyDatabase, hne]

/-- Changing a database without its name keeps the databases. -/
theorem Named.modifyDatabase (hs : Named sources s) (id : DatabaseId) {f : Database → Database}
    (hf : ∀ d, (f d).name = d.name) : Named sources (s.modifyDatabase id f) :=
  (map_modify_of_forall_eq hf _ _).trans hs

/-- The includes of a database are found alike. -/
theorem resolveIncludes_eq
    (hnamed : ∀ name, s'.databaseNamed? name = (s.databaseNamed? name).map ρ.database)
    (owner : Name) (found : List DatabaseId) (names : List Name) :
    s'.resolveIncludes owner (found.map ρ.database) names =
      List.map ρ.database <$> s.resolveIncludes owner found names := by
  induction names generalizing found with
  | nil => rfl
  | cons name rest ih =>
    unfold resolveIncludes
    rw [hnamed]
    cases s.databaseNamed? name.value with
    | none => rfl
    | some id =>
      refine Recorded.bind_congr_map fun _ _ => ?_
      simp only [List.mem_map_of_injective Renumbering.database_injective]
      split
      · exact ih found
      · simpa using ih (found ++ [id])

theorem addIncludes_eq_map (s : Store) (id : DatabaseId) (source : Source.Database) :
    s.addIncludes id source =
      (fun includes => s.modifyDatabase id fun d => { d with includes := includes }) <$>
        s.resolveIncludes source.name [] source.includes := by
  rw [map_eq_pure_bind]
  rfl

/-- What a database includes are databases of the list that it names as included. -/
def IncludesNamed (sources : List Source.Database) (s : Store) : Prop :=
  ∀ d ∈ sources, ∀ id ∈ s.includesOf (handleIn sources d),
    ∃ name ∈ d.includes, ∃ e ∈ sources, e.name.value = name.value ∧ id = handleIn sources e

/-- What the second phase goes through: databases that declare nothing, and include one another. -/
structure Included (sources : List Source.Database) (s : Store) : Prop where
  named : Named sources s
  tables : s.tables = []
  joins : s.joins = []
  filters : s.filters = []
  empty : ∀ d ∈ s.databases, d.schemas = [] ∧ d.joins = [] ∧ d.filters = []
  includes : IncludesNamed sources s

theorem included_registered (sources : List Source.Database) : Included sources (registered sources) where
  named := named_registered sources
  tables := rfl
  joins := rfl
  filters := rfl
  empty := by simp [registered]
  includes := by
    intro d hd id hid
    unfold includesOf at hid
    split at hid
    · rename_i found hfound
      have hmem := List.mem_of_getElem? hfound
      simp only [registered, List.mem_map] at hmem
      obtain ⟨_, -, rfl⟩ := hmem
      simp at hid
    · simp at hid

theorem exists_of_resolveIncludes (hs : Named sources s) (h : DistinctNames sources) {owner : Name}
    {found includes : List DatabaseId} {names : List Name}
    (hresolve : (s.resolveIncludes owner found names).result = .ok includes) :
    ∀ id ∈ includes, id ∈ found ∨ ∃ name ∈ names, ∃ e ∈ sources, e.name.value = name.value ∧
      id = handleIn sources e := by
  induction names generalizing found with
  | nil =>
    obtain rfl := Except.ok.inj hresolve
    exact fun id hid => .inl hid
  | cons name rest ih =>
    unfold resolveIncludes at hresolve
    split at hresolve
    · exact absurd hresolve (found_ne_ok _ _ _)
    · rename_i known hknown
      obtain ⟨_, -, hresolve⟩ := Recorded.result_bind_eq_ok_iff.1 hresolve
      -- a name that no database of the list has denotes none of the store
      have hsource : ∃ e ∈ sources, e.name.value = name.value ∧ known = handleIn sources e := by
        by_contra hnone
        have hname : ∀ d ∈ sources, d.name.value ≠ name.value := by
          intro d hd hsame
          refine hnone ⟨d, hd, hsame, ?_⟩
          rw [← hsame, hs.databaseNamed?_of_mem h hd] at hknown
          exact (Option.some.inj hknown).symm
        rw [hs.databaseNamed?_eq_none hname] at hknown
        cases hknown
      intro id hid
      rcases ih hresolve id hid with hfound | ⟨other, hother, hrest⟩
      · split at hfound
        · exact .inl hfound
        · rcases List.mem_append.1 hfound with hfound | hfound
          · exact .inl hfound
          · obtain rfl := List.mem_singleton.1 hfound
            exact .inr ⟨name, List.mem_cons_self, hsource⟩
      · exact .inr ⟨other, List.mem_cons_of_mem _ hother, hrest⟩

/-- Finding the includes of a database changes nothing else. -/
theorem Included.addIncludes (hs : Included sources s) (h : DistinctNames sources) (hd : d ∈ sources)
    (hadd : (s.addIncludes (handleIn sources d) d).result = .ok t) :
    Included sources t ∧ ∀ e ∈ sources, e ≠ d →
      t.database? (handleIn sources e) = s.database? (handleIn sources e) := by
  rw [addIncludes_eq_map, Recorded.result_map] at hadd
  obtain ⟨includes, hincludes, rfl⟩ := map_eq_ok_iff.1 hadd
  have hother : ∀ e ∈ sources, e ≠ d → ∀ f : Database → Database,
      (s.modifyDatabase (handleIn sources d) f).database? (handleIn sources e) =
        s.database? (handleIn sources e) := by
    intro e he hne f
    exact database?_modifyDatabase_of_ne s (fun hsame => hne (handleIn_inj h hd he hsame.symm)) f
  refine ⟨⟨hs.named.modifyDatabase _ fun _ => rfl, hs.tables, hs.joins, hs.filters, ?_, ?_⟩,
    fun e he hne => hother e he hne _⟩
  · intro found hfound
    rcases mem_or_of_mem_modify hfound with hfound | ⟨old, hold, rfl⟩
    · exact hs.empty found hfound
    · exact hs.empty old (List.mem_of_getElem? hold)
  · intro e he id hid
    by_cases hne : e = d
    · subst hne
      obtain ⟨old, hold, -⟩ := hs.named.database?_handleIn h hd
      rw [includesOf, database?_modifyDatabase_self, hold] at hid
      exact (exists_of_resolveIncludes hs.named h hincludes id hid).resolve_left (by simp)
    · rw [includesOf, hother e he hne] at hid
      exact hs.includes e he id hid

/-- The second phase changes one database at a time. -/
theorem frames_addIncludes (h : DistinctNames sources) :
    Recorded.Frames (fun s d => s.addIncludes (handleIn sources d) d) sources
      (fun s d => s.database? (handleIn sources d)) fun _ => Included sources := by
  intro pre d post t u hsplit hincluded hadd
  exact hincluded.addIncludes h (by simp [hsplit]) hadd

theorem included_of_forEach (h : DistinctNames sources)
    (hrun : (forEach addIncludes (registered sources) sources).result = .ok s) : Included sources s := by
  rw [forEach_eq h] at hrun
  exact (frames_addIncludes h).all (included_registered sources) hrun

/-- The includes of a database are the same in another order. -/
theorem stepsAlike_addIncludes (h : DistinctNames sources) (hperm : sources'.Perm sources)
    (hρ : Carries ρ sources sources') :
    Recorded.StepsAlike (fun s d => s.addIncludes (handleIn sources d) d)
      (fun s d => s.addIncludes (handleIn sources' d) d) sources sources'
      (fun s d => s.database? (handleIn sources d)) (fun s d => s.database? (handleIn sources' d))
      (Option.map (Database.renumber ρ)) (fun _ => Included sources) fun _ => Included sources' := by
  intro pre d post pre' post' t u t' hsplit hsplit' hincluded hincluded' hadd hparts
  have hd : d ∈ sources := by simp [hsplit]
  have hd' : d ∈ sources' := by simp [hsplit']
  have hincludes : t'.resolveIncludes d.name [] d.includes =
      List.map ρ.database <$> t.resolveIncludes d.name [] d.includes :=
    resolveIncludes_eq (hincluded.named.databaseNamed?_eq hincluded'.named h hperm hρ) d.name []
      d.includes
  simp only [addIncludes_eq_map, Recorded.result_map] at hadd
  obtain ⟨includes, hresolve, rfl⟩ := map_eq_ok_iff.1 hadd
  have hresolve' : (t'.addIncludes (handleIn sources' d) d).result = .ok
      (t'.modifyDatabase (handleIn sources' d) fun d =>
        { d with includes := includes.map ρ.database }) := by
    rw [addIncludes_eq_map, hincludes]
    simp only [Recorded.result_map, hresolve]
    rfl
  obtain ⟨hkeeps, hothers⟩ := hincluded'.addIncludes (h.of_perm hperm) hd' hresolve'
  refine ⟨_, Recorded.ext_result ?_ hresolve', hkeeps, ?_, fun e he hne =>
    hothers e (hperm.mem_iff.2 he) hne⟩
  · simp only [addIncludes_eq_map, Recorded.usages_map, hincludes]
  · simp only [database?_modifyDatabase_self, hparts d hd (.inl rfl), Option.map_map]
    rfl

/-- Includes are found in another order too, and are the same. -/
theorem includes_of_perm (h : DistinctNames sources) (hperm : sources'.Perm sources)
    (hρ : Carries ρ sources sources')
    (hrun : (forEach addIncludes (registered sources) sources).result = .ok s) :
    ∃ s', (forEach addIncludes (registered sources') sources').result = .ok s' ∧
      (forEach addIncludes (registered sources') sources').usages.Perm
        (forEach addIncludes (registered sources) sources).usages ∧
      Included sources s ∧ Included sources' s' ∧
      ∀ d ∈ sources, s'.database? (handleIn sources' d) =
        (s.database? (handleIn sources d)).map (Database.renumber ρ) := by
  have h' := h.of_perm hperm
  rw [forEach_eq h] at hrun ⊢
  rw [forEach_eq h']
  have hstart : ∀ d ∈ sources, (registered sources').database? (handleIn sources' d) =
      ((registered sources).database? (handleIn sources d)).map (Database.renumber ρ) := by
    intro d hd
    rw [database?_registered h hd, database?_registered h' (hperm.mem_iff.2 hd)]
    rfl
  have hsame := Recorded.foldlM_of_perm (frames_addIncludes h) (stepsAlike_addIncludes h hperm hρ)
    h.nodup hperm (included_registered sources) (included_registered sources') hstart hrun
  exact hsame

end Store

end ObjectRelational
