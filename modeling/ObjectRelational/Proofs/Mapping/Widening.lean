import ObjectRelational.Proofs.Mapping.UnitBounds
import ObjectRelational.Proofs.Store.Visibility

/-!
# Substitutions widen what is visible

An include may replace a database only by one that includes it, directly or not. So what stands for a
database sees all that the database sees; and this is so for substitutions that are composed along any
path of includes, although only single replacements are checked. No substitute is itself replaced, so
what is replaced is gone from what is seen through the include.

* `Substitution.Widens`: what stands for a database sees as much. `Substitution.Widens.andThen`: composed
  substitutions do so, too.
* `Include.widens_of_substitution`, `Include.apply_not_mem_domain`: what the checks of one include give.
* `MappingUnit.AcceptedOver`: the unit and all it includes are resolved against one store.
  `MappingUnit.AcceptedOver.of_mem_flattened`: what it lists has substitutions that widen.
* `IncludedUnit.Mentions`: the databases that are seen of an included unit.
  `MappingUnit.AcceptedOver.not_mentions_of_leads`: behind an include none of them is replaced there.
-/

namespace ObjectRelational

/-! ## Widening -/

namespace Substitution

variable {store : Store} {s outer : Substitution} {replaced substitute : DatabaseId}

/-- What stands for a database of the store is one of the store, and sees all that the database sees. -/
def Widens (store : Store) (s : Substitution) : Prop :=
  ∀ d, store.HasDatabase d → store.HasDatabase (s.apply d) ∧
    store.visibleDatabases d ⊆ store.visibleDatabases (s.apply d)

theorem apply_insert (d : DatabaseId) :
    (s.insert replaced substitute).apply d = if d = replaced then substitute else s.apply d := by
  unfold apply insert
  rw [OrderedMap.find?_insert]
  split <;> rfl

theorem mem_domain_iff {d : DatabaseId} :
    d ∈ s.domain ↔ ∃ substitute, s.replacements.find? d = some substitute :=
  OrderedMap.mem_keys_iff

theorem widens_identity : identity.Widens store :=
  fun _ hd => ⟨hd, List.Subset.refl _⟩

theorem Widens.insert (h : s.Widens store) (hsubstitute : store.HasDatabase substitute)
    (hvisible : store.visibleDatabases replaced ⊆ store.visibleDatabases substitute) :
    (s.insert replaced substitute).Widens store := by
  intro d hd
  rw [apply_insert]
  split
  · rename_i hreplaced
    exact ⟨hsubstitute, hreplaced ▸ hvisible⟩
  · exact h d hd

theorem Widens.andThen (h : s.Widens store) (houter : outer.Widens store) :
    (s.andThen outer).Widens store := by
  intro d hd
  rw [apply_andThen]
  obtain ⟨hinner, hsubset⟩ := h d hd
  obtain ⟨hdatabase, hsubset'⟩ := houter (s.apply d) hinner
  exact ⟨hdatabase, List.Subset.trans hsubset hsubset'⟩

end Substitution

/-! ## One include -/

namespace Include

variable {store : Store} {model : ObjectModel} {source : Source.Include} {s : Substitution}

/-- The substitution of an include widens. -/
theorem widens_of_substitution (hstore : store.Closed)
    (h : substitution store model source = .ok s) : s.Widens store := by
  refine substitution_invariant Substitution.widens_identity ?_ h
  intro s replaced substitute hbefore _ hdatabase hincludes
  exact hbefore.insert hdatabase (Store.visibleDatabases_subset hstore hdatabase
    (Store.mem_visibleDatabases_of_includesTransitively hstore hdatabase hincludes))

/-- What is replaced by an include does not stand for anything. -/
theorem apply_not_mem_domain (h : substitution store model source = .ok s) (d : DatabaseId) :
    s.apply d ∉ s.domain := by
  obtain ⟨found, -, hpasses, rfl⟩ := substitution_eq_ok_iff.1 h
  intro hdomain
  obtain ⟨substitute, hreplaced⟩ := Substitution.mem_domain_iff.1 hdomain
  obtain ⟨f, hf, hfreplaced, -⟩ := (find?_foldl_insert_eq_some_iff hpasses.distinct).1 hreplaced
  cases hd : (found.foldl (fun s r => s.insert r.replaced r.substitute)
      Substitution.identity).replacements.find? d with
  | none =>
    rw [Substitution.apply, hd, Option.getD_none, hd] at hreplaced
    cases hreplaced
  | some other =>
    -- what stands for a database is a substitute, which none of those replaced is
    obtain ⟨g, hg, -, rfl⟩ := (find?_foldl_insert_eq_some_iff hpasses.distinct).1 hd
    rw [Substitution.apply, hd, Option.getD_some] at hfreplaced
    exact hpasses.apart g hg (hfreplaced ▸ List.mem_map_of_mem hf)

/-! ## Paths of includes -/

variable {direct direct' path : List IncludedUnit} {i j : IncludedUnit}

theorem Leads.mono (hsubset : direct ⊆ direct') (h : Leads direct path j) : Leads direct' path j := by
  induction h with
  | single hi => exact .single (hsubset hi)
  | snoc _ hinner ih => exact ih.snoc hinner

/-- Behind an include every database has come through its substitution last. -/
theorem exists_apply_of_leads (h : Leads [i] path j) (d : DatabaseId) :
    ∃ before, j.substitution.apply d = i.substitution.apply before := by
  induction h generalizing d with
  | single hi =>
    obtain rfl := List.mem_singleton.1 hi
    exact ⟨d, rfl⟩
  | @snoc _ outer inner _ _ ih =>
    rw [Substitution.apply_andThen]
    exact ih (inner.substitution.apply d)

end Include

/-! ## Units over one store -/

namespace Effective

/-- What is seen of a mapping mentions what is seen in place of the databases that it mentions. -/
theorem databases_substituted (e : Effective SetImplementation) :
    e.substituted.databases = e.declared.databases.map e.substitute := by
  have hfilter : (e.declared.filter.map (FilterPointer.mapDatabases e.substitute)).toList.flatMap
      FilterPointer.databases =
        (e.declared.filter.toList.flatMap FilterPointer.databases).map e.substitute := by
    cases e.declared.filter with
    | none => rfl
    | some pointer => simp [FilterPointer.databases_mapDatabases]
  have hproperties : databasesOfMappings e.propertyMappings =
      (databasesOfMappings e.declared.propertyMappings).map e.substitute := by
    obtain ⟨declared, substitution, unit⟩ := e
    cases substitution with
    | none => exact (List.map_id' _).symm
    | some s => exact databasesOfMappings_mapDatabases s.apply _
  simp only [substituted, SetImplementation.databases, mainTable, TableAlias.mapDatabase, hfilter,
    hproperties, Operation.flatMap_databases_mapDatabases, List.map_cons, List.map_append]

end Effective

/-- The database is mentioned by what is seen of the unit through its substitution: by a relational
mapping that a class mapping is made of, or by an association mapping. -/
def IncludedUnit.Mentions (i : IncludedUnit) (d : DatabaseId) : Prop :=
  (∃ m ∈ i.unit.classMappings, ∃ part ∈ m.implementations,
    d ∈ ((i.seen m).withDeclared part).substituted.databases) ∨
  ∃ a ∈ i.unit.associationMappings, d ∈ (a.mapDatabases i.substitution.apply).databases

namespace MappingUnit

variable {store : Store} {u : MappingUnit} {path : List IncludedUnit} {i j : IncludedUnit}

/-- The unit was resolved against the store, and so were all units that it includes. -/
inductive AcceptedOver (store : Store) : MappingUnit → Prop
  | resolved {e : Environment} {compiled : String → Option MappingUnit} {source : Source.Mapping}
      {unit : MappingUnit} (hstore : e.store = store)
      (hincludes : ∀ i ∈ unit.includes, AcceptedOver store i.unit)
      (h : resolve e compiled source = .ok unit) : AcceptedOver store unit

namespace AcceptedOver

theorem store_eq (h : u.AcceptedOver store) : u.store = store := by
  cases h with
  | resolved hstore _ h =>
    obtain ⟨s, hresolved⟩ := resolvedFrom_of_resolve h
    exact hresolved.store.trans hstore

theorem of_mem_includes (h : u.AcceptedOver store) : ∀ i ∈ u.includes, i.unit.AcceptedOver store := by
  cases h with
  | resolved _ hincludes _ => exact hincludes

/-- The substitution of an include is the one that the include declares. -/
theorem exists_substitution (h : u.AcceptedOver store) (hi : i ∈ u.includes) :
    ∃ model source, Include.substitution store model source = .ok i.substitution := by
  cases h with
  | resolved hstore _ h =>
    obtain ⟨s, hresolved⟩ := resolvedFrom_of_resolve h
    obtain ⟨written, -, hinclude⟩ := exists_of_mem_right hresolved.includes hi
    unfold resolveInclude at hinclude
    split at hinclude
    · exact absurd hinclude (found_ne_ok _ _ _)
    · simp only [bind_eq_ok_iff, pure_eq_ok_iff] at hinclude
      obtain ⟨s, hs, _, -, rfl⟩ := hinclude
      exact ⟨_, _, hstore ▸ hs⟩

/-- Every substitution that is listed widens, and the units that are listed were resolved against the same
store. -/
theorem of_mem_flattened (h : u.AcceptedOver store) (hstore : store.Closed) :
    ∀ i ∈ u.flattened, i.substitution.Widens store ∧ i.unit.AcceptedOver store := by
  have hdirect : ∀ {unit : MappingUnit}, unit.AcceptedOver store →
      ∀ i ∈ unit.includes, i.substitution.Widens store ∧ i.unit.AcceptedOver store := by
    intro unit hunit i hi
    obtain ⟨_, _, hs⟩ := hunit.exists_substitution hi
    exact ⟨Include.widens_of_substitution hstore hs, hunit.of_mem_includes i hi⟩
  have hincludes := hdirect h
  cases h with
  | resolved _ _ h =>
    obtain ⟨s, hresolved⟩ := resolvedFrom_of_resolve h
    refine Include.forall_mem_flattenFrom
      (P := fun i => i.substitution.Widens store ∧ i.unit.AcceptedOver store) ?_ (by simp) hincludes
      hresolved.flattened
    -- substitutions are composed along the includes
    rintro i ⟨hsubstitution, hunit⟩ j hj
    obtain ⟨inner, hinner, rfl⟩ := List.mem_map.1 hj
    obtain ⟨hwidens, haccepted⟩ := hdirect hunit inner hinner
    exact ⟨hwidens.andThen hsubstitution, haccepted⟩

/-- What an include replaces is not mentioned by what is seen of any unit behind it. -/
theorem not_mentions_of_leads (h : u.AcceptedOver store) (hi : i ∈ u.includes)
    (hpath : Include.Leads [i] path j) : ∀ original ∈ i.substitution.domain, ¬ j.Mentions original := by
  intro original horiginal
  obtain ⟨_, _, hs⟩ := h.exists_substitution hi
  have hne : ∀ d, j.substitution.apply d ≠ original := by
    rintro d rfl
    obtain ⟨before, hbefore⟩ := Include.exists_apply_of_leads hpath d
    exact Include.apply_not_mem_domain hs before (hbefore ▸ horiginal)
  rintro (⟨m, -, part, -, hmem⟩ | ⟨a, -, hmem⟩)
  · rw [Effective.databases_substituted] at hmem
    obtain ⟨d, -, hd⟩ := List.mem_map.1 hmem
    exact hne d hd
  · rw [AssociationMapping.databases_mapDatabases] at hmem
    obtain ⟨d, -, hd⟩ := List.mem_map.1 hmem
    exact hne d hd

end AcceptedOver

end MappingUnit

end ObjectRelational
