import ObjectRelational.Mapping.Include
import ObjectRelational.Proofs.Lookup
import ObjectRelational.Proofs.OrderedMap
import ObjectRelational.Proofs.Recorded
import ObjectRelational.Proofs.Store.Resolution

/-!
# The checks of substitutions

The substitutions that an include declares are checked one after the other, and all of them for one thing before
the next. What passes replaces the databases that it names.

* `Include.storeNamed_eq_ok_iff`, `Include.resolveSubstitution_eq_ok_iff`, `Include.checkReplaced_eq_ok_iff`,
  `Include.checkSubstitutes_eq_ok_iff`, `Include.foldlM_addSubstitution_eq_ok_iff`: what each check accepts.
  `Include.substitution_eq_ok_iff`: what all do.
* `Include.find?_foldl_insert_eq_some_iff`: what is replaced. `Include.substitution_invariant`: what holds of the
  substitution of an include.
-/

namespace ObjectRelational

/-- The names of a substitution are those of the two databases. -/
def Source.StoreSubstitution.Names (store : Store) (source : Source.StoreSubstitution)
    (replaced substitute : DatabaseId) : Prop :=
  store.databaseNamed? source.replaced.value = some replaced ∧
    store.databaseNamed? source.substitute.value = some substitute

namespace Include

variable {store : Store} {model : ObjectModel} {s s' : Substitution} {found : List ResolvedSubstitution}

/-! ## The checks -/

/-- The databases of the substitutions are those that they name. -/
def Found (store : Store) (l : List Source.StoreSubstitution) (found : List ResolvedSubstitution) : Prop :=
  List.Forall₂ (fun w (r : ResolvedSubstitution) => w.Names store r.replaced r.substitute ∧ r.source = w) l found

/-- No database is replaced twice, none by one that is replaced, and each substitute leads to what it stands for. -/
structure Passes (store : Store) (found : List ResolvedSubstitution) : Prop where
  distinct : (found.map (·.replaced)).Nodup
  apart : ∀ r ∈ found, r.substitute ∉ found.map (·.replaced)
  includes : ∀ r ∈ found, store.includesTransitively r.substitute r.replaced = true

theorem storeNamed_eq_ok_iff {name : Name} {id : DatabaseId} :
    storeNamed store model name = .ok id ↔ store.databaseNamed? name.value = some id := by
  unfold storeNamed
  cases store.databaseNamed? name.value with
  | some named => simp
  | none =>
    by_cases helement : model.hasElement name.value <;> simp [helement]

/-- The databases of a substitution are found if it names them. -/
theorem resolveSubstitution_eq_ok_iff {source : Source.StoreSubstitution} {r : ResolvedSubstitution} :
    resolveSubstitution store model source = .ok r ↔
      source.Names store r.replaced r.substitute ∧ r.source = source := by
  unfold resolveSubstitution Source.StoreSubstitution.Names
  simp only [bind_eq_ok_iff, pure_eq_ok_iff, storeNamed_eq_ok_iff]
  constructor
  · rintro ⟨replaced, hreplaced, substitute, hsubstitute, rfl⟩
    exact ⟨⟨hreplaced, hsubstitute⟩, rfl⟩
  · rintro ⟨⟨hreplaced, hsubstitute⟩, rfl⟩
    exact ⟨_, hreplaced, _, hsubstitute, rfl⟩

theorem checkReplaced_eq_ok_iff {seen : List DatabaseId} : checkReplaced seen found = .ok () ↔
    (found.map (·.replaced)).Nodup ∧ ∀ r ∈ found, r.replaced ∉ seen := by
  induction found generalizing seen with
  | nil => simp [checkReplaced]
  | cons r rest ih =>
    unfold checkReplaced
    split
    · rename_i hseen
      simp [hseen]
    · rename_i hseen
      simp only [ih, List.mem_cons, List.map_cons, List.nodup_cons, List.mem_map]
      grind

theorem checkSubstitutes_eq_ok_iff {replaced : List DatabaseId} {l : List ResolvedSubstitution} :
    checkSubstitutes replaced l = .ok () ↔ ∀ s ∈ l, s.substitute ∉ replaced := by
  induction l with
  | nil => simp [checkSubstitutes]
  | cons s rest ih =>
    unfold checkSubstitutes
    split
    · rename_i hreplaced
      simp [hreplaced]
    · rename_i hreplaced
      simp [hreplaced, ih]

/-- A replacement is added if the substitute leads to what it stands for. -/
theorem addSubstitution_eq_ok_iff {s s' : Substitution} {next : ResolvedSubstitution} :
    addSubstitution store s next = .ok s' ↔
      store.includesTransitively next.substitute next.replaced = true ∧
        s.insert next.replaced next.substitute = s' := by
  unfold addSubstitution
  split
  · rename_i hincludes
    simp [hincludes]
  · rename_i hincludes
    simp [hincludes]

/-- All replacements are added if each substitute leads to what it stands for. -/
theorem foldlM_addSubstitution_eq_ok_iff : found.foldlM (addSubstitution store) s = .ok s' ↔
    (∀ r ∈ found, store.includesTransitively r.substitute r.replaced = true) ∧
      found.foldl (fun s r => s.insert r.replaced r.substitute) s = s' := by
  induction found generalizing s with
  | nil => simp [pure_eq_ok_iff]
  | cons r rest ih =>
    simp only [List.foldlM_cons, List.foldl_cons, bind_eq_ok_iff, addSubstitution_eq_ok_iff, ih,
      List.forall_mem_cons]
    constructor
    · rintro ⟨_, ⟨hfirst, rfl⟩, hrest, hs⟩
      exact ⟨⟨hfirst, hrest⟩, hs⟩
    · rintro ⟨⟨hfirst, hrest⟩, hs⟩
      exact ⟨_, ⟨hfirst, rfl⟩, hrest, hs⟩

/-- All checks together: the databases are found, and they pass. -/
theorem substitution_eq_ok_iff {source : Source.Include} : substitution store model source = .ok s ↔
    ∃ found, Found store source.substitutions found ∧ Passes store found ∧
      found.foldl (fun s r => s.insert r.replaced r.substitute) .identity = s := by
  unfold substitution Found
  simp only [bind_eq_ok_iff, mapM_eq_ok_iff, resolveSubstitution_eq_ok_iff, foldlM_addSubstitution_eq_ok_iff]
  constructor
  · rintro ⟨found, hfound, _, hreplaced, _, hsubstitutes, hincludes, hs⟩
    have hdistinct := (checkReplaced_eq_ok_iff.1 hreplaced).1
    exact ⟨found, hfound, ⟨hdistinct, checkSubstitutes_eq_ok_iff.1 hsubstitutes, hincludes⟩, hs⟩
  · rintro ⟨found, hfound, hpasses, hs⟩
    exact ⟨found, hfound, (), checkReplaced_eq_ok_iff.2 ⟨hpasses.distinct, by simp⟩, (),
      checkSubstitutes_eq_ok_iff.2 hpasses.apart, hpasses.includes, hs⟩

/-! ## What comes out -/

theorem replacements_foldl_insert (s : Substitution) :
    (found.foldl (fun s r => s.insert r.replaced r.substitute) s).replacements =
      found.foldl (fun m r => m.insert r.replaced r.substitute) s.replacements := by
  induction found generalizing s with
  | nil => rfl
  | cons r rest ih => exact ih _

/-- If no database is replaced twice, exactly what was added is replaced. -/
theorem find?_foldl_insert_eq_some_iff (h : (found.map (·.replaced)).Nodup) {replaced substitute : DatabaseId} :
    (found.foldl (fun s r => s.insert r.replaced r.substitute) Substitution.identity).replacements.find?
        replaced = some substitute ↔
      ∃ r ∈ found, r.replaced = replaced ∧ r.substitute = substitute := by
  have hreverse : (found.reverse.map (·.replaced)).Nodup := by rwa [List.map_reverse, List.nodup_reverse]
  rw [replacements_foldl_insert, OrderedMap.find?_foldl_insert]
  simp only [Substitution.identity, OrderedMap.find?_empty, Option.or_none, Option.map_eq_some_iff,
    find?_eq_some_iff_of_nodup hreverse, List.mem_reverse, and_assoc]

/-- What holds of the substitution that replaces nothing, and is kept when a database of the store comes to
stand for one that it includes, directly or not, holds of the substitution of an include. -/
theorem substitution_invariant {P : Substitution → Prop} {source : Source.Include}
    (hidentity : P .identity)
    (hinsert : ∀ s replaced substitute, P s → store.HasDatabase replaced → store.HasDatabase substitute →
      store.includesTransitively substitute replaced = true → P (s.insert replaced substitute))
    (h : substitution store model source = .ok s) : P s := by
  obtain ⟨found, hfound, hpasses, rfl⟩ := substitution_eq_ok_iff.1 h
  refine List.foldlRecOn found _ hidentity fun s hs r hr => ?_
  obtain ⟨written, -, ⟨hreplaced, hsubstitute⟩, -⟩ := exists_of_mem_right hfound hr
  exact hinsert s _ _ hs (Store.hasDatabase_of_databaseNamed? hreplaced)
    (Store.hasDatabase_of_databaseNamed? hsubstitute) (hpasses.includes r hr)

end Include

end ObjectRelational
