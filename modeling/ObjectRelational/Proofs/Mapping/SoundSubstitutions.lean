import ObjectRelational.Proofs.Mapping.Widening
import ObjectRelational.Proofs.Store.NearestFirst

/-!
# Sound substitutions

The substitutions of an include are sound if they name databases, replace no database twice and none by one that is
itself replaced, and if each substitute includes what it stands for, directly or not. The checks of an include accept
the sound ones and no others, in whatever order they are written, and what comes out replaces what is named by what is
named, so that doing it twice is doing it once.

* `Include.Sound`: sound substitutions. `Include.Found.sound_iff`: they pass the checks.
  `Include.Sound.of_perm`: their order does not matter.
* `Include.substitution_exact`: an include has a substitution exactly when they are sound, and which one.
-/

namespace ObjectRelational.Include

variable {store : Store} {model : ObjectModel} {s s' : Substitution} {l l' : List Source.StoreSubstitution}
  {found : List ResolvedSubstitution}

/-- The databases that are replaced, as far as there are such. -/
def originals (store : Store) (l : List Source.StoreSubstitution) : List (Option DatabaseId) :=
  l.map fun w => store.databaseNamed? w.replaced.value

/-- Substitutions that an include may declare. -/
structure Sound (store : Store) (l : List Source.StoreSubstitution) : Prop where
  /-- All names are names of databases. -/
  named : ∀ w ∈ l, ∃ replaced substitute, w.Names store replaced substitute
  /-- No database is replaced twice. -/
  distinct : (originals store l).Nodup
  /-- No substitute is replaced. -/
  apart : ∀ w ∈ l, store.databaseNamed? w.substitute.value ∉ originals store l
  /-- One or more includes lead from a substitute to what it stands for. -/
  includes : ∀ w ∈ l, ∀ replaced substitute, w.Names store replaced substitute →
    Relation.TransGen (Graph.Step store.includesOf) substitute replaced

theorem Sound.of_perm (hperm : l'.Perm l) (h : Sound store l) : Sound store l' where
  named w hw := h.named w (hperm.subset hw)
  distinct := ((hperm.map _).nodup_iff).2 h.distinct
  apart w hw hmem := h.apart w (hperm.subset hw) ((hperm.map _).subset hmem)
  includes w hw := h.includes w (hperm.subset hw)

/-- The databases that are found are those that are named. -/
theorem Found.originals_eq (h : Found store l found) : originals store l = (found.map (·.replaced)).map some := by
  rw [List.map_map]
  exact map_eq_map_of_forall₂ h fun w r hw => hw.1.1

/-- What is found is what is named. -/
theorem Found.exists_iff (h : Found store l found) {replaced substitute : DatabaseId} :
    (∃ r ∈ found, r.replaced = replaced ∧ r.substitute = substitute) ↔
      ∃ w ∈ l, w.Names store replaced substitute := by
  constructor
  · rintro ⟨r, hr, rfl, rfl⟩
    obtain ⟨w, hw, hnames, -⟩ := exists_of_mem_right h hr
    exact ⟨w, hw, hnames⟩
  · rintro ⟨w, hw, hreplaced, hsubstitute⟩
    obtain ⟨r, hr, hnames, -⟩ := exists_of_mem_left h hw
    exact ⟨r, hr, Option.some.inj (hnames.1.symm.trans hreplaced),
      Option.some.inj (hnames.2.symm.trans hsubstitute)⟩

/-- Of substitutions whose databases are found, the sound ones pass. -/
theorem Found.sound_iff (h : Found store l found) (hstore : store.Closed) : Sound store l ↔ Passes store found := by
  have hnames : ∀ w ∈ l, ∃ r ∈ found, w.Names store r.replaced r.substitute := fun w hw =>
    (exists_of_mem_left h hw).imp fun r hr => ⟨hr.1, hr.2.1⟩
  constructor
  · intro hsound
    refine ⟨(h.originals_eq ▸ hsound.distinct).of_map some, fun r hr => ?_, fun r hr => ?_⟩
    · obtain ⟨w, hw, hnames, -⟩ := exists_of_mem_right h hr
      have hapart := hsound.apart w hw
      rw [hnames.2, h.originals_eq] at hapart
      exact fun hmem => hapart (List.mem_map_of_mem hmem)
    · obtain ⟨w, hw, hnames, -⟩ := exists_of_mem_right h hr
      exact (Store.includesTransitively_iff_transGen hstore).2 (hsound.includes w hw _ _ hnames)
  · intro hpasses
    refine ⟨fun w hw => ?_, ?_, fun w hw => ?_, fun w hw replaced substitute hdenoted => ?_⟩
    · obtain ⟨r, -, hr⟩ := hnames w hw
      exact ⟨_, _, hr⟩
    · rw [h.originals_eq]
      exact hpasses.distinct.map (Option.some_injective _)
    · obtain ⟨r, hr, hdenoted⟩ := hnames w hw
      rw [hdenoted.2, h.originals_eq]
      simpa using hpasses.apart r hr
    · obtain ⟨r, hr, rfl, rfl⟩ := h.exists_iff.2 ⟨w, hw, hdenoted⟩
      exact (Store.includesTransitively_iff_transGen hstore).1 (hpasses.includes r hr)

/-- An include has a substitution if the substitutions that it declares are sound. -/
theorem exists_substitution_iff (hstore : store.Closed) {source : Source.Include} :
    (∃ s, substitution store model source = .ok s) ↔ Sound store source.substitutions := by
  simp only [substitution_eq_ok_iff]
  constructor
  · rintro ⟨_, found, hfound, hpasses, -⟩
    exact (hfound.sound_iff hstore).2 hpasses
  · intro h
    obtain ⟨found, hfound⟩ : ∃ found, Found store source.substitutions found := by
      refine exists_forall₂ fun w hw => ?_
      obtain ⟨replaced, substitute, hnames⟩ := h.named w hw
      exact ⟨⟨replaced, substitute, w⟩, hnames, rfl⟩
    exact ⟨_, found, hfound, (hfound.sound_iff hstore).1 h, rfl⟩

/-- The substitution of an include replaces what is named by what is named for it. -/
theorem find?_substitution_iff {source : Source.Include} (h : substitution store model source = .ok s)
    {replaced substitute : DatabaseId} : s.replacements.find? replaced = some substitute ↔
      ∃ w ∈ source.substitutions, w.Names store replaced substitute := by
  obtain ⟨found, hfound, hpasses, rfl⟩ := substitution_eq_ok_iff.1 h
  rw [find?_foldl_insert_eq_some_iff hpasses.distinct, hfound.exists_iff]

/-- In another order the substitutions make the same one. -/
theorem substitution_of_perm (hstore : store.Closed) {source source' : Source.Include}
    (hperm : source'.substitutions.Perm source.substitutions) (h : substitution store model source = .ok s) :
    substitution store model source' = .ok s := by
  have hsound := (exists_substitution_iff hstore).1 ⟨s, h⟩
  obtain ⟨s', hs'⟩ : ∃ s', substitution store model source' = .ok s' :=
    (exists_substitution_iff hstore).2 (hsound.of_perm hperm)
  have hsame : s' = s := by
    refine Substitution.ext_replacements fun d => Option.ext fun substitute => ?_
    rw [find?_substitution_iff hs', find?_substitution_iff h]
    exact exists_congr fun w => and_congr_left fun _ => hperm.mem_iff
  rw [hs', hsame]

/-- Where nothing stands for a database that is replaced, replacing twice is replacing once. -/
theorem apply_apply (h : ∀ d, s.apply d ∉ s.domain) (d : DatabaseId) : s.apply (s.apply d) = s.apply d := by
  have hnone : s.replacements.find? (s.apply d) = none := by
    rw [Option.eq_none_iff_forall_ne_some]
    exact fun substitute hsome => h d (Substitution.mem_domain_iff.2 ⟨substitute, hsome⟩)
  rw [Substitution.apply, hnone]
  rfl

/-- An include of a store that is built has a substitution iff the substitutions that it declares are sound. It replaces
each database that is named to be replaced by the one that is named for it, and no others; and it is the same one in
whatever order they are declared. Applied twice it does what it does applied once. -/
theorem substitution_exact {settings : ResolutionSettings} {databases : List Source.Database}
    (h : Store.build settings databases = .ok store) (model : ObjectModel) (source : Source.Include) :
    ((∃ s, substitution store model source = .ok s) ↔ Sound store source.substitutions) ∧
    ∀ s, substitution store model source = .ok s →
      (∀ replaced substitute, s.replacements.find? replaced = some substitute ↔
        ∃ w ∈ source.substitutions, w.Names store replaced substitute) ∧
      (∀ source' : Source.Include, source'.substitutions.Perm source.substitutions →
        substitution store model source' = .ok s) ∧
      ∀ d, s.apply (s.apply d) = s.apply d := by
  have hstore := Store.closed_of_build h
  refine ⟨exists_substitution_iff hstore, fun s hs => ⟨fun _ _ => find?_substitution_iff hs, ?_, ?_⟩⟩
  · exact fun source' hperm => substitution_of_perm hstore hperm hs
  · exact apply_apply (apply_not_mem_domain hs)

/-! ## Databases in a circle -/

/-- Two databases are replaced by two others, which include each other and lead to them. -/
def circleInclude : Source.Include where
  mapping := ⟨"m", {}⟩
  substitutions := [⟨⟨"far", {}⟩, ⟨"first", {}⟩⟩, ⟨⟨"near", {}⟩, ⟨"second", {}⟩⟩]

/-- The substitutions are sound, and from last to first they are the same. A substitution that goes on from a substitute
is not sound. -/
theorem substitution_exact_of_circle :
    ∃ store s, Store.build {} Store.circleOfDatabases = .ok store ∧
      Sound store circleInclude.substitutions ∧ substitution store .standard circleInclude = .ok s ∧
      substitution store .standard { circleInclude with substitutions := circleInclude.substitutions.reverse } =
        .ok s ∧
      s.replacements.find? ⟨3⟩ = some ⟨0⟩ ∧ s.apply (s.apply ⟨3⟩) = s.apply ⟨3⟩ ∧
      ¬ Sound store (⟨⟨"first", {}⟩, ⟨"second", {}⟩⟩ :: circleInclude.substitutions) := by
  obtain ⟨store, hbuild, hfacts⟩ : ∃ store, Store.build {} Store.circleOfDatabases = .ok store ∧ _ :=
    Store.exists_build_of_any (fun store => (substitution store .standard circleInclude).isOk ∧
      store.databaseNamed? "far" = some ⟨3⟩ ∧ store.databaseNamed? "first" = some ⟨0⟩ ∧
      !(substitution store .standard { circleInclude with
        substitutions := ⟨⟨"first", {}⟩, ⟨"second", {}⟩⟩ :: circleInclude.substitutions }).isOk) (by decide +kernel)
  obtain ⟨hok, hfar, hfirst, hrejected⟩ := of_decide_eq_true hfacts
  obtain ⟨hsound, hresult⟩ := substitution_exact hbuild .standard circleInclude
  obtain ⟨s, hs⟩ : ∃ s, substitution store .standard circleInclude = .ok s := by
    cases hsubstitution : substitution store .standard circleInclude with
    | error failure => simp [hsubstitution, Except.isOk, Except.toBool] at hok
    | ok s => exact ⟨s, rfl⟩
  obtain ⟨hreplaces, hperm, htwice⟩ := hresult s hs
  refine ⟨store, s, hbuild, hsound.1 ⟨s, hs⟩, hs, hperm _ (List.reverse_perm _),
    (hreplaces _ _).2 ⟨_, List.mem_cons_self, hfar, hfirst⟩, htwice _, fun h => ?_⟩
  obtain ⟨s', hs'⟩ := (substitution_exact hbuild .standard { circleInclude with
    substitutions := ⟨⟨"first", {}⟩, ⟨"second", {}⟩⟩ :: circleInclude.substitutions }).1.2 h
  simp [hs', Except.isOk, Except.toBool] at hrejected

end ObjectRelational.Include
