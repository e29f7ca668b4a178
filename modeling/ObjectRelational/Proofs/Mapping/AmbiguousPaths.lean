import ObjectRelational.Proofs.Mapping.Flattening
import ObjectRelational.Proofs.Mapping.Widening
import ObjectRelational.Proofs.Store.Build

/-!
# Ambiguous include paths

Flattening gives up when it meets a unit again and another substitution has been composed along the second
path. What it compares are the entries of the substitutions. Two substitutions that send every database to
the same one can still have different entries, if one of them replaces a database by itself; and that is
composed where an include replaces a database and an outer one puts it back.

* `Substitution.exists_ne_or_fixes`: different substitutions act differently, or one of them replaces a
  database by itself and the other does not replace it.
* `Include.exists_paths_of_flatten_error`: where flattening fails there are two paths to one unit, and
  different substitutions.
* `Substitution.Ascends`: what stands for a database includes it, directly or not.
  `Include.ascends_of_leads`: so it is along every path of includes.
* `Include.ambiguous_paths`: when flattening fails.
* `Include.not_all_ambiguous_paths_differ`: paths to a unit that are taken to disagree, although every
  database goes the same way along all of them.
-/

namespace ObjectRelational

/-! ## Different substitutions -/

namespace Substitution

variable {s t outer : Substitution} {d : DatabaseId} {store : Store}

/-- The database is replaced, by itself. -/
def Fixes (s : Substitution) (d : DatabaseId) : Prop := s.replacements.find? d = some d

theorem not_mem_domain_of_find?_eq_none (h : s.replacements.find? d = none) : d ∉ s.domain := by
  rw [mem_domain_iff, h]
  simp

/-- Different substitutions act differently, unless one of them replaces a database by itself that the
other one leaves alone. -/
theorem exists_ne_or_fixes (h : s ≠ t) : (∃ d, s.apply d ≠ t.apply d) ∨
    (∃ d, s.Fixes d ∧ d ∉ t.domain) ∨ ∃ d, t.Fixes d ∧ d ∉ s.domain := by
  obtain ⟨d, hd⟩ : ∃ d, s.replacements.find? d ≠ t.replacements.find? d := by
    by_contra hall
    push Not at hall
    exact h (ext_replacements hall)
  -- two entries that differ act differently; an entry that the other one lacks does so too, unless it
  -- leaves its database where it is
  cases hs : s.replacements.find? d with
  | none =>
    cases ht : t.replacements.find? d with
    | none => exact absurd (hs.trans ht.symm) hd
    | some b =>
      by_cases hb : b = d
      · exact .inr (.inr ⟨d, hb ▸ ht, not_mem_domain_of_find?_eq_none hs⟩)
      · exact .inl ⟨d, by simpa [apply, hs, ht] using Ne.symm hb⟩
  | some a =>
    cases ht : t.replacements.find? d with
    | none =>
      by_cases ha : a = d
      · exact .inr (.inl ⟨d, ha ▸ hs, not_mem_domain_of_find?_eq_none ht⟩)
      · exact .inl ⟨d, by simpa [apply, hs, ht] using ha⟩
    | some b =>
      rw [hs, ht] at hd
      exact .inl ⟨d, by simpa [apply, hs, ht] using hd⟩

/-- What stands for a database includes it, directly or not. -/
def Ascends (store : Store) (s : Substitution) : Prop :=
  ∀ d substitute, s.replacements.find? d = some substitute →
    store.includesTransitively substitute d = true

theorem Ascends.apply (h : s.Ascends store) (d : DatabaseId) :
    s.apply d = d ∨ store.includesTransitively (s.apply d) d = true := by
  cases hd : s.replacements.find? d with
  | none => exact .inl (by simp [Substitution.apply, hd])
  | some substitute => exact .inr (by simpa [Substitution.apply, hd] using h d substitute hd)

theorem Ascends.andThen (hstore : store.Closed) (h : s.Ascends store) (houter : outer.Ascends store) :
    (s.andThen outer).Ascends store := by
  intro d substitute hd
  rw [find?_andThen] at hd
  cases hinner : s.replacements.find? d with
  | none =>
    rw [hinner] at hd
    exact houter d substitute hd
  | some replaced =>
    rw [hinner] at hd
    obtain rfl : outer.apply replaced = substitute := Option.some.inj hd
    have hreplaced := h d replaced hinner
    -- the outer substitution leaves alone what stands for the database, or leads on from there
    rcases houter.apply replaced with hsame | hincludes
    · rwa [hsame]
    · rw [Store.includesTransitively_iff_transGen hstore] at hreplaced hincludes ⊢
      exact hincludes.trans hreplaced

end Substitution

namespace Include

variable {store : Store} {direct known queue : List IncludedUnit} {i j : IncludedUnit}
  {path path' : List IncludedUnit} {unit : String} {span : Span} {failure : Failure}

/-! ## Paths that disagree -/

/-- The path to a unit that is known and the path to the same unit in the queue are the two that disagree. -/
theorem exists_paths_of_flattenFrom_error (hsame : SameByName direct) (hwork : Worklist direct known queue)
    (h : flattenFrom unit span known queue = .error failure) :
    ∃ path i path' j, Leads direct path i ∧ Leads direct path' j ∧ i.unit = j.unit ∧
      i.substitution ≠ j.substitution ∧ failure = ⟨.ambiguousIncludePaths i.unit.name unit, span⟩ := by
  induction known, queue using flattenFrom.induct with
  | case1 known =>
    rw [flattenFrom] at h
    cases h
  | case2 known next queue hnew ih =>
    rw [flattenFrom_of_new hnew] at h
    refine ih (hwork.visit ?_) h
    intro i hi
    simpa using List.find?_eq_none.1 hnew i hi
  | case3 known next queue previous hprevious hsubstitution ih =>
    rw [flattenFrom_of_eq hprevious hsubstitution] at h
    exact ih (hwork.skip (mem_of_find?_name hsame hwork hprevious hsubstitution)) h
  | case4 known next queue previous hprevious hsubstitution =>
    rw [flattenFrom_of_ne hprevious hsubstitution] at h
    obtain ⟨path, hpath⟩ := hwork.reached_known previous (List.mem_of_find?_eq_some hprevious)
    obtain ⟨path', hpath'⟩ := hwork.reached_queue next List.mem_cons_self
    have hname : previous.unit.name = next.unit.name := by simpa using List.find?_some hprevious
    refine ⟨path, previous, path', next, hpath, hpath', hsame _ _ _ _ hpath hpath' hname, hsubstitution, ?_⟩
    rw [hname]
    exact (Except.error.inj h).symm

/-- Where flattening fails, two paths lead to one unit, and different substitutions are composed along
them. -/
theorem exists_paths_of_flatten_error (hsame : SameByName direct)
    (h : flatten unit span direct = .error failure) :
    ∃ path i path' j, Leads direct path i ∧ Leads direct path' j ∧ i.unit = j.unit ∧
      i.substitution ≠ j.substitution ∧ failure = ⟨.ambiguousIncludePaths i.unit.name unit, span⟩ :=
  exists_paths_of_flattenFrom_error hsame (.start direct) h

/-- Where flattening succeeds, the same substitution is composed along all paths to a unit. -/
theorem substitution_eq_of_flatten {flattened : List IncludedUnit} (hsame : SameByName direct)
    (h : flatten unit span direct = .ok flattened) (hi : Leads direct path i)
    (hj : Leads direct path' j) (hunit : i.unit = j.unit) : i.substitution = j.substitution := by
  have hwork := worklist_flatten hsame h
  have heq : i = j := List.inj_on_of_nodup_map hwork.nodup (hwork.mem_of_leads hi) (hwork.mem_of_leads hj)
    (congrArg MappingUnit.name hunit)
  rw [heq]

/-! ## Databases that are put back -/

/-- The unit was resolved against the store, and so were the substitutions that it is included with. -/
def DeclaredOver (store : Store) (i : IncludedUnit) : Prop :=
  i.unit.AcceptedOver store ∧ ∃ model source, substitution store model source = .ok i.substitution

theorem ascends_of_substitution {model : ObjectModel} {source : Source.Include} {s : Substitution}
    (h : substitution store model source = .ok s) : s.Ascends store := by
  refine substitution_invariant (P := Substitution.Ascends store) (fun d substitute hd => ?_) ?_ h
  · simp [Substitution.identity] at hd
  · intro s replaced substitute hbefore _ _ hincludes
    exact OrderedMap.forall_find?_insert hbefore hincludes

/-- Along every path of includes what stands for a database includes it. -/
theorem ascends_of_leads (hstore : store.Closed) (hdirect : ∀ i ∈ direct, DeclaredOver store i)
    (hpath : Leads direct path i) : i.substitution.Ascends store ∧ i.unit.AcceptedOver store := by
  induction hpath with
  | single hi =>
    obtain ⟨haccepted, _, _, hs⟩ := hdirect _ hi
    exact ⟨ascends_of_substitution hs, haccepted⟩
  | @snoc _ outer inner _ hinner ih =>
    obtain ⟨_, _, hs⟩ := ih.2.exists_substitution hinner
    exact ⟨(ascends_of_substitution hs).andThen hstore ih.1, ih.2.of_mem_includes inner hinner⟩

/-- Flattening fails only if there are two paths to a unit, the one that it reports, with different
substitutions: they send some database to different ones, or one replaces a database by itself that the
other leaves alone. And it fails whenever two paths to a unit send some database to different ones. A
database that is replaced by itself includes itself, directly or not, if the substitutions are those of
includes that were resolved. -/
theorem ambiguous_paths (hsame : SameByName direct) :
    (∀ failure, flatten unit span direct = .error failure → ∃ path i path' j,
      Leads direct path i ∧ Leads direct path' j ∧ i.unit = j.unit ∧
        failure = ⟨.ambiguousIncludePaths i.unit.name unit, span⟩ ∧
        ((∃ d, i.substitution.apply d ≠ j.substitution.apply d) ∨
          ∃ d, i.substitution.Fixes d ∧ d ∉ j.substitution.domain)) ∧
      (∀ path i path' j, Leads direct path i → Leads direct path' j → i.unit = j.unit →
        (∃ d, i.substitution.apply d ≠ j.substitution.apply d) →
          ∃ failure, flatten unit span direct = .error failure) ∧
      ∀ store : Store, store.Closed → (∀ i ∈ direct, DeclaredOver store i) →
        ∀ path i d, Leads direct path i → i.substitution.Fixes d →
          store.includesTransitively d d = true := by
  refine ⟨fun failure h => ?_, ?_, ?_⟩
  · obtain ⟨path, i, path', j, hi, hj, hunit, hne, hfailure⟩ := exists_paths_of_flatten_error hsame h
    rcases Substitution.exists_ne_or_fixes hne with hdiffer | hfixes | ⟨d, hfixes, hfree⟩
    · exact ⟨path, i, path', j, hi, hj, hunit, hfailure, .inl hdiffer⟩
    · exact ⟨path, i, path', j, hi, hj, hunit, hfailure, .inr hfixes⟩
    · -- the paths change places
      exact ⟨path', j, path, i, hj, hi, hunit.symm, hunit ▸ hfailure, .inr ⟨d, hfixes, hfree⟩⟩
  · rintro path i path' j hi hj hunit ⟨d, hd⟩
    cases h : flatten unit span direct with
    | error failure => exact ⟨failure, rfl⟩
    | ok flattened => exact absurd (by rw [substitution_eq_of_flatten hsame h hi hj hunit]) hd
  · exact fun store hstore hdirect path i d hi hfixes =>
      (ascends_of_leads hstore hdirect hi).1 d d hfixes

/-! ## Databases that include each other -/

/-- What `replacement` replaces is put back. -/
def restoration : Substitution := Substitution.identity.insert ⟨1⟩ ⟨0⟩

/-- Two units are included, with the second database replaced by the first one in both. -/
def restored (middle shared : MappingUnit) : List IncludedUnit :=
  [⟨middle, restoration⟩, ⟨shared, restoration⟩]

/-- The one unit includes the other one, which includes nothing, with the first database replaced by the
second one. -/
structure Replacing (middle shared : MappingUnit) : Prop where
  includes : middle.includes = [⟨shared, replacement⟩]
  leaf : shared.includes = []
  name_ne : middle.name ≠ shared.name

namespace Replacing

variable {middle shared : MappingUnit}

theorem eq_of_leads (h : Replacing middle shared) (hpath : Leads (restored middle shared) path i) :
    i = ⟨middle, restoration⟩ ∨ i = ⟨shared, restoration⟩ ∨
      i = ⟨shared, replacement.andThen restoration⟩ := by
  induction hpath with
  | single hi => exact (List.mem_pair.1 hi).imp_right .inl
  | snoc _ hinner ih =>
    rcases ih with rfl | rfl | rfl
    · obtain rfl := List.mem_singleton.1 (h.includes ▸ hinner)
      exact .inr (.inr rfl)
    · simp [h.leaf] at hinner
    · simp [h.leaf] at hinner

theorem sameByName (h : Replacing middle shared) : SameByName (restored middle shared) := by
  intro path i path' j hi hj hname
  have hne := h.name_ne
  rcases h.eq_of_leads hi with rfl | rfl | rfl <;> rcases h.eq_of_leads hj with rfl | rfl | rfl <;>
    simp_all

theorem leads (h : Replacing middle shared) : Leads (restored middle shared)
    ([⟨middle, restoration⟩] ++ [⟨shared, replacement⟩]) ⟨shared, replacement.andThen restoration⟩ :=
  (Leads.single List.mem_cons_self).snoc (h.includes ▸ List.mem_cons_self)

/-- Along both paths to the second unit its databases become the first one, but flattening fails. -/
theorem flatten_eq (h : Replacing middle shared) : flatten unit span (restored middle shared) =
    .error ⟨.ambiguousIncludePaths shared.name unit, span⟩ := by
  have hdisagree : restoration ≠ replacement.andThen restoration := by decide
  have hne := h.name_ne
  simp [flatten, flattenFrom, restored, IncludedUnit.inner, h.includes, h.leaf, hne, hdisagree, Fault.found]

/-- Along every path the second database becomes the first one, and no other database another one. -/
theorem apply_of_leads (h : Replacing middle shared) (hpath : Leads (restored middle shared) path i)
    (d : DatabaseId) : i.substitution.apply d = restoration.apply d := by
  rcases h.eq_of_leads hpath with rfl | rfl | rfl
  · rfl
  · rfl
  · have hidentity : ∀ other, Substitution.identity.apply other = other := fun _ => rfl
    rw [Substitution.apply_andThen]
    simp only [replacement, restoration, Substitution.apply_insert, hidentity]
    split_ifs <;> simp_all

end Replacing

/-- A database with a table, that includes another one. -/
def partnerOf (name other table : String) : Source.Database where
  name := ⟨name, {}⟩
  includes := [⟨other, {}⟩]
  schemas := [⟨⟨"default", {}⟩, [{ name := ⟨table, {}⟩ }], []⟩]

/-- Two databases that include each other. -/
def mutualDatabases : List Source.Database := [partnerOf "A" "B" "S", partnerOf "B" "A" "T"]

/-- What units over them are resolved against. -/
def mutualEnvironment : Environment where
  model := .ofDefinition { classes := [{ path := "First" }, { path := "Second" }] }
  store := match Store.build {} mutualDatabases with
    | .ok store => store
    | .error _ => {}
  settings := {}

/-- A class is mapped to a table of a database. -/
def mappingInto (className database table : String) : Source.ClassMapping where
  className := ⟨className, {}⟩
  body := .relational { mainTable := some ⟨⟨database, {}⟩, none, ⟨table, {}⟩⟩ }

/-- Two classes are mapped, one into each database. -/
def sharedSource : Source.Mapping where
  name := ⟨"shared", {}⟩
  classMappings := [mappingInto "First" "A" "S", mappingInto "Second" "B" "T"]

/-- A unit is included with one database in place of the other one. -/
def includeReplacing (unit replaced substitute : String) : Source.Include :=
  { mapping := ⟨unit, {}⟩, substitutions := [⟨⟨replaced, {}⟩, ⟨substitute, {}⟩⟩] }

/-- That unit is included with `B` in place of `A`. -/
def middleSource : Source.Mapping where
  name := ⟨"middle", {}⟩
  includes := [includeReplacing "shared" "A" "B"]

/-- The unit with the mappings, when it is asked for. -/
def compiledShared (name : String) : Option MappingUnit :=
  if name = "shared" then
    (MappingUnit.resolve mutualEnvironment (fun _ => none) sharedSource).toOption
  else none

theorem build_mutualDatabases : Store.build {} mutualDatabases = .ok mutualEnvironment.store := by
  with_unfolding_all rfl

/-- Units over these databases that are included like this are resolved. -/
theorem exists_replacing : ∃ middle shared, Replacing middle shared ∧
    ∀ i ∈ restored middle shared, DeclaredOver mutualEnvironment.store i := by
  have hshared : ∃ shared, MappingUnit.resolve mutualEnvironment (fun _ => none) sharedSource =
      .ok shared ∧ shared.includes = [] ∧ shared.name = "shared" := by
    with_unfolding_all exact ⟨_, rfl, rfl, rfl⟩
  have hmiddle : ∃ middle, MappingUnit.resolve mutualEnvironment compiledShared middleSource =
      .ok middle ∧ middle.includes.map (fun i => (some i.unit, i.substitution)) =
        [(compiledShared "shared", replacement)] ∧ middle.name = "middle" := by
    with_unfolding_all exact ⟨_, rfl, rfl, rfl⟩
  have hrestored : ∀ unit, substitution mutualEnvironment.store mutualEnvironment.model
      (includeReplacing unit "B" "A") = .ok restoration := by
    intro unit
    with_unfolding_all rfl
  obtain ⟨shared, hshared, hleaf, hsharedName⟩ := hshared
  obtain ⟨middle, hmiddle, hincludes, hmiddleName⟩ := hmiddle
  have hcompiled : compiledShared "shared" = some shared := by
    simp [compiledShared, hshared, Except.toOption]
  obtain ⟨⟨included, s⟩, hi, hpair⟩ := List.map_eq_singleton_iff.1 hincludes
  obtain ⟨rfl, rfl⟩ : included = shared ∧ s = replacement := by simpa [hcompiled] using hpair
  have hinner : included.AcceptedOver mutualEnvironment.store := .resolved rfl (by simp [hleaf]) hshared
  have houter : middle.AcceptedOver mutualEnvironment.store := .resolved rfl (by simpa [hi]) hmiddle
  exact ⟨middle, included, ⟨hi, hleaf, by simp [hmiddleName, hsharedName]⟩,
    List.forall_mem_cons.2 ⟨⟨houter, _, _, hrestored "middle"⟩,
      List.forall_mem_singleton.2 ⟨hinner, _, _, hrestored "shared"⟩⟩⟩

/-- Along one path to the unit its first database is replaced by the second one and put back, along the
other it is left alone; flattening takes these paths to disagree. The two databases include each other. -/
theorem ambiguous_paths_of_mutual :
    ∃ middle shared, SameByName (restored middle shared) ∧
      (∀ i ∈ restored middle shared, DeclaredOver mutualEnvironment.store i) ∧
      (∃ failure, flatten "outer" {} (restored middle shared) = .error failure ∧
        ∃ path i path' j, Leads (restored middle shared) path i ∧
          Leads (restored middle shared) path' j ∧ i.unit = j.unit ∧
          failure = ⟨.ambiguousIncludePaths i.unit.name "outer", {}⟩ ∧
          ((∃ d, i.substitution.apply d ≠ j.substitution.apply d) ∨
            ∃ d, i.substitution.Fixes d ∧ d ∉ j.substitution.domain)) ∧
      mutualEnvironment.store.includesTransitively ⟨0⟩ ⟨0⟩ = true := by
  obtain ⟨middle, shared, h, hdeclared⟩ := exists_replacing
  have hfixes : (replacement.andThen restoration).Fixes ⟨0⟩ := by
    unfold Substitution.Fixes
    decide
  obtain ⟨hfails, -, hcircle⟩ := @ambiguous_paths (restored middle shared) "outer" {} h.sameByName
  exact ⟨middle, shared, h.sameByName, hdeclared, ⟨_, h.flatten_eq, hfails _ h.flatten_eq⟩,
    hcircle _ (Store.closed_of_build build_mutualDatabases) hdeclared _ _ ⟨0⟩ h.leads hfixes⟩

/-- A unit can be reported as ambiguous although all paths to it send every database to the same one. -/
theorem not_all_ambiguous_paths_differ :
    ¬ ∀ (unit : String) (span : Span) (direct : List IncludedUnit) (name : String),
      SameByName direct → flatten unit span direct = .error ⟨.ambiguousIncludePaths name unit, span⟩ →
        ∃ path i path' j, Leads direct path i ∧ Leads direct path' j ∧
          i.unit.name = name ∧ j.unit.name = name ∧
          ∃ d, i.substitution.apply d ≠ j.substitution.apply d := by
  intro hall
  have h : Replacing (unitOf "middle" [⟨bottom, replacement⟩]) bottom :=
    ⟨rfl, rfl, by simp [unitOf, bottom]⟩
  obtain ⟨path, i, path', j, hi, hj, -, -, d, hd⟩ := hall "outer" {} _ _ h.sameByName h.flatten_eq
  exact hd ((h.apply_of_leads hi d).trans (h.apply_of_leads hj d).symm)

end Include

end ObjectRelational
