import Mathlib.Data.List.Induction
import ObjectRelational.Proofs.Workspace.Derivation

/-!
# Compiling does not depend on the past

Whatever was edited and compiled before, a compilation answers what compiling the sources for the
first time would answer.

* `Workspace.fresh` has the same sources and no past. `run_edits`: it is where the edits of a run
  lead without its compilations.
* `Related`: the same failures, and states that mean the same where nothing failed.
  `related_advance`: one more unit keeps progresses related.
* `compile_fresh`: the compilation of a workspace with a sound snapshot answers like that of the
  fresh one.
-/

namespace ObjectRelational

open Fingerprint

/-! ## Related progresses -/

/-- What a state means: its fingerprint and its unit, whichever compilation made it. -/
def Entry.meaning (e : Entry) : String × MappingUnit := (e.fingerprint, e.unit)

/-- The same failures, and states that mean the same where nothing failed. -/
structure Related (p q : Progress) : Prop where
  failures : p.failures = q.failures
  states : ∀ name, (∀ failure, ⟨name, failure⟩ ∉ p.failures) →
    (p.entries.find? name).map (·.meaning) = (q.entries.find? name).map (·.meaning)

theorem Related.unit?_eq {p q : Progress} (h : Related p q) {name : String}
    (hname : ∀ failure, ⟨name, failure⟩ ∉ p.failures) : p.unit? name = q.unit? name := by
  have hstate := congrArg (Option.map Prod.snd) (h.states name hname)
  simpa [Progress.unit?, Option.map_map, Function.comp_def, Entry.meaning] using hstate

theorem Related.print?_eq {p q : Progress} (h : Related p q) {name : String}
    (hname : ∀ failure, ⟨name, failure⟩ ∉ p.failures) :
    (p.entries.find? name).map (·.fingerprint) = (q.entries.find? name).map (·.fingerprint) := by
  have hstate := congrArg (Option.map Prod.fst) (h.states name hname)
  simpa [Option.map_map, Function.comp_def, Entry.meaning] using hstate

namespace Compilation

/-- The same compilation without a past. -/
structure Fresh (c c' : Compilation) : Prop where
  environment : c'.environment = c.environment
  graph : c'.graph = c.graph
  sources : c'.sources = c.sources
  print : c'.built.fingerprint = c.built.fingerprint
  previous : ∀ name, c'.previous.units.find? name = none

variable {c c' : Compilation} {p q : Progress} {name : String} {source : Source.Mapping}
  {messages : List (List UInt8)} {databases : List Source.Database}

theorem Fresh.unchanged?_eq_none (h : c.Fresh c') (name fingerprint : String) :
    c'.unchanged? name fingerprint = none := by
  unfold unchanged?
  rw [h.previous name]
  split <;> rfl

theorem blocker?_of_related (h : Related p q) : blocker? p source = blocker? q source := by
  unfold blocker? Progress.hasFailed
  rw [h.failures]

theorem dependencies_of_related (hc : c.Fresh c') (h : Related p q)
    (hclear : ∀ name ∈ source.targets, ∀ failure, ⟨name, failure⟩ ∉ p.failures) :
    c'.dependencies q source = c.dependencies p source := by
  unfold dependencies
  rw [hc.print]
  congr 2
  apply List.filterMap_congr
  intro i hi
  exact (h.print?_eq (hclear _ (List.mem_map.2 ⟨i, hi, rfl⟩))).symm

/-- From related progresses a unit ends in the same way, whether its state is kept or not. -/
theorem compileUnit_of_related (hmessages : NoCollision messages)
    (hc : c.Grounded messages databases) (hfresh : c.Fresh c') (h : Related p q)
    (hp : Sound messages c.environment.model c.environment.settings p.entries)
    (hsource : c.sources.find? name = some source) (hhashed : c.hashedFor p name ⊆ messages) :
    (c.compileUnit p source).map (·.meaning) = (c'.compileUnit q source).map (·.meaning) := by
  cases hvalid : c.graph.validate source with
  | error failure =>
    have hvalid' : c'.graph.validate source = .error failure := by rw [hfresh.graph, hvalid]
    rw [compileUnit_of_invalid hvalid, compileUnit_of_invalid hvalid']
  | ok _ =>
    have hvalid' : c'.graph.validate source = .ok () := by rw [hfresh.graph, hvalid]
    cases hblocker : blocker? p source with
    | some i =>
      have hblocker' : blocker? q source = some i := by rw [← blocker?_of_related h, hblocker]
      rw [compileUnit_of_blocker hvalid hblocker, compileUnit_of_blocker hvalid' hblocker']
    | none =>
      have hblocker' : blocker? q source = none := by rw [← blocker?_of_related h, hblocker]
      have hclear := not_failed_of_blocker? hblocker
      have hdependencies := dependencies_of_related hfresh h hclear
      have hresolve : MappingUnit.resolve c'.environment q.unit? source =
          MappingUnit.resolve c.environment p.unit? source := by
        rw [hfresh.environment]
        apply MappingUnit.resolve_congr
        intro target htarget
        exact (h.unit?_eq (hclear target htarget)).symm
      rw [compileUnit_of_clear hvalid hblocker, compileUnit_of_clear hvalid' hblocker',
        freshOrUnchanged_of_none (hfresh.unchanged?_eq_none _ _), hresolve, hdependencies]
      cases hunchanged : c.unchanged? source.name.value (combine (c.dependencies p source)) with
      | some old =>
        -- the state is kept: it is what resolving the unit would give
        rcases unchanged?_eq_some_iff.1 hunchanged with ⟨-, hold, hprint⟩
        have hderived := hc.previous _ old hold
        rw [hprint] at hderived
        rw [hashedFor_of_clear hsource hvalid hblocker] at hhashed
        rw [freshOrUnchanged_of_some hunchanged, resolve_of_derived hmessages hc hp
          (hhashed (by simp)) (hhashed (by simp)) hderived]
        simp [Except.map, Entry.meaning, hprint]
      | none =>
        rw [freshOrUnchanged_of_none hunchanged]
        cases MappingUnit.resolve c.environment p.unit? source <;> rfl

/-- One more unit keeps progresses related. -/
theorem related_advance (hmessages : NoCollision messages) (hc : c.Grounded messages databases)
    (hfresh : c.Fresh c') (h : Related p q)
    (hp : Sound messages c.environment.model c.environment.settings p.entries)
    (hhashed : c.hashedFor p name ⊆ messages) :
    Related (c.advance p name) (c'.advance q name) := by
  cases hsource : c.sources.find? name with
  | none =>
    have hsource' : c'.sources.find? name = none := by rw [hfresh.sources, hsource]
    rw [advance_of_absent hsource, advance_of_absent hsource']
    exact h
  | some source =>
    have hsource' : c'.sources.find? name = some source := by rw [hfresh.sources, hsource]
    have hsame := compileUnit_of_related hmessages hc hfresh h hp hsource hhashed
    cases hcompile : c.compileUnit p source with
    | ok entry =>
      cases hcompile' : c'.compileUnit q source with
      | error failure =>
        -- a unit cannot compile in one and fail in the other
        rw [hcompile, hcompile'] at hsame
        cases hsame
      | ok entry' =>
        rw [hcompile, hcompile'] at hsame
        have hmeaning : entry.meaning = entry'.meaning := Except.ok.inj hsame
        rw [advance_of_ok hsource hcompile, advance_of_ok hsource' hcompile']
        refine ⟨h.failures, ?_⟩
        intro other hother
        simp only [OrderedMap.find?_insert]
        split
        · simp [hmeaning]
        · exact h.states other hother
    | error failure =>
      cases hcompile' : c'.compileUnit q source with
      | ok entry' =>
        rw [hcompile, hcompile'] at hsame
        cases hsame
      | error failure' =>
        rw [hcompile, hcompile'] at hsame
        obtain rfl : failure = failure' := Except.error.inj hsame
        rw [advance_of_error hsource hcompile, advance_of_error hsource' hcompile']
        -- the state that is kept is one of a unit that failed, of which nothing is said
        refine ⟨by simp [h.failures], ?_⟩
        intro other hother
        have hname : other ≠ name := by
          rintro rfl
          exact hother failure (by simp)
        simp only [find?_retain, hname, if_false]
        exact h.states other fun found hfound => hother found (List.mem_append_left _ hfound)

theorem related_foldl (hmessages : NoCollision messages) (hc : c.Grounded messages databases)
    (hfresh : c.Fresh c') {order : List String} (h : Related p q)
    (hp : Sound messages c.environment.model c.environment.settings p.entries)
    (hhashed : c.hashedFrom p order ⊆ messages) :
    Related (order.foldl c.advance p) (order.foldl c'.advance q) := by
  induction order generalizing p q with
  | nil => exact h
  | cons name rest ih =>
    rw [hashedFrom] at hhashed
    rcases List.append_subset.1 hhashed with ⟨hfirst, hrest⟩
    exact ih (related_advance hmessages hc hfresh h hp hfirst) (sound_advance hc hp hfirst) hrest

/-- A compilation and the same one without a past end related. -/
theorem related_run (hmessages : NoCollision messages) (hc : c.Grounded messages databases)
    (hfresh : c.Fresh c') (hhashed : c.hashed ⊆ messages) : Related c.run c'.run := by
  have hempty : Related {} {} := ⟨rfl, fun _ _ => rfl⟩
  have hrun := related_foldl hmessages hc hfresh hempty sound_empty hhashed
  unfold run
  rw [hfresh.graph]
  exact hrun

end Compilation

/-! ## Fresh workspaces -/

namespace Workspace

/-- The workspace with the same sources in which nothing has been compiled. -/
def fresh (w : Workspace) : Workspace := { w with snapshot := {}, compilations := 0 }

/-- Is the action a compilation? -/
def isCompile : Action → Bool
  | .compile => true
  | _ => false

/-- Without its compilations a run leads to the fresh workspace. -/
theorem run_edits (model : ObjectModel) (settings : ResolutionSettings) (actions : List Action) :
    (new model settings).run (actions.filter fun action => !isCompile action) =
      ((new model settings).run actions).fresh := by
  induction actions using List.reverseRecOn with
  | nil => rfl
  | append_singleton before action ih =>
    rw [List.filter_append, run_append, run_append, ih]
    generalize (new model settings).run before = w
    cases action with
    | compile => simp [isCompile, act, fresh]
    | _ => rfl

/-- The compilation of a fresh workspace has no past. -/
theorem compilation_fresh (w : Workspace) {built built' : BuiltStore}
    (hstore : built'.store = built.store) (hprint : built'.fingerprint = built.fingerprint) :
    (w.compilation built).Fresh (w.fresh.compilation built') where
  environment := by
    unfold compilation fresh
    simp only [hstore]
  graph := rfl
  sources := rfl
  print := hprint
  previous name := OrderedMap.find?_empty name

/-- A store that is rejected is rejected by a fresh workspace, with the same failure; one that is built
is built by a fresh workspace. -/
theorem store_buildStore_fresh {w : Workspace} {messages : List (List UInt8)}
    (hmessages : NoCollision messages) (hw : w.snapshot.Sound messages w.model w.settings)
    (hhashed : w.hashed ⊆ messages) :
    w.fresh.buildStore.map (·.store) = w.buildStore.map (·.store) := by
  rw [map_store_buildStore hmessages hw hhashed]
  unfold buildStore
  simp only [fresh, reduceCtorEq, if_false]
  cases Store.build w.settings w.databases.values <;> rfl

/-- A unit that did not fail has a state exactly when it is among the sources. -/
theorem isSome_unit?_iff {w : Workspace} (hw : w.Keyed) {built : BuiltStore} {name : String}
    (hname : ∀ failure, ⟨name, failure⟩ ∉ (w.compilation built).run.failures) :
    ((w.compilation built).run.unit? name).isSome ↔ (w.mappings.find? name).isSome := by
  have hregular := hw.regular built
  cases hsource : w.mappings.find? name with
  | none =>
    have hnone := (Compilation.run_of_absent hregular hsource).1
    simp [Progress.unit?, hnone]
  | some source =>
    rcases Compilation.exists_entry_of_not_failed hregular hsource hname with ⟨entry, -, hentry⟩
    simp [Progress.unit?, hentry]

/-- A workspace with a sound snapshot compiles like the fresh one. -/
theorem compile_fresh {w : Workspace} {messages : List (List UInt8)}
    (hmessages : NoCollision messages) (hkeyed : w.Keyed)
    (hw : w.snapshot.Sound messages w.model w.settings) (hhashed : w.hashed ⊆ messages) :
    (∃ failure, w.compile.2 = .rejected failure ∧ w.fresh.compile.2 = .rejected failure) ∨
    ∃ failures, w.compile.2 = .committed failures ∧ w.fresh.compile.2 = .committed failures ∧
      w.compile.1.snapshot.store = w.fresh.compile.1.snapshot.store ∧
      ∀ name, (∀ failure, ⟨name, failure⟩ ∉ failures) →
        w.compile.1.snapshot.unit? name = w.fresh.compile.1.snapshot.unit? name ∧
        ((w.compile.1.snapshot.unit? name).isSome ↔ (w.mappings.find? name).isSome) := by
  -- both have a store, and the same one, or neither has
  have hstore := store_buildStore_fresh hmessages hw hhashed
  cases hbuild : w.buildStore with
  | error failure =>
    cases hbuild' : w.fresh.buildStore with
    | ok built' =>
      rw [hbuild, hbuild'] at hstore
      cases hstore
    | error failure' =>
      rw [hbuild, hbuild'] at hstore
      obtain rfl := Except.error.inj hstore
      refine .inl ⟨failure', ?_, ?_⟩
      · rw [compile_of_buildStore_error hbuild]
      · rw [compile_of_buildStore_error hbuild']
  | ok built =>
    cases hbuild' : w.fresh.buildStore with
    | error failure' =>
      rw [hbuild, hbuild'] at hstore
      cases hstore
    | ok built' =>
      rw [hbuild, hbuild'] at hstore
      have hsame : built'.store = built.store := Except.ok.inj hstore
      have hprint : built'.fingerprint = built.fingerprint := by
        rw [fingerprint_of_buildStore hbuild, fingerprint_of_buildStore hbuild']
        rfl
      have hrelated := Compilation.related_run hmessages (grounded hmessages hw hhashed hbuild)
        (compilation_fresh w hsame hprint) (List.Subset.trans (hashed_subset hbuild) hhashed)
      rw [compile_of_buildStore hbuild, compile_of_buildStore hbuild']
      refine .inr ⟨_, rfl, by rw [hrelated.failures], hsame.symm, ?_⟩
      intro name hname
      exact ⟨hrelated.unit?_eq hname, isSome_unit?_iff hkeyed hname⟩

/-- Compiling at the end of a run answers what compiling the sources there for the first time
answers: the same store failure, or the same failures, the same store, and the same resolved unit
for every unit that did not fail. -/
theorem history_independence (model : ObjectModel) (settings : ResolutionSettings)
    (actions : List Action)
    (hmessages : NoCollision ((new model settings).hashedAlong (actions ++ [.compile]))) :
    let w := (new model settings).run actions
    (∃ failure, w.compile.2 = .rejected failure ∧ w.fresh.compile.2 = .rejected failure) ∨
    ∃ failures, w.compile.2 = .committed failures ∧ w.fresh.compile.2 = .committed failures ∧
      w.compile.1.snapshot.store = w.fresh.compile.1.snapshot.store ∧
      ∀ name, (∀ failure, ⟨name, failure⟩ ∉ failures) →
        w.compile.1.snapshot.unit? name = w.fresh.compile.1.snapshot.unit? name ∧
        ((w.compile.1.snapshot.unit? name).isSome ↔ (w.mappings.find? name).isSome) := by
  intro w
  rcases sound_before_compile hmessages with ⟨hsound, hhashed⟩
  exact compile_fresh hmessages (keyed_run model settings actions) hsound hhashed

/-- The unit `m` is compiled. -/
def compilingRun : List Action := [.upsertMapping { name := ⟨"m", {}⟩ }, .compile]

/-- When `m` is compiled once more, its state is kept, and is the one that a fresh workspace
resolves. -/
theorem history_independence_of_kept :
    ∃ unit,
      ((new (.ofDefinition {}) {}).run compilingRun).compile.1.snapshot.unit? "m" = some unit ∧
      ((new (.ofDefinition {}) {}).run compilingRun).fresh.compile.1.snapshot.unit? "m" =
        some unit := by
  have hmessages : NoCollision
      ((new (.ofDefinition {}) {}).hashedAlong (compilingRun ++ [.compile])) := by
    unfold NoCollision
    decide +kernel
  have hfresh : ((new (.ofDefinition {}) {}).run compilingRun).fresh.compile.2 = .committed [] := by
    decide +kernel
  have hpresent : (((new (.ofDefinition {}) {}).run compilingRun).mappings.find? "m").isSome := by
    decide +kernel
  have hanswer := history_independence (.ofDefinition {}) {} compilingRun hmessages
  generalize (new (.ofDefinition {}) {}).run compilingRun = w at hfresh hpresent hanswer ⊢
  rcases hanswer with ⟨failure, -, hrejected⟩ | ⟨failures, -, hcommitted, -, hunits⟩
  · rw [hfresh] at hrejected
    cases hrejected
  · rw [hfresh] at hcommitted
    obtain rfl : [] = failures := Outcome.committed.inj hcommitted
    rcases hunits "m" (by simp) with ⟨hsame, hsome⟩
    rcases Option.isSome_iff_exists.1 (hsome.2 hpresent) with ⟨unit, hunit⟩
    exact ⟨unit, hunit, hsame ▸ hunit⟩

end Workspace

end ObjectRelational
