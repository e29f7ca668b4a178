import ObjectRelational.Proofs.Mapping.Faults
import ObjectRelational.Proofs.Workspace.Run

/-!
# How failures spread

A unit that fails keeps those that include it, directly or not, from compiling. A unit that does not
fail has compiled behind all that its includes lead to, and from the states that the snapshot has of
them.

* `FirstFailed` is the include that a blocked unit names.
* `Compilation.Clears`: the turn of a unit comes and nothing stands in its way; only then is it
  resolved, unless it has not changed.
* `precedes_of_not_failed`: what a unit that did not fail includes, directly or not.
* `Clears.states`: what a unit that is resolved reads. `Clears.offGraph`: it finds all of it.
* `firstFailed_of_blocked`: what a blocked unit reports.
-/

namespace ObjectRelational

/-- The include is the first one of the unit, in the order of their declaration, that has failed. -/
def FirstFailed (failures : List UnitFailure) (source : Source.Mapping) (i : Source.Include) :
    Prop :=
  (∃ failure, ⟨i.mapping.value, failure⟩ ∈ failures) ∧
    ∃ front back, source.includes = front ++ i :: back ∧
      ∀ j ∈ front, ∀ failure, ⟨j.mapping.value, failure⟩ ∉ failures

namespace Compilation

variable {c : Compilation} {p : Progress} {name : String} {source : Source.Mapping}

theorem firstFailed_of_blocker? {i : Source.Include} (h : blocker? p source = some i) :
    FirstFailed p.failures source i := by
  unfold blocker? at h
  rcases List.find?_eq_some_iff_append.1 h with ⟨hfailed, front, back, hsplit, hfront⟩
  refine ⟨Progress.hasFailed_iff.1 hfailed, front, back, hsplit, ?_⟩
  intro j hj failure hmem
  have hclear := hfront j hj
  rw [Progress.hasFailed_iff.2 ⟨failure, hmem⟩] at hclear
  cases hclear

/-! ## Along the includes of a unit that did not fail -/

/-- What a unit that did not fail includes is there, comes before it and did not fail. -/
theorem precedes_of_includes (hc : c.Regular) {other : String}
    (hname : ∀ failure, ⟨name, failure⟩ ∉ c.run.failures) (h : Includes c.sources name other) :
    (∃ source, c.sources.find? other = some source) ∧
      Graph.Precedes c.graph.compileOrder other name ∧
        ∀ failure, ⟨other, failure⟩ ∉ c.run.failures := by
  rcases h with ⟨source, hsource, hother⟩
  -- a unit that compiled passed both the checks of the graph and that for blockers
  rcases exists_entry_of_not_failed hc hsource hname with ⟨entry, hcompile, -⟩
  rcases clear_of_compileUnit_eq_ok hcompile with ⟨hvalid, hblocker, -⟩
  have hprecedes := hc.precedes_of_validate hsource hvalid hother
  exact ⟨hc.mem_order_iff.1 hprecedes.mem_left, hprecedes,
    not_failed_of_blocker? hblocker other hother⟩

/-- So is everything that its includes lead to. -/
theorem precedes_of_not_failed (hc : c.Regular) {other : String}
    (hname : ∀ failure, ⟨name, failure⟩ ∉ c.run.failures)
    (h : Relation.TransGen (Includes c.sources) name other) :
    (∃ source, c.sources.find? other = some source) ∧
      Graph.Precedes c.graph.compileOrder other name ∧
        ∀ failure, ⟨other, failure⟩ ∉ c.run.failures := by
  induction h with
  | single hinclude => exact precedes_of_includes hc hname hinclude
  | tail _ hinclude ih =>
    rcases ih with ⟨-, hprecedes, hclear⟩
    rcases precedes_of_includes hc hclear hinclude with ⟨hsource, hnext, hclear'⟩
    exact ⟨hsource, hnext.trans hprecedes hc.order_nodup, hclear'⟩

/-! ## What is read when a unit is resolved -/

/-- The turn of a unit comes behind those that are done, its includes are sound, and none of them has
failed. -/
structure Clears (c : Compilation) (done : List String) (name : String) (source : Source.Mapping) :
    Prop where
  turn : ∃ rest, c.graph.compileOrder = done ++ name :: rest
  found : c.sources.find? name = some source
  valid : c.graph.validate source = .ok ()
  unblocked : blocker? (c.upTo done) source = none

namespace Clears

variable {done : List String}

/-- All that such a unit includes has a state, which is the one that it has at the end. -/
theorem states (hc : c.Regular) (h : c.Clears done name source) :
    ∀ target ∈ source.targets, ∃ entry, (c.upTo done).entries.find? target = some entry ∧
      c.run.entries.find? target = some entry := by
  intro target htarget
  rcases h.turn with ⟨rest, horder⟩
  -- nothing changes any more about what it includes
  have hagree := agreeOn_targets hc horder h.found h.valid
  have hblocker : blocker? c.run source = none := by rw [← blocker?_congr hagree, h.unblocked]
  have hprecedes := hc.precedes_of_validate h.found h.valid htarget
  rcases hc.mem_order_iff.1 hprecedes.mem_left with ⟨included, hincluded⟩
  obtain ⟨entry, -, hentry⟩ := exists_entry_of_not_failed hc hincluded
    (not_failed_of_blocker? hblocker target htarget)
  exact ⟨entry, (hagree target htarget).1.trans hentry, hentry⟩

/-- If it is resolved, it finds all that it includes. -/
theorem offGraph (hc : c.Regular) (h : c.Clears done name source) :
    OffGraph (MappingUnit.resolve c.environment (c.upTo done).unit? source) := by
  apply MappingUnit.offGraph_resolve
  intro i hi
  rcases h.states hc _ (List.mem_map.2 ⟨i, hi, rfl⟩) with ⟨entry, hentry, -⟩
  simp [Progress.unit?, hentry]

end Clears

/-! ## Blocked units -/

/-- A unit that is reported as blocked names the first of its includes that failed. -/
theorem firstFailed_of_blocked (hc : c.Regular) {mapping included : String} {span : Span}
    (h : ⟨name, .blockedByInclude mapping included, span⟩ ∈ c.run.failures) :
    mapping = name ∧ ∃ source i, c.sources.find? name = some source ∧
      i.mapping.value = included ∧ i.span = span ∧ FirstFailed c.run.failures source i := by
  cases hsource : c.sources.find? name with
  | none => exact absurd h ((run_of_absent hc hsource).2 _)
  | some source =>
    rcases List.append_of_mem (hc.mem_order_iff.2 ⟨source, hsource⟩) with ⟨done, rest, horder⟩
    have hcompile := (mem_failures_run_iff hc hsource).1 h
    cases hvalid : c.graph.validate source with
    | error failure =>
      -- the checks of the graph do not report units as blocked
      rw [compileUnit_of_invalid hvalid] at hcompile
      cases hcompile
      exact absurd rfl (IncludeGraph.not_blocked_of_validate hvalid mapping included)
    | ok _ =>
      cases hblocker : blocker? c.run source with
      | some i =>
        rw [compileUnit_of_blocker hvalid hblocker] at hcompile
        cases hcompile
        exact ⟨hc.keyed name source hsource, source, i, rfl, rfl, rfl,
          firstFailed_of_blocker? hblocker⟩
      | none =>
        -- nor does resolving, whose states are those that the unit finds when its turn comes
        have hagree := agreeOn_targets hc horder hsource hvalid
        have hclears : c.Clears done name source :=
          ⟨⟨rest, horder⟩, hsource, hvalid, by rw [blocker?_congr hagree, hblocker]⟩
        have hresolve := hclears.offGraph hc
        rw [MappingUnit.resolve_congr (unit?_congr hagree)] at hresolve
        rw [compileUnit_of_clear hvalid hblocker] at hcompile
        have hgraph := hresolve _ (resolve_of_freshOrUnchanged_eq_error hcompile)
        cases hgraph

end Compilation

/-! ## Along runs -/

namespace Workspace

/-- When a compilation commits, all that a unit that did not fail leads to is there, comes before it
and did not fail; a unit that is blocked names the first of its includes that failed; and a unit that
is resolved reads the states that the snapshot gets, and finds all that it includes. -/
theorem failures_propagate (model : ObjectModel) (settings : ResolutionSettings)
    (actions : List Action) (failures : List UnitFailure)
    (hcommitted : ((new model settings).run actions).compile.2 = .committed failures) :
    let w := (new model settings).run actions
    (∀ u v, (∀ failure, ⟨u, failure⟩ ∉ failures) → Relation.TransGen (Includes w.mappings) u v →
      (∃ source, w.mappings.find? v = some source) ∧
        Graph.Precedes (IncludeGraph.ofUnits w.mappings.values).compileOrder v u ∧
          ∀ failure, ⟨v, failure⟩ ∉ failures) ∧
    (∀ u mapping included span, ⟨u, .blockedByInclude mapping included, span⟩ ∈ failures →
      mapping = u ∧ ∃ source i, w.mappings.find? u = some source ∧
        i.mapping.value = included ∧ i.span = span ∧ FirstFailed failures source i) ∧
    ∃ built, w.buildStore = .ok built ∧
      ∀ done u source, (w.compilation built).Clears done u source →
        (∀ target ∈ source.targets, ∃ entry,
          ((w.compilation built).upTo done).entries.find? target = some entry ∧
            w.compile.1.snapshot.units.find? target = some entry) ∧
        OffGraph (MappingUnit.resolve (w.compilation built).environment
          ((w.compilation built).upTo done).unit? source) := by
  intro w
  rcases buildStore_of_committed hcommitted with ⟨built, hbuild, rfl⟩
  have hregular := (keyed_run model settings actions).regular built
  refine ⟨?_, ?_, built, hbuild, ?_⟩
  · intro u v hclear hpath
    exact Compilation.precedes_of_not_failed hregular hclear hpath
  · intro u mapping included span hblocked
    exact Compilation.firstFailed_of_blocked hregular hblocked
  · intro done u source hclears
    rw [snapshot_of_buildStore hbuild]
    exact ⟨hclears.states hregular, hclears.offGraph hregular⟩

/-- The unit `a` includes `b`, which includes a unit that is missing; `d` includes `e`. -/
def blockingRun : List Action :=
  [.upsertMapping { name := ⟨"a", {}⟩, includes := [{ mapping := ⟨"b", {}⟩ }] },
    .upsertMapping { name := ⟨"b", {}⟩, includes := [{ mapping := ⟨"c", {}⟩ }] },
    .upsertMapping { name := ⟨"d", {}⟩, includes := [{ mapping := ⟨"e", {}⟩ }] },
    .upsertMapping { name := ⟨"e", {}⟩ }]

/-- When these are compiled, `a` is blocked by `b`, and `e` comes before `d`. -/
theorem failures_propagate_of_blocking :
    let w := (new (.ofDefinition {}) {}).run blockingRun
    let failures : List UnitFailure :=
      [⟨"b", .unknownMapping "c" "b", {}⟩, ⟨"a", .blockedByInclude "a" "b", {}⟩]
    w.compile.2 = .committed failures ∧
      Graph.Precedes (IncludeGraph.ofUnits w.mappings.values).compileOrder "e" "d" ∧
      ∃ source i, w.mappings.find? "a" = some source ∧ i.mapping.value = "b" ∧
        FirstFailed failures source i := by
  intro w failures
  have hcommitted : w.compile.2 = .committed failures := by decide +kernel
  have hsource : w.mappings.find? "d" =
      some { name := ⟨"d", {}⟩, includes := [{ mapping := ⟨"e", {}⟩ }] } := by rfl
  rcases failures_propagate _ _ blockingRun failures hcommitted with ⟨hspread, hblocked, -⟩
  rcases hblocked "a" "a" "b" {} (by simp [failures]) with
    ⟨-, source, i, hfound, hincluded, -, hfirst⟩
  have hinclude : Includes w.mappings "d" "e" := ⟨_, hsource, List.mem_singleton.2 rfl⟩
  refine ⟨hcommitted, ?_, source, i, hfound, hincluded, hfirst⟩
  exact (hspread "d" "e" (by simp [failures]) (.single hinclude)).2.1

end Workspace

end ObjectRelational
