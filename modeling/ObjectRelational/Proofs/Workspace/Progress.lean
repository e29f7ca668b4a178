import Mathlib.Data.List.Find
import ObjectRelational.Proofs.Mapping.Resolution
import ObjectRelational.Workspace.Compile

/-!
# The units of one compilation

A compilation goes through the units in their order, and every unit is compiled from what stands there
when its turn comes. Since a unit with sound includes comes behind all of them, it may as well be
compiled from what stands there at the end.

* `Compilation.upTo` is what stands there after some units.
* `Compilation.Regular`: the graph is that of the sources, which are kept under their names.
* `run_find?`, `mem_failures_run_iff`: a run is a fixed point of `compileUnit`, which says of every unit
  how it ends.
* `find?_upTo`, `hasFailed_upTo_iff`: what is known of a unit once its turn is over.
-/

namespace ObjectRelational

/-! ## Failures -/

theorem Progress.hasFailed_iff {p : Progress} {name : String} :
    p.hasFailed name = true ↔ ∃ failure, ⟨name, failure⟩ ∈ p.failures := by
  unfold hasFailed
  rw [List.any_eq_true]
  constructor
  · rintro ⟨⟨unit, failure⟩, hmem, hunit⟩
    have hunit' : unit = name := by simpa using hunit
    exact ⟨failure, hunit' ▸ hmem⟩
  · rintro ⟨failure, hmem⟩
    exact ⟨_, hmem, by simp⟩

/-- The progresses have the same of some units: the same states, and the same ones failed. -/
def Progress.AgreeOn (p q : Progress) (names : List String) : Prop :=
  ∀ name ∈ names, p.entries.find? name = q.entries.find? name ∧
    p.hasFailed name = q.hasFailed name

namespace Compilation

variable {c : Compilation} {p q : Progress} {name : String} {source : Source.Mapping}

/-! ## One unit -/

theorem compileUnit_of_invalid {failure : Failure} (h : c.graph.validate source = .error failure) :
    c.compileUnit p source = .error failure := by
  unfold compileUnit
  rw [h]
  rfl

theorem compileUnit_of_blocker {i : Source.Include} (h : c.graph.validate source = .ok ())
    (hblocker : blocker? p source = some i) :
    c.compileUnit p source =
      .error ⟨.blockedByInclude source.name.value i.mapping.value, i.span⟩ := by
  unfold compileUnit
  rw [h, hblocker]
  rfl

theorem compileUnit_of_clear (h : c.graph.validate source = .ok ())
    (hblocker : blocker? p source = none) :
    c.compileUnit p source = c.freshOrUnchanged p source := by
  unfold compileUnit
  rw [h, hblocker]
  rfl

/-- A unit that compiles has sound includes, none of which has failed. -/
theorem clear_of_compileUnit_eq_ok {entry : Entry} (h : c.compileUnit p source = .ok entry) :
    c.graph.validate source = .ok () ∧ blocker? p source = none ∧
      c.freshOrUnchanged p source = .ok entry := by
  cases hvalid : c.graph.validate source with
  | error failure =>
    rw [compileUnit_of_invalid hvalid] at h
    cases h
  | ok _ =>
    cases hblocker : blocker? p source with
    | some i =>
      rw [compileUnit_of_blocker hvalid hblocker] at h
      cases h
    | none =>
      rw [compileUnit_of_clear hvalid hblocker] at h
      exact ⟨rfl, rfl, h⟩

theorem freshOrUnchanged_of_some {entry : Entry}
    (h : c.unchanged? source.name.value (Fingerprint.combine (c.dependencies p source)) =
      some entry) : c.freshOrUnchanged p source = .ok entry := by
  unfold freshOrUnchanged
  simp only [h]

theorem freshOrUnchanged_of_none
    (h : c.unchanged? source.name.value (Fingerprint.combine (c.dependencies p source)) = none) :
    c.freshOrUnchanged p source =
      (MappingUnit.resolve c.environment p.unit? source).map fun unit =>
        ⟨unit, c.revision, c.built.revision, Fingerprint.combine (c.dependencies p source)⟩ := by
  unfold freshOrUnchanged
  simp only [h]
  cases MappingUnit.resolve c.environment p.unit? source <;> rfl

/-- A state that is taken over has the fingerprint that is asked for, and is the one that the unit
had. -/
theorem unchanged?_eq_some_iff {fingerprint : String} {entry : Entry} :
    c.unchanged? name fingerprint = some entry ↔
      c.keepsStore = true ∧ c.previous.units.find? name = some entry ∧
        entry.fingerprint = fingerprint := by
  unfold unchanged?
  cases c.keepsStore <;> simp [Option.filter_eq_some_iff]

/-- A unit that comes to no state failed to resolve. -/
theorem resolve_of_freshOrUnchanged_eq_error {failure : Failure}
    (h : c.freshOrUnchanged p source = .error failure) :
    MappingUnit.resolve c.environment p.unit? source = .error failure := by
  cases hunchanged :
      c.unchanged? source.name.value (Fingerprint.combine (c.dependencies p source)) with
  | some entry =>
    rw [freshOrUnchanged_of_some hunchanged] at h
    cases h
  | none =>
    rw [freshOrUnchanged_of_none hunchanged] at h
    cases hresolve : MappingUnit.resolve c.environment p.unit? source with
    | error found =>
      rw [hresolve] at h
      exact congrArg Except.error (Except.error.inj h)
    | ok unit =>
      rw [hresolve] at h
      cases h

/-- A state bears the fingerprint of what the unit depends on. -/
theorem fingerprint_of_freshOrUnchanged {entry : Entry}
    (h : c.freshOrUnchanged p source = .ok entry) :
    entry.fingerprint = Fingerprint.combine (c.dependencies p source) := by
  cases hunchanged :
      c.unchanged? source.name.value (Fingerprint.combine (c.dependencies p source)) with
  | some old =>
    rw [freshOrUnchanged_of_some hunchanged] at h
    cases h
    exact (unchanged?_eq_some_iff.1 hunchanged).2.2
  | none =>
    rw [freshOrUnchanged_of_none hunchanged] at h
    cases hresolve : MappingUnit.resolve c.environment p.unit? source with
    | error failure =>
      rw [hresolve] at h
      cases h
    | ok unit =>
      rw [hresolve] at h
      cases h
      rfl

/-! ## What a unit reads of the others -/

/-- No include of a unit that is not blocked has failed. -/
theorem not_failed_of_blocker? (h : blocker? p source = none) :
    ∀ name ∈ source.targets, ∀ failure, ⟨name, failure⟩ ∉ p.failures := by
  intro name hname failure hmem
  rcases List.mem_map.1 hname with ⟨i, hi, rfl⟩
  unfold blocker? at h
  exact List.find?_eq_none.1 h i hi (Progress.hasFailed_iff.2 ⟨failure, hmem⟩)

theorem blocker?_congr (h : p.AgreeOn q source.targets) :
    blocker? p source = blocker? q source := by
  unfold blocker?
  apply List.find?_congr
  intro i hi
  exact (h _ (List.mem_map.2 ⟨i, hi, rfl⟩)).2

theorem dependencies_congr (h : p.AgreeOn q source.targets) :
    c.dependencies p source = c.dependencies q source := by
  unfold dependencies
  congr 2
  apply List.filterMap_congr
  intro i hi
  rw [(h _ (List.mem_map.2 ⟨i, hi, rfl⟩)).1]

theorem unit?_congr (h : p.AgreeOn q source.targets) :
    ∀ name ∈ source.targets, p.unit? name = q.unit? name := by
  intro name hname
  unfold Progress.unit?
  rw [(h name hname).1]

/-- Of the units that are compiled already, a unit reads those that it includes. -/
theorem compileUnit_congr (h : p.AgreeOn q source.targets) :
    c.compileUnit p source = c.compileUnit q source := by
  unfold compileUnit freshOrUnchanged
  rw [blocker?_congr h, dependencies_congr h, MappingUnit.resolve_congr (unit?_congr h)]

/-! ## One step -/

theorem advance_of_absent (h : c.sources.find? name = none) : c.advance p name = p := by
  unfold advance
  rw [h]

theorem advance_of_ok (hsource : c.sources.find? name = some source) {entry : Entry}
    (h : c.compileUnit p source = .ok entry) :
    c.advance p name = { p with entries := p.entries.insert name entry } := by
  unfold advance
  simp only [hsource, h]

theorem advance_of_error (hsource : c.sources.find? name = some source) {failure : Failure}
    (h : c.compileUnit p source = .error failure) :
    c.advance p name =
      { entries := c.retain p.entries name, failures := p.failures ++ [⟨name, failure⟩] } := by
  unfold advance
  simp only [hsource, h]

/-- A unit that fails keeps the state that it had. -/
theorem find?_retain {entries : OrderedMap String Entry} {other : String} :
    (c.retain entries name).find? other =
      if other = name then (c.previous.units.find? name).or (entries.find? name)
      else entries.find? other := by
  unfold retain
  cases c.previous.units.find? name with
  | none =>
    by_cases h : other = name <;> simp [h]
  | some entry => simp

/-- A step changes nothing about any other unit. -/
theorem advance_other {other : String} (hother : other ≠ name) :
    (c.advance p name).entries.find? other = p.entries.find? other ∧
      ∀ failure, ⟨other, failure⟩ ∈ (c.advance p name).failures ↔
        ⟨other, failure⟩ ∈ p.failures := by
  cases hsource : c.sources.find? name with
  | none =>
    rw [advance_of_absent hsource]
    exact ⟨rfl, fun _ => Iff.rfl⟩
  | some source =>
    cases h : c.compileUnit p source with
    | ok entry =>
      rw [advance_of_ok hsource h]
      simp [hother]
    | error failure =>
      rw [advance_of_error hsource h]
      simp [find?_retain, hother]

/-- Steps change nothing about the units whose turn it is not. -/
theorem foldl_advance_other {order : List String} (hname : name ∉ order) :
    (order.foldl c.advance p).entries.find? name = p.entries.find? name ∧
      ∀ failure, ⟨name, failure⟩ ∈ (order.foldl c.advance p).failures ↔
        ⟨name, failure⟩ ∈ p.failures := by
  induction order generalizing p with
  | nil => exact ⟨rfl, fun _ => Iff.rfl⟩
  | cons first rest ih =>
    simp only [List.mem_cons, not_or] at hname
    rcases hname with ⟨hfirst, hrest⟩
    rcases ih (p := c.advance p first) hrest with ⟨hentry, hfailure⟩
    rcases advance_other (c := c) (p := p) hfirst with ⟨hentry', hfailure'⟩
    exact ⟨hentry.trans hentry', fun failure => (hfailure failure).trans (hfailure' failure)⟩

/-! ## The turn of a unit -/

/-- What stands there when the units of a list have had their turns. -/
def upTo (c : Compilation) (done : List String) : Progress := done.foldl c.advance {}

theorem run_eq_upTo (c : Compilation) : c.run = c.upTo c.graph.compileOrder := rfl

theorem upTo_append (c : Compilation) (done rest : List String) :
    c.upTo (done ++ rest) = rest.foldl c.advance (c.upTo done) := by
  simp [upTo, List.foldl_append]

/-- Before its turn a unit has neither a state nor a failure. -/
theorem upTo_of_not_mem {done : List String} (h : name ∉ done) :
    (c.upTo done).entries.find? name = none ∧
      ∀ failure, ⟨name, failure⟩ ∉ (c.upTo done).failures := by
  rcases foldl_advance_other (c := c) (p := {}) h with ⟨hentry, hfailure⟩
  refine ⟨hentry.trans (OrderedMap.find?_empty name), ?_⟩
  intro failure hmem
  simpa using (hfailure failure).1 hmem

/-- A unit that compiles has its new state from then on, and no failure. -/
theorem upTo_of_ok {done rest : List String} (hnodup : (done ++ name :: rest).Nodup)
    (hsource : c.sources.find? name = some source) {entry : Entry}
    (h : c.compileUnit (c.upTo done) source = .ok entry) :
    (c.upTo (done ++ name :: rest)).entries.find? name = some entry ∧
      ∀ failure, ⟨name, failure⟩ ∉ (c.upTo (done ++ name :: rest)).failures := by
  rcases List.nodup_append.1 hnodup with ⟨-, htail, hdisjoint⟩
  have hdone : name ∉ done := fun hmem => hdisjoint name hmem name List.mem_cons_self rfl
  have hrest : name ∉ rest := (List.nodup_cons.1 htail).1
  rw [upTo_append, List.foldl_cons, advance_of_ok hsource h]
  obtain ⟨hentry, hfailure⟩ := foldl_advance_other (c := c)
    (p := { c.upTo done with entries := (c.upTo done).entries.insert name entry }) hrest
  refine ⟨hentry.trans (by simp), ?_⟩
  intro failure hmem
  exact (upTo_of_not_mem hdone).2 failure ((hfailure failure).1 hmem)

/-- A unit that fails has the state it had before from then on, and its failure. -/
theorem upTo_of_error {done rest : List String} (hnodup : (done ++ name :: rest).Nodup)
    (hsource : c.sources.find? name = some source) {failure : Failure}
    (h : c.compileUnit (c.upTo done) source = .error failure) :
    (c.upTo (done ++ name :: rest)).entries.find? name = c.previous.units.find? name ∧
      ∀ other, ⟨name, other⟩ ∈ (c.upTo (done ++ name :: rest)).failures ↔ other = failure := by
  rcases List.nodup_append.1 hnodup with ⟨-, htail, hdisjoint⟩
  have hdone : name ∉ done := fun hmem => hdisjoint name hmem name List.mem_cons_self rfl
  have hrest : name ∉ rest := (List.nodup_cons.1 htail).1
  rcases upTo_of_not_mem (c := c) hdone with ⟨hnone, hclear⟩
  rw [upTo_append, List.foldl_cons, advance_of_error hsource h]
  obtain ⟨hentry, hfailure⟩ := foldl_advance_other (c := c)
    (p := ⟨c.retain (c.upTo done).entries name,
      (c.upTo done).failures ++ [⟨name, failure⟩]⟩) hrest
  refine ⟨hentry.trans ?_, ?_⟩
  · simp [find?_retain, hnone]
  · intro other
    rw [hfailure]
    simp [hclear other]

/-! ## The run as a fixed point -/

/-- The graph is that of the sources, and these are kept under their names. -/
structure Regular (c : Compilation) : Prop where
  graph_eq : c.graph = .ofUnits c.sources.values
  keyed : ∀ name source, c.sources.find? name = some source → source.name.value = name

namespace Regular

theorem mem_names_iff (hc : c.Regular) :
    name ∈ c.graph.names ↔ ∃ source, c.sources.find? name = some source := by
  rw [hc.graph_eq, IncludeGraph.mem_names_ofUnits]
  constructor
  · rintro ⟨source, hmem, rfl⟩
    rcases OrderedMap.mem_values_iff.1 hmem with ⟨key, hkey⟩
    exact ⟨source, hc.keyed key source hkey ▸ hkey⟩
  · rintro ⟨source, hsource⟩
    exact ⟨source, OrderedMap.mem_values_iff.2 ⟨name, hsource⟩, hc.keyed name source hsource⟩

theorem mem_order_iff (hc : c.Regular) :
    name ∈ c.graph.compileOrder ↔ ∃ source, c.sources.find? name = some source := by
  rw [← hc.mem_names_iff, hc.graph_eq, IncludeGraph.mem_compileOrder_iff]

theorem order_nodup (hc : c.Regular) : c.graph.compileOrder.Nodup := by
  rw [hc.graph_eq]
  exact IncludeGraph.compileOrder_nodup _

/-- One include is one step through the graph. -/
theorem mem_inOrder_iff (hc : c.Regular) (hsource : c.sources.find? name = some source)
    {other : String} :
    other ∈ c.graph.inOrder name ↔ other ∈ source.targets ∧ other ∈ c.graph.names := by
  rw [hc.graph_eq, IncludeGraph.mem_inOrder_ofUnits]
  apply and_congr_left
  intro _
  constructor
  · rintro ⟨unit, hunit, hname, hmem⟩
    rcases OrderedMap.mem_values_iff.1 hunit with ⟨key, hkey⟩
    rw [← hc.keyed key unit hkey, hname, hsource] at hkey
    rw [Option.some.inj hkey]
    exact hmem
  · intro hmem
    exact ⟨source, OrderedMap.mem_values_iff.2 ⟨name, hsource⟩, hc.keyed name source hsource,
      hmem⟩

/-- The graph lists the includes of a unit as the unit declares them. -/
theorem inOrder_eq (hc : c.Regular) (hsource : c.sources.find? name = some source) :
    c.graph.inOrder name = source.targets.filter (· ∈ c.graph.names) := by
  obtain rfl := hc.keyed name source hsource
  rw [hc.graph_eq]
  exact IncludeGraph.inOrder_ofUnits (OrderedMap.filter_values_eq_singleton hc.keyed hsource)

/-- A unit with sound includes comes behind each of them. -/
theorem precedes_of_validate (hc : c.Regular) (hsource : c.sources.find? name = some source)
    (hvalid : c.graph.validate source = .ok ()) {other : String} (hother : other ∈ source.targets) :
    Graph.Precedes c.graph.compileOrder other name := by
  have hname : source.name.value = name := hc.keyed name source hsource
  have hmem : name ∈ c.graph.names := hc.mem_names_iff.2 ⟨source, hsource⟩
  rcases List.mem_map.1 hother with ⟨i, hi, rfl⟩
  have hchecks := IncludeGraph.checkIncludes_eq_ok_iff.1
    (IncludeGraph.validate_eq_ok_iff.1 hvalid).1
  have hknown : i.mapping.value ∈ c.graph.names := (hchecks.1 i hi).2.1
  have hstep : i.mapping.value ∈ c.graph.inOrder name :=
    (hc.mem_inOrder_iff hsource).2 ⟨hother, hknown⟩
  rw [hc.graph_eq] at hvalid hmem hstep ⊢
  refine IncludeGraph.precedes_compileOrder hmem (Graph.Reaches.step hstep) ?_
  have hacyclic := IncludeGraph.not_reaches_of_validate (hname.symm ▸ hmem) hvalid
  rw [hname] at hacyclic
  exact hacyclic _ hstep

end Regular

/-- Nothing changes any more about a unit whose turn is over. -/
theorem agreeOn_of_done (hc : c.Regular) {done rest : List String}
    (horder : c.graph.compileOrder = done ++ rest) : (c.upTo done).AgreeOn c.run done := by
  intro other hother
  have hnodup := hc.order_nodup
  rw [horder] at hnodup
  rcases List.nodup_append.1 hnodup with ⟨-, -, hdisjoint⟩
  have hrest : other ∉ rest := fun hmem => hdisjoint other hother other hmem rfl
  rw [run_eq_upTo, horder, upTo_append]
  rcases foldl_advance_other (c := c) (p := c.upTo done) hrest with ⟨hentry, hfailure⟩
  refine ⟨hentry.symm, ?_⟩
  rw [Bool.eq_iff_iff, Progress.hasFailed_iff, Progress.hasFailed_iff]
  simp only [hfailure]

/-- When the turn of a unit with sound includes comes, all that it includes is there to stay. -/
theorem agreeOn_targets (hc : c.Regular) {done rest : List String}
    (horder : c.graph.compileOrder = done ++ name :: rest)
    (hsource : c.sources.find? name = some source) (hvalid : c.graph.validate source = .ok ()) :
    (c.upTo done).AgreeOn c.run source.targets := by
  intro other hother
  have hprecedes := hc.precedes_of_validate hsource hvalid hother
  exact agreeOn_of_done hc horder other (hprecedes.mem_front hc.order_nodup horder)

/-- A unit may as well be compiled from what stands there at the end. -/
theorem compileUnit_upTo (hc : c.Regular) {done rest : List String}
    (horder : c.graph.compileOrder = done ++ name :: rest)
    (hsource : c.sources.find? name = some source) :
    c.compileUnit (c.upTo done) source = c.compileUnit c.run source := by
  cases hvalid : c.graph.validate source with
  | error failure => rw [compileUnit_of_invalid hvalid, compileUnit_of_invalid hvalid]
  | ok _ => exact compileUnit_congr (agreeOn_targets hc horder hsource hvalid)

/-- At the end a unit has the state that it was compiled to, or the one that it had before. -/
theorem run_find? (hc : c.Regular) (hsource : c.sources.find? name = some source) :
    c.run.entries.find? name = match c.compileUnit c.run source with
      | .ok entry => some entry
      | .error _ => c.previous.units.find? name := by
  -- what the unit comes to when its turn comes stays until the end
  rcases List.append_of_mem (hc.mem_order_iff.2 ⟨source, hsource⟩) with ⟨done, rest, horder⟩
  have hnodup := hc.order_nodup
  rw [← compileUnit_upTo hc horder hsource, run_eq_upTo]
  rw [horder] at hnodup ⊢
  cases h : c.compileUnit (c.upTo done) source with
  | ok entry => exact (upTo_of_ok hnodup hsource h).1
  | error failure => exact (upTo_of_error hnodup hsource h).1

/-- A unit is reported with the failure that it ended with. -/
theorem mem_failures_run_iff (hc : c.Regular) (hsource : c.sources.find? name = some source)
    {failure : Failure} :
    ⟨name, failure⟩ ∈ c.run.failures ↔ c.compileUnit c.run source = .error failure := by
  rcases List.append_of_mem (hc.mem_order_iff.2 ⟨source, hsource⟩) with ⟨done, rest, horder⟩
  have hnodup := hc.order_nodup
  rw [← compileUnit_upTo hc horder hsource, run_eq_upTo]
  rw [horder] at hnodup ⊢
  cases h : c.compileUnit (c.upTo done) source with
  | ok entry => simp [(upTo_of_ok hnodup hsource h).2 failure]
  | error found =>
    rw [(upTo_of_error hnodup hsource h).2 failure]
    simp [eq_comm]

/-- A unit that did not fail compiled, and has the state that it compiled to. -/
theorem exists_entry_of_not_failed (hc : c.Regular) (hsource : c.sources.find? name = some source)
    (h : ∀ failure, ⟨name, failure⟩ ∉ c.run.failures) :
    ∃ entry, c.compileUnit c.run source = .ok entry ∧
      c.run.entries.find? name = some entry := by
  have hentry := run_find? hc hsource
  cases hcompile : c.compileUnit c.run source with
  | ok entry =>
    rw [hcompile] at hentry
    exact ⟨entry, rfl, hentry⟩
  | error failure => exact absurd ((mem_failures_run_iff hc hsource).2 hcompile) (h failure)

/-- What is not among the sources has neither a state nor a failure. -/
theorem run_of_absent (hc : c.Regular) (h : c.sources.find? name = none) :
    c.run.entries.find? name = none ∧ ∀ failure, ⟨name, failure⟩ ∉ c.run.failures := by
  apply upTo_of_not_mem
  rw [hc.mem_order_iff, h]
  simp

end Compilation

end ObjectRelational
