import ObjectRelational.Mapping.IncludeGraph
import ObjectRelational.Proofs.Graph.Components
import ObjectRelational.Proofs.Graph.Cycle
import ObjectRelational.Proofs.Lookup
import ObjectRelational.Proofs.OrderedMap

/-!
# The order of compilation

The two ways in which the graph lists the includes of a unit have the same members, so they reach the
same units. Units are compiled behind what they include, and a unit with sound includes lies on no
cycle.

* `Includes` is one include between units, by name.
* `mem_names_ofUnits`, `mem_inOrder_ofUnits`: the graph of a list of units.
* `mem_compileOrder_iff`, `compileOrder_nodup`, `precedes_compileOrder`: every unit is compiled once,
  and behind all it includes unless that includes it back.
* `checkIncludes_eq_ok_iff`, `not_reaches_of_validate`: what sound includes are.
-/

namespace ObjectRelational

/-- The names of the units that a unit includes. -/
def Source.Mapping.targets (source : Source.Mapping) : List String :=
  source.includes.map fun i => i.mapping.value

/-- One unit includes another, by name. -/
def Includes (sources : OrderedMap String Source.Mapping) (a b : String) : Prop :=
  ∃ source, sources.find? a = some source ∧ b ∈ source.targets

namespace IncludeGraph

open ObjectRelational.Graph

/-! ## The graph of a list of units -/

theorem names_ofUnits (units : List Source.Mapping) :
    (ofUnits units).names = (units.map fun u => u.name.value).eraseDups := by
  simp [names, ofUnits, Function.comp_def]

theorem mem_names_ofUnits {units : List Source.Mapping} {name : String} :
    name ∈ (ofUnits units).names ↔ ∃ u ∈ units, u.name.value = name := by
  rw [names_ofUnits, List.mem_eraseDups, List.mem_map]

theorem names_ofUnits_nodup (units : List Source.Mapping) : (ofUnits units).names.Nodup := by
  rw [names_ofUnits]
  exact nodup_eraseDups _

theorem contains_iff {g : IncludeGraph} {name : String} :
    g.contains name = true ↔ name ∈ g.names := by
  unfold contains names
  rw [List.lookup_isSome_iff, List.mem_map]
  simp only [beq_iff_eq]
  constructor
  · rintro ⟨e, he, h⟩
    exact ⟨e, he, h.symm⟩
  · rintro ⟨e, he, h⟩
    exact ⟨e, he, h.symm⟩

theorem edges_ofUnits {units : List Source.Mapping} {name : String}
    (h : name ∈ (ofUnits units).names) :
    (ofUnits units).edges name =
      (units.filter fun u => u.name.value = name).flatMap (edgesOf (ofUnits units).names) := by
  have hmem : name ∈ (units.map fun u => u.name.value).eraseDups := names_ofUnits units ▸ h
  unfold edges
  rw [names_ofUnits]
  unfold ofUnits
  simp only
  rw [List.lookup_graph (fun name => (units.filter fun u => u.name.value = name).flatMap
    (edgesOf (units.map fun u => u.name.value).eraseDups)) hmem]
  rfl

theorem edges_ofUnits_of_not_mem {units : List Source.Mapping} {name : String}
    (h : name ∉ (ofUnits units).names) : (ofUnits units).edges name = [] := by
  have hcontains : (ofUnits units).contains name = false := by
    rw [← contains_iff] at h
    simpa using h
  unfold edges
  unfold contains at hcontains
  rw [Option.isSome_eq_false_iff, Option.isNone_iff_eq_none] at hcontains
  rw [hcontains]
  rfl

/-- The targets of the edges of a unit, in the order of its includes. -/
theorem map_target_edgesOf (names : List String) (u : Source.Mapping) :
    (edgesOf names u).map (·.target) = u.targets.filter (· ∈ names) := by
  have h : ∀ (l : List Source.Include) (n : Nat),
      ((((l.zipIdx n).map fun i => (⟨i.2, i.1.mapping.value⟩ : IncludeEdge)).filter
          fun e => e.target ∈ names).map (·.target)) =
        (l.map fun i => i.mapping.value).filter (· ∈ names) := by
    intro l
    induction l with
    | nil => simp
    | cons i rest ih =>
      intro n
      simp only [List.zipIdx_cons, List.map_cons, List.filter_cons]
      by_cases hi : i.mapping.value ∈ names
      · simp only [hi, decide_true, if_true, List.map_cons, ih]
      · simp only [hi, decide_false, Bool.false_eq_true, if_false, ih]
  exact h u.includes 0

/-- The edges of a unit stand in the order of their places. -/
theorem edgesOf_pairwise (names : List String) (u : Source.Mapping) :
    (edgesOf names u).Pairwise fun a b => a.index < b.index := by
  unfold edgesOf
  apply List.Pairwise.filter
  rw [List.pairwise_map]
  have h : (u.includes.zipIdx.map Prod.snd).Pairwise (· < ·) := by
    rw [List.zipIdx_map_snd]
    exact List.pairwise_lt_range'
  exact List.pairwise_map.1 h

theorem mem_map_target_edges_ofUnits {units : List Source.Mapping} {a b : String} :
    b ∈ ((ofUnits units).edges a).map (·.target) ↔
      (∃ u ∈ units, u.name.value = a ∧ b ∈ u.targets) ∧ b ∈ (ofUnits units).names := by
  by_cases ha : a ∈ (ofUnits units).names
  · rw [edges_ofUnits ha, List.map_flatMap, List.mem_flatMap]
    simp only [map_target_edgesOf, List.mem_filter, decide_eq_true_eq]
    constructor
    · rintro ⟨u, ⟨hu, hname⟩, hb, hbnames⟩
      exact ⟨⟨u, hu, hname, hb⟩, hbnames⟩
    · rintro ⟨⟨u, hu, hname, hb⟩, hbnames⟩
      exact ⟨u, ⟨hu, hname⟩, hb, hbnames⟩
  · rw [edges_ofUnits_of_not_mem ha]
    simp only [List.map_nil, List.not_mem_nil, false_iff, not_and]
    rintro ⟨u, hu, hname, -⟩
    exact absurd (mem_names_ofUnits.2 ⟨u, hu, hname⟩) ha

theorem mem_latestFirst_ofUnits {units : List Source.Mapping} {a b : String} :
    b ∈ (ofUnits units).latestFirst a ↔
      (∃ u ∈ units, u.name.value = a ∧ b ∈ u.targets) ∧ b ∈ (ofUnits units).names := by
  rw [← mem_map_target_edges_ofUnits]
  unfold latestFirst
  rw [List.map_reverse, List.mem_reverse]

theorem mem_inOrder_ofUnits {units : List Source.Mapping} {a b : String} :
    b ∈ (ofUnits units).inOrder a ↔
      (∃ u ∈ units, u.name.value = a ∧ b ∈ u.targets) ∧ b ∈ (ofUnits units).names := by
  rw [← mem_map_target_edges_ofUnits]
  unfold inOrder
  simp only [List.mem_map, List.mem_mergeSort]

/-- A unit that shares its name with no other one lists its includes as it declares them. -/
theorem inOrder_ofUnits {units : List Source.Mapping} {u : Source.Mapping}
    (hu : units.filter (fun v => v.name.value = u.name.value) = [u]) :
    (ofUnits units).inOrder u.name.value =
      u.targets.filter (· ∈ (ofUnits units).names) := by
  have hmem : u ∈ units := (List.mem_filter.1 (hu ▸ List.mem_singleton.2 rfl)).1
  unfold inOrder
  rw [edges_ofUnits (mem_names_ofUnits.2 ⟨u, hmem, rfl⟩), hu]
  simp only [List.flatMap_cons, List.flatMap_nil, List.append_nil]
  rw [List.mergeSort_of_pairwise, map_target_edgesOf]
  refine (edgesOf_pairwise _ u).imp ?_
  intro a b hab
  simp [comesBefore, hab]

theorem closed_latestFirst (units : List Source.Mapping) :
    Closed (ofUnits units).latestFirst (ofUnits units).names :=
  fun _ _ _ hb => (mem_latestFirst_ofUnits.1 hb).2

theorem closed_inOrder (units : List Source.Mapping) :
    Closed (ofUnits units).inOrder (ofUnits units).names :=
  fun _ _ _ hb => (mem_inOrder_ofUnits.1 hb).2

/-- Both ways of listing the includes reach the same units. -/
theorem reaches_latestFirst_iff {units : List Source.Mapping} {a b : String} :
    Reaches (ofUnits units).latestFirst a b ↔ Reaches (ofUnits units).inOrder a b := by
  have hstep : Step (ofUnits units).latestFirst = Step (ofUnits units).inOrder := by
    funext a b
    unfold Step
    rw [mem_latestFirst_ofUnits, mem_inOrder_ofUnits]
  unfold Reaches
  rw [hstep]

/-! ## The order -/

/-- Every unit is compiled. -/
theorem mem_compileOrder_iff {units : List Source.Mapping} {name : String} :
    name ∈ (ofUnits units).compileOrder ↔ name ∈ (ofUnits units).names := by
  unfold compileOrder
  simp only [List.mem_flatMap, mem_components_iff (closed_latestFirst units),
    OrderedSet.mem_toList_ofList]
  constructor
  · rintro ⟨_, ⟨a, _, rfl⟩, hname⟩
    exact (List.mem_filter.1 hname).1
  · intro hname
    refine ⟨_, ⟨name, hname, rfl⟩, List.mem_filter.2 ⟨hname, ?_⟩⟩
    exact (connected_closures_iff (closed_latestFirst units)).2
      ⟨hname, hname, Connected.refl _ _⟩

/-- No unit is compiled twice. -/
theorem compileOrder_nodup (units : List Source.Mapping) :
    (ofUnits units).compileOrder.Nodup := by
  unfold compileOrder
  rw [List.nodup_flatMap]
  refine ⟨fun component _ => OrderedMap.keys_nodup _, ?_⟩
  refine (components_pairwise_disjoint (closed_latestFirst units)).imp ?_
  intro c c' hdisjoint a ha ha'
  exact hdisjoint (OrderedSet.mem_toList_ofList.1 ha) (OrderedSet.mem_toList_ofList.1 ha')

/-- A unit is compiled behind every unit that it reaches and that does not reach it. -/
theorem precedes_compileOrder {units : List Source.Mapping} {a b : String}
    (ha : a ∈ (ofUnits units).names) (hab : Reaches (ofUnits units).inOrder a b)
    (hba : ¬ Reaches (ofUnits units).inOrder b a) :
    Precedes (ofUnits units).compileOrder b a := by
  have hclosed := closed_latestFirst units
  have hb : b ∈ (ofUnits units).names := hab.mem_of_forall_step (closed_inOrder units) ha
  rw [← reaches_latestFirst_iff] at hab hba
  rcases precedes_components hclosed ha hab hba with ⟨front, back, hsplit, hmem⟩
  have hself : ∀ c, c ∈ (ofUnits units).names →
      c ∈ (OrderedSet.ofList ((ofUnits units).names.filter
        (connected (closures (ofUnits units).names (ofUnits units).latestFirst) c))).toList := by
    intro c hc
    rw [OrderedSet.mem_toList_ofList]
    exact List.mem_filter.2 ⟨hc, (connected_closures_iff hclosed).2 ⟨hc, hc, Connected.refl _ _⟩⟩
  unfold compileOrder
  rw [hsplit, List.flatMap_append]
  exact Precedes.of_mem (List.mem_flatMap.2 ⟨_, hmem, hself b hb⟩)
    (List.mem_flatMap.2 ⟨_, List.mem_cons_self, hself a ha⟩)

/-! ## Sound includes -/

/-- The check of the includes asks three things of each. -/
theorem checkIncludes_eq_ok_iff {g : IncludeGraph} {unit : String} {seen : List String}
    {includes : List Source.Include} :
    g.checkIncludes unit seen includes = .ok () ↔
      (∀ i ∈ includes, i.mapping.value ≠ unit ∧ i.mapping.value ∈ g.names ∧
        i.mapping.value ∉ seen) ∧ (includes.map fun i => i.mapping.value).Nodup := by
  -- the names that are seen grow along the includes
  induction includes generalizing seen with
  | nil => simp [checkIncludes]
  | cons i rest ih =>
    unfold checkIncludes
    simp only
    split
    · rename_i hself
      simp [Fault.found, hself]
    · rename_i hself
      split
      · rename_i hunknown
        have hnames : i.mapping.value ∉ g.names := by
          rw [← contains_iff]
          simpa using hunknown
        simp [Fault.found, hnames]
      · rename_i hknown
        have hnames : i.mapping.value ∈ g.names := by
          rw [← contains_iff]
          simpa using hknown
        split
        · rename_i hseen
          simp [Fault.found, hseen]
        · rename_i hseen
          rw [ih]
          simp only [List.mem_cons, List.map_cons, List.nodup_cons, List.mem_map, not_or,
            forall_eq_or_imp, not_exists, not_and]
          constructor
          · rintro ⟨hrest, hnodup⟩
            exact ⟨⟨⟨hself, hnames, hseen⟩,
              fun j hj => ⟨(hrest j hj).1, (hrest j hj).2.1, (hrest j hj).2.2.2⟩⟩,
              fun j hj => (hrest j hj).2.2.1, hnodup⟩
          · rintro ⟨⟨-, hrest⟩, hfirst, hnodup⟩
            exact ⟨fun j hj => ⟨(hrest j hj).1, (hrest j hj).2.1, hfirst j hj, (hrest j hj).2.2⟩,
              hnodup⟩

/-- The check of the includes asks of a graph only whether it has their targets. -/
theorem checkIncludes_congr {g g' : IncludeGraph} {unit : String} {seen : List String}
    {includes : List Source.Include}
    (h : ∀ i ∈ includes, g.contains i.mapping.value = g'.contains i.mapping.value) :
    g.checkIncludes unit seen includes = g'.checkIncludes unit seen includes := by
  induction includes generalizing seen with
  | nil => rfl
  | cons i rest ih =>
    unfold checkIncludes
    simp only
    rw [h i List.mem_cons_self, ih fun j hj => h j (List.mem_cons_of_mem _ hj)]

/-- A unit with sound includes passed both checks. -/
theorem validate_eq_ok_iff {g : IncludeGraph} {u : Source.Mapping} :
    g.validate u = .ok () ↔
      g.checkIncludes u.name.value [] u.includes = .ok () ∧ g.cycle? u.name.value = none := by
  unfold validate
  cases hcheck : g.checkIncludes u.name.value [] u.includes with
  | error failure => simp [bind, Except.bind]
  | ok _ =>
    cases hcycle : g.cycle? u.name.value with
    | none => simp [bind, Except.bind, pure, Except.pure]
    | some cycle => simp [bind, Except.bind, Fault.found]

/-- The check of the includes does not look at what has failed. -/
theorem not_blocked_of_checkIncludes {g : IncludeGraph} {unit : String} {seen : List String}
    {includes : List Source.Include} {failure : Failure}
    (h : g.checkIncludes unit seen includes = .error failure) (mapping included : String) :
    failure.fault ≠ .blockedByInclude mapping included := by
  induction includes generalizing seen with
  | nil => cases h
  | cons i rest ih =>
    unfold checkIncludes at h
    simp only at h
    split at h
    · cases h
      simp
    · split at h
      · cases h
        simp
      · split at h
        · cases h
          simp
        · exact ih h

/-- Neither does the check for a cycle. -/
theorem not_blocked_of_validate {g : IncludeGraph} {u : Source.Mapping} {failure : Failure}
    (h : g.validate u = .error failure) (mapping included : String) :
    failure.fault ≠ .blockedByInclude mapping included := by
  unfold validate at h
  cases hcheck : g.checkIncludes u.name.value [] u.includes with
  | error found =>
    rw [hcheck] at h
    cases h
    exact not_blocked_of_checkIncludes hcheck mapping included
  | ok _ =>
    rw [hcheck] at h
    cases hcycle : g.cycle? u.name.value with
    | none =>
      rw [hcycle] at h
      cases h
    | some cycle =>
      rw [hcycle] at h
      cases h
      simp

/-- A unit with sound includes lies on no cycle. -/
theorem not_reaches_of_validate {units : List Source.Mapping} {u : Source.Mapping}
    (hu : u.name.value ∈ (ofUnits units).names) (h : (ofUnits units).validate u = .ok ()) :
    ∀ b ∈ (ofUnits units).inOrder u.name.value,
      ¬ Reaches (ofUnits units).inOrder b u.name.value := by
  rcases validate_eq_ok_iff.1 h with ⟨-, hcycle⟩
  unfold cycle? at hcycle
  rw [if_pos (contains_iff.2 hu)] at hcycle
  exact not_reaches_of_cycleThrough?_eq_none (closed_inOrder units) hu (le_refl _) hcycle

end IncludeGraph

end ObjectRelational
