import ObjectRelational.Proofs.Graph.CyclePath
import ObjectRelational.Proofs.Mapping.CompileOrder

/-!
# Sound includes

The includes of a unit are sound if they name units that are there, each once and not the unit itself,
and if no includes lead from the unit back to it. The check of a unit accepts these includes and no
others. Cycles elsewhere are no concern of the unit, whether it reaches them or not: a cycle that is
reported is one that the unit lies on itself.

* `transGen_inOrder_iff`: the graph that is searched has the cycles of the includes.
* `cycle?_eq_none_iff`, `cycleAt_of_cycle?`: what the search for a cycle answers.
* `circular_of_checkIncludes`: an include of a unit in itself is a cycle, too.
* `validate_exact`: the check finds exactly the cycles.
-/

namespace ObjectRelational.IncludeGraph

open ObjectRelational.Graph

variable {units : List Source.Mapping} {u : Source.Mapping} {a b unit : String} {cycle : List String}

/-! ## Cycles of includes -/

/-- The graph follows the includes that lead to what is there. -/
theorem transGen_inOrder_iff (hb : b ∈ (ofUnits units).names) :
    Relation.TransGen (Step (ofUnits units).inOrder) a b ↔
      Relation.TransGen (IncludesIn units) a b := by
  constructor
  · exact Relation.TransGen.mono (fun _ _ h => (mem_inOrder_ofUnits.1 h).1) a b
  · intro h
    -- a unit that leads on is there, so the graph has each step
    induction h using Relation.TransGen.head_induction_on with
    | single hstep => exact .single (mem_inOrder_ofUnits.2 ⟨hstep, hb⟩)
    | head hstep hrest ih =>
      exact .head (mem_inOrder_ofUnits.2 ⟨hstep, mem_names_of_transGen hrest⟩) ih

/-- No cycle is found if the unit lies on none. -/
theorem cycle?_eq_none_iff (ha : a ∈ (ofUnits units).names) :
    (ofUnits units).cycle? a = none ↔ ¬ Relation.TransGen (IncludesIn units) a a := by
  have hfound := exists_cycleThrough?_iff (closed_inOrder units) ha (le_refl _)
  unfold cycle?
  rw [if_pos (contains_iff.2 ha), ← transGen_inOrder_iff ha, ← hfound,
    Option.eq_none_iff_forall_ne_some, not_exists]

/-- What is found is a cycle of includes through the unit. -/
theorem cycleAt_of_cycle? (h : (ofUnits units).cycle? a = some cycle) :
    CycleAt (IncludesIn units) a cycle := by
  unfold cycle? at h
  split at h
  · exact (cycleAt_of_cycleThrough? h).mono fun _ _ hstep => (mem_inOrder_ofUnits.1 hstep).1
  · cases h

/-! ## The check -/

/-- A cycle that is reported at an include goes from the unit to itself. -/
theorem circular_of_checkIncludes {g : IncludeGraph} {seen : List String}
    {includes : List Source.Include} {failure : Failure} {mapping : String}
    (h : g.checkIncludes unit seen includes = .error failure)
    (hfault : failure.fault = .circularInclude mapping cycle) :
    mapping = unit ∧ cycle = [unit, unit] ∧ ∃ i ∈ includes, i.mapping.value = unit := by
  induction includes generalizing seen with
  | nil => cases h
  | cons i rest ih =>
    unfold checkIncludes at h
    simp only at h
    split at h
    · rename_i hself
      obtain rfl := Except.error.inj h
      obtain ⟨rfl, rfl⟩ := Fault.circularInclude.inj hfault
      exact ⟨rfl, rfl, i, List.mem_cons_self, hself⟩
    · split at h
      · obtain rfl := Except.error.inj h
        cases hfault
      · split at h
        · obtain rfl := Except.error.inj h
          cases hfault
        · obtain ⟨hmapping, hcycle, j, hj, hself⟩ := ih h
          exact ⟨hmapping, hcycle, j, List.mem_cons_of_mem _ hj, hself⟩

/-- The includes of a unit pass the check if they name others that are there, each once. -/
theorem checkIncludes_targets_iff :
    (ofUnits units).checkIncludes u.name.value [] u.includes = .ok () ↔
      u.targets.Nodup ∧ (∀ target ∈ u.targets, ∃ v ∈ units, v.name.value = target) ∧
        u.name.value ∉ u.targets := by
  rw [checkIncludes_eq_ok_iff]
  unfold Source.Mapping.targets
  simp only [List.mem_map, List.not_mem_nil, not_false_eq_true, and_true, mem_names_ofUnits,
    forall_exists_index, and_imp, forall_apply_eq_imp_iff₂, not_exists, not_and]
  constructor
  · rintro ⟨hall, hnodup⟩
    exact ⟨hnodup, fun i hi => (hall i hi).2, fun i hi => (hall i hi).1⟩
  · rintro ⟨hnodup, hknown, hother⟩
    exact ⟨fun i hi => ⟨hother i hi, hknown i hi⟩, hnodup⟩

/-- The check of a unit accepts its includes iff they name others that are there, each once, and no cycle
of includes leads through the unit. A circular include is reported with a cycle through the unit: a path of
includes from the unit back to it that repeats no other name, so that a cycle which the unit only reaches
is never reported. A loop with a stack of its own finds the cycles that the check finds. -/
theorem validate_exact (hu : u ∈ units) :
    ((ofUnits units).validate u = .ok () ↔
      u.targets.Nodup ∧ (∀ target ∈ u.targets, ∃ v ∈ units, v.name.value = target) ∧
        u.name.value ∉ u.targets ∧
        ¬ Relation.TransGen (IncludesIn units) u.name.value u.name.value) ∧
    (∀ failure mapping cycle, (ofUnits units).validate u = .error failure →
      failure.fault = .circularInclude mapping cycle →
        mapping = u.name.value ∧ CycleAt (IncludesIn units) u.name.value cycle ∧
          ∀ name ∈ cycle, OnCommonCycle units u.name.value name) ∧
    CycleSearch.Answers (ofUnits units).inOrder u.name.value
      (.begin (ofUnits units).inOrder u.name.value) ((ofUnits units).cycle? u.name.value) := by
  have hname : u.name.value ∈ (ofUnits units).names := mem_names_ofUnits.2 ⟨u, hu, rfl⟩
  refine ⟨?_, ?_, ?_⟩
  · rw [validate_eq_ok_iff, checkIncludes_targets_iff, cycle?_eq_none_iff hname]
    simp only [and_assoc]
  · intro failure mapping cycle h hfault
    have hcycle : mapping = u.name.value ∧ CycleAt (IncludesIn units) u.name.value cycle := by
      unfold validate at h
      cases hcheck : (ofUnits units).checkIncludes u.name.value [] u.includes with
      | error found =>
        rw [hcheck] at h
        obtain rfl := Except.error.inj h
        obtain ⟨hmapping, rfl, i, hi, hself⟩ := circular_of_checkIncludes hcheck hfault
        have hstep : IncludesIn units u.name.value u.name.value :=
          ⟨u, hu, rfl, List.mem_map.2 ⟨i, hi, hself⟩⟩
        exact ⟨hmapping, [], rfl, List.nodup_singleton _, List.isChain_pair.2 hstep⟩
      | ok _ =>
        rw [hcheck] at h
        cases hfound : (ofUnits units).cycle? u.name.value with
        | none =>
          rw [hfound] at h
          cases h
        | some found =>
          rw [hfound] at h
          obtain rfl := Except.error.inj h
          obtain ⟨rfl, rfl⟩ := Fault.circularInclude.inj hfault
          exact ⟨rfl, cycleAt_of_cycle? hfound⟩
    exact ⟨hcycle.1, hcycle.2, fun name hmem => hcycle.2.transGen hmem⟩
  · unfold cycle?
    rw [if_pos (contains_iff.2 hname)]
    exact CycleSearch.answers_cycleThrough? (closed_inOrder units) hname (le_refl _)

/-- A unit that includes units of the given names. -/
def includer (name : String) (targets : List String) : Source.Mapping :=
  { name := { value := name }, includes := targets.map fun target => { mapping := { value := target } } }

/-- Three units that include each other in a circle, and one that only leads to them. -/
def circle : List Source.Mapping :=
  [includer "a" ["c"], includer "b" ["a"], includer "c" ["b"], includer "d" ["a"]]

/-- The unit that leads to the circle is accepted, and lies on no cycle; the circle is reported for a unit on
it. -/
theorem validate_exact_of_circle :
    (ofUnits circle).validate (includer "d" ["a"]) = .ok () ∧
      ¬ Relation.TransGen (IncludesIn circle) "d" "d" ∧
      ∃ failure, (ofUnits circle).validate (includer "a" ["c"]) = .error failure ∧
        failure.fault = .circularInclude "a" ["a", "c", "b", "a"] ∧
        CycleAt (IncludesIn circle) "a" ["a", "c", "b", "a"] := by
  have haccepted : (ofUnits circle).validate (includer "d" ["a"]) = .ok () := by
    decide +kernel
  have hrejected : (ofUnits circle).validate (includer "a" ["c"]) =
      .error ⟨.circularInclude "a" ["a", "c", "b", "a"], {}⟩ := by
    decide +kernel
  have hbeside : includer "d" ["a"] ∈ circle := by simp [circle]
  have hwithin : includer "a" ["c"] ∈ circle := by simp [circle]
  obtain ⟨-, -, -, hacyclic⟩ := (validate_exact hbeside).1.1 haccepted
  obtain ⟨-, hcycle, -⟩ := (validate_exact hwithin).2.1 _ _ _ hrejected rfl
  exact ⟨haccepted, hacyclic, _, hrejected, rfl, hcycle⟩

end ObjectRelational.IncludeGraph
