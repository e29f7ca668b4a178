import ObjectRelational.Proofs.Mapping.UnitBounds
import ObjectRelational.Proofs.Store.Build
import ObjectRelational.Proofs.Workspace.States
import ObjectRelational.Proofs.Workspace.View

/-!
# No unit of a snapshot leads out of its store

Handles are numbers, and a store is numbered anew whenever it is built. A unit is nevertheless never
seen with a store that it was not resolved against, nor are the units that it includes: one that did
not fail has been resolved from what the snapshot holds, or would be so, and one that failed is left as
it was.

* `Compilation.allStates_of_settled`: what holds of the units that are settled, and of all states
  before, holds of all states after a compilation. `Workspace.states_of_settled`: and so after a run.
* `Compilation.Settled.fitsIn`: a settled unit fits in the store of the compilation.
* `Workspace.no_dangling_handles`: so nothing that a unit declares or shows leads out of its store.
-/

namespace ObjectRelational

open Fingerprint

/-! ## Settled states -/

namespace Compilation

variable {c : Compilation} {messages : List (List UInt8)} {databases : List Source.Database}
  {unit : MappingUnit}

section Settled

variable (hmessages : NoCollision messages) (hregular : c.Regular)
  (hc : c.Grounded messages databases) (hhashed : c.hashed ⊆ messages)
include hmessages hregular hc hhashed

/-- A unit that did not fail is settled, and one that failed has the state that it had before. -/
theorem allStates_of_settled {P : MappingUnit → Prop}
    (hP : ∀ unit, c.Settled unit → P unit)
    (hprevious : AllStates P c.previous.units) : AllStates P c.run.entries := by
  intro name entry hentry
  by_cases hfailed : ∃ failure, ⟨name, failure⟩ ∈ c.run.failures
  · obtain ⟨failure, hfailure⟩ := hfailed
    cases hsource : c.sources.find? name with
    | none => exact absurd hfailure ((run_of_absent hregular hsource).2 failure)
    | some source =>
      have hkept := run_find? hregular hsource
      rw [(mem_failures_run_iff hregular hsource).1 hfailure, hentry] at hkept
      exact hprevious name entry hkept.symm
  · have hunit : c.run.unit? name = some entry.unit := by simp [Progress.unit?, hentry]
    obtain ⟨-, hsettled⟩ :=
      settled_of_not_failed hmessages hregular hc hhashed hunit (not_exists.1 hfailed)
    exact hP entry.unit hsettled

/-- A settled unit fits in the store of the compilation. -/
theorem Settled.fitsIn (haccepted : unit.Accepted) (h : c.Settled unit) :
    unit.FitsIn c.environment.store := by
  -- down the includes, which are settled too
  induction haccepted with
  | resolved _ _ ih =>
    obtain ⟨source, -, hresolve⟩ := h.resolves
    refine MappingUnit.fitsIn_of_resolve (Store.closed_of_build hc.build) (fun i hi => ?_) hresolve
    exact ih i hi (h.of_mem_includes hmessages hregular hc hhashed hi)

end Settled

end Compilation

namespace Workspace

variable {model : ObjectModel} {settings : ResolutionSettings}

/-- What holds of all units that are settled in a compilation of a run holds of every state at the end
of the run. -/
theorem states_of_settled {P : MappingUnit → Prop}
    (hP : ∀ (c : Compilation) messages databases, NoCollision messages → c.Regular →
      c.Grounded messages databases → c.hashed ⊆ messages → ∀ unit, c.Settled unit → P unit)
    {actions : List Action} (hmessages : NoCollision ((new model settings).hashedAlong actions)) :
    AllStates P ((new model settings).run actions).snapshot.units := by
  induction actions using List.reverseRecOn with
  | nil => simp [AllStates, new]
  | append_singleton before action ih =>
    have hbefore := ih (hmessages.mono (hashedAlong_append _ before [action] ▸
      List.subset_append_left _ _))
    rw [run_append, run_cons, run_nil]
    cases action with
    | compile =>
      rw [act]
      cases hbuild : ((new model settings).run before).buildStore with
      | error failure =>
        rw [compile_of_buildStore_error hbuild]
        exact hbefore
      | ok built =>
        rw [compile_of_buildStore hbuild]
        obtain ⟨hsound, hhashed⟩ := sound_before_compile hmessages
        have hregular := (keyed_run model settings before).regular built
        have hgrounded := grounded hmessages hsound hhashed hbuild
        have hsubset := List.Subset.trans (hashed_subset hbuild) hhashed
        exact Compilation.allStates_of_settled hmessages hregular hgrounded hsubset
          (hP _ _ _ hmessages hregular hgrounded hsubset) hbefore
    | _ => exact hbefore

/-- When nothing that a run hashes collides, no unit of the snapshot at its end leads out of its store,
whether the unit was compiled last, kept, or left as it was since it failed: every handle of its own
mappings, and of the mappings that it shows of the units that it includes, is one of the store; every
column is one of its table or view; every step of a path leads from the one side of its join to the
other; and no lookup in the store ends outside of it. -/
theorem no_dangling_handles (model : ObjectModel) (settings : ResolutionSettings)
    (actions : List Action)
    (hmessages : NoCollision ((new model settings).hashedAlong actions)) :
    ∀ name u, ((new model settings).run actions).snapshot.unit? name = some u → u.InBounds := by
  intro name u hu
  have haccepted := states_accepted model settings actions name u hu
  obtain ⟨entry, hentry, rfl⟩ := Option.map_eq_some_iff.1 hu
  refine states_of_settled (P := fun unit => unit.Accepted → unit.InBounds) ?_ hmessages name entry
    hentry haccepted
  intro c messages databases hmessages hregular hgrounded hhashed unit hsettled haccepted
  exact (hsettled.fitsIn hmessages hregular hgrounded hhashed haccepted).inBounds
    (Store.closed_of_build hgrounded.build)

/-- There is one database, with one table. -/
def tableDatabase : Source.Database :=
  { name := ⟨"A", {}⟩, schemas := [⟨⟨"default", {}⟩, [{ name := ⟨"T", {}⟩ }], []⟩] }

/-- A class is mapped to the table, and the unit is compiled. -/
def mappingRun : List Action :=
  [.upsertDatabase tableDatabase, .upsertMapping includedSource, .compile]

/-- What is hashed along that run. -/
theorem hashedAlong_mappingRun :
    let databases := Json.ofList Source.Database.toJson [tableDatabase]
    (new substitutedModel {}).hashedAlong mappingRun =
      [jsonBytes databases, jsonBytes includedSource.toJson,
        partBytes [ofJson databases, ofJson includedSource.toJson]] := by
  with_unfolding_all rfl

/-- The main table of the mapping is a table of the store. -/
theorem no_dangling_handles_of_mapped :
    let snapshot := ((new substitutedModel {}).run mappingRun).snapshot
    ∃ u m, snapshot.unit? "inner" = some u ∧ m ∈ u.classMappings ∧
      m.setImplementation.mainTable = ⟨"T", ⟨0⟩, ⟨0⟩⟩ ∧
      m.setImplementation.mainTable.FitsIn u.store := by
  intro snapshot
  have hmessages : NoCollision ((new substitutedModel {}).hashedAlong mappingRun) := by
    rw [hashedAlong_mappingRun]
    unfold NoCollision ofJson
    simp only [jsonBytes_eq, partBytes_eq]
    decide +kernel
  have hshown : (snapshot.unit? "inner").map (fun u => u.classMappings.map fun m =>
      m.setImplementation.mainTable) = some [⟨"T", ⟨0⟩, ⟨0⟩⟩] := by
    decide +kernel
  obtain ⟨u, hu, hmappings⟩ := Option.map_eq_some_iff.1 hshown
  obtain ⟨m, hm, hmain⟩ := List.map_eq_singleton_iff.1 hmappings
  have hmem : m ∈ u.classMappings := by simp [hm]
  have hbounds := no_dangling_handles substitutedModel {} mappingRun hmessages "inner" u hu
  exact ⟨u, m, hu, hmem, hmain,
    (hbounds.classMappings m hmem _ m.setImplementation_mem).mainTable⟩

end Workspace

end ObjectRelational
