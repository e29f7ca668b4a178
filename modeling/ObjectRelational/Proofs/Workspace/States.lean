import ObjectRelational.Proofs.Mapping.Unit
import ObjectRelational.Proofs.Workspace.Progress
import ObjectRelational.Proofs.Workspace.Run

/-!
# What holds of all states

All states of all snapshots come from resolving, against the model and the settings of the workspace,
and from other states. So what resolving hands on from the units that are included to the unit that
includes them holds of every state, whatever was edited and compiled before.

* `HandedOn`: a property of units that resolving hands on.
* `Workspace.states_of_handedOn`: it holds of every state.
* `Workspace.states_accepted`: every state is accepted.
-/

namespace ObjectRelational

/-- Resolving hands the property on: when all units that can be included have it, so does a unit that
is resolved. -/
def HandedOn (model : ObjectModel) (settings : ResolutionSettings) (P : MappingUnit → Prop) : Prop :=
  ∀ (e : Environment) (compiled : String → Option MappingUnit) (source : Source.Mapping)
    (unit : MappingUnit), e.model = model → e.settings = settings →
    (∀ name included, compiled name = some included → P included) →
    MappingUnit.resolve e compiled source = .ok unit → P unit

/-- All states have the property. -/
def AllStates (P : MappingUnit → Prop) (entries : OrderedMap String Entry) : Prop :=
  ∀ name entry, entries.find? name = some entry → P entry.unit

variable {P : MappingUnit → Prop}

namespace Compilation

variable {c : Compilation} {p : Progress}
  (hP : HandedOn c.environment.model c.environment.settings P) (hc : AllStates P c.previous.units)
include hP hc

theorem handedOn_of_freshOrUnchanged (hp : AllStates P p.entries) {source : Source.Mapping}
    {entry : Entry} (h : c.freshOrUnchanged p source = .ok entry) : P entry.unit := by
  cases hunchanged : c.unchanged? source.name.value
      (Fingerprint.combine (c.dependencies p source)) with
  | some old =>
    rw [freshOrUnchanged_of_some hunchanged] at h
    obtain rfl := Except.ok.inj h
    exact hc _ _ (unchanged?_eq_some_iff.1 hunchanged).2.1
  | none =>
    rw [freshOrUnchanged_of_none hunchanged] at h
    obtain ⟨unit, hunit, rfl⟩ := map_eq_ok_iff.1 h
    refine hP c.environment p.unit? source unit rfl rfl (fun name included hincluded => ?_) hunit
    obtain ⟨found, hfound, rfl⟩ := Option.map_eq_some_iff.1 hincluded
    exact hp name found hfound

/-- One more unit leaves states that have the property. -/
theorem allStates_advance (hp : AllStates P p.entries) (name : String) :
    AllStates P (c.advance p name).entries := by
  cases hsource : c.sources.find? name with
  | none =>
    rw [advance_of_absent hsource]
    exact hp
  | some source =>
    cases h : c.compileUnit p source with
    | ok entry =>
      rw [advance_of_ok hsource h]
      exact OrderedMap.forall_find?_insert hp
        (handedOn_of_freshOrUnchanged hP hc hp (clear_of_compileUnit_eq_ok h).2.2)
    | error failure =>
      rw [advance_of_error hsource h]
      unfold retain
      cases hprevious : c.previous.units.find? name with
      | none => exact hp
      | some entry => exact OrderedMap.forall_find?_insert hp (hc name entry hprevious)

theorem allStates_foldl (hp : AllStates P p.entries) (order : List String) :
    AllStates P (order.foldl c.advance p).entries := by
  induction order generalizing p with
  | nil => exact hp
  | cons name rest ih => exact ih (allStates_advance hP hc hp name)

/-- So does a whole compilation. -/
theorem allStates_run : AllStates P c.run.entries :=
  allStates_foldl hP hc (by simp [AllStates]) _

end Compilation

namespace Workspace

variable {w : Workspace}

theorem allStates_act (hP : HandedOn w.model w.settings P) (hw : AllStates P w.snapshot.units)
    (action : Action) : AllStates P (w.act action).snapshot.units := by
  cases action with
  | compile =>
    rw [act]
    cases hbuild : w.buildStore with
    | error failure =>
      rw [compile_of_buildStore_error hbuild]
      exact hw
    | ok built =>
      rw [compile_of_buildStore hbuild]
      exact Compilation.allStates_run (c := w.compilation built) hP hw
  | _ => exact hw

theorem allStates_run (hP : HandedOn w.model w.settings P) (hw : AllStates P w.snapshot.units)
    (actions : List Action) : AllStates P (w.run actions).snapshot.units := by
  induction actions generalizing w with
  | nil => exact hw
  | cons action rest ih =>
    have hact := allStates_act hP hw action
    rw [← act_model w action, ← act_settings w action] at hP
    exact ih hP hact

/-- What resolving hands on holds of every state, after every run. -/
theorem states_of_handedOn {model : ObjectModel} {settings : ResolutionSettings}
    (hP : HandedOn model settings P) (actions : List Action) :
    ∀ name unit, ((new model settings).run actions).snapshot.unit? name = some unit → P unit := by
  intro name unit hunit
  obtain ⟨entry, hentry, rfl⟩ := Option.map_eq_some_iff.1 hunit
  exact allStates_run hP (by simp [AllStates, new]) actions name entry hentry

end Workspace

/-! ## Accepted units -/

theorem handedOn_accepted (model : ObjectModel) (settings : ResolutionSettings) :
    HandedOn model settings MappingUnit.Accepted :=
  fun _ _ _ _ _ _ hcompiled h => .of_compiled hcompiled h

/-- Every state of every snapshot is accepted, and so is all that it includes. -/
theorem Workspace.states_accepted (model : ObjectModel) (settings : ResolutionSettings)
    (actions : List Action) : ∀ name unit,
      ((new model settings).run actions).snapshot.unit? name = some unit → unit.Accepted :=
  states_of_handedOn (handedOn_accepted model settings) actions

end ObjectRelational
