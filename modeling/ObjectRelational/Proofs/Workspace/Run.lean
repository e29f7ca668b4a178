import ObjectRelational.Proofs.Workspace.Progress

/-!
# Runs of a workspace

A workspace is edited and compiled, in any order and as often as one likes.

* `Action` is one thing that is done to a workspace, `Answer` what comes of it.
* `Workspace.run` is the workspace at the end of a run, `Workspace.answers` lists the answers.
* `Workspace.Keyed`: every source is kept under its own name. `keyed_run`: so it is along every run
  from a new workspace. `Keyed.regular`: its compilations are regular.
* `compile_eq_self_of_rejected`, `compile_of_buildStore`: what a compilation does to the workspace.
-/

namespace ObjectRelational

/-- What can be done to a workspace. -/
inductive Action where
  | upsertDatabase (source : Source.Database)
  | removeDatabase (name : String)
  | upsertMapping (source : Source.Mapping)
  | removeMapping (name : String)
  | compile

/-- What an action answers: what was removed, or how a compilation ended and the snapshot there is
behind it. -/
inductive Answer where
  | added
  | removedDatabase (source : Option Source.Database)
  | removedMapping (source : Option Source.Mapping)
  | compiled (outcome : Outcome) (snapshot : Snapshot)

namespace Workspace

/-- A workspace without sources, before anything is compiled. -/
def new (model : ObjectModel) (settings : ResolutionSettings) : Workspace :=
  { model := model, settings := settings }

/-- The workspace after one action. -/
def act (w : Workspace) : Action → Workspace
  | .upsertDatabase source => w.upsertDatabase source
  | .removeDatabase name => w.removeDatabase name
  | .upsertMapping source => w.upsertMapping source
  | .removeMapping name => w.removeMapping name
  | .compile => w.compile.1

/-- What an action answers. -/
def answer (w : Workspace) : Action → Answer
  | .upsertDatabase _ => .added
  | .removeDatabase name => .removedDatabase (w.databases.find? name)
  | .upsertMapping _ => .added
  | .removeMapping name => .removedMapping (w.mappings.find? name)
  | .compile => .compiled w.compile.2 w.compile.1.snapshot

/-- The workspace after a run. -/
def run (w : Workspace) (actions : List Action) : Workspace := actions.foldl act w

/-- The answers of a run. -/
def answers (w : Workspace) : List Action → List Answer
  | [] => []
  | action :: rest => w.answer action :: (w.act action).answers rest

@[simp] theorem run_nil (w : Workspace) : w.run [] = w := rfl

@[simp] theorem run_cons (w : Workspace) (action : Action) (rest : List Action) :
    w.run (action :: rest) = (w.act action).run rest := rfl

@[simp] theorem run_append (w : Workspace) (first second : List Action) :
    w.run (first ++ second) = (w.run first).run second := by
  simp [run, List.foldl_append]

theorem answers_append (w : Workspace) (first second : List Action) :
    w.answers (first ++ second) = w.answers first ++ (w.run first).answers second := by
  induction first generalizing w with
  | nil => rfl
  | cons action rest ih => simp [answers, ih]

/-! ## Compilations -/

/-- A compilation that is rejected changes nothing. -/
theorem compile_eq_self_of_rejected {w : Workspace} {failure : Failure}
    (h : w.compile.2 = .rejected failure) : w.compile.1 = w := by
  unfold compile at h ⊢
  split
  · rfl
  · rename_i built hbuilt
    rw [hbuilt] at h
    simp at h

/-- A compilation that has a store commits the run of all units. -/
theorem compile_of_buildStore {w : Workspace} {built : BuiltStore}
    (h : w.buildStore = .ok built) :
    w.compile = ({ w with
        snapshot := snapshotOf built (w.compilation built).run
        compilations := w.compilations + 1 },
      .committed (w.compilation built).run.failures) := by
  unfold compile
  rw [h]

theorem snapshot_of_buildStore {w : Workspace} {built : BuiltStore}
    (h : w.buildStore = .ok built) :
    w.compile.1.snapshot = snapshotOf built (w.compilation built).run := by
  rw [compile_of_buildStore h]

theorem compile_of_buildStore_error {w : Workspace} {failure : Failure}
    (h : w.buildStore = .error failure) : w.compile = (w, .rejected failure) := by
  unfold compile
  rw [h]

/-- A compilation that commits had a store. -/
theorem buildStore_of_committed {w : Workspace} {failures : List UnitFailure}
    (h : w.compile.2 = .committed failures) :
    ∃ built, w.buildStore = .ok built ∧ failures = (w.compilation built).run.failures := by
  cases hbuild : w.buildStore with
  | error failure =>
    rw [compile_of_buildStore_error hbuild] at h
    simp at h
  | ok built =>
    rw [compile_of_buildStore hbuild] at h
    exact ⟨built, rfl, (Outcome.committed.inj h).symm⟩

theorem fingerprint_of_buildStore {w : Workspace} {built : BuiltStore}
    (h : w.buildStore = .ok built) : built.fingerprint = w.storeFingerprint := by
  unfold buildStore at h
  simp only at h
  split at h
  · cases h
    rfl
  · cases hbuild : Store.build w.settings w.databases.values with
    | error failure =>
      rw [hbuild] at h
      cases h
    | ok store =>
      rw [hbuild] at h
      cases h
      rfl

/-! ## What stays -/

@[simp] theorem compile_model (w : Workspace) : w.compile.1.model = w.model := by
  unfold compile
  split <;> rfl

@[simp] theorem compile_settings (w : Workspace) : w.compile.1.settings = w.settings := by
  unfold compile
  split <;> rfl

@[simp] theorem compile_databases (w : Workspace) : w.compile.1.databases = w.databases := by
  unfold compile
  split <;> rfl

@[simp] theorem compile_mappings (w : Workspace) : w.compile.1.mappings = w.mappings := by
  unfold compile
  split <;> rfl

theorem act_model (w : Workspace) (action : Action) : (w.act action).model = w.model := by
  cases action with
  | compile => exact compile_model w
  | _ => rfl

theorem act_settings (w : Workspace) (action : Action) :
    (w.act action).settings = w.settings := by
  cases action with
  | compile => exact compile_settings w
  | _ => rfl

/-- A run keeps the model. -/
theorem run_model (w : Workspace) (actions : List Action) : (w.run actions).model = w.model := by
  induction actions generalizing w with
  | nil => rfl
  | cons action rest ih => rw [run_cons, ih, act_model]

/-- A run keeps the settings. -/
theorem run_settings (w : Workspace) (actions : List Action) :
    (w.run actions).settings = w.settings := by
  induction actions generalizing w with
  | nil => rfl
  | cons action rest ih => rw [run_cons, ih, act_settings]

/-! ## Sources under their names -/

/-- Every unit is kept under its own name. -/
def Keyed (w : Workspace) : Prop :=
  ∀ name source, w.mappings.find? name = some source → source.name.value = name

theorem keyed_new (model : ObjectModel) (settings : ResolutionSettings) :
    (new model settings).Keyed := by
  intro name source h
  simp [new] at h

theorem Keyed.act {w : Workspace} (hw : w.Keyed) (action : Action) : (w.act action).Keyed := by
  intro name source h
  cases action with
  | upsertMapping added =>
    simp only [Workspace.act, upsertMapping, OrderedMap.find?_insert] at h
    split at h
    · rename_i hname
      rw [← Option.some.inj h, hname]
    · exact hw name source h
  | removeMapping removed =>
    simp only [Workspace.act, removeMapping, OrderedMap.find?_erase] at h
    split at h
    · simp at h
    · exact hw name source h
  | compile =>
    rw [Workspace.act, compile_mappings] at h
    exact hw name source h
  | upsertDatabase _ => exact hw name source h
  | removeDatabase _ => exact hw name source h

theorem Keyed.run {w : Workspace} (hw : w.Keyed) (actions : List Action) :
    (w.run actions).Keyed := by
  induction actions generalizing w with
  | nil => exact hw
  | cons action rest ih => exact ih (hw.act action)

/-- Along every run from a new workspace units are kept under their names. -/
theorem keyed_run (model : ObjectModel) (settings : ResolutionSettings) (actions : List Action) :
    ((new model settings).run actions).Keyed :=
  (keyed_new model settings).run actions

/-- The compilations of such a workspace are regular. -/
theorem Keyed.regular {w : Workspace} (hw : w.Keyed) (built : BuiltStore) :
    (w.compilation built).Regular := ⟨rfl, hw⟩

end Workspace

end ObjectRelational
