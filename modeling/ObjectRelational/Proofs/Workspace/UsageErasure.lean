import ObjectRelational.Proofs.Mapping.UsageErasure
import ObjectRelational.Proofs.OrderedMap
import ObjectRelational.Proofs.Workspace.Run

/-!
# Recording usages does not interfere

Two workspaces are given the same actions, one of which records usages. They do the same all along: the
same compilations are rejected, the same units fail with the same diagnostics, the same states are reused,
and what they resolve differs by the usages only.

* `Workspace.withoutUsages` and its companions take the usages away from all that a workspace holds.
* `Compilation.advance_withoutUsages`, `Compilation.run_withoutUsages`: a step and the run of a
  compilation.
* `Workspace.act_withoutUsages`, `Workspace.answer_withoutUsages`: one action.
* `Workspace.recording_does_not_interfere`: a whole run.
-/

namespace ObjectRelational

/-- The state of a unit with nothing recorded. -/
def Entry.withoutUsages (e : Entry) : Entry := { e with unit := e.unit.withoutUsages }

/-- The snapshot with nothing recorded. -/
def Snapshot.withoutUsages (s : Snapshot) : Snapshot :=
  { s with store := s.store.withoutUsages, units := s.units.mapValues Entry.withoutUsages }

/-- The workspace with nothing recorded, and not asked to. -/
def Workspace.withoutUsages (w : Workspace) : Workspace :=
  { w with settings := w.settings.silent, snapshot := w.snapshot.withoutUsages }

/-- The answer with nothing recorded. -/
def Answer.withoutUsages : Answer → Answer
  | .compiled outcome snapshot => .compiled outcome snapshot.withoutUsages
  | answer => answer

/-- Nothing is recorded in the store and in the units of a snapshot, nor in what a unit includes. -/
structure Snapshot.Silent (s : Snapshot) : Prop where
  store : s.store.usages = .empty
  units : ∀ name entry, s.units.find? name = some entry → entry.unit.usages = .empty
  stores : ∀ name entry, s.units.find? name = some entry → entry.unit.store.usages = .empty
  included : ∀ name entry, s.units.find? name = some entry →
    ∀ i ∈ entry.unit.flattened, i.unit.usages = .empty ∧ i.unit.store.usages = .empty

theorem Snapshot.silent_withoutUsages (s : Snapshot) : s.withoutUsages.Silent := by
  have hunits : ∀ name entry, s.withoutUsages.units.find? name = some entry →
      ∃ e : Entry, entry = e.withoutUsages := by
    intro name entry hentry
    simp only [withoutUsages, OrderedMap.find?_mapValues, Option.map_eq_some_iff] at hentry
    rcases hentry with ⟨e, -, rfl⟩
    exact ⟨e, rfl⟩
  constructor
  · rfl
  · intro name entry hentry
    rcases hunits name entry hentry with ⟨e, rfl⟩
    exact e.unit.withoutUsages_usages
  · intro name entry hentry
    rcases hunits name entry hentry with ⟨e, rfl⟩
    simp [Entry.withoutUsages]
  · intro name entry hentry i hi
    rcases hunits name entry hentry with ⟨e, rfl⟩
    simp only [Entry.withoutUsages, MappingUnit.withoutUsages_flattened, List.mem_map] at hi
    rcases hi with ⟨inner, -, rfl⟩
    simp

/-! ## Compilations -/

/-- A store with nothing recorded. -/
def BuiltStore.withoutUsages (b : BuiltStore) : BuiltStore :=
  { b with store := b.store.withoutUsages }

/-- The units compiled so far, with nothing recorded. -/
def Progress.withoutUsages (p : Progress) : Progress :=
  { p with entries := p.entries.mapValues Entry.withoutUsages }

theorem Progress.unit?_withoutUsages (p : Progress) :
    p.withoutUsages.unit? = fun name => (p.unit? name).map MappingUnit.withoutUsages := by
  funext name
  simp only [unit?, withoutUsages, OrderedMap.find?_mapValues, Option.map_map]
  rfl

namespace Compilation

/-- The compilation with nothing recorded, and not asked to. -/
def withoutUsages (c : Compilation) : Compilation :=
  { c with
    environment := c.environment.silent
    previous := c.previous.withoutUsages
    built := c.built.withoutUsages }

variable (c : Compilation) (p : Progress)

theorem dependencies_withoutUsages (source : Source.Mapping) :
    c.withoutUsages.dependencies p.withoutUsages source = c.dependencies p source := by
  have hprint : ∀ name, (p.withoutUsages.entries.find? name).map (·.fingerprint) =
      (p.entries.find? name).map (·.fingerprint) := by
    intro name
    simp only [Progress.withoutUsages, OrderedMap.find?_mapValues, Option.map_map]
    rfl
  simp only [dependencies, hprint]
  rfl

theorem unchanged?_withoutUsages (name fingerprint : String) :
    c.withoutUsages.unchanged? name fingerprint =
      (c.unchanged? name fingerprint).map Entry.withoutUsages := by
  have hkeeps : c.withoutUsages.keepsStore = c.keepsStore := rfl
  have hfind : c.withoutUsages.previous.units.find? name =
      (c.previous.units.find? name).map Entry.withoutUsages := OrderedMap.find?_mapValues _ _ _
  unfold unchanged?
  rw [hkeeps, hfind]
  split
  · rw [Option.filter_map]
    rfl
  · rfl

/-- A unit keeps its state in both runs or in none, and is resolved to the same but for the usages. -/
theorem freshOrUnchanged_withoutUsages (source : Source.Mapping) :
    c.withoutUsages.freshOrUnchanged p.withoutUsages source =
      Entry.withoutUsages <$> c.freshOrUnchanged p source := by
  unfold freshOrUnchanged
  simp only [dependencies_withoutUsages, unchanged?_withoutUsages, Progress.unit?_withoutUsages]
  cases c.unchanged? source.name.value (Fingerprint.combine (c.dependencies p source)) with
  | some entry => rfl
  | none =>
    refine bind_eq_map (MappingUnit.resolve_silent c.environment p.unit? source) fun unit _ => ?_
    rfl

theorem compileUnit_withoutUsages (source : Source.Mapping) :
    c.withoutUsages.compileUnit p.withoutUsages source =
      Entry.withoutUsages <$> c.compileUnit p source := by
  unfold compileUnit
  refine bind_congr_map fun _ _ => ?_
  rw [show blocker? p.withoutUsages source = blocker? p source from rfl]
  cases blocker? p source with
  | some blocker => rfl
  | none => exact c.freshOrUnchanged_withoutUsages p source

/-- One step of the compilation: the same unit goes on, or fails with the same diagnostics. -/
theorem advance_withoutUsages (name : String) :
    c.withoutUsages.advance p.withoutUsages name = (c.advance p name).withoutUsages := by
  have hsources : c.withoutUsages.sources = c.sources := rfl
  have hprevious : c.withoutUsages.previous.units.find? name =
      (c.previous.units.find? name).map Entry.withoutUsages := OrderedMap.find?_mapValues _ _ _
  unfold advance
  rw [hsources]
  cases c.sources.find? name with
  | none => rfl
  | some source =>
    simp only [compileUnit_withoutUsages]
    cases c.compileUnit p source with
    | ok entry => simp [Progress.withoutUsages, Functor.map, Except.map, OrderedMap.mapValues_insert]
    | error failure =>
      simp only [Functor.map, Except.map, retain, hprevious]
      cases c.previous.units.find? name with
      | none => rfl
      | some entry => simp [Progress.withoutUsages, OrderedMap.mapValues_insert]

/-- The run of the compilation. -/
theorem run_withoutUsages : c.withoutUsages.run = c.run.withoutUsages := by
  have hsteps : ∀ (names : List String) (p : Progress),
      names.foldl c.withoutUsages.advance p.withoutUsages =
        (names.foldl c.advance p).withoutUsages := by
    intro names
    induction names with
    | nil => exact fun _ => rfl
    | cons name rest ih =>
      intro p
      rw [List.foldl_cons, List.foldl_cons, advance_withoutUsages, ih]
  exact hsteps c.graph.compileOrder {}

end Compilation

/-! ## Workspaces -/

namespace Workspace

variable (w : Workspace)

theorem buildStore_withoutUsages :
    w.withoutUsages.buildStore = BuiltStore.withoutUsages <$> w.buildStore := by
  have hprint : w.withoutUsages.storeFingerprint = w.storeFingerprint := rfl
  have hkept : w.withoutUsages.snapshot.storeFingerprint = w.snapshot.storeFingerprint := rfl
  unfold buildStore
  simp only [hprint, hkept]
  split
  · rfl
  · have hbuild : Store.build w.withoutUsages.settings w.withoutUsages.databases.values =
        Store.withoutUsages <$> Store.build w.settings w.databases.values :=
      Store.build_silent w.settings w.databases.values
    rw [hbuild]
    cases Store.build w.settings w.databases.values with
    | error failure => rfl
    | ok store => rfl

theorem compile_withoutUsages :
    w.withoutUsages.compile = (w.compile.1.withoutUsages, w.compile.2) := by
  cases hbuild : w.buildStore with
  | error failure =>
    have hsilent : w.withoutUsages.buildStore = .error failure := by
      rw [buildStore_withoutUsages, hbuild]
      rfl
    rw [compile_of_buildStore_error hbuild, compile_of_buildStore_error hsilent]
  | ok built =>
    have hsilent : w.withoutUsages.buildStore = .ok built.withoutUsages := by
      rw [buildStore_withoutUsages, hbuild]
      rfl
    have hrun : (w.withoutUsages.compilation built.withoutUsages).run =
        (w.compilation built).run.withoutUsages :=
      (w.compilation built).run_withoutUsages
    rw [compile_of_buildStore hbuild, compile_of_buildStore hsilent, hrun]
    rfl

/-- One action does the same with and without usages. -/
theorem act_withoutUsages (action : Action) :
    w.withoutUsages.act action = (w.act action).withoutUsages := by
  cases action with
  | compile => simp only [act, compile_withoutUsages]
  | _ => rfl

/-- One action answers the same with and without usages. -/
theorem answer_withoutUsages (action : Action) :
    w.withoutUsages.answer action = (w.answer action).withoutUsages := by
  cases action with
  | compile => simp only [answer, compile_withoutUsages, Answer.withoutUsages]; rfl
  | _ => rfl

theorem answers_withoutUsages (actions : List Action) :
    w.withoutUsages.answers actions = (w.answers actions).map Answer.withoutUsages := by
  induction actions generalizing w with
  | nil => rfl
  | cons action rest ih =>
    rw [answers, answers, answer_withoutUsages, act_withoutUsages, ih, List.map_cons]

/-- Of two runs that differ in whether usages are recorded, the one that does not record them answers what
the other one answers, without the usages: it rejects and commits the same, fails for the same units with
the same diagnostics, reuses the same states, and has the same in them. No usage is kept in it. -/
theorem recording_does_not_interfere (model : ObjectModel) (settings : ResolutionSettings)
    (actions : List Action) :
    let recording := new model { settings with recordUsages := true }
    let silent := new model { settings with recordUsages := false }
    silent.answers actions = (recording.answers actions).map Answer.withoutUsages ∧
      silent.run actions = (recording.run actions).withoutUsages ∧
      ∀ outcome snapshot, .compiled outcome snapshot ∈ silent.answers actions → snapshot.Silent := by
  intro recording silent
  have hstart : silent = recording.withoutUsages := rfl
  have hanswers : silent.answers actions = (recording.answers actions).map Answer.withoutUsages := by
    rw [hstart, answers_withoutUsages]
  refine ⟨hanswers, ?_, ?_⟩
  · rw [hstart]
    clear hanswers hstart
    generalize recording = w
    induction actions generalizing w with
    | nil => rfl
    | cons action rest ih => rw [run_cons, run_cons, act_withoutUsages, ih]
  · intro outcome snapshot hmem
    rw [hanswers] at hmem
    rcases List.mem_map.1 hmem with ⟨answer, -, hanswer⟩
    cases answer with
    | compiled outcome' snapshot' =>
      cases hanswer
      exact snapshot'.silent_withoutUsages
    | _ => cases hanswer

/-- The database `b` includes the database `a`. -/
def includingRun : List Action := [
  .upsertDatabase { name := ⟨"a", {}⟩ },
  .upsertDatabase { name := ⟨"b", {}⟩, includes := [⟨"a", {}⟩] },
  .compile]

/-- The use of `a` is recorded if it is asked for; the store is the same. -/
theorem recording_does_not_interfere_of_including :
    let recording := (new (.ofDefinition {}) { recordUsages := true }).run includingRun
    let silent := (new (.ofDefinition {}) { recordUsages := false }).run includingRun
    recording.snapshot.store.usages.spansOf (.database "a") = [{}] ∧
      silent.snapshot.store = recording.snapshot.store.withoutUsages := by
  have hruns := (recording_does_not_interfere (.ofDefinition {}) {} includingRun).2.1
  constructor
  · decide +kernel
  · exact congrArg (fun w : Workspace => w.snapshot.store) hruns

end Workspace

end ObjectRelational
