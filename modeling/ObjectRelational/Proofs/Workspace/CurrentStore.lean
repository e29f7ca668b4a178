import ObjectRelational.Proofs.Workspace.Bounds
import ObjectRelational.Proofs.Workspace.Retention

/-!
# Which store a unit holds

A store that is built is a new object, also when it is built from the databases that an older one was
built from. A unit that is resolved holds the store of the snapshot, and goes on to hold it as long as
the store is kept. A unit that fails when a store is built goes on with an older one; when it no longer
fails, it may be found unchanged, and then it still does.

* `builder?`: the commit of a run that built a store.
* `StoresTraced`: a state holds the store of its snapshot, unless its unit failed when that store was
  built. `storesTraced_run`: so it is along every run.
* `Workspace.store_current`: what this says of the units that do not fail. An older store that such a
  unit holds is equal to the one of the snapshot.
* `Workspace.not_all_current`: but it is not the very store.
-/

namespace ObjectRelational

open Fingerprint

/-- The first commit whose snapshot holds the store of a revision: the one that built it. -/
def builder? (commits : List Commit) (revision : Nat) : Option Commit :=
  commits.find? fun c => c.snapshot.storeRevision = revision

theorem builder?_append {commits : List Commit} {revision : Nat} {builder : Commit}
    (h : builder? commits revision = some builder) (last : Commit) :
    builder? (commits ++ [last]) revision = some builder := by
  unfold builder? at h ⊢
  rw [List.find?_append, h, Option.some_or]

/-- A commit that has a newer store than all others built it. -/
theorem builder?_append_self {commits : List Commit} {last : Commit}
    (h : ∀ c ∈ commits, c.snapshot.storeRevision < last.snapshot.storeRevision) :
    builder? (commits ++ [last]) last.snapshot.storeRevision = some last := by
  unfold builder?
  rw [List.find?_append, List.find?_eq_none.2 fun c hc => by simpa using (h c hc).ne]
  simp

/-- The states of a snapshot hold its store, but for units that failed when that store was built. -/
def Snapshot.StoresTraced (commits : List Commit) (snapshot : Snapshot) : Prop :=
  ∀ name entry, snapshot.units.find? name = some entry →
    entry.storeRevision = snapshot.storeRevision ∨
      ∃ builder, builder? commits snapshot.storeRevision = some builder ∧ builder.Failed name

/-- The store of every commit was built by one of the compilations so far. -/
structure Numbered (commits : List Commit) (w : Workspace) : Prop where
  commits : ∀ c ∈ commits, c.snapshot.storeRevision ≤ w.compilations
  snapshot : w.snapshot.storeRevision ≤ w.compilations

namespace Compilation

variable {c : Compilation} {name : String} {entry : Entry}

/-- A state is that of a unit that failed, or it was there before and the store is kept, or it holds the
store of the compilation. -/
theorem state_of_run (hregular : c.Regular) (hentry : c.run.entries.find? name = some entry) :
    (c.previous.units.find? name = some entry ∧
      (c.keepsStore = true ∨ ∃ failure, ⟨name, failure⟩ ∈ c.run.failures)) ∨
    entry.storeRevision = c.built.revision := by
  cases hsource : c.sources.find? name with
  | none => simp [(run_of_absent hregular hsource).1] at hentry
  | some source =>
    have hkept := run_find? hregular hsource
    rw [hentry] at hkept
    cases hcompile : c.compileUnit c.run source with
    | error failure =>
      rw [hcompile] at hkept
      exact .inl ⟨hkept.symm, .inr ⟨failure, (mem_failures_run_iff hregular hsource).2 hcompile⟩⟩
    | ok compiled =>
      rw [hcompile] at hkept
      obtain rfl : entry = compiled := Option.some.inj hkept
      have hfresh := (clear_of_compileUnit_eq_ok hcompile).2.2
      cases hunchanged : c.unchanged? source.name.value
          (combine (c.dependencies c.run source)) with
      | some old =>
        rw [freshOrUnchanged_of_some hunchanged] at hfresh
        obtain rfl := Except.ok.inj hfresh
        obtain ⟨hkeeps, hold, -⟩ := unchanged?_eq_some_iff.1 hunchanged
        rw [hregular.keyed name source hsource] at hold
        exact .inl ⟨hold, .inl hkeeps⟩
      | none =>
        rw [freshOrUnchanged_of_none hunchanged] at hfresh
        obtain ⟨unit, -, rfl⟩ := map_eq_ok_iff.1 hfresh
        exact .inr rfl

end Compilation

namespace Workspace

variable {w : Workspace} {built : BuiltStore} {commits : List Commit}

/-- The store of a compilation is the one there is, or it is built by that compilation. -/
theorem revision_of_buildStore (h : w.buildStore = .ok built) :
    ((w.compilation built).keepsStore = true ∧ built.revision = w.snapshot.storeRevision) ∨
      ((w.compilation built).keepsStore = false ∧ built.revision = w.compilations + 1) := by
  have hprint := fingerprint_of_buildStore h
  unfold buildStore at h
  simp only [Compilation.keepsStore, compilation, hprint] at h ⊢
  split at h
  · rename_i hsame
    obtain rfl := Except.ok.inj h
    exact .inl ⟨by simpa using hsame, rfl⟩
  · rename_i hother
    obtain ⟨store, -, rfl⟩ := map_eq_ok_iff.1 h
    exact .inr ⟨by simpa using hother, rfl⟩

/-- A compilation that has a store is committed. -/
theorem commit?_of_buildStore (h : w.buildStore = .ok built) :
    w.commit? .compile = some ⟨w.mappings, (w.compilation built).run.failures,
      snapshotOf built (w.compilation built).run⟩ := by
  unfold commit?
  rw [compile_of_buildStore h]

/-- A compilation that has none changes nothing. -/
theorem act_of_buildStore_error {failure : Failure} (h : w.buildStore = .error failure) :
    w.commit? .compile = none ∧ w.act .compile = w := by
  unfold commit? act
  rw [compile_of_buildStore_error h]
  exact ⟨rfl, rfl⟩

theorem numbered_act (h : Numbered commits w) (action : Action) :
    Numbered (commits ++ (w.commit? action).toList) (w.act action) := by
  cases action with
  | compile =>
    cases hbuild : w.buildStore with
    | error failure =>
      obtain ⟨hnone, hself⟩ := act_of_buildStore_error hbuild
      rw [hnone, hself]
      simpa using h
    | ok built =>
      rw [commit?_of_buildStore hbuild, act, compile_of_buildStore hbuild]
      have hrevision : built.revision ≤ w.compilations + 1 := by
        have hbound := h.snapshot
        rcases revision_of_buildStore hbuild with ⟨-, hsame⟩ | ⟨-, hnew⟩ <;> omega
      refine ⟨fun c hc => ?_, hrevision⟩
      rcases List.mem_append.1 hc with hbefore | hlast
      · exact Nat.le_succ_of_le (h.commits c hbefore)
      · rw [Option.toList_some, List.mem_singleton] at hlast
        rw [hlast]
        exact hrevision
  | upsertDatabase _ | removeDatabase _ | upsertMapping _ | removeMapping _ =>
    simpa [commit?, act] using ⟨h.commits, h.snapshot⟩

/-- What a compilation commits is traced when what it found was. -/
theorem storesTraced_compile (hw : w.Keyed) (hnumbered : Numbered commits w)
    (h : w.snapshot.StoresTraced commits) (hbuild : w.buildStore = .ok built) :
    w.compile.1.snapshot.StoresTraced (commits ++ (w.commit? .compile).toList) := by
  rw [commit?_of_buildStore hbuild, snapshot_of_buildStore hbuild]
  intro name entry hentry
  rcases Compilation.state_of_run (hw.regular built) hentry with ⟨hold, hwhy⟩ | hnew
  · rcases revision_of_buildStore hbuild with ⟨-, hrevision⟩ | ⟨hbuilt, hrevision⟩
    · -- the store is kept, and so is the commit that built it
      simp only [snapshotOf, hrevision]
      refine (h name entry hold).imp_right ?_
      rintro ⟨builder, hbuilder, hfailed⟩
      exact ⟨builder, builder?_append hbuilder _, hfailed⟩
    · -- the store is built now, so only a unit that failed goes on with the state that it had
      obtain hkeeps | hfailed := hwhy
      · simp [hbuilt] at hkeeps
      · refine .inr ⟨_, builder?_append_self fun c hc => ?_, hfailed⟩
        have hbound := hnumbered.commits c hc
        simp only [snapshotOf, hrevision]
        omega
  · exact .inl hnew

theorem storesTraced_act (hw : w.Keyed) (hnumbered : Numbered commits w)
    (h : w.snapshot.StoresTraced commits) (action : Action) :
    (w.act action).snapshot.StoresTraced (commits ++ (w.commit? action).toList) := by
  cases action with
  | compile =>
    cases hbuild : w.buildStore with
    | error failure =>
      obtain ⟨hnone, hself⟩ := act_of_buildStore_error hbuild
      rw [hnone, hself]
      simpa using h
    | ok built => exact storesTraced_compile hw hnumbered h hbuild
  | upsertDatabase _ | removeDatabase _ | upsertMapping _ | removeMapping _ =>
    simpa [commit?, act, upsertDatabase, removeDatabase, upsertMapping, removeMapping] using h

/-- Along every run the states of the snapshot hold its store, but for units that failed when that store
was built. -/
theorem storesTraced_run (model : ObjectModel) (settings : ResolutionSettings)
    (actions : List Action) :
    Numbered ((new model settings).commits actions) ((new model settings).run actions) ∧
      ((new model settings).run actions).snapshot.StoresTraced
        ((new model settings).commits actions) := by
  induction actions using List.reverseRecOn with
  | nil => exact ⟨⟨by simp [Workspace.commits], Nat.zero_le _⟩, by simp [Snapshot.StoresTraced, new]⟩
  | append_singleton before action ih =>
    obtain ⟨hnumbered, htraced⟩ := ih
    rw [commits_append, run_append]
    have hkeyed := keyed_run model settings before
    exact ⟨by simpa [Workspace.commits] using numbered_act hnumbered action,
      by simpa [Workspace.commits] using storesTraced_act hkeyed hnumbered htraced action⟩

/-- A unit that a compilation does not report as failing holds the very store of the new snapshot,
provided that it did not fail when that store was built either. In any case the store that it holds is
equal to that of the snapshot, when nothing that the run hashes collides. -/
theorem store_current (model : ObjectModel) (settings : ResolutionSettings) (actions : List Action)
    (failures : List UnitFailure)
    (hcommitted : ((new model settings).run actions).compile.2 = .committed failures) :
    let snapshot := ((new model settings).run actions).compile.1.snapshot
    let commits := (new model settings).commits (actions ++ [.compile])
    ∀ name entry, snapshot.units.find? name = some entry →
      (∀ failure, ⟨name, failure⟩ ∉ failures) →
      ((∀ builder, builder? commits snapshot.storeRevision = some builder → ¬ builder.Failed name) →
        entry.storeRevision = snapshot.storeRevision) ∧
      (NoCollision ((new model settings).hashedAlong (actions ++ [.compile])) →
        entry.unit.store = snapshot.store) := by
  intro snapshot commits name entry hentry hname
  have hsnapshot : snapshot = ((new model settings).run (actions ++ [.compile])).snapshot := by
    rw [run_append, run_cons, run_nil, act]
  refine ⟨fun hbuilt => ?_, fun hmessages => ?_⟩
  · have htraced := (storesTraced_run model settings (actions ++ [.compile])).2
    rw [← hsnapshot] at htraced
    rcases htraced name entry hentry with hcurrent | ⟨builder, hbuilder, hfailed⟩
    · exact hcurrent
    · exact absurd hfailed (hbuilt builder hbuilder)
  · obtain ⟨built, hbuild, rfl⟩ := buildStore_of_committed hcommitted
    obtain ⟨hsound, hhashed⟩ := sound_before_compile hmessages
    have hregular := (keyed_run model settings actions).regular built
    have hcompiled : snapshot =
        snapshotOf built (((new model settings).run actions).compilation built).run :=
      snapshot_of_buildStore hbuild
    rw [hcompiled] at hentry ⊢
    have hunit : (((new model settings).run actions).compilation built).run.unit? name =
        some entry.unit := Option.map_eq_some_iff.2 ⟨entry, hentry, rfl⟩
    obtain ⟨-, hsettled⟩ := Compilation.settled_of_not_failed hmessages hregular
      (grounded hmessages hsound hhashed hbuild)
      (List.Subset.trans (hashed_subset hbuild) hhashed) hunit hname
    obtain ⟨source, -, hresolve⟩ := hsettled.resolves
    obtain ⟨s, hresolved⟩ := MappingUnit.resolvedFrom_of_resolve hresolve
    exact hresolved.store

/-- The unit `m` is compiled before there is a database. -/
def extendedRun : List Action :=
  [.upsertMapping { name := ⟨"m", {}⟩ }, .compile, .upsertDatabase { name := ⟨"e", {}⟩ }]

/-- When it is compiled with a database, it holds the store of the second compilation. -/
theorem store_current_of_extended :
    ∃ entry, ((new (.ofDefinition {}) {}).run extendedRun).compile.1.snapshot.units.find? "m" =
        some entry ∧ entry.storeRevision = 2 := by
  have hanswer :
      ((new (.ofDefinition {}) {}).run extendedRun).compile.2 = .committed [] ∧
      ((new (.ofDefinition {}) {}).run extendedRun).compile.1.snapshot.storeRevision = 2 ∧
      (((new (.ofDefinition {}) {}).run extendedRun).compile.1.snapshot.units.find? "m").isSome ∧
      (builder? ((new (.ofDefinition {}) {}).commits (extendedRun ++ [.compile])) 2).map
        (·.failures) = some [] := by
    decide +kernel
  obtain ⟨hcommitted, hrevision, hpresent, hbuilders⟩ := hanswer
  obtain ⟨entry, hentry⟩ := Option.isSome_iff_exists.1 hpresent
  refine ⟨entry, hentry, ?_⟩
  rw [← hrevision]
  refine (store_current (.ofDefinition {}) {} extendedRun [] hcommitted "m" entry hentry
    (by simp)).1 fun builder hbuilder => ?_
  rw [hrevision] at hbuilder
  rw [hbuilder] at hbuilders
  simp [Commit.Failed, Option.some.inj hbuilders]

/-- The unit `m` is compiled, fails while a database is added and removed again, and gets its source
back. -/
def restoredRun : List Action :=
  [.upsertMapping { name := ⟨"m", {}⟩ }, .compile, .upsertDatabase { name := ⟨"e", {}⟩ },
    .upsertMapping { name := ⟨"m", {}⟩, includes := [{ mapping := ⟨"n", {}⟩ }] }, .compile,
    .removeDatabase "e", .compile, .upsertMapping { name := ⟨"m", {}⟩ }]

/-- Compiled then, it does not fail, but holds the store of the first compilation, while the snapshot has
that of the third. -/
theorem not_all_current :
    ¬ ∀ (model : ObjectModel) (settings : ResolutionSettings) (actions : List Action)
      (failures : List UnitFailure),
      ((new model settings).run actions).compile.2 = .committed failures →
      ∀ name entry,
        ((new model settings).run actions).compile.1.snapshot.units.find? name = some entry →
        (∀ failure, ⟨name, failure⟩ ∉ failures) →
        entry.storeRevision =
          ((new model settings).run actions).compile.1.snapshot.storeRevision := by
  intro h
  have hanswer :
      ((new (.ofDefinition {}) {}).run restoredRun).compile.2 = .committed [] ∧
      (((new (.ofDefinition {}) {}).run restoredRun).compile.1.snapshot.units.find? "m").map
        (·.storeRevision) = some 1 ∧
      ((new (.ofDefinition {}) {}).run restoredRun).compile.1.snapshot.storeRevision = 3 := by
    decide +kernel
  obtain ⟨hcommitted, hheld, hrevision⟩ := hanswer
  obtain ⟨entry, hentry, hone⟩ := Option.map_eq_some_iff.1 hheld
  have hcurrent := h _ _ _ _ hcommitted "m" entry hentry (by simp)
  rw [hone, hrevision] at hcurrent
  cases hcurrent

end Workspace

end ObjectRelational
