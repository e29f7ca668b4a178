import Mathlib.Data.List.Induction
import ObjectRelational.Proofs.Workspace.Run

/-!
# What a workspace retains

A unit that fails keeps the state that it had, and a unit that is removed loses it. So the state of a
unit is always the one that it got when it last compiled, unless it was missing since.

* `Workspace.commits` are the compilations of a run that were committed.
* `HeldSince`: a unit compiled then, has not compiled since, and was never missing since.
* `retained_run`: the snapshot holds the states of those compilations, and no other.
* `answers_of_rejected`: a compilation that is rejected leaves nothing behind.
-/

namespace ObjectRelational

/-- A compilation that was committed. -/
structure Commit where
  /-- The sources that it found. -/
  sources : OrderedMap String Source.Mapping
  /-- The failures that it reported. -/
  failures : List UnitFailure
  /-- The snapshot that it left. -/
  snapshot : Snapshot

namespace Commit

/-- The unit of a name was among the sources. -/
def Present (c : Commit) (name : String) : Prop := ∃ source, c.sources.find? name = some source

/-- The unit of a name was reported as failing. -/
def Failed (c : Commit) (name : String) : Prop := ∃ failure, ⟨name, failure⟩ ∈ c.failures

/-- The unit of a name was among the sources and did not fail. -/
def Compiled (c : Commit) (name : String) : Prop := c.Present name ∧ ¬ c.Failed name

end Commit

/-- The unit of a name compiled at a commit, at none since, and was among the sources at all since. -/
def HeldSince (commits : List Commit) (name : String) (good : Commit) : Prop :=
  ∃ before since, commits = before ++ good :: since ∧ good.Compiled name ∧
    (∀ later ∈ since, ¬ later.Compiled name) ∧ ∀ later ∈ since, later.Present name

/-- The snapshot holds of a unit what was committed when it last compiled, or nothing. -/
def Retained (commits : List Commit) (snapshot : Snapshot) (name : String) : Prop :=
  (∀ good, HeldSince commits name good → ∃ entry,
    good.snapshot.units.find? name = some entry ∧ snapshot.units.find? name = some entry) ∧
  ((∀ good, ¬ HeldSince commits name good) → snapshot.units.find? name = none)

namespace Workspace

/-- What an action commits. -/
def commit? (w : Workspace) : Action → Option Commit
  | .compile =>
    match w.compile.2 with
    | .rejected _ => none
    | .committed failures => some ⟨w.mappings, failures, w.compile.1.snapshot⟩
  | _ => none

/-- The compilations of a run that were committed, the oldest first. -/
def commits (w : Workspace) : List Action → List Commit
  | [] => []
  | action :: rest => (w.commit? action).toList ++ (w.act action).commits rest

theorem commit?_of_committed {w : Workspace} {failures : List UnitFailure}
    (h : w.compile.2 = .committed failures) :
    w.commit? .compile = some ⟨w.mappings, failures, w.compile.1.snapshot⟩ := by
  unfold commit?
  rw [h]

theorem commit?_of_rejected {w : Workspace} {failure : Failure}
    (h : w.compile.2 = .rejected failure) : w.commit? .compile = none := by
  unfold commit?
  rw [h]

theorem commits_append (w : Workspace) (first second : List Action) :
    w.commits (first ++ second) = w.commits first ++ (w.run first).commits second := by
  induction first generalizing w with
  | nil => rfl
  | cons action rest ih => simp [commits, ih]

end Workspace

/-! ## One more commit -/

variable {commits : List Commit} {last good : Commit} {name : String}

/-- The last commit of a run is the one that is looked at, or comes behind it. -/
theorem append_singleton_eq_split {before since : List Commit}
    (h : commits ++ [last] = before ++ good :: since) :
    (good = last ∧ since = []) ∨
      ∃ rest, since = rest ++ [last] ∧ commits = before ++ good :: rest := by
  rcases List.eq_nil_or_concat since with rfl | ⟨rest, latest, rfl⟩
  · have hlast := List.append_inj_right' h rfl
    exact .inl ⟨by simpa using hlast.symm, rfl⟩
  · have h' : commits ++ [last] = (before ++ good :: rest) ++ [latest] := by simpa using h
    have hlatest : last = latest := by simpa using List.append_inj_right' h' rfl
    exact .inr ⟨rest, by simp [hlatest], List.append_inj_left' h' rfl⟩

/-- A unit that compiles is held since then. -/
theorem heldSince_append_iff_of_compiled (hlast : last.Compiled name) :
    HeldSince (commits ++ [last]) name good ↔ good = last := by
  constructor
  · rintro ⟨before, since, hsplit, -, hnever, -⟩
    rcases append_singleton_eq_split hsplit with ⟨hgood, -⟩ | ⟨rest, rfl, -⟩
    · exact hgood
    · exact absurd hlast (hnever last (by simp))
  · rintro rfl
    exact ⟨commits, [], rfl, hlast, by simp, by simp⟩

/-- A unit that fails is held since the same commit as before. -/
theorem heldSince_append_iff_of_failed (hpresent : last.Present name) (hfailed : last.Failed name) :
    HeldSince (commits ++ [last]) name good ↔ HeldSince commits name good := by
  constructor
  · rintro ⟨before, since, hsplit, hgood, hnever, hthere⟩
    rcases append_singleton_eq_split hsplit with ⟨rfl, -⟩ | ⟨rest, rfl, rfl⟩
    · exact absurd hfailed hgood.2
    · refine ⟨before, rest, rfl, hgood, ?_, ?_⟩
      · intro later hlater
        exact hnever later (by simp [hlater])
      · intro later hlater
        exact hthere later (by simp [hlater])
  · rintro ⟨before, since, rfl, hgood, hnever, hthere⟩
    refine ⟨before, since ++ [last], by simp, hgood, ?_, ?_⟩
    · intro later hlater
      rcases List.mem_append.1 hlater with hsince | hlast
      · exact hnever later hsince
      · rw [List.mem_singleton.1 hlast]
        exact fun h => h.2 hfailed
    · intro later hlater
      rcases List.mem_append.1 hlater with hsince | hlast
      · exact hthere later hsince
      · rw [List.mem_singleton.1 hlast]
        exact hpresent

/-- A unit that is missing is not held any more. -/
theorem not_heldSince_append_of_absent (habsent : ¬ last.Present name) :
    ¬ HeldSince (commits ++ [last]) name good := by
  rintro ⟨before, since, hsplit, hgood, -, hthere⟩
  rcases append_singleton_eq_split hsplit with ⟨rfl, -⟩ | ⟨rest, rfl, -⟩
  · exact habsent hgood.1
  · exact habsent (hthere last (by simp))

/-- What a commit does about one unit, given the snapshot that it found. -/
structure Commit.Follows (last : Commit) (previous : Snapshot) (name : String) : Prop where
  compiled : last.Compiled name → ∃ entry, last.snapshot.units.find? name = some entry
  failed : last.Present name → last.Failed name →
    last.snapshot.units.find? name = previous.units.find? name
  absent : ¬ last.Present name → last.snapshot.units.find? name = none

/-- One more commit retains what was retained. -/
theorem Retained.append {previous : Snapshot} (h : Retained commits previous name)
    (hlast : last.Follows previous name) :
    Retained (commits ++ [last]) last.snapshot name := by
  by_cases hpresent : last.Present name
  · by_cases hfailed : last.Failed name
    · -- the unit fails: all is as it was
      unfold Retained
      rw [hlast.failed hpresent hfailed]
      simp only [heldSince_append_iff_of_failed hpresent hfailed]
      exact h
    · -- the unit compiles: this is the commit to look at from now on
      have hcompiled : last.Compiled name := ⟨hpresent, hfailed⟩
      rcases hlast.compiled hcompiled with ⟨entry, hentry⟩
      refine ⟨?_, ?_⟩
      · intro good hgood
        rw [(heldSince_append_iff_of_compiled hcompiled).1 hgood]
        exact ⟨entry, hentry, hentry⟩
      · intro hnever
        exact absurd ((heldSince_append_iff_of_compiled hcompiled).2 rfl) (hnever last)
  · refine ⟨?_, ?_⟩
    · intro good hgood
      exact absurd hgood (not_heldSince_append_of_absent hpresent)
    · intro _
      exact hlast.absent hpresent

/-! ## One more action -/

namespace Workspace

/-- What a compilation commits follows on the snapshot that it found. -/
theorem Keyed.follows {w : Workspace} (hw : w.Keyed) {built : BuiltStore} (name : String) :
    Commit.Follows ⟨w.mappings, (w.compilation built).run.failures,
      snapshotOf built (w.compilation built).run⟩ w.snapshot name := by
  have hregular := hw.regular built
  refine ⟨?_, ?_, ?_⟩
  · rintro ⟨⟨source, hsource⟩, hfailed⟩
    have hentry := Compilation.run_find? hregular hsource
    cases h : (w.compilation built).compileUnit (w.compilation built).run source with
    | ok entry =>
      rw [h] at hentry
      exact ⟨entry, hentry⟩
    | error failure =>
      exact absurd ⟨failure, (Compilation.mem_failures_run_iff hregular hsource).2 h⟩ hfailed
  · rintro ⟨source, hsource⟩ ⟨failure, hfailure⟩
    have hentry := Compilation.run_find? hregular hsource
    rw [(Compilation.mem_failures_run_iff hregular hsource).1 hfailure] at hentry
    exact hentry
  · intro habsent
    have hsource : w.mappings.find? name = none := by
      cases hfound : w.mappings.find? name with
      | none => rfl
      | some source => exact absurd ⟨source, hfound⟩ habsent
    exact (Compilation.run_of_absent hregular hsource).1

theorem retained_act {w : Workspace} (hw : w.Keyed) {commits : List Commit} {name : String}
    (h : Retained commits w.snapshot name) (action : Action) :
    Retained (commits ++ (w.commit? action).toList) (w.act action).snapshot name := by
  cases action with
  | compile =>
    cases hbuild : w.buildStore with
    | error failure =>
      have hcompile := compile_of_buildStore_error hbuild
      have hrejected : w.compile.2 = .rejected failure := by rw [hcompile]
      rw [commit?_of_rejected hrejected, act, hcompile]
      simpa using h
    | ok built =>
      have hcompile := compile_of_buildStore hbuild
      have hcommitted : w.compile.2 = .committed (w.compilation built).run.failures := by
        rw [hcompile]
      rw [commit?_of_committed hcommitted, act, hcompile]
      exact h.append (hw.follows name)
  | upsertDatabase _ | removeDatabase _ | upsertMapping _ | removeMapping _ =>
    simpa [commit?, act, upsertDatabase, removeDatabase, upsertMapping, removeMapping] using h

/-- Along every run a snapshot holds the state that a unit had when it last compiled, and holds none
where the unit never compiled or was missing since. -/
theorem retained_run (model : ObjectModel) (settings : ResolutionSettings) (actions : List Action)
    (name : String) :
    Retained ((new model settings).commits actions) ((new model settings).run actions).snapshot
      name := by
  induction actions using List.reverseRecOn with
  | nil =>
    refine ⟨?_, ?_⟩
    · rintro good ⟨before, since, hsplit, -⟩
      simp [commits] at hsplit
    · intro _
      exact OrderedMap.find?_empty name
  | append_singleton before action ih =>
    rw [commits_append, run_append]
    simpa [commits] using retained_act (keyed_run model settings before) ih action

/-! ## Compilations that are rejected -/

/-- A compilation that is rejected may be left out: all other answers stay, and so does the workspace
at the end. -/
theorem answers_of_rejected {w : Workspace} {before : List Action} {failure : Failure}
    (h : (w.run before).compile.2 = .rejected failure) (after : List Action) :
    w.answers (before ++ .compile :: after) =
        w.answers before ++ .compiled (.rejected failure) (w.run before).snapshot ::
          (w.run before).answers after ∧
      w.answers (before ++ after) = w.answers before ++ (w.run before).answers after ∧
      w.run (before ++ .compile :: after) = w.run (before ++ after) := by
  have hself := compile_eq_self_of_rejected h
  refine ⟨?_, answers_append w before after, ?_⟩
  · rw [answers_append]
    simp [answers, answer, act, h, hself]
  · simp [act, hself]

/-- The last good state of every unit is retained along every run, and a compilation that is rejected
leaves nothing behind. -/
theorem last_good_state_retained (model : ObjectModel) (settings : ResolutionSettings)
    (actions : List Action) :
    (∀ name, Retained ((new model settings).commits actions)
      ((new model settings).run actions).snapshot name) ∧
    ∀ before after failure, actions = before ++ .compile :: after →
      ((new model settings).run before).compile.2 = .rejected failure →
      (new model settings).answers actions =
          (new model settings).answers before ++
            .compiled (.rejected failure) ((new model settings).run before).snapshot ::
              ((new model settings).run before).answers after ∧
        (new model settings).answers (before ++ after) =
          (new model settings).answers before ++ ((new model settings).run before).answers after ∧
        (new model settings).run actions = (new model settings).run (before ++ after) := by
  refine ⟨retained_run model settings actions, ?_⟩
  rintro before after failure rfl hrejected
  exact answers_of_rejected hrejected after

/-- The database `d` includes one that is missing, and is removed. The unit `m` compiles, and then
includes a unit that is missing. -/
def failingRun : List Action :=
  [.upsertDatabase { name := ⟨"d", {}⟩, includes := [⟨"e", {}⟩] }, .compile, .removeDatabase "d",
    .upsertMapping { name := ⟨"m", {}⟩ }, .compile,
    .upsertMapping { name := ⟨"m", {}⟩, includes := [{ mapping := ⟨"n", {}⟩ }] }, .compile]

/-- At the end of that run `m` has the state that it had when it compiled, and the first compilation,
which has no store, may be left out. -/
theorem last_good_state_retained_of_failing :
    (∃ entry,
      ((new (.ofDefinition {}) {}).run (failingRun.take 5)).snapshot.units.find? "m" = some entry ∧
      ((new (.ofDefinition {}) {}).run failingRun).snapshot.units.find? "m" = some entry) ∧
    (new (.ofDefinition {}) {}).run failingRun =
      (new (.ofDefinition {}) {}).run (failingRun.take 1 ++ failingRun.drop 2) := by
  rcases last_good_state_retained (.ofDefinition {}) {} failingRun with ⟨hretained, hrejected⟩
  generalize hw : new (.ofDefinition {}) {} = w at hretained hrejected ⊢
  have hfirst : (w.run (failingRun.take 1)).compile.2 =
      .rejected ⟨.unknownIncludedDatabase "d" "e", {}⟩ := by
    rw [← hw]
    decide +kernel
  have hsecond : (w.run (failingRun.take 4)).compile.2 = .committed [] := by
    rw [← hw]
    decide +kernel
  have hthird : (w.run (failingRun.take 6)).compile.2 =
      .committed [⟨"m", .unknownMapping "n" "m", {}⟩] := by
    rw [← hw]
    decide +kernel
  refine ⟨?_, (hrejected (failingRun.take 1) (failingRun.drop 2) _ rfl hfirst).2.2⟩
  have hcommits : w.commits failingRun =
      [⟨(w.run (failingRun.take 4)).mappings, [], (w.run (failingRun.take 5)).snapshot⟩,
        ⟨(w.run (failingRun.take 6)).mappings, [⟨"m", .unknownMapping "n" "m", {}⟩],
          (w.run failingRun).snapshot⟩] := by
    change ((w.run (failingRun.take 1)).commit? .compile).toList ++
      (((w.run (failingRun.take 4)).commit? .compile).toList ++
        (((w.run (failingRun.take 6)).commit? .compile).toList ++ [])) = _
    rw [commit?_of_rejected hfirst, commit?_of_committed hsecond, commit?_of_committed hthird]
    rfl
  have hheld : HeldSince (w.commits failingRun) "m"
      ⟨(w.run (failingRun.take 4)).mappings, [], (w.run (failingRun.take 5)).snapshot⟩ := by
    rw [hcommits]
    refine ⟨[], _, rfl, ⟨?_, ?_⟩, ?_, ?_⟩
    · simp [Commit.Present, failingRun, act, upsertMapping]
    · simp [Commit.Failed]
    · simp [Commit.Compiled, Commit.Failed]
    · simp [Commit.Present, failingRun, act, upsertMapping]
  exact (hretained "m").1 _ hheld

end Workspace

end ObjectRelational
