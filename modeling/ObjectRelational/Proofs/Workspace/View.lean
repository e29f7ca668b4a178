import ObjectRelational.Proofs.Mapping.View
import ObjectRelational.Proofs.Workspace.Failure
import ObjectRelational.Proofs.Workspace.History

/-!
# Includes in a snapshot

In a snapshot, a unit that did not fail has been resolved from the other states of the snapshot, and so
has everything that it includes. Units of one name behind its includes are therefore one unit, and what
an included unit shows is shown through the include.

* `Compilation.Settled`: the unit is the state of one that did not fail. `Settled.of_mem_includes`: so
  is all that it includes.
* `Settled.sameByName`, `Settled.lists`: what flattening needs, and what it gives.
* `Effective.Shows`, `Effective.ShowsSet`: the same mapping with its databases substituted.
* `includes_compose`: includes are views, and views compose.
-/

namespace ObjectRelational

open Fingerprint

/-! ## Settled units -/

namespace Compilation

/-- The unit is the state at the end of one that did not fail, and resolving it from the states at the
end gives it. -/
structure Settled (c : Compilation) (unit : MappingUnit) : Prop where
  state : c.run.unit? unit.name = some unit
  not_failed : ∀ failure, ⟨unit.name, failure⟩ ∉ c.run.failures
  resolves : ∃ source, c.sources.find? unit.name = some source ∧
    MappingUnit.resolve c.environment c.run.unit? source = .ok unit

variable {c : Compilation} {p : Progress} {name : String} {source : Source.Mapping}
  {messages : List (List UInt8)} {databases : List Source.Database} {unit : MappingUnit}

/-- A state that a unit gets, new or kept, is what resolving the unit gives. -/
theorem resolve_of_freshOrUnchanged (hmessages : NoCollision messages)
    (hc : c.Grounded messages databases)
    (hp : Sound messages c.environment.model c.environment.settings p.entries)
    (hsource : jsonBytes source.toJson ∈ messages)
    (hparts : partBytes (c.dependencies p source) ∈ messages) {entry : Entry}
    (h : c.freshOrUnchanged p source = .ok entry) :
    MappingUnit.resolve c.environment p.unit? source = .ok entry.unit := by
  cases hunchanged : c.unchanged? source.name.value (combine (c.dependencies p source)) with
  | some old =>
    rw [freshOrUnchanged_of_some hunchanged] at h
    obtain rfl := Except.ok.inj h
    obtain ⟨-, hold, hprint⟩ := unchanged?_eq_some_iff.1 hunchanged
    have hderived := hc.previous _ old hold
    rw [hprint] at hderived
    exact resolve_of_derived hmessages hc hp hsource hparts hderived
  | none =>
    rw [freshOrUnchanged_of_none hunchanged] at h
    obtain ⟨unit, hunit, rfl⟩ := map_eq_ok_iff.1 h
    exact hunit

section Settled

variable (hmessages : NoCollision messages) (hregular : c.Regular)
  (hc : c.Grounded messages databases) (hhashed : c.hashed ⊆ messages)
include hmessages hregular hc hhashed

/-- The state of a unit that did not fail is settled. -/
theorem settled_of_not_failed (hunit : c.run.unit? name = some unit)
    (hname : ∀ failure, ⟨name, failure⟩ ∉ c.run.failures) : unit.name = name ∧ c.Settled unit := by
  cases hsource : c.sources.find? name with
  | none => simp [Progress.unit?, (run_of_absent hregular hsource).1] at hunit
  | some source =>
    obtain ⟨entry, hcompile, hentry⟩ := exists_entry_of_not_failed hregular hsource hname
    obtain ⟨hvalid, hblocker, hfresh⟩ := clear_of_compileUnit_eq_ok hcompile
    obtain rfl : entry.unit = unit := by simpa [Progress.unit?, hentry] using hunit
    -- all that is hashed for the unit when its turn comes is hashed along the run
    obtain ⟨done, rest, horder⟩ :=
      List.append_of_mem (hregular.mem_order_iff.2 ⟨source, hsource⟩)
    have hagree := agreeOn_targets hregular horder hsource hvalid
    have hfor := List.Subset.trans (hashedFor_subset_hashed horder) hhashed
    rw [hashedFor_of_clear hsource hvalid (by rw [blocker?_congr hagree, hblocker]),
      dependencies_congr hagree] at hfor
    have hresolve := resolve_of_freshOrUnchanged hmessages hc (sound_run hc hhashed)
      (hfor (by simp)) (hfor (by simp)) hfresh
    obtain ⟨s, hresolved⟩ := MappingUnit.resolvedFrom_of_resolve hresolve
    have hunitName : entry.unit.name = name := by
      rw [hresolved.name, hregular.keyed name source hsource]
    refine ⟨hunitName, ?_, ?_, source, ?_, hresolve⟩
    · rw [hunitName]
      exact hunit
    · rw [hunitName]
      exact hname
    · rw [hunitName]
      exact hsource

/-- What a settled unit includes is settled. -/
theorem Settled.of_mem_includes (h : c.Settled unit) {i : IncludedUnit} (hi : i ∈ unit.includes) :
    c.Settled i.unit := by
  obtain ⟨source, hsource, hresolve⟩ := h.resolves
  obtain ⟨s, hresolved⟩ := MappingUnit.resolvedFrom_of_resolve hresolve
  obtain ⟨written, hwritten, hinclude⟩ := exists_of_mem_right hresolved.includes hi
  have hclear := (precedes_of_includes hregular h.not_failed
    ⟨source, hsource, List.mem_map.2 ⟨written, hwritten, rfl⟩⟩).2.2
  exact (settled_of_not_failed hmessages hregular hc hhashed
    (MappingUnit.unit_of_resolveInclude hinclude) hclear).2

/-- So is what its includes lead to. -/
theorem Settled.of_leads (h : c.Settled unit) {path : List IncludedUnit} {i : IncludedUnit}
    (hpath : Include.Leads unit.includes path i) : c.Settled i.unit := by
  induction hpath with
  | single hi => exact h.of_mem_includes hmessages hregular hc hhashed hi
  | snoc _ hinner ih =>
    have hincluded := ih.of_mem_includes hmessages hregular hc hhashed hinner
    exact hincluded

/-- Units of one name behind the includes of a settled unit are the state of that name. -/
theorem Settled.sameByName (h : c.Settled unit) : Include.SameByName unit.includes := by
  intro path i path' j hi hj hname
  have hstate := (h.of_leads hmessages hregular hc hhashed hi).state
  rw [hname, (h.of_leads hmessages hregular hc hhashed hj).state] at hstate
  exact (Option.some.inj hstate).symm

/-- A settled unit lists what the units that it includes list. -/
theorem Settled.lists (h : c.Settled unit) {i : IncludedUnit} (hi : i ∈ unit.includes) :
    unit.DistinctIds ∧ unit.Lists i := by
  obtain ⟨source, -, hresolve⟩ := h.resolves
  obtain ⟨s, hresolved⟩ := MappingUnit.resolvedFrom_of_resolve hresolve
  have hincluded := h.of_mem_includes hmessages hregular hc hhashed hi
  obtain ⟨source', -, hresolve'⟩ := hincluded.resolves
  obtain ⟨s', hresolved'⟩ := MappingUnit.resolvedFrom_of_resolve hresolve'
  exact ⟨hresolved.ids_nodup, MappingUnit.lists_of_leads
    (h.sameByName hmessages hregular hc hhashed) hresolved.flattened (.single hi) hresolved'.flattened⟩

end Settled

end Compilation

/-! ## Views -/

namespace Effective

/-- The second view shows the same mapping of the same unit as the first one, with a substitution
applied to every database. -/
structure Shows {α : Type} (s : Substitution) (e e' : Effective α) : Prop where
  declared : e'.declared = e.declared
  unit : e'.unit = e.unit
  substitute : ∀ d, e'.substitute d = s.apply (e.substitute d)

/-- The second view shows the same relational mapping as the first one, with a substitution applied to
the main table and to all property mappings. -/
structure ShowsSet (s : Substitution) (e e' : Effective SetImplementation) : Prop
    extends Shows s e e' where
  mainTable : e'.mainTable = e.mainTable.mapDatabase s.apply
  propertyMappings : e'.propertyMappings = mapDatabasesOfMappings s.apply e.propertyMappings

theorem shows_through {α : Type} (s : Substitution) (e : Effective α) : Shows s e (e.through s) :=
  ⟨rfl, rfl, substitute_through s e⟩

theorem showsSet_through (s : Substitution) (e : Effective SetImplementation) :
    ShowsSet s e (e.through s) :=
  ⟨shows_through s e, mainTable_through s e, propertyMappings_through s e⟩

end Effective

namespace Workspace

/-- When nothing that a run hashes collides, the snapshot of its last compilation holds what a unit that
did not fail includes; and under every id the unit shows what each unit that it includes shows under the
id, with the substitution of the include applied: for class mappings, for all relational mappings that
they are made of, and for association mappings. -/
theorem includes_compose (model : ObjectModel) (settings : ResolutionSettings)
    (actions : List Action) (failures : List UnitFailure)
    (hmessages : NoCollision ((new model settings).hashedAlong (actions ++ [.compile])))
    (hcommitted : ((new model settings).run actions).compile.2 = .committed failures) :
    let snapshot := ((new model settings).run actions).compile.1.snapshot
    ∀ name a, snapshot.unit? name = some a → (∀ failure, ⟨name, failure⟩ ∉ failures) →
      ∀ i ∈ a.includes, snapshot.unit? i.unit.name = some i.unit ∧
        (∀ x e, i.unit.classMapping? x = some e → ∃ e', a.classMapping? x = some e' ∧
          Effective.Shows i.substitution e e' ∧
          ∀ part ∈ e.declared.implementations,
            Effective.ShowsSet i.substitution (e.withDeclared part) (e'.withDeclared part)) ∧
        (∀ x e, i.unit.setImplementation? x = some e → ∃ e', a.setImplementation? x = some e' ∧
          Effective.ShowsSet i.substitution e e') ∧
        ∀ x m, i.unit.associationMapping? x = some m →
          a.associationMapping? x = some (m.mapDatabases i.substitution.apply) := by
  intro snapshot name a ha hname i hi
  rcases buildStore_of_committed hcommitted with ⟨built, hbuild, rfl⟩
  rcases sound_before_compile hmessages with ⟨hsound, hhashed⟩
  have hregular := (keyed_run model settings actions).regular built
  have hgrounded := grounded hmessages hsound hhashed hbuild
  have hsubset := List.Subset.trans (hashed_subset hbuild) hhashed
  have hunits : snapshot.unit? = (((new model settings).run actions).compilation built).run.unit? := by
    funext other
    unfold snapshot
    rw [compile_of_buildStore hbuild]
    rfl
  rw [hunits] at ha ⊢
  obtain ⟨-, hsettled⟩ :=
    Compilation.settled_of_not_failed hmessages hregular hgrounded hsubset ha hname
  obtain ⟨hids, hlists⟩ := hsettled.lists hmessages hregular hgrounded hsubset hi
  refine ⟨(hsettled.of_mem_includes hmessages hregular hgrounded hsubset hi).state, ?_, ?_, ?_⟩
  · intro x e he
    exact ⟨_, MappingUnit.classMapping?_through hids hlists he, Effective.shows_through _ _,
      fun part _ => Effective.showsSet_through _ (e.withDeclared part)⟩
  · intro x e he
    exact ⟨_, MappingUnit.setImplementation?_through hids hlists he, Effective.showsSet_through _ _⟩
  · intro x m hm
    exact MappingUnit.associationMapping?_through hids hlists hm

/-- The database `A` has a table, and `B` includes it. -/
def substitutedDatabases : List Source.Database :=
  [{ name := ⟨"A", {}⟩, schemas := [⟨⟨"default", {}⟩, [{ name := ⟨"T", {}⟩ }], []⟩] },
    { name := ⟨"B", {}⟩, includes := [⟨"A", {}⟩] }]

/-- A class is mapped to the table of `A`. -/
def includedSource : Source.Mapping where
  name := ⟨"inner", {}⟩
  classMappings := [{
    className := ⟨"Class", {}⟩
    body := .relational { mainTable := some ⟨⟨"A", {}⟩, none, ⟨"T", {}⟩⟩ } }]

/-- That unit is included with `B` in place of `A`. -/
def includingSource : Source.Mapping where
  name := ⟨"outer", {}⟩
  includes := [{ mapping := ⟨"inner", {}⟩, substitutions := [⟨⟨"A", {}⟩, ⟨"B", {}⟩⟩] }]

/-- Both units and databases are added. -/
def substitutingRun : List Action :=
  substitutedDatabases.map .upsertDatabase ++
    [.upsertMapping includedSource, .upsertMapping includingSource]

/-- There is one class. -/
def substitutedModel : ObjectModel := .ofDefinition { classes := [{ path := "Class" }] }

/-- What is hashed when these are compiled. -/
theorem hashedAlong_substitutingRun :
    let databases := Json.ofList Source.Database.toJson substitutedDatabases
    (new substitutedModel {}).hashedAlong (substitutingRun ++ [.compile]) =
      [jsonBytes databases, jsonBytes includedSource.toJson,
        partBytes [ofJson databases, ofJson includedSource.toJson],
        jsonBytes includingSource.toJson,
        partBytes [ofJson databases, ofJson includingSource.toJson,
          combine [ofJson databases, ofJson includedSource.toJson]]] := by
  with_unfolding_all rfl

theorem noCollision_substitutingRun :
    NoCollision ((new substitutedModel {}).hashedAlong (substitutingRun ++ [.compile])) := by
  rw [hashedAlong_substitutingRun]
  unfold NoCollision ofJson combine
  simp only [jsonBytes_eq, partBytes_eq]
  decide +kernel

/-- The mapping whose main table is in `A`, the first database, is shown through the include with its main
table in `B`. -/
theorem includes_compose_of_substituting :
    let snapshot := ((new substitutedModel {}).run substitutingRun).compile.1.snapshot
    ∃ a b e e', snapshot.unit? "outer" = some a ∧ snapshot.unit? "inner" = some b ∧
      b.classMapping? "Class" = some e ∧ a.classMapping? "Class" = some e' ∧
      e.implementation.mainTable.database = ⟨0⟩ ∧ e'.implementation.mainTable.database = ⟨1⟩ := by
  intro snapshot
  have hcommitted : ((new substitutedModel {}).run substitutingRun).compile.2 = .committed [] := by
    decide +kernel
  have hincludes : (snapshot.unit? "outer").map (fun a => a.includes.map fun i =>
      (i.unit.name, i.substitution)) = some [("inner", Substitution.identity.insert ⟨0⟩ ⟨1⟩)] := by
    decide +kernel
  have hshown : ((snapshot.unit? "inner").bind fun b => b.classMapping? "Class").map
      (fun e => e.implementation.mainTable.database) = some ⟨0⟩ := by
    decide +kernel
  obtain ⟨a, ha, hlist⟩ := Option.map_eq_some_iff.1 hincludes
  obtain ⟨i, hi, hinner⟩ := List.map_eq_singleton_iff.1 hlist
  obtain ⟨e, he, hdatabase⟩ := Option.map_eq_some_iff.1 hshown
  obtain ⟨b, hb, hclass⟩ := Option.bind_eq_some_iff.1 he
  obtain ⟨hname, hsubstitution⟩ := Prod.mk.inj hinner
  obtain ⟨hunit, hclasses, -, -⟩ := includes_compose substitutedModel {} substitutingRun []
    noCollision_substitutingRun hcommitted "outer" a ha (by simp) i (by simp [hi])
  rw [hname] at hunit
  obtain rfl : b = i.unit := Option.some.inj (hb.symm.trans hunit)
  obtain ⟨e', he', hshows, hparts⟩ := hclasses "Class" e hclass
  refine ⟨a, i.unit, e, e', ha, hunit, hclass, he', hdatabase, ?_⟩
  have hmain := (hparts _ (ClassMapping.setImplementation_mem e.declared)).mainTable
  unfold Effective.implementation at hdatabase ⊢
  rw [hshows.declared, hmain, TableAlias.mapDatabase, hdatabase, hsubstitution]
  rfl

end Workspace

end ObjectRelational
