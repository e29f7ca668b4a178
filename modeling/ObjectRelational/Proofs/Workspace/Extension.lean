import ObjectRelational.Proofs.Mapping.Extension
import ObjectRelational.Proofs.Workspace.Visibility

/-!
# Extended mappings in a snapshot

A mapping takes over the main table of the one that it extends when its own unit is resolved. Units that
include the unit see both through substitutions, and in a snapshot they still see one main table.

* `handedOn_extendsSoundly`: resolving hands on that extended mappings are in sight, share the main table,
  and do not extend each other in a circle.
* `Workspace.extension_shares_table`: so it is in every state of every snapshot.
-/

namespace ObjectRelational

open Fingerprint

theorem handedOn_extendsSoundly (model : ObjectModel) (settings : ResolutionSettings) :
    HandedOn model settings fun u =>
      u.Accepted ∧ (Include.SameByName u.includes → u.ExtendsSoundly model) := by
  intro e compiled source u hmodel _ hcompiled h
  have haccepted := MappingUnit.Accepted.of_compiled
    (fun name included hincluded => (hcompiled name included hincluded).1) h
  refine ⟨haccepted, fun hsame => ?_⟩
  obtain ⟨s, hresolved⟩ := MappingUnit.resolvedFrom_of_resolve h
  subst hmodel
  refine hresolved.extendsSoundly haccepted hsame fun i hi => ?_
  obtain ⟨written, -, hinclude⟩ := exists_of_mem_right hresolved.includes hi
  exact (hcompiled _ _ (MappingUnit.unit_of_resolveInclude hinclude)).2
    (hsame.of_leads (.single hi))

namespace Workspace

/-- When nothing that a run hashes collides, every unit of the snapshot at its end shows what its relational
mappings extend. Be a relational mapping one of the unit or of an included one, a class mapping or a part:
what it names to extend is shown under this id, maps the same class or a superclass, and has the same main
table, each as the unit sees it; and whoever follows what is extended arrives at a mapping that extends
none. -/
theorem extension_shares_table (model : ObjectModel) (settings : ResolutionSettings)
    (actions : List Action) (hmessages : NoCollision ((new model settings).hashedAlong actions)) :
    ∀ name u, ((new model settings).run actions).snapshot.unit? name = some u →
      ∀ c ∈ u.effectiveClassMappings, ∀ part ∈ c.declared.implementations,
        (∀ superId, part.superId = some superId →
          ∃ super, u.setImplementation? superId = some super ∧
            model.isAncestorOrSelf super.declared.className part.className ∧
            super.mainTable = (c.withDeclared part).mainTable) ∧
        ∃ n top, u.extended? n (c.withDeclared part) = some top ∧ top.declared.superId = none := by
  intro name u hu c hc part hpart
  obtain ⟨-, -, hsame⟩ := states_acceptedOver hmessages name u hu
  have hsound := (states_of_handedOn (handedOn_extendsSoundly model settings) actions name u hu).2 hsame
  have hup := hsound c hc part hpart
  exact ⟨fun superId hsuper => hup.exists_super hsuper, hup.exists_top⟩

/-- There are a class and a subclass. -/
def extendingModel : ObjectModel :=
  .ofDefinition { classes := [{ path := "Class" }, { path := "Subclass", generalizations := ["Class"] }] }

/-- The mapping of the class is included with `B` in place of `A`, and that of the subclass extends it. -/
def extendingSource : Source.Mapping :=
  { includingSource with
    classMappings := [{
      className := ⟨"Subclass", {}⟩
      superId := some ⟨"Class", {}⟩
      body := .relational {} }] }

/-- Both units and databases are added and compiled. -/
def extendingRun : List Action :=
  substitutedDatabases.map .upsertDatabase ++
    [.upsertMapping includedSource, .upsertMapping extendingSource, .compile]

/-- What is hashed along that run. -/
theorem hashedAlong_extendingRun :
    let databases := Json.ofList Source.Database.toJson substitutedDatabases
    (new extendingModel {}).hashedAlong extendingRun =
      [jsonBytes databases, jsonBytes includedSource.toJson,
        partBytes [ofJson databases, ofJson includedSource.toJson],
        jsonBytes extendingSource.toJson,
        partBytes [ofJson databases, ofJson extendingSource.toJson,
          combine [ofJson databases, ofJson includedSource.toJson]]] := by
  with_unfolding_all rfl

/-- The mapping of the subclass has its main table in `B`, and so has the mapping that it extends, though
this one is declared with its main table in `A`. -/
theorem extension_shares_table_of_substituting :
    let snapshot := ((new extendingModel {}).run extendingRun).snapshot
    ∃ u m super, snapshot.unit? "outer" = some u ∧ m ∈ u.classMappings ∧
      m.setImplementation.superId = some "Class" ∧ m.setImplementation.mainTable.database = ⟨1⟩ ∧
      u.setImplementation? "Class" = some super ∧ super.declared.mainTable.database = ⟨0⟩ ∧
      super.mainTable.database = ⟨1⟩ := by
  intro snapshot
  have hmessages : NoCollision ((new extendingModel {}).hashedAlong extendingRun) := by
    rw [hashedAlong_extendingRun]
    unfold NoCollision ofJson combine
    simp only [jsonBytes_eq, partBytes_eq]
    decide +kernel
  have hshown : (snapshot.unit? "outer").map (fun u => (u.classMappings.map fun m =>
      (m.setImplementation.superId, m.setImplementation.mainTable.database),
      (u.setImplementation? "Class").map fun e => e.declared.mainTable.database)) =
        some ([(some "Class", ⟨1⟩)], some ⟨0⟩) := by
    decide +kernel
  obtain ⟨u, hu, hpair⟩ := Option.map_eq_some_iff.1 hshown
  obtain ⟨hmappings, hfound⟩ := Prod.mk.inj hpair
  obtain ⟨m, hm, hextending⟩ := List.map_eq_singleton_iff.1 hmappings
  obtain ⟨hsuper, hdatabase⟩ := Prod.mk.inj hextending
  obtain ⟨super, hshows, hdeclared⟩ := Option.map_eq_some_iff.1 hfound
  have hmem : m ∈ u.classMappings := hm ▸ List.mem_cons_self
  obtain ⟨hshares, -⟩ := extension_shares_table extendingModel {} extendingRun hmessages "outer" u hu
    (u.seenLocally m) (MappingUnit.mem_effectiveClassMappings_iff.2 (.inl ⟨m, hmem, rfl⟩))
    m.setImplementation m.setImplementation_mem
  obtain ⟨super', hshows', -, htable⟩ := hshares "Class" hsuper
  obtain rfl := Option.some.inj (hshows.symm.trans hshows')
  refine ⟨u, m, super, hu, hmem, hsuper, hdatabase, hshows, hdeclared, ?_⟩
  rw [htable]
  exact hdatabase

end Workspace

end ObjectRelational
