import ObjectRelational.Proofs.Mapping.Widening
import ObjectRelational.Proofs.Workspace.Bounds

/-!
# Visibility in a snapshot

The units of a snapshot were each resolved against one store, together with all that they include, even
when the store was built anew since then. So what they see of included units is seen through databases
that offer as much.

* `Compilation.Settled.acceptedOver`: a settled unit was resolved against the store of the compilation.
  `Workspace.states_acceptedOver`: so every state was resolved against the store that it has.
* `Workspace.substitution_widens`: no include takes anything out of sight but what it replaces.
-/

namespace ObjectRelational

open Fingerprint

namespace Compilation

variable {c : Compilation} {messages : List (List UInt8)} {databases : List Source.Database}
  {unit : MappingUnit}

/-- A settled unit and all that it includes were resolved against the store of the compilation. -/
theorem Settled.acceptedOver (hmessages : NoCollision messages) (hregular : c.Regular)
    (hc : c.Grounded messages databases) (hhashed : c.hashed ⊆ messages)
    (haccepted : unit.Accepted) (h : c.Settled unit) : unit.AcceptedOver c.environment.store := by
  -- down the includes, which are settled too
  induction haccepted with
  | resolved _ _ ih =>
    obtain ⟨source, -, hresolve⟩ := h.resolves
    refine .resolved rfl (fun i hi => ?_) hresolve
    exact ih i hi (h.of_mem_includes hmessages hregular hc hhashed hi)

end Compilation

namespace Workspace

variable {model : ObjectModel} {settings : ResolutionSettings}

/-- When nothing that a run hashes collides, every state at its end was resolved against the store that it
has, which was built from some databases, together with all that it includes; and units of one name
behind its includes are one unit. -/
theorem states_acceptedOver {actions : List Action}
    (hmessages : NoCollision ((new model settings).hashedAlong actions)) : ∀ name u,
      ((new model settings).run actions).snapshot.unit? name = some u →
        (∃ settings databases, Store.build settings databases = .ok u.store) ∧
          u.AcceptedOver u.store ∧ Include.SameByName u.includes := by
  intro name u hu
  have haccepted := states_accepted model settings actions name u hu
  obtain ⟨entry, hentry, rfl⟩ := Option.map_eq_some_iff.1 hu
  refine states_of_settled (P := fun unit => unit.Accepted →
    (∃ settings databases, Store.build settings databases = .ok unit.store) ∧
      unit.AcceptedOver unit.store ∧ Include.SameByName unit.includes) ?_ hmessages name entry hentry
    haccepted
  intro c messages databases hmessages hregular hgrounded hhashed unit hsettled haccepted
  have hover := hsettled.acceptedOver hmessages hregular hgrounded hhashed haccepted
  rw [hover.store_eq]
  exact ⟨⟨_, _, hgrounded.build⟩, hover, hsettled.sameByName hmessages hregular hgrounded hhashed⟩

/-- When nothing that a run hashes collides, includes of a unit of the snapshot only widen what is visible.
What any include that the unit lists shows in place of a database of the store sees every database which
that one sees, so that each schema, table, join and filter that is found from the one is found from the
other. And whatever an include of the unit itself leads to, the unit sees without any of the databases
that this include replaces. -/
theorem substitution_widens (model : ObjectModel) (settings : ResolutionSettings) (actions : List Action)
    (hmessages : NoCollision ((new model settings).hashedAlong actions)) :
    ∀ name u, ((new model settings).run actions).snapshot.unit? name = some u →
      (∀ i ∈ u.flattened, ∀ d, u.store.HasDatabase d → u.store.Offers d (i.substitution.apply d)) ∧
      ∀ i ∈ u.includes, ∀ path j, Include.Leads [i] path j →
        j ∈ u.flattened ∧ ∀ original ∈ i.substitution.domain, ¬ j.Mentions original := by
  intro name u hu
  obtain ⟨⟨_, _, hbuild⟩, hover, hsame⟩ := states_acceptedOver hmessages name u hu
  refine ⟨fun i hi d hd => ?_, fun i hi path j hpath => ⟨?_, hover.not_mentions_of_leads hi hpath⟩⟩
  · exact Store.offers_of_subset ((hover.of_mem_flattened (Store.closed_of_build hbuild) i hi).1 d hd).2
  · obtain ⟨unit, span, hflattened⟩ :=
      (states_accepted model settings actions name u hu).flatten_includes
    exact (Include.worklist_flatten hsame hflattened).mem_of_leads
      (hpath.mono (List.cons_subset.2 ⟨hi, List.nil_subset _⟩))

/-- Of the two databases the first one, which the included unit mentions, is replaced by the second one,
which includes it. It offers as much, and the first one is no longer mentioned. -/
theorem substitution_widens_of_substituting :
    let snapshot := ((new substitutedModel {}).run (substitutingRun ++ [.compile])).snapshot
    ∃ u i, snapshot.unit? "outer" = some u ∧ i ∈ u.includes ∧ i ∈ u.flattened ∧
      i.substitution.domain = [⟨0⟩] ∧ i.unit.referencedDatabases.toList = [⟨0⟩] ∧
      u.store.Offers ⟨0⟩ ⟨1⟩ ∧ ¬ i.Mentions ⟨0⟩ := by
  intro snapshot
  have hshown : (snapshot.unit? "outer").map (fun u => (u.store.databases.length, u.includes.map fun i =>
      (i.substitution, i.unit.referencedDatabases.toList))) =
        some (2, [(Substitution.identity.insert ⟨0⟩ ⟨1⟩, [⟨0⟩])]) := by
    decide +kernel
  obtain ⟨u, hu, hpair⟩ := Option.map_eq_some_iff.1 hshown
  obtain ⟨hlength, hincludes⟩ := Prod.mk.inj hpair
  obtain ⟨i, hi, hinner⟩ := List.map_eq_singleton_iff.1 hincludes
  obtain ⟨hsubstitution, hmentioned⟩ := Prod.mk.inj hinner
  have hmem : i ∈ u.includes := hi ▸ List.mem_cons_self
  obtain ⟨hoffers, hgone⟩ := substitution_widens substitutedModel {} _
    noCollision_substitutingRun "outer" u hu
  obtain ⟨hlisted, horiginals⟩ := hgone i hmem [i] i (.single List.mem_cons_self)
  have hdatabase : u.store.HasDatabase ⟨0⟩ := by simp [Store.HasDatabase, hlength]
  have happly : i.substitution.apply ⟨0⟩ = ⟨1⟩ := hsubstitution ▸ rfl
  exact ⟨u, i, hu, hmem, hlisted, hsubstitution ▸ rfl, hmentioned,
    happly ▸ hoffers i hlisted ⟨0⟩ hdatabase, horiginals ⟨0⟩ (hsubstitution ▸ by decide)⟩

end Workspace

end ObjectRelational
