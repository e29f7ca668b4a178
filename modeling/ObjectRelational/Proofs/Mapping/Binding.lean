import ObjectRelational.Proofs.Mapping.Typing

/-!
# How often a property is bound

From a relational mapping a property is navigated as the mapping itself maps it, or as an association
mapping binds it that has the relational mapping for its source. Neither of them takes a property twice,
and no association mapping binds what its source maps already, wherever that is included from. But
association mappings do not look at each other: two of them can bind one property.

* `MappingUnit.bindings`: all that a unit shows to be bound from an id.
* `MappingUnit.Accepted.names_nodup`, `MappingUnit.Accepted.names_of_mem_associationMappings`: what one
  mapping takes.
* `properties_bound_once`: nothing is bound twice, unless it is by two association mappings.
* `not_all_bound_once`: that happens.
-/

namespace ObjectRelational

/-! ## Names of a level -/

namespace Scope

variable {s : Scope} {u : MappingUnit}

/-- The mapping of the versions takes a name that is not mapped yet. -/
theorem property_of_milestoning? {header : Header} {main : TableAlias}
    {declared : List PropertyMapping} {m : PropertyMapping}
    (h : s.milestoning? header main declared = some m) :
    ∀ other ∈ declared, other.property ≠ m.property := by
  unfold milestoning? at h
  split at h
  · rename_i hwanted
    simp only [Option.bind_eq_bind, Option.bind_eq_some_iff, Option.pure_def] at h
    obtain ⟨_, -, _, -, _, -, _, -, versions, -, hm⟩ := h
    obtain rfl := Option.some.inj hm
    intro other hother hname
    simp only [Bool.and_eq_true, Bool.not_eq_true', List.any_eq_false, decide_eq_true_eq] at hwanted
    exact hwanted.2 other hother hname
  · cases h

/-- A relational mapping maps no property twice, the one of the versions included. -/
theorem ResolvedSet.names_nodup (hs : s.Shows u) {header : Header} {body : Source.RelationalMapping}
    {i : SetImplementation} (h : s.ResolvedSet header body i) :
    (i.propertyMappings.map (·.property)).Nodup := by
  obtain ⟨r, declared, hdeclared, hall⟩ := h.properties
  obtain ⟨-, -, hdistinct, -, -⟩ := mappings_typed hs _ [] _ declared hdeclared
  rw [hall, List.map_append, List.nodup_append]
  cases hgenerated : s.milestoning? header i.mainTable declared with
  | none => simpa using hdistinct
  | some m =>
    refine ⟨hdistinct, by simp, ?_⟩
    intro name hname other hother
    obtain ⟨d, hd, rfl⟩ := List.mem_map.1 hname
    obtain rfl : other = m.property := by simpa using hother
    exact property_of_milestoning? hgenerated d hd

/-- The properties of an association mapping are bound once each, and none that was bound before. -/
theorem names_of_associationPropertyMappings {own : List ClassMapping}
    {association : Model.Association} {id : String} {seen : List String}
    {sources : List Source.PropertyMapping} {mappings : List PropertyMapping}
    (h : (s.associationPropertyMappings own association id seen sources).result = .ok mappings) :
    (mappings.map (·.property)).Nodup ∧ ∀ m ∈ mappings, m.property ∉ seen := by
  induction sources generalizing seen mappings with
  | nil =>
    obtain rfl := Except.ok.inj h
    simp
  | cons first rest ih =>
    unfold associationPropertyMappings at h
    dsimp only at h
    split at h
    · exact absurd h (found_ne_ok _ _ _)
    · rename_i hnew
      simp only [Recorded.result_bind_eq_ok_iff, Recorded.result_pure] at h
      obtain ⟨m, hm, others, hothers, h⟩ := h
      obtain rfl := Except.ok.inj h
      obtain ⟨hnodup, hunseen⟩ := ih hothers
      have hname : m.property = first.property.value := by
        simp only [associationPropertyMapping, Recorded.result_bind_eq_ok_iff,
          Recorded.result_pure] at hm
        obtain ⟨_, -, _, -, _, -, hm⟩ := hm
        obtain rfl := Except.ok.inj hm
        rfl
      refine ⟨?_, ?_⟩
      · rw [List.map_cons, List.nodup_cons]
        refine ⟨fun hmem => ?_, hnodup⟩
        obtain ⟨other, hother, hsame⟩ := List.mem_map.1 hmem
        exact hunseen other hother (by rw [hsame, hname]; exact List.mem_cons_self)
      · refine List.forall_mem_cons.2 ⟨hname ▸ hnew, fun other hother hseen => ?_⟩
        exact hunseen other hother (List.mem_cons_of_mem _ hseen)

end Scope

namespace MappingUnit

variable {u : MappingUnit} {id : String}

/-! ## One mapping -/

/-- No relational mapping of an accepted unit maps a property twice. -/
theorem Accepted.names_nodup (hu : u.Accepted) : ∀ m ∈ u.classMappings, ∀ i ∈ m.implementations,
    (i.propertyMappings.map (·.property)).Nodup := by
  cases hu with
  | resolved hincludes h =>
    intro m hm i hi
    obtain ⟨s, hresolved⟩ := resolvedFrom_of_resolve h
    obtain ⟨written, -, hclass⟩ := exists_of_mem_right hresolved.classMappings hm
    obtain ⟨part, -, hset⟩ := exists_of_mem_right hclass.parts hi
    exact hset.names_nodup (Scope.shows_of_resolvedFrom hresolved hincludes)

/-- No association mapping of an accepted unit binds a property twice, or one that its source maps. -/
theorem Accepted.names_of_mem_associationMappings (hu : u.Accepted) : ∀ a ∈ u.associationMappings,
    (a.propertyMappings.map (·.property)).Nodup ∧ ∀ p ∈ a.propertyMappings,
      ∃ e, u.setImplementation? p.sourceId = some e ∧ e.declared.mapsProperty p.property = false := by
  cases hu with
  | resolved _ h =>
    intro a ha
    obtain ⟨s, hresolved⟩ := resolvedFrom_of_resolve h
    obtain ⟨written, -, hmapping⟩ := exists_of_mem_right hresolved.associationMappings ha
    have hincluded : s.included = u.flattened := by rw [hresolved.scope]
    obtain ⟨association, -, hbinds⟩ := Scope.binds_of_associationMapping hincluded hmapping
    refine ⟨?_, fun p hp => ?_⟩
    · unfold Scope.associationMapping at hmapping
      split at hmapping
      · exact absurd hmapping (found_ne_ok _ _ _)
      · obtain ⟨mappings, hmappings, ha⟩ := Recorded.result_bind_eq_ok_iff.1 hmapping
        obtain rfl := Except.ok.inj ha
        exact (Scope.names_of_associationPropertyMappings hmappings).1
    · obtain ⟨source, _, _, hbound⟩ := hbinds p hp
      exact ⟨source, hbound.shownSource, hbound.unmapped⟩

end MappingUnit

/-! ## All mappings -/

/-- What an association mapping binds from an id. -/
def AssociationMapping.bindingsFrom (a : AssociationMapping) (id : String) : List PropertyMapping :=
  a.propertyMappings.filter fun p => p.sourceId = id

namespace MappingUnit

variable {u : MappingUnit} {id : String}

/-- What a unit shows to be mapped by the relational mapping of an id. -/
def ownBindings (u : MappingUnit) (id : String) : List PropertyMapping :=
  match u.setImplementation? id with
  | none => []
  | some e => e.propertyMappings

/-- All that a unit shows to be bound from an id: by the relational mapping itself, and by all
association mappings. -/
def bindings (u : MappingUnit) (id : String) : List PropertyMapping :=
  u.ownBindings id ++ u.effectiveAssociationMappings.flatMap fun a => a.bindingsFrom id

/-- A mapping takes the same names wherever it is seen from. -/
theorem names_propertyMappings (e : Effective SetImplementation) :
    e.propertyMappings.map (·.property) = e.declared.propertyMappings.map (·.property) := by
  unfold Effective.propertyMappings
  cases e.substitution with
  | none => rfl
  | some s => simp [mapDatabasesOfMappings_eq_map]

theorem names_ownBindings {e : Effective SetImplementation} (he : u.setImplementation? id = some e) :
    (u.ownBindings id).map (·.property) = e.declared.propertyMappings.map (·.property) := by
  rw [ownBindings, he, names_propertyMappings]

/-- The relational mapping of an id maps no property twice. -/
theorem Accepted.names_ownBindings_nodup (hu : u.Accepted) (id : String) :
    ((u.ownBindings id).map (·.property)).Nodup := by
  cases he : u.setImplementation? id with
  | none => simp [ownBindings, he]
  | some e =>
    rw [names_ownBindings he]
    obtain ⟨c, hc, i, hi, rfl⟩ := (setImplementation?_eq_some_iff hu.distinctIds).1 he
    have himplementation := ClassMapping.mem_implementations_of_findImplementation? hi
    rcases mem_effectiveClassMappings_iff.1 hc with ⟨m, hm, rfl⟩ | ⟨j, hj, m, hm, rfl⟩
    · exact hu.names_nodup m hm i himplementation
    · exact (hu.of_mem_flattened j hj).names_nodup m hm i himplementation

/-- No association mapping that a unit shows binds a property twice, or one that its source maps. -/
theorem Accepted.names_of_mem_effectiveAssociationMappings (hu : u.Accepted)
    (hsame : Include.SameByName u.includes) : ∀ a ∈ u.effectiveAssociationMappings,
      (a.propertyMappings.map (·.property)).Nodup ∧
      ∀ p ∈ a.propertyMappings, p.property ∉ (u.ownBindings p.sourceId).map (·.property) := by
  have hunmapped : ∀ (p : PropertyMapping) e, u.setImplementation? p.sourceId = some e →
      e.declared.mapsProperty p.property = false →
      p.property ∉ (u.ownBindings p.sourceId).map (·.property) := by
    intro p e he hmaps
    simpa [names_ownBindings he, SetImplementation.mapsProperty] using hmaps
  intro a ha
  rcases mem_effectiveAssociationMappings_iff.1 ha with ha | ⟨j, hj, declared, hdeclared, rfl⟩
  · obtain ⟨hnodup, hsources⟩ := hu.names_of_mem_associationMappings a ha
    refine ⟨hnodup, fun p hp => ?_⟩
    obtain ⟨e, he, hmaps⟩ := hsources p hp
    exact hunmapped p e he hmaps
  · -- the source that an included mapping was checked against is the one that the unit shows
    obtain ⟨hnodup, hsources⟩ :=
      (hu.of_mem_flattened j hj).names_of_mem_associationMappings declared hdeclared
    simp only [AssociationMapping.mapDatabases, mapDatabasesOfMappings_eq_map]
    refine ⟨by simpa [Function.comp_def] using hnodup, fun p hp => ?_⟩
    obtain ⟨declaredMapping, hmem, rfl⟩ := List.mem_map.1 hp
    obtain ⟨e, he, hmaps⟩ := hsources declaredMapping hmem
    have hshown := setImplementation?_through hu.distinctIds (hu.lists hsame hj) he
    exact hunmapped _ (e.through j.substitution) (by simpa using hshown) (by simpa using hmaps)

end MappingUnit

/-- In an accepted unit nothing that is bound by a relational mapping and by one association mapping is
bound twice. So nothing is at all, unless two association mappings bind one property from the same
source. -/
theorem properties_bound_once {unit : MappingUnit} (hunit : unit.Accepted)
    (hsame : Include.SameByName unit.includes) (id : String) :
    (∀ a ∈ unit.effectiveAssociationMappings,
        ((unit.ownBindings id ++ a.bindingsFrom id).map (·.property)).Nodup) ∧
      (((unit.bindings id).map (·.property)).Nodup ↔
        unit.effectiveAssociationMappings.Pairwise fun a b =>
          List.Disjoint ((a.bindingsFrom id).map (·.property))
            ((b.bindingsFrom id).map (·.property))) := by
  have hown := hunit.names_ownBindings_nodup id
  have hnodup : ∀ a ∈ unit.effectiveAssociationMappings,
      ((a.bindingsFrom id).map (·.property)).Nodup := fun a ha =>
    (hunit.names_of_mem_effectiveAssociationMappings hsame a ha).1.sublist
      (List.filter_sublist.map _)
  have hdisjoint : ∀ a ∈ unit.effectiveAssociationMappings,
      List.Disjoint ((unit.ownBindings id).map (·.property)) ((a.bindingsFrom id).map (·.property)) := by
    intro a ha name hname hbound
    obtain ⟨p, hp, rfl⟩ := List.mem_map.1 hbound
    obtain ⟨hmem, hsource⟩ := List.mem_filter.1 hp
    obtain rfl : p.sourceId = id := by simpa using hsource
    exact (hunit.names_of_mem_effectiveAssociationMappings hsame a ha).2 p hmem hname
  refine ⟨fun a ha => ?_, ?_⟩
  · rw [List.map_append]
    exact hown.append (hnodup a ha) (hdisjoint a ha)
  · simp only [MappingUnit.bindings, List.map_append, List.map_flatMap]
    constructor
    · exact fun h => (List.nodup_flatMap.1 (List.Nodup.of_append_right h)).2
    · intro hpairwise
      refine hown.append (List.nodup_flatMap.2 ⟨hnodup, hpairwise⟩) fun name hname hbound => ?_
      obtain ⟨a, ha, hbound⟩ := List.mem_flatMap.1 hbound
      exact hdisjoint a ha hname hbound

/-! ## Employment, bound once and twice -/

/-- The unit of a source, when it is asked for; there is no other one. -/
def compiledOnly (source : Source.Mapping) (name : String) : Option MappingUnit :=
  if name = source.name.value then
    (MappingUnit.resolve employmentEnvironment (fun _ => none) source).toOption
  else none

/-- A unit that is compiled when there is no other one includes nothing. -/
theorem includes_of_compiledOnly {source : Source.Mapping} {name : String} {unit : MappingUnit}
    (h : compiledOnly source name = some unit) :
    MappingUnit.resolve employmentEnvironment (fun _ => none) source = .ok unit ∧
      unit.includes = [] := by
  unfold compiledOnly at h
  split at h
  · cases hresolve : MappingUnit.resolve employmentEnvironment (fun _ => none) source with
    | error failure => simp [hresolve, Except.toOption] at h
    | ok resolved =>
      obtain rfl : resolved = unit := by simpa [hresolve, Except.toOption] using h
      obtain ⟨s, hresolved⟩ := MappingUnit.resolvedFrom_of_resolve hresolve
      refine ⟨rfl, List.eq_nil_iff_forall_not_mem.2 fun i hi => ?_⟩
      obtain ⟨_, -, hinclude⟩ := exists_of_mem_right hresolved.includes hi
      simpa using MappingUnit.unit_of_resolveInclude hinclude
  · cases h

/-- A unit that can include no other one is accepted when it is resolved, and all that is behind its
includes is that one. -/
theorem accepted_of_compiledOnly {source outer : Source.Mapping} {unit : MappingUnit}
    (h : MappingUnit.resolve employmentEnvironment (compiledOnly source) outer = .ok unit) :
    unit.Accepted ∧ Include.SameByName unit.includes := by
  obtain ⟨s, hresolved⟩ := MappingUnit.resolvedFrom_of_resolve h
  have hleads : ∀ path i, Include.Leads unit.includes path i →
      ∃ name, compiledOnly source name = some i.unit := by
    intro path i hpath
    induction hpath with
    | single hi =>
      obtain ⟨written, -, hinclude⟩ := exists_of_mem_right hresolved.includes hi
      exact ⟨_, MappingUnit.unit_of_resolveInclude hinclude⟩
    | snoc _ hinner ih =>
      obtain ⟨name, hname⟩ := ih
      simp [(includes_of_compiledOnly hname).2] at hinner
  refine ⟨.of_compiled (fun name included hincluded => ?_) h, fun path i path' j hi hj _ => ?_⟩
  · obtain ⟨hresolve, hincludes⟩ := includes_of_compiledOnly hincluded
    exact .resolved (by simp [hincludes]) hresolve
  · obtain ⟨_, hi⟩ := hleads path i hi
    obtain ⟨_, hj⟩ := hleads path' j hj
    have hsame := (includes_of_compiledOnly hi).1
    rw [(includes_of_compiledOnly hj).1] at hsame
    exact (Except.ok.inj hsame).symm

/-- The firm of a person is bound along the join, by association mappings of the given ids. -/
def employmentBoundBy (ids : List String) : Source.Mapping where
  name := ⟨"employment", {}⟩
  classMappings := [mappingOnto "Firm" "FIRM" [], mappingOnto "Person" "PERSON" []]
  associationMappings := ids.map fun id => {
    association := ⟨"Employment", {}⟩
    id := some ⟨id, {}⟩
    propertyMappings := [⟨⟨"firm", {}⟩, none, none, none,
      .relational (.joinPath [{ name := ⟨"Employment", {}⟩ }] none) none, {}⟩] }

/-- Employment is included, and nothing added. -/
def employmentIncluded : Source.Mapping where
  name := ⟨"outer", {}⟩
  includes := [{ mapping := ⟨"employment", {}⟩ }]

/-- Bound by one association mapping that is included, the firm of a person is bound once. -/
theorem properties_bound_once_of_employment :
    ∃ unit : MappingUnit, unit.Accepted ∧ Include.SameByName unit.includes ∧
      (unit.bindings "Person").map (·.property) = ["firm"] ∧
      (∀ a ∈ unit.effectiveAssociationMappings,
          ((unit.ownBindings "Person" ++ a.bindingsFrom "Person").map (·.property)).Nodup) ∧
        (((unit.bindings "Person").map (·.property)).Nodup ↔
          unit.effectiveAssociationMappings.Pairwise fun a b =>
            List.Disjoint ((a.bindingsFrom "Person").map (·.property))
              ((b.bindingsFrom "Person").map (·.property))) := by
  have hresolves : ∃ unit, MappingUnit.resolve employmentEnvironment
      (compiledOnly (employmentBoundBy ["a"])) employmentIncluded = .ok unit ∧
      (unit.bindings "Person").map (·.property) = ["firm"] := by
    with_unfolding_all exact ⟨_, rfl, rfl⟩
  obtain ⟨unit, hunit, hnames⟩ := hresolves
  obtain ⟨haccepted, hsame⟩ := accepted_of_compiledOnly hunit
  exact ⟨unit, haccepted, hsame, hnames, properties_bound_once haccepted hsame "Person"⟩

/-- Bound by two association mappings, it is bound twice, and the unit is accepted all the same. -/
theorem not_all_bound_once :
    ¬ ∀ unit : MappingUnit, unit.Accepted → Include.SameByName unit.includes →
      ∀ id, ((unit.bindings id).map (·.property)).Nodup := by
  intro h
  have hresolves : ∃ unit, MappingUnit.resolve employmentEnvironment (compiledOnly firmsSource)
      (employmentBoundBy ["a", "b"]) = .ok unit ∧
      (unit.bindings "Person").map (·.property) = ["firm", "firm"] := by
    with_unfolding_all exact ⟨_, rfl, rfl⟩
  obtain ⟨unit, hunit, hnames⟩ := hresolves
  obtain ⟨haccepted, hsame⟩ := accepted_of_compiledOnly hunit
  have hnodup := h unit haccepted hsame "Person"
  rw [hnames] at hnodup
  revert hnodup
  decide

end ObjectRelational
