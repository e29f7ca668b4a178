import ObjectRelational.Proofs.Mapping.Addressing
import ObjectRelational.Proofs.Mapping.Association
import ObjectRelational.Proofs.Mapping.DeclarationOrder
import ObjectRelational.Proofs.Mapping.Ids
import ObjectRelational.Proofs.Store.Usages

/-!
# What resolving a unit records

A unit records the names of store elements in the bodies of its class mappings and association mappings. The
database that a name is written without is that of the main table, or the one that a mapping without a main
table names first. What is looked up on the way, to infer main tables and to check ends of joins, is not
recorded.

* `Source.RelationalMapping.occurrences` and its companions list the names of a body.
* `MappingUnit.writtenUsages`: the usages that the names in the source of a unit are.
* `Scope.mappings_records`, `Scope.setImplementation_records`, `Scope.bindingPath_records`: what is resolved
  is recorded, every name once.
* `MappingUnit.ResolvedFrom.perm_classUsages`: class mappings are resolved in an order of their own, and
  record the same in it.
* `names_recorded_once`: so a store and the units that are resolved against it have recorded every name in
  their sources once.
-/

namespace ObjectRelational

/-! ## Names of bodies -/

namespace Source

mutual

/-- The names of the mapping of a property. -/
def PropertyMapping.occurrences : PropertyMapping → List Occurrence
  | ⟨_, _, _, _, body, _⟩ => PropertyBody.occurrences body

/-- The names of what a property is mapped to. -/
def PropertyBody.occurrences : PropertyBody → List Occurrence
  | .relational operation _ => operation.occurrences none
  | .embedded primaryKey propertyMappings otherwise =>
    Operation.occurrencesOfAll none primaryKey ++ (occurrencesOfMappings propertyMappings ++
      otherwise.toList.flatMap fun otherwise => otherwise.join.occurrences)
  | .inline _ => []

/-- The names of a list of property mappings. -/
def occurrencesOfMappings : List PropertyMapping → List Occurrence
  | [] => []
  | m :: rest => PropertyMapping.occurrences m ++ occurrencesOfMappings rest

end

namespace RelationalMapping

/-- The names of a relational mapping. -/
def occurrences (body : RelationalMapping) : List Occurrence :=
  body.mainTable.toList.flatMap TableReference.occurrences ++
    (body.filter.toList.flatMap FilterReference.occurrences ++
      (Operation.occurrencesOfAll none body.groupBy ++
        (Operation.occurrencesOfAll none body.primaryKey ++
          occurrencesOfMappings body.propertyMappings)))

/-- The database in which names are looked up that are written without one. It is that of the main table, which
a mapping takes from the one that it extends or names itself; else the database that the properties name
first. -/
def database? (body : RelationalMapping) (store : Store) (superId : Option Name)
    (main : Option DatabaseId) : Option DatabaseId :=
  match superId, body.mainTable with
  | some _, _ => main
  | none, some table => store.databaseNamed? table.database.value
  | none, none =>
    (markersOfMappings body.propertyMappings).head?.bind fun marker =>
      store.databaseNamed? marker.value

end RelationalMapping

/-- The relational mappings that a class mapping is written as: the id that each gets, the mapping that it
extends, and the body. -/
def ClassMapping.sets (source : ClassMapping) :
    List (String × Option Name × RelationalMapping) :=
  match source.body with
  | .relational body => [(source.mappingId, source.superId, body)]
  | .aggregationAware main views =>
    (mainId source.mappingId, source.superId, main) :: views.zipIdx.map fun view =>
      (aggregateId source.mappingId view.2, none, view.1.aggregateMapping)

end Source

namespace MappingUnit

variable (u : MappingUnit) (defaultSchema : String)

/-- What is seen from a database of the unit's store. -/
def perspective (database : Option DatabaseId) : Perspective where
  store := u.store
  database := database
  defaultSchema := defaultSchema
  joins := u.store.joins.length

/-- The database of the main table of a relational mapping that the unit shows. -/
def mainDatabase? (id : String) : Option DatabaseId :=
  (u.setImplementation? id).map (·.mainTable.database)

/-- The usages that the names of a relational mapping are. -/
def setUsages (set : String × Option Name × Source.RelationalMapping) : List (Option Usage) :=
  (u.perspective defaultSchema
    (set.2.2.database? u.store set.2.1 (u.mainDatabase? set.1))).usages set.2.2.occurrences

/-- The usages that the names of a class mapping are. -/
def classUsages (source : Source.ClassMapping) : List (Option Usage) :=
  source.sets.flatMap (u.setUsages defaultSchema)

/-- The id of the mapping that a property of an association is navigated from: the one that is named, or the
root of the class that owns the property. -/
def sourceId (association : Model.Association) (m : Source.PropertyMapping) : String :=
  match m.sourceId with
  | some id => id.value
  | none =>
    let owner := (association.ownerOf? m.property.value).getD ""
    (u.roots.find? owner).getD (defaultId owner)

/-- The usages that the names of an association mapping are. -/
def associationUsages (model : ObjectModel) (source : Source.AssociationMapping) :
    List (Option Usage) :=
  (model.association? source.association.value).toList.flatMap fun association =>
    source.propertyMappings.flatMap fun m =>
      (u.perspective defaultSchema (u.mainDatabase? (u.sourceId association m))).usages
        m.occurrences

/-- The usages that the names in the source of a unit are. -/
def writtenUsages (model : ObjectModel) (source : Source.Mapping) : List (Option Usage) :=
  source.classMappings.flatMap (u.classUsages defaultSchema) ++
    source.associationMappings.flatMap (u.associationUsages defaultSchema model)

end MappingUnit

/-! ## Property mappings -/

namespace Scope

open Recorded Resolver

variable {s : Scope} {r : Resolver} {p : Perspective}

theorem dataOperation_records (h : r.Agrees p none) (o : PropertyOwner) (property : Name)
    (source : Source.Operation) :
    (dataOperation r o property source).Records (p.usages (source.occurrences none)) := by
  refine (resolve_records h (some o.main) source).bind_last fun operation _ => ?_
  split
  · exact records_of_error rfl
  · exact records_pure _

theorem localValue_records (h : r.Agrees p none) (o : PropertyOwner) (property : Name)
    (body : Source.PropertyBody) :
    (localValue r o property body).Records (p.usages body.occurrences) := by
  cases body with
  | relational source enumerationMapping =>
    rw [Source.PropertyBody.occurrences]
    cases enumerationMapping with
    | none => exact (dataOperation_records h o property source).bind_last fun _ _ => records_pure _
    | some transformer => exact records_of_error rfl
  | embedded primaryKey propertyMappings otherwise => exact records_of_error rfl
  | inline target => exact records_of_error rfl

theorem relationalValue_records (h : r.Agrees p none) (o : PropertyOwner) (name : Name)
    (property : Model.Property) (targetId : Option Name) (source : Source.Operation)
    (enumerationMapping : Option Name) :
    (s.relationalValue r o name property targetId source enumerationMapping).Records
      (p.usages (source.occurrences none)) := by
  refine (resolve_records h (some o.main) source).bind_last fun operation _ => ?_
  split
  · split
    · exact records_of_error rfl
    · exact (records_monadLift _).bind_silent fun _ _ => records_pure _
  · split
    · exact records_of_error rfl
    · split
      · exact (records_monadLift _).bind_silent fun _ _ => records_pure _
      · exact records_of_error rfl

theorem otherwise?_records (h : r.Agrees p none) (o : PropertyOwner) (property : Model.Property)
    (source : Option Source.Otherwise) : (s.otherwise? r o property source).Records
      (p.usages (source.toList.flatMap fun otherwise => otherwise.join.occurrences)) := by
  cases source with
  | none => exact records_pure none
  | some source =>
    rw [Option.toList_some, List.flatMap_singleton]
    refine (records_monadLift _).bind_silent fun _ _ => ?_
    exact (resolvePath_records h _ _ _).bind_last fun _ _ => records_pure _

mutual

/-- The mapping of a property records every name of its body. -/
theorem mapping_records (h : r.Agrees p none) (s : Scope) (o : PropertyOwner) :
    ∀ source : Source.PropertyMapping,
      (s.mapping r o source).Records (p.usages source.occurrences)
  | ⟨name, _, _, some localType, body, span⟩ => by
    rw [Scope.mapping, Source.PropertyMapping.occurrences]
    exact (localValue_records h o name body).bind_last fun _ _ => records_pure _
  | ⟨name, _, targetId, none, body, span⟩ => by
    rw [Scope.mapping, Source.PropertyMapping.occurrences]
    refine (records_monadLift _).bind_silent fun property _ => ?_
    exact (value_records h s o name property targetId body).bind_last fun _ _ => records_pure _

theorem value_records (h : r.Agrees p none) (s : Scope) (o : PropertyOwner) (name : Name)
    (property : Model.Property) (targetId : Option Name) : ∀ body : Source.PropertyBody,
      (s.value r o name property targetId body).Records (p.usages body.occurrences)
  | .relational source enumerationMapping => by
    rw [Scope.value, Source.PropertyBody.occurrences]
    exact relationalValue_records h o name property targetId source enumerationMapping
  | .embedded primaryKey propertyMappings otherwise => by
    rw [Scope.value, Source.PropertyBody.occurrences, Perspective.usages_append,
      Perspective.usages_append]
    split
    · exact records_of_error rfl
    · refine (resolveAll_records h _ primaryKey).bind fun _ _ => ?_
      refine (mappings_records h s _ [] propertyMappings).bind fun _ _ => ?_
      exact (otherwise?_records h o property otherwise).bind_last fun _ _ => records_pure _
  | .inline target => by
    rw [Scope.value, Source.PropertyBody.occurrences]
    exact records_ofResult _

/-- The mappings of one level record the names of their bodies, one after the other. -/
theorem mappings_records (h : r.Agrees p none) (s : Scope) (o : PropertyOwner)
    (seen : List String) : ∀ sources : List Source.PropertyMapping,
      (s.mappings r o seen sources).Records (p.usages (Source.occurrencesOfMappings sources))
  | [] => by
    rw [mappings, Source.occurrencesOfMappings]
    exact records_pure []
  | m :: rest => by
    rw [mappings, Source.occurrencesOfMappings, Perspective.usages_append]
    refine (records_monadLift _).bind_silent fun _ _ => ?_
    refine (mapping_records h s o m).bind fun _ _ => ?_
    exact (mappings_records h s o _ rest).bind_last fun _ _ => records_pure _

end

/-! ## Relational mappings -/

/-- What is seen from a database of the store of a scope. -/
def perspective (s : Scope) (database : DatabaseId) : Perspective :=
  s.store.perspective s.settings.defaultSchema database s.store.joins.length

theorem agrees (hs : s.store.Cataloged) (database : DatabaseId) :
    (s.resolverIn database).Agrees (s.perspective database) none :=
  (Store.Before.refl s.store).agrees hs hs s.settings.defaultSchema database none

theorem agreesOnFilters (hs : s.store.Cataloged) (database : DatabaseId) :
    (s.resolverIn database).AgreesOnFilters (s.perspective database) :=
  (Store.Before.refl s.store).agreesOnFilters hs hs rfl s.store.joins.length
    s.settings.defaultSchema database

variable {own mappings : List ClassMapping} {header : Header} {body : Source.RelationalMapping}
  {i : SetImplementation}

theorem databaseNamed?_of_databaseNamed {name : Name} {database : DatabaseId}
    (h : s.databaseNamed name = .ok database) : s.store.databaseNamed? name.value = some database := by
  unfold Environment.databaseNamed at h
  split at h
  · rename_i found hfound
    rcases Except.ok.inj h with rfl
    exact hfound
  · exact absurd h (found_ne_ok _ _ _)

/-- A mapping that extends another one names no main table. -/
theorem mainTable_of_inherited? {inherited : Inherited}
    (h : s.inherited? own header body = .ok (some inherited)) :
    body.mainTable = none ∧ ∃ superId, header.superId = some superId := by
  unfold inherited? at h
  split at h
  · cases h
  · rename_i superId hsuper
    rcases map_eq_ok_iff.1 h with ⟨found, hfound, -⟩
    refine ⟨?_, superId, hsuper⟩
    unfold checkSuper at hfound
    split at hfound
    · exact absurd hfound (found_ne_ok _ _ _)
    · split at hfound
      · exact absurd hfound (found_ne_ok _ _ _)
      · assumption

/-- The database in which names are looked up is the one that the body tells. -/
theorem database?_of_defaultDatabase {inherited : Option Inherited} {database : DatabaseId}
    (hinherited : s.inherited? own header body = .ok inherited)
    (h : s.defaultDatabase header body inherited = .ok database) (main : TableAlias)
    (hmain : ∀ found, inherited = some found → main = found.mainTable) :
    body.database? s.store header.superId (some main.database) = some database := by
  unfold Source.RelationalMapping.database?
  cases inherited with
  | some found =>
    rcases mainTable_of_inherited? hinherited with ⟨-, superId, hsuper⟩
    have hdatabase : found.mainTable.database = database := Except.ok.inj h
    rw [hsuper, hmain found rfl, hdatabase]
  | none =>
    have hsuper : header.superId = none := by
      rcases super_of_inherited? hinherited with ⟨hnone, -⟩ | ⟨_, _, -, -, hsome⟩
      · exact hnone
      · cases hsome
    unfold defaultDatabase at h
    rw [hsuper]
    cases htable : body.mainTable with
    | some table =>
      rw [htable] at h
      exact databaseNamed?_of_databaseNamed h
    | none =>
      rw [htable] at h
      dsimp only at h ⊢
      unfold markedDatabase at h
      split at h
      · rename_i marker rest hmarkers
        rw [hmarkers]
        exact databaseNamed?_of_databaseNamed h
      · split at h
        · exact absurd h (found_ne_ok _ _ _)
        · exact absurd h (found_ne_ok _ _ _)

/-- The main table is recorded where it is written; inheriting or inferring it records nothing. -/
theorem mainTable_records (h : r.Agrees p none) {inherited : Option Inherited}
    (hinherited : s.inherited? own header body = .ok inherited) :
    (mainTable r header body inherited).Records
      (p.usages (body.mainTable.toList.flatMap Source.TableReference.occurrences)) := by
  unfold mainTable
  cases inherited with
  | some found =>
    rw [(mainTable_of_inherited? hinherited).1]
    exact records_pure found.mainTable
  | none =>
    cases body.mainTable with
    | none => exact records_ofResult _
    | some table =>
      rw [Option.toList_some, List.flatMap_singleton]
      exact table_records h (some table.database) table.schema table.table

/-- A relational mapping records every name of its body, looked up in the database that the body tells. -/
theorem setImplementation_records (hs : s.store.Cataloged)
    (h : (s.setImplementation own header body).result = .ok i) :
    ∃ database, body.database? s.store header.superId (some i.mainTable.database) = some database ∧
      (s.setImplementation own header body).usages.map some =
        (s.perspective database).usages body.occurrences := by
  have hresolved := h
  unfold setImplementation at hresolved
  simp only [result_bind_eq_ok_iff, result_pure, result_monadLift, Except.ok.injEq] at hresolved
  rcases hresolved with
    ⟨inherited, hinherited, database, hdatabase, main, hmain, filter, -, groupBy, -, primaryKey, -,
     declared, -, _, -, hi⟩
  have htable : i.mainTable = main := congrArg SetImplementation.mainTable hi.symm
  have hsame : ∀ found, inherited = some found → main = found.mainTable := by
    rintro found rfl
    exact (Except.ok.inj hmain).symm
  have hagrees := s.agrees hs database
  -- what the mapping extends, and the database to look in, are found before anything is recorded
  have hrecords : (s.setImplementation own header body).Records
      ((s.perspective database).usages body.occurrences) := by
    unfold setImplementation Source.RelationalMapping.occurrences
    simp only [Perspective.usages_append]
    refine (records_monadLift _).bind_silent fun inherited' hinherited' => ?_
    obtain rfl : inherited = inherited' := Except.ok.inj (hinherited.symm.trans hinherited')
    refine (records_monadLift _).bind_silent fun database' hdatabase' => ?_
    obtain rfl : database = database' := Except.ok.inj (hdatabase.symm.trans hdatabase')
    refine (mainTable_records hagrees hinherited).bind fun main _ => ?_
    refine (filter?_records hagrees (s.agreesOnFilters hs database) main body.filter).bind
      fun filter _ => ?_
    refine (resolveAll_records hagrees (some main) body.groupBy).bind fun groupBy _ => ?_
    refine (resolveAll_records hagrees (some main) body.primaryKey).bind fun primaryKey _ => ?_
    refine (mappings_records hagrees s _ [] body.propertyMappings).bind_last fun declared _ => ?_
    exact (records_monadLift _).bind_silent fun _ _ => records_pure _
  rw [htable]
  exact ⟨database, database?_of_defaultDatabase hinherited hdatabase main hsame, hrecords i h⟩

/-! ## Class mappings -/

theorem sets_eq (s : Scope) (source : Source.ClassMapping) :
    source.sets = (s.parts source).map fun part => (part.1.id, part.1.superId, part.2) := by
  unfold Source.ClassMapping.sets parts
  cases source.body with
  | relational body => rfl
  | aggregationAware main views =>
    rw [List.map_cons, List.map_map]
    rfl

/-- A class mapping records what its parts record. -/
theorem classMapping_records_parts (own : List ClassMapping) (source : Source.ClassMapping) :
    (s.classMapping own source).Records ((s.parts source).flatMap fun part =>
      (s.setImplementation own part.1 part.2).usages.map some) := by
  unfold classMapping parts
  cases source.body with
  | relational body =>
    rw [List.flatMap_singleton]
    exact (records_self _).bind_last fun _ _ => records_pure _
  | aggregationAware main views =>
    rw [List.flatMap_cons, List.flatMap_map]
    have hviews : (forAll (s.aggregate own (s.header source)) views.zipIdx).Records
        (views.zipIdx.flatMap fun view => (s.setImplementation own
          (aggregateHeader (s.header source) view.2 view.1.span)
          view.1.aggregateMapping).usages.map some) := by
      refine records_forAll fun view _ => (records_monadLift _).bind_silent fun _ _ => ?_
      exact (records_self _).bind_last fun _ _ => records_pure _
    refine Records.bind_last (Records.bind (records_self _) fun _ _ => ?_) fun _ _ => records_pure _
    exact hviews.bind_last fun _ _ => records_pure _

/-! ## Association mappings -/

/-- The path of a binding is recorded; the check of where it ends records nothing. -/
theorem bindingPath_records (hs : s.store.Cataloged) (b : Binding)
    (source : Source.PropertyMapping) : (s.bindingPath b source).Records
      ((s.perspective b.source.mainTable.database).usages source.occurrences) := by
  rcases source with ⟨property, sourceId, targetId, localType, body, span⟩
  rw [Source.PropertyMapping.occurrences]
  unfold bindingPath
  cases body with
  | relational expression transformer =>
    cases transformer with
    | some transformer => exact records_of_error rfl
    | none =>
      rw [Source.PropertyBody.occurrences]
      refine (resolve_records (s.agrees hs _) _ expression).bind_last fun operation _ => ?_
      split
      · exact (records_monadLift _).bind_silent fun _ _ => records_pure _
      · exact records_of_error rfl
  | embedded primaryKey propertyMappings otherwise => exact records_of_error rfl
  | inline target => exact records_of_error rfl

/-- The property is navigated from the mapping that is named, or from the root of its class. -/
theorem sourceId_of_binding {association : Model.Association} {id : String}
    {source : Source.PropertyMapping} {b : Binding}
    (h : s.binding own association id source = .ok b) :
    b.sourceId = s.endId source.sourceId ((association.ownerOf? source.property.value).getD "") := by
  unfold binding at h
  rcases bind_eq_ok_iff.1 h with ⟨property, -, h⟩
  dsimp only at h
  split at h
  · exact absurd h (found_ne_ok _ _ _)
  · split at h
    · exact absurd h (found_ne_ok _ _ _)
    · rcases pure_eq_ok_iff.1 h with rfl
      rfl

end Scope

namespace MappingUnit

open Recorded

namespace ResolvedFrom

variable {e : Environment} {compiled : String → Option MappingUnit} {source : Source.Mapping}
  {unit : MappingUnit} {s : Scope} {own : List ClassMapping}

theorem solution (h : ResolvedFrom e compiled source unit s) :
    s.Solution source.classMappings unit.classMappings :=
  Scope.solution_of_classMappings h.resolved (mappingIds_nodup h.ids) h.uniqueIds

theorem perspective_eq (h : ResolvedFrom e compiled source unit s) (database : DatabaseId) :
    s.perspective database = unit.perspective e.settings.defaultSchema (some database) := by
  rw [perspective, h.store, h.scope]
  rfl

/-- The database of the main table that a unit shows under the id of one of its mappings. -/
theorem mainDatabase?_of_mem (h : ResolvedFrom e compiled source unit s) {m : ClassMapping}
    (hm : m ∈ unit.classMappings) {i : SetImplementation} (hi : i ∈ m.implementations) :
    unit.mainDatabase? i.id = some i.mainTable.database := by
  have hdistinct : unit.DistinctIds := h.ids_nodup
  have hshown : unit.seenLocally m ∈ unit.effectiveClassMappings :=
    mem_effectiveClassMappings_iff.2 (.inl ⟨m, hm, rfl⟩)
  rw [mainDatabase?, setImplementation?_of_mem hdistinct hshown hi]
  rfl

/-- A class mapping records every name in its source. -/
theorem classMapping_records (h : ResolvedFrom e compiled source unit s) (hs : e.store.Cataloged)
    {written : Source.ClassMapping} (hwritten : written ∈ source.classMappings)
    (hown : own ⊆ unit.classMappings) : (s.classMapping own written).Records
      (unit.classUsages e.settings.defaultSchema written) := by
  intro m hm
  have hstore : s.store = e.store := by rw [h.scope]
  -- the mapping is one of those that the unit ends up with: the main tables of its parts are those it shows
  have hmem := h.solution.mem_of_classMapping hwritten hown hm
  rw [Scope.classMapping_records_parts own written m hm, classUsages, s.sets_eq, List.flatMap_map]
  refine List.flatMap_congr fun part hpart => ?_
  rcases exists_of_mem_left (Scope.forall₂_parts_of_classMapping hm) hpart with ⟨i, hi, hresolved⟩
  rcases Scope.setImplementation_records (hstore ▸ hs) hresolved with
    ⟨database, hdatabase, hrecords⟩
  have hid : part.1.id = i.id := (Scope.resolvedSet_of_setImplementation hresolved).id.symm
  rw [hrecords, setUsages, h.perspective_eq, hid, h.mainDatabase?_of_mem hmem hi, h.store, ← hstore,
    hdatabase]

theorem resolveFrom_records (h : ResolvedFrom e compiled source unit s) (hs : e.store.Cataloged)
    {l : List Source.ClassMapping} (hl : l ⊆ source.classMappings) (hown : own ⊆ unit.classMappings) :
    (s.resolveFrom own l).Records (l.flatMap (unit.classUsages e.settings.defaultSchema)) := by
  induction l generalizing own with
  | nil => exact records_pure own
  | cons written rest ih =>
    rcases List.cons_subset.1 hl with ⟨hwritten, hrest⟩
    rw [Scope.resolveFrom, List.flatMap_cons]
    refine (h.classMapping_records hs hwritten hown).bind fun m hm => ih hrest ?_
    have hmem := h.solution.mem_of_classMapping hwritten hown hm
    exact List.append_subset.2 ⟨hown, List.cons_subset.2 ⟨hmem, List.nil_subset _⟩⟩

/-- The class mappings of a unit record what they record in the order of their declaration. -/
theorem perm_classUsages (h : ResolvedFrom e compiled source unit s) (hs : e.store.Cataloged) :
    ((s.classMappings source.classMappings).usages.map some).Perm
      (source.classMappings.flatMap (unit.classUsages e.settings.defaultSchema)) := by
  have hresolved := h.resolved
  unfold Scope.classMappings at hresolved
  simp only [result_bind_eq_ok_iff, result_monadLift] at hresolved
  rcases hresolved with ⟨ordered, horder, -⟩
  have hrecords : (s.classMappings source.classMappings).Records
      (ordered.flatMap (unit.classUsages e.settings.defaultSchema)) := by
    refine (records_monadLift _).bind_silent fun ordered' horder' => ?_
    obtain rfl : ordered = ordered' := Except.ok.inj (horder.symm.trans horder')
    refine (h.resolveFrom_records hs (Extension.order_complete horder).1
      (List.nil_subset _)).bind_last fun resolved _ => ?_
    exact (records_monadLift _).bind_silent fun _ _ => records_pure _
  rw [hrecords _ h.resolved]
  exact (Extension.perm_of_order (mappingIds_nodup h.ids) horder).flatMap_right _

/-- A binding starts on the main table that the unit shows for its source. -/
theorem mainDatabase?_of_binding (h : ResolvedFrom e compiled source unit s)
    {association : Model.Association} {id : String} {m : Source.PropertyMapping} {b : Binding}
    (hb : s.binding unit.classMappings association id m = .ok b) :
    unit.mainDatabase? (unit.sourceId association m) = some b.source.mainTable.database := by
  have hincluded : s.included = unit.flattened := by rw [h.scope]
  have hroots : s.roots = unit.roots := by rw [h.scope]
  have hid : unit.sourceId association m = b.sourceId := by
    rw [Scope.sourceId_of_binding hb]
    unfold sourceId Scope.endId
    cases m.sourceId with
    | none => simp only [hroots]
    | some id => rfl
  rcases Scope.ends_of_binding hb with ⟨-, hsource, -⟩
  rw [Scope.endMapping?_eq hincluded] at hsource
  rcases Option.map_eq_some_iff.1 hsource with ⟨shown, hshown, hend⟩
  rw [mainDatabase?, hid, hshown, ← hend]
  rfl

theorem associationPropertyMapping_records (h : ResolvedFrom e compiled source unit s)
    (hs : e.store.Cataloged) (association : Model.Association) (id : String)
    (m : Source.PropertyMapping) :
    (s.associationPropertyMapping unit.classMappings association id m).Records
      ((unit.perspective e.settings.defaultSchema
        (unit.mainDatabase? (unit.sourceId association m))).usages m.occurrences) := by
  have hstore : s.store = e.store := by rw [h.scope]
  refine (records_monadLift _).bind_silent fun b hb => ?_
  rw [h.mainDatabase?_of_binding hb, ← h.perspective_eq]
  refine (records_monadLift _).bind_silent fun _ _ => ?_
  exact (Scope.bindingPath_records (hstore ▸ hs) b m).bind_last fun _ _ => records_pure _

/-- An association mapping records every name in its source. -/
theorem associationMapping_records (h : ResolvedFrom e compiled source unit s)
    (hs : e.store.Cataloged) (written : Source.AssociationMapping) :
    (s.associationMapping unit.classMappings written).Records
      (unit.associationUsages e.settings.defaultSchema e.model written) := by
  have hmodel : s.model = e.model := by rw [h.scope]
  have hproperties : ∀ association id seen (sources : List Source.PropertyMapping),
      (s.associationPropertyMappings unit.classMappings association id seen sources).Records
        (sources.flatMap fun m => (unit.perspective e.settings.defaultSchema
          (unit.mainDatabase? (unit.sourceId association m))).usages m.occurrences) := by
    intro association id seen sources
    induction sources generalizing seen with
    | nil => exact records_pure []
    | cons m rest ih =>
      unfold Scope.associationPropertyMappings
      dsimp only
      split
      · exact records_of_error rfl
      · refine (h.associationPropertyMapping_records hs association id m).bind fun _ _ => ?_
        exact (ih _).bind_last fun _ _ => records_pure _
  unfold Scope.associationMapping associationUsages
  rw [hmodel]
  cases e.model.association? written.association.value with
  | none => exact records_of_error rfl
  | some association =>
    rw [Option.toList_some, List.flatMap_singleton]
    exact (hproperties association _ [] _).bind_last fun _ _ => records_pure _

end ResolvedFrom

/-! ## Units -/

/-- A unit keeps what the resolution of its mappings has recorded. -/
theorem exists_usages_of_resolve {e : Environment} {compiled : String → Option MappingUnit}
    {source : Source.Mapping} {unit : MappingUnit} (h : resolve e compiled source = .ok unit) :
    ∃ s, ResolvedFrom e compiled source unit s ∧
      unit.usages = Store.keptUsages e.settings (resolveMappings s source).usages := by
  rcases resolvedFrom_of_resolve h with ⟨s, hresolved⟩
  refine ⟨s, hresolved, ?_⟩
  rw [hresolved.scope]
  unfold resolve at h
  simp only [bind_eq_ok_iff, pure_eq_ok_iff, Scope.ofClasses] at h
  rcases h with
    ⟨includes, -, flattened, -, _, -, enumerationMappings, -, _, ⟨_, -, roots, -, rfl⟩, _, -, rfl⟩
  rfl

/-- A unit that is resolved has recorded the names that are written in its source, each once. -/
theorem perm_writtenUsages {e : Environment} {compiled : String → Option MappingUnit}
    {source : Source.Mapping} {unit : MappingUnit} (hs : e.store.Cataloged)
    (hrecord : e.settings.recordUsages = true) (h : resolve e compiled source = .ok unit) :
    (unit.usages.references.map some).Perm
      (unit.writtenUsages e.settings.defaultSchema e.model source) := by
  rcases exists_usages_of_resolve h with ⟨s, hresolved, husages⟩
  have hkept : unit.usages = Usages.ofList (resolveMappings s source).usages := by
    rw [husages]
    exact if_pos hrecord
  have hassociations := result_forAll_eq_ok_iff.2 hresolved.associationMappings
  have hrecords := records_forAll fun m (_ : m ∈ source.associationMappings) =>
    hresolved.associationMapping_records hs m
  have hrecorded : (resolveMappings s source).usages =
      (s.classMappings source.classMappings).usages ++
        (forAll (s.associationMapping unit.classMappings) source.associationMappings).usages := by
    rw [resolveMappings, usages_bind hresolved.resolved, usages_bind hassociations]
    exact congrArg _ (List.append_nil _)
  rw [hkept]
  refine ((Usages.perm_references_ofList _).map some).trans ?_
  rw [hrecorded, List.map_append, hrecords _ hassociations]
  exact (hresolved.perm_classUsages hs).append_right _

end MappingUnit

/-- A store that is built has recorded the names in its sources, each once; and so has every unit that is
resolved against it. -/
theorem names_recorded_once {settings : ResolutionSettings} {databases : List Source.Database}
    {store : Store} (hbuild : Store.build settings databases = .ok store)
    (hrecord : settings.recordUsages = true) :
    (store.usages.references.map some).Perm
        (store.writtenUsages settings.defaultSchema databases) ∧
      ∀ (model : ObjectModel) (compiled : String → Option MappingUnit) (source : Source.Mapping)
        (unit : MappingUnit), MappingUnit.resolve ⟨model, store, settings⟩ compiled source = .ok unit →
        (unit.usages.references.map some).Perm
          (unit.writtenUsages settings.defaultSchema model source) := by
  refine ⟨Store.perm_writtenUsages hbuild hrecord, fun model compiled source unit hunit => ?_⟩
  exact MappingUnit.perm_writtenUsages (e := ⟨model, store, settings⟩)
    (Store.cataloged_of_build hbuild) hrecord hunit

/-- The main table of the managers is found from the join, and not recorded. The names of the table and of its
columns are those of the database that declares it. -/
theorem names_recorded_once_of_managers :
    ∃ store unit, Store.build {} [Store.reportingDatabase, Store.personnelDatabase] = .ok store ∧
      MappingUnit.resolve ⟨(Store.managersEnvironment store).model, store, {}⟩ (fun _ => none)
        Store.managersSource = .ok unit ∧
      (store.usages.references.map some).Perm ([
        .database "personnel", .table "personnel" "default" "PERSON",
        .column "personnel" "default" "PERSON" "MANAGER_ID",
        .column "personnel" "default" "PERSON" "ID"].map fun symbol => some ⟨symbol, {}⟩) ∧
      (unit.usages.references.map some).Perm ([
        .database "reporting", .join "reporting" "manager",
        .database "personnel", .table "personnel" "default" "PERSON",
        .column "personnel" "default" "PERSON" "ID"].map fun symbol => some ⟨symbol, {}⟩) := by
  have hresolves : (do
      let store ← Store.build {} [Store.reportingDatabase, Store.personnelDatabase]
      let unit ← MappingUnit.resolve ⟨(Store.managersEnvironment store).model, store, {}⟩
        (fun _ => none) Store.managersSource
      return (store.writtenUsages "default" [Store.reportingDatabase, Store.personnelDatabase],
        unit.writtenUsages "default" (Store.managersEnvironment store).model
          Store.managersSource)) = (.ok ([
        .database "personnel", .table "personnel" "default" "PERSON",
        .column "personnel" "default" "PERSON" "MANAGER_ID",
        .column "personnel" "default" "PERSON" "ID"].map fun symbol => some ⟨symbol, {}⟩, [
        .database "reporting", .join "reporting" "manager",
        .database "personnel", .table "personnel" "default" "PERSON",
        .column "personnel" "default" "PERSON" "ID"].map fun symbol => some ⟨symbol, {}⟩) :
          Resolved (List (Option Usage) × List (Option Usage))) := by
    decide +kernel
  rcases bind_eq_ok_iff.1 hresolves with ⟨store, hstore, hresolves⟩
  rcases bind_eq_ok_iff.1 hresolves with ⟨unit, hunit, hwritten⟩
  rcases Prod.mk.inj (Except.ok.inj hwritten) with ⟨hwritten, hwritten'⟩
  rcases names_recorded_once hstore rfl with ⟨hstoreUsages, hunitUsages⟩
  refine ⟨store, unit, hstore, hunit, ?_, ?_⟩
  · rw [← hwritten]
    exact hstoreUsages
  · rw [← hwritten']
    exact hunitUsages _ _ _ _ hunit

end ObjectRelational
