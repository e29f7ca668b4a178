import ObjectRelational.Proofs.Mapping.Association
import ObjectRelational.Proofs.Store.Resolution

/-!
# Mappings fit in their store

A mapping that resolves against a closed store fits in it, when that does which it takes from included
mappings: their main tables, as they are seen through the include.

* `Scope.Closed`: a scope over a closed store, that sees main tables of the store only.
* `Scope.mappings_fit`: property mappings that resolve fit, embedded ones included.
* `Temporal.fitsIn_embeddedMapping`: so do the columns that hold the times of rows.
* `Scope.classMappings_fit`, `Scope.fitsIn_of_associationMapping`: and so do the mappings of a unit.
* `Effective.substituted`: a relational mapping as it is seen. `Effective.fitsIn_substituted`: it fits,
  if it fits as it is declared.
-/

namespace ObjectRelational

/-! ## Views -/

namespace Effective

variable {store : Store} {e : Effective SetImplementation}

/-- A relational mapping as it is seen: every database is the one that is seen in its place. -/
def substituted (e : Effective SetImplementation) : SetImplementation :=
  { e.declared with
    mainTable := e.mainTable
    filter := e.declared.filter.map (FilterPointer.mapDatabases e.substitute)
    groupBy := e.declared.groupBy.map (Operation.mapDatabases e.substitute)
    primaryKey := e.declared.primaryKey.map (Operation.mapDatabases e.substitute)
    propertyMappings := e.propertyMappings }

/-- A mapping that fits as it is declared fits as it is seen, if all databases are seen as databases of
the store. -/
theorem fitsIn_substituted (he : e.declared.FitsIn store)
    (hsubstitute : ∀ d, store.HasDatabase d → store.HasDatabase (e.substitute d)) :
    e.substituted.FitsIn store := by
  refine ⟨he.mainTable.mapDatabase hsubstitute, fun pointer hpointer => ?_,
    fun operation hoperation => ?_, fun operation hoperation => ?_, fun m hm => ?_⟩
  · obtain ⟨old, hold, rfl⟩ := Option.map_eq_some_iff.1 hpointer
    exact (he.filter old hold).mapDatabases hsubstitute
  · obtain ⟨old, hold, rfl⟩ := List.mem_map.1 hoperation
    exact (he.groupBy old hold).mapDatabases hsubstitute
  · obtain ⟨old, hold, rfl⟩ := List.mem_map.1 hoperation
    exact (he.primaryKey old hold).mapDatabases hsubstitute
  · obtain ⟨declared, substitution, unit⟩ := e
    cases substitution with
    | none => exact he.propertyMappings m hm
    | some s =>
      replace hm : m ∈ mapDatabasesOfMappings s.apply declared.propertyMappings := hm
      rw [mapDatabasesOfMappings_eq_map] at hm
      obtain ⟨old, hold, rfl⟩ := List.mem_map.1 hm
      exact (he.propertyMappings old hold).mapDatabases hsubstitute

end Effective

theorem fitsIn_of_findImplementation? {store : Store} {own : List ClassMapping}
    (hown : ∀ m ∈ own, m.FitsIn store) {id : String} {i : SetImplementation}
    (h : findImplementation? own id = some i) : i.FitsIn store := by
  obtain ⟨m, hm, hfound⟩ := List.exists_of_findSome?_eq_some h
  exact hown m hm i (ClassMapping.mem_implementations_of_findImplementation? hfound)

/-! ## Columns of versions -/

namespace Temporal

/-- Versions take their columns from those that hold the times of the rows. -/
theorem mem_of_versions? {m : Milestoning} {temporal : Model.Temporal} {v : Versions}
    (h : versions? m temporal = some v) : ∀ c ∈ v.columns, c.2 ∈ m.columns := by
  cases m <;> cases temporal <;>
    simp [versions?, Milestoning.business?, Milestoning.processing?, Milestoning.snapshot?] at h <;>
    subst h <;> simp [businessColumns, processingColumns, Milestoning.columns]

theorem fitsIn_embeddedMapping {store : Store} {owner : String} {main : TableAlias}
    (hmain : main.FitsIn store) {span : Span} {v : Versions}
    (hcolumns : ∀ c ∈ v.columns, store.HasColumn main.table c.2) :
    (embeddedMapping owner main span v).FitsIn store := by
  refine .embedded rfl (by simp) (fun p hp => ?_) (by simp)
  obtain ⟨c, hc, rfl⟩ := List.mem_map.1 hp
  exact .relational rfl (.column ⟨hmain, hcolumns c hc⟩)

end Temporal

theorem Environment.closed_resolverIn {e : Environment} (he : e.store.Closed) {database : DatabaseId}
    (hdatabase : e.store.HasDatabase database) : (e.resolverIn database).Closed :=
  ⟨he, hdatabase, by simp [resolverIn]⟩

theorem Environment.hasDatabase_of_databaseNamed {e : Environment} {name : Name} {id : DatabaseId}
    (h : e.databaseNamed name = .ok id) : e.store.HasDatabase id := by
  unfold databaseNamed at h
  split at h
  · rename_i found hfound
    obtain rfl := Except.ok.inj h
    exact Store.hasDatabase_of_databaseNamed? hfound
  · exact absurd h (found_ne_ok _ _ _)

namespace Scope

/-- The store of a scope is closed, and the mappings that are included are seen with main tables that
fit in it. -/
structure Closed (s : Scope) : Prop where
  store : s.store.Closed
  included : ∀ e ∈ s.includedMappings, ∀ i ∈ e.declared.implementations,
    (e.withDeclared i).mainTable.FitsIn s.store

variable {s : Scope} {own : List ClassMapping} {header : Header} {body : Source.RelationalMapping}

/-! ## Property mappings -/

variable {r : Resolver} {o : PropertyOwner}

theorem fitsIn_of_dataOperation (hr : r.Closed) (ho : o.main.FitsIn r.store) {property : Name}
    {source : Source.Operation} {operation : Operation}
    (h : (dataOperation r o property source).result = .ok operation) : operation.FitsIn r.store := by
  obtain ⟨resolved, hresolved, h⟩ := Recorded.result_bind_eq_ok_iff.1 h
  split at h
  · exact absurd h (found_ne_ok _ _ _)
  · obtain rfl := Except.ok.inj h
    exact Resolver.resolve_fits hr _ ho.of_some _ _ hresolved

theorem fitsIn_of_localValue (hr : r.Closed) (ho : o.main.FitsIn r.store) {property : Name}
    {source : Source.PropertyBody} {value : PropertyValue}
    (h : (localValue r o property source).result = .ok value) {m : PropertyMapping}
    (hm : m.value = value) : m.FitsIn r.store := by
  unfold localValue at h
  split at h
  · obtain ⟨operation, hoperation, h⟩ := Recorded.result_bind_eq_ok_iff.1 h
    obtain rfl := Except.ok.inj h
    exact .relational hm (fitsIn_of_dataOperation hr ho hoperation)
  · exact absurd h (found_ne_ok _ _ _)
  · exact absurd h (found_ne_ok _ _ _)
  · exact absurd h (found_ne_ok _ _ _)

theorem fitsIn_of_relationalValue (hr : r.Closed) (ho : o.main.FitsIn r.store) {name : Name}
    {property : Model.Property} {targetId transformer : Option Name} {source : Source.Operation}
    {resolved : ResolvedBody}
    (h : (s.relationalValue r o name property targetId source transformer).result = .ok resolved)
    {m : PropertyMapping} (hm : m.value = resolved.value) : m.FitsIn r.store := by
  obtain ⟨operation, hoperation, h⟩ := Recorded.result_bind_eq_ok_iff.1 h
  have hfits := Resolver.resolve_fits hr _ ho.of_some _ _ hoperation
  split at h
  · split at h
    · exact absurd h (found_ne_ok _ _ _)
    · obtain ⟨_, -, h⟩ := Recorded.result_bind_eq_ok_iff.1 h
      obtain rfl := Except.ok.inj h
      exact .relational hm hfits
  · split at h
    · exact absurd h (found_ne_ok _ _ _)
    · split at h
      · obtain ⟨_, -, h⟩ := Recorded.result_bind_eq_ok_iff.1 h
        obtain rfl := Except.ok.inj h
        exact .relational hm hfits
      · exact absurd h (found_ne_ok _ _ _)

theorem fitsIn_of_otherwise? (hr : r.Closed) (ho : o.main.FitsIn r.store) {property : Model.Property}
    {source : Option Source.Otherwise} {otherwise : Option Otherwise}
    (h : (s.otherwise? r o property source).result = .ok otherwise) :
    ∀ found, otherwise = some found → found.join.FitsIn r.store := by
  rintro found rfl
  cases source with
  | none => cases h
  | some source =>
    obtain ⟨_, -, h⟩ := Recorded.result_bind_eq_ok_iff.1 h
    obtain ⟨join, hjoin, h⟩ := Recorded.result_bind_eq_ok_iff.1 h
    obtain rfl := Option.some.inj (Except.ok.inj h)
    exact Resolver.resolvePath_fits hr _ ho.of_some _ _ _ hjoin

mutual

theorem mapping_fits (hr : r.Closed) (o : PropertyOwner) (ho : o.main.FitsIn r.store) :
    (source : Source.PropertyMapping) → ∀ m, (s.mapping r o source).result = .ok m → m.FitsIn r.store
  | ⟨name, _, _, some localType, body, span⟩ => by
    intro m h
    unfold mapping at h
    obtain ⟨value, hvalue, h⟩ := Recorded.result_bind_eq_ok_iff.1 h
    obtain rfl := Except.ok.inj h
    exact fitsIn_of_localValue hr ho hvalue rfl
  | ⟨name, _, targetId, none, body, span⟩ => by
    intro m h
    unfold mapping at h
    obtain ⟨property, -, h⟩ := Recorded.result_bind_eq_ok_iff.1 h
    obtain ⟨resolved, hresolved, h⟩ := Recorded.result_bind_eq_ok_iff.1 h
    obtain rfl := Except.ok.inj h
    exact value_fits hr o ho name property targetId body resolved hresolved _ rfl

theorem value_fits (hr : r.Closed) (o : PropertyOwner) (ho : o.main.FitsIn r.store) (name : Name)
    (property : Model.Property) (targetId : Option Name) : (source : Source.PropertyBody) →
      ∀ resolved, (s.value r o name property targetId source).result = .ok resolved →
        ∀ m : PropertyMapping, m.value = resolved.value → m.FitsIn r.store
  | .relational source enumerationMapping => by
    intro resolved h m hm
    unfold value at h
    exact fitsIn_of_relationalValue hr ho h hm
  | .embedded primaryKey propertyMappings otherwise => by
    intro resolved h m hm
    unfold value at h
    split at h
    · exact absurd h (found_ne_ok _ _ _)
    · rename_i className _
      simp only [Recorded.result_bind_eq_ok_iff, Recorded.result_pure] at h
      obtain ⟨key, hkey, inner, hinner, other, hother, h⟩ := h
      obtain rfl := Except.ok.inj h
      exact .embedded hm (Resolver.resolveAll_fits hr _ ho.of_some _ _ hkey)
        (mappings_fit hr ⟨o.embeddedId name.value, className, o.main⟩ ho [] propertyMappings inner
          hinner)
        (fitsIn_of_otherwise? hr ho hother)
  | .inline target => by
    intro resolved h m hm
    unfold value inlineValue at h
    simp only [Recorded.result_ofResult] at h
    split at h
    · exact absurd h (found_ne_ok _ _ _)
    · obtain ⟨_, -, h⟩ := bind_eq_ok_iff.1 h
      obtain rfl := pure_eq_ok_iff.1 h
      exact .inline hm

/-- Property mappings that resolve fit, if the main table does. -/
theorem mappings_fit (hr : r.Closed) (o : PropertyOwner) (ho : o.main.FitsIn r.store)
    (seen : List String) : (sources : List Source.PropertyMapping) →
      ∀ ms, (s.mappings r o seen sources).result = .ok ms → ∀ m ∈ ms, m.FitsIn r.store
  | [] => by
    intro ms h
    unfold mappings at h
    obtain rfl := Except.ok.inj h
    simp
  | source :: rest => by
    intro ms h
    unfold mappings at h
    simp only [Recorded.result_bind_eq_ok_iff, Recorded.result_pure] at h
    obtain ⟨_, -, first, hfirst, others, hothers, h⟩ := h
    obtain rfl := Except.ok.inj h
    exact List.forall_mem_cons.2 ⟨mapping_fits hr o ho source first hfirst,
      mappings_fit hr o ho _ rest others hothers⟩

end

/-! ## Main tables -/

theorem addTables_fit {store : Store} {known roots : List TableAlias}
    (hknown : ∀ a ∈ known, a.FitsIn store) (hroots : ∀ a ∈ roots, a.FitsIn store) :
    ∀ a ∈ addTables known roots, a.FitsIn store := by
  induction roots generalizing known with
  | nil => exact hknown
  | cons root rest ih =>
    obtain ⟨hroot, hrest⟩ := List.forall_mem_cons.1 hroots
    unfold addTables
    split
    · exact ih hknown hrest
    · exact ih (List.forall_mem_append.2 ⟨hknown, List.forall_mem_singleton.2 hroot⟩) hrest

theorem rootTables_fit {r : Resolver} (hr : r.Closed) {known found : List TableAlias}
    {operations : List Source.Operation} (hknown : ∀ a ∈ known, a.FitsIn r.store)
    (h : rootTables r known operations = .ok found) : ∀ a ∈ found, a.FitsIn r.store := by
  induction operations generalizing known with
  | nil =>
    obtain rfl := Except.ok.inj h
    exact hknown
  | cons operation rest ih =>
    obtain ⟨roots, hroots, h⟩ := bind_eq_ok_iff.1 h
    exact ih (addTables_fit hknown (Resolver.inferRoots_fit hr hroots)) h

theorem fitsIn_of_inferMainTable {r : Resolver} (hr : r.Closed) {main : TableAlias}
    (h : inferMainTable r header body = .ok main) : main.FitsIn r.store := by
  obtain ⟨tables, htables, h⟩ := bind_eq_ok_iff.1 h
  split at h
  · exact absurd h (found_ne_ok _ _ _)
  · obtain rfl := pure_eq_ok_iff.1 h
    exact rootTables_fit hr (by simp) htables _ List.mem_cons_self
  · exact absurd h (found_ne_ok _ _ _)

theorem fitsIn_of_mainTable {r : Resolver} (hr : r.Closed) {inherited : Option Inherited}
    (hinherited : ∀ i, inherited = some i → i.mainTable.FitsIn r.store) {main : TableAlias}
    (h : (mainTable r header body inherited).result = .ok main) : main.FitsIn r.store := by
  unfold mainTable at h
  split at h
  · rename_i inherited
    obtain rfl := Except.ok.inj h
    exact hinherited _ rfl
  · exact Resolver.fitsIn_of_table hr h
  · exact fitsIn_of_inferMainTable hr h

/-- The database in which names are looked up is one of the store. -/
theorem hasDatabase_of_defaultDatabase {inherited : Option Inherited}
    (hinherited : ∀ i, inherited = some i → i.mainTable.FitsIn s.store) {database : DatabaseId}
    (h : s.defaultDatabase header body inherited = .ok database) : s.store.HasDatabase database := by
  unfold defaultDatabase at h
  split at h
  · rename_i inherited
    obtain rfl := Except.ok.inj h
    exact (hinherited _ rfl).database
  · exact Environment.hasDatabase_of_databaseNamed h
  · unfold markedDatabase at h
    split at h
    · exact Environment.hasDatabase_of_databaseNamed h
    · split at h
      · exact absurd h (found_ne_ok _ _ _)
      · exact absurd h (found_ne_ok _ _ _)

section Own

variable (hs : s.Closed) (hown : ∀ m ∈ own, m.FitsIn s.store)
include hs

/-- What an id denotes among included mappings is seen with a main table that fits. -/
theorem fitsIn_of_findEffective? {id : String} {e : Effective SetImplementation}
    (h : findEffective? s.includedMappings id = some e) : e.mainTable.FitsIn s.store := by
  obtain ⟨c, hc, hfound⟩ := List.exists_of_findSome?_eq_some h
  obtain ⟨i, hi, rfl⟩ := Option.map_eq_some_iff.1 hfound
  exact hs.included c hc i (ClassMapping.mem_implementations_of_findImplementation? hi)

include hown

theorem fitsIn_of_superMapping? {id : String} {inherited : Inherited}
    (h : s.superMapping? own id = some inherited) : inherited.mainTable.FitsIn s.store := by
  unfold superMapping? at h
  split at h
  · rename_i implementation hfound
    obtain rfl := Option.some.inj h
    exact (fitsIn_of_findImplementation? hown hfound).mainTable
  · obtain ⟨e, he, rfl⟩ := Option.map_eq_some_iff.1 h
    exact hs.included e (List.mem_of_find?_eq_some he) _ e.declared.setImplementation_mem

theorem fitsIn_of_inherited? {inherited : Option Inherited}
    (h : s.inherited? own header body = .ok inherited) :
    ∀ i, inherited = some i → i.mainTable.FitsIn s.store := by
  rintro i rfl
  rcases super_of_inherited? h with ⟨-, hnone⟩ | ⟨superId, found, -, hsuper, hsome⟩
  · cases hnone
  · obtain rfl := Option.some.inj hsome
    exact fitsIn_of_superMapping? hs hown hsuper

end Own

/-! ## Class mappings -/

/-- The columns that hold the times of the rows of a table are there. -/
theorem fitsIn_of_milestoning? (hs : s.store.Closed) {main : TableAlias} (hmain : main.FitsIn s.store)
    {declared : List PropertyMapping} {m : PropertyMapping}
    (h : s.milestoning? header main declared = some m) : m.FitsIn s.store := by
  unfold milestoning? at h
  split at h
  · simp only [Option.bind_eq_bind, Option.bind_eq_some_iff, Option.pure_def, Option.some.injEq] at h
    obtain ⟨_, -, temporal, -, t, ht, milestoning, hmilestoning, versions, hversions, rfl⟩ := h
    have hfits := hs.tables t (Store.hasTable_of_table? ht).2
    refine Temporal.fitsIn_embeddedMapping hmain fun c hc => ⟨t, ht, ?_⟩
    exact hfits.milestoning milestoning hmilestoning _ (Temporal.mem_of_versions? hversions c hc)
  · cases h

section ClassMappings

variable (hs : s.Closed)
include hs

theorem fitsIn_of_setImplementation (hown : ∀ m ∈ own, m.FitsIn s.store) {i : SetImplementation}
    (h : (s.setImplementation own header body).result = .ok i) : i.FitsIn s.store := by
  unfold setImplementation at h
  simp only [Recorded.result_bind_eq_ok_iff, Recorded.result_monadLift, Recorded.result_pure] at h
  obtain ⟨inherited, hinherited, database, hdatabase, main, hmain, filter, hfilter, groupBy, hgroupBy,
    primaryKey, hprimaryKey, declared, hdeclared, _, -, h⟩ := h
  obtain rfl := Except.ok.inj h
  have hinherited := fitsIn_of_inherited? hs hown hinherited
  have hr := Environment.closed_resolverIn hs.store
    (hasDatabase_of_defaultDatabase hinherited hdatabase)
  have hmain : main.FitsIn s.store := fitsIn_of_mainTable hr hinherited hmain
  have hdeclared := mappings_fit hr ⟨header.id, header.className, main⟩ hmain [] _ _ hdeclared
  exact {
    mainTable := hmain
    filter := Resolver.fitsIn_of_filter? hr hmain hfilter
    groupBy := Resolver.resolveAll_fits hr _ hmain.of_some _ _ hgroupBy
    primaryKey := Resolver.resolveAll_fits hr _ hmain.of_some _ _ hprimaryKey
    propertyMappings := List.forall_mem_append.2 ⟨hdeclared,
      fun m hm => fitsIn_of_milestoning? hs.store hmain (Option.mem_toList.1 hm)⟩ }

theorem fitsIn_of_classMapping (hown : ∀ m ∈ own, m.FitsIn s.store) {source : Source.ClassMapping}
    {m : ClassMapping} (h : (s.classMapping own source).result = .ok m) : m.FitsIn s.store := by
  intro i hi
  obtain ⟨header, body, hpart⟩ := exists_part_of_classMapping h i hi
  exact fitsIn_of_setImplementation hs hown hpart

theorem resolveFrom_fits (hown : ∀ m ∈ own, m.FitsIn s.store) {sources : List Source.ClassMapping}
    {resolved : List ClassMapping} (h : (s.resolveFrom own sources).result = .ok resolved) :
    ∀ m ∈ resolved, m.FitsIn s.store := by
  induction sources generalizing own with
  | nil =>
    obtain rfl := Except.ok.inj h
    exact hown
  | cons source rest ih =>
    obtain ⟨m, hm, hrest⟩ := Recorded.result_bind_eq_ok_iff.1 h
    refine ih (List.forall_mem_append.2 ⟨hown, List.forall_mem_singleton.2 ?_⟩) hrest
    exact fitsIn_of_classMapping hs hown hm

/-- The class mappings of a unit fit. -/
theorem classMappings_fit {sources : List Source.ClassMapping} {mappings : List ClassMapping}
    (h : (s.classMappings sources).result = .ok mappings) : ∀ m ∈ mappings, m.FitsIn s.store := by
  simp only [classMappings, Recorded.result_bind_eq_ok_iff, Recorded.result_pure] at h
  obtain ⟨order, -, resolved, hresolved, _, -, h⟩ := h
  obtain rfl := Except.ok.inj h
  intro m hm
  obtain ⟨source, -, hfound⟩ := List.mem_filterMap.1 hm
  exact resolveFrom_fits hs (by simp) hresolved m (List.mem_of_find?_eq_some hfound)

/-! ## Association mappings -/

variable (hown : ∀ m ∈ own, m.FitsIn s.store)
include hown

theorem fitsIn_of_endMapping? {id property : String} {found : EndMapping}
    (h : s.endMapping? own id property = some found) : found.mainTable.FitsIn s.store := by
  unfold endMapping? at h
  split at h
  · rename_i i hfound
    obtain rfl := Option.some.inj h
    exact (fitsIn_of_findImplementation? hown hfound).mainTable
  · obtain ⟨e, he, rfl⟩ := Option.map_eq_some_iff.1 h
    exact fitsIn_of_findEffective? hs he

theorem fitsIn_of_associationPropertyMapping {association : Model.Association} {id : String}
    {source : Source.PropertyMapping} {m : PropertyMapping}
    (h : (s.associationPropertyMapping own association id source).result = .ok m) :
    m.FitsIn s.store := by
  simp only [associationPropertyMapping, Recorded.result_bind_eq_ok_iff, Recorded.result_pure] at h
  obtain ⟨b, hb, _, -, operation, hoperation, h⟩ := h
  obtain rfl := Except.ok.inj h
  have hsource := fitsIn_of_endMapping? hs hown (ends_of_binding hb).2.1
  refine .relational rfl ?_
  unfold bindingPath at hoperation
  split at hoperation
  · obtain ⟨resolved, hresolved, h⟩ := Recorded.result_bind_eq_ok_iff.1 hoperation
    have hfits := Resolver.resolve_fits (Environment.closed_resolverIn hs.store hsource.database) _
      hsource.of_some _ _ hresolved
    split at h
    · obtain ⟨_, -, h⟩ := Recorded.result_bind_eq_ok_iff.1 h
      obtain rfl := Except.ok.inj h
      exact hfits
    · exact absurd h (found_ne_ok _ _ _)
  · exact absurd hoperation (found_ne_ok _ _ _)

theorem associationPropertyMappings_fit {association : Model.Association} {id : String}
    {seen : List String} {sources : List Source.PropertyMapping} {ms : List PropertyMapping}
    (h : (s.associationPropertyMappings own association id seen sources).result = .ok ms) :
    ∀ m ∈ ms, m.FitsIn s.store := by
  induction sources generalizing seen ms with
  | nil =>
    obtain rfl := Except.ok.inj h
    simp
  | cons source rest ih =>
    unfold associationPropertyMappings at h
    dsimp only at h
    split at h
    · exact absurd h (found_ne_ok _ _ _)
    · simp only [Recorded.result_bind_eq_ok_iff, Recorded.result_pure] at h
      obtain ⟨first, hfirst, others, hothers, h⟩ := h
      obtain rfl := Except.ok.inj h
      exact List.forall_mem_cons.2
        ⟨fitsIn_of_associationPropertyMapping hs hown hfirst, ih hothers⟩

/-- An association mapping fits. -/
theorem fitsIn_of_associationMapping {source : Source.AssociationMapping} {a : AssociationMapping}
    (h : (s.associationMapping own source).result = .ok a) : a.FitsIn s.store := by
  unfold associationMapping at h
  split at h
  · exact absurd h (found_ne_ok _ _ _)
  · obtain ⟨ms, hms, h⟩ := Recorded.result_bind_eq_ok_iff.1 h
    obtain rfl := Except.ok.inj h
    exact associationPropertyMappings_fit hs hown hms

end ClassMappings

end Scope

end ObjectRelational
