import ObjectRelational.Proofs.Mapping.Widening
import ObjectRelational.Proofs.Store.Addressing

/-!
# Tables that mappings reach

A mapping takes its main table from a name, from the paths of its properties, or from the mapping that it
extends, and looks further names up in the database of its main table. What is seen through an include has
its databases replaced by others that see as much. So a mapping reaches its tables as its store does:
through databases that see them, unless a join brings them along.

* `SetImplementation.aliases`, `AssociationMapping.aliases` and their companions list the aliases of
  mappings. `Effective.aliases_substituted`: a mapping is seen with its aliases mapped.
* `Scope.Relates`: a relation holds for what the mappings of a unit refer to.
  `Scope.classMappings_through`, `Scope.through_of_associationMapping`: it holds for all their aliases.
* `MappingUnit.AcceptedOver.aliases_addressed`: all aliases of a unit are addressed, and so are those that
  it shows.
* `Store.aliases_seen`: a table is reached through a database that sees it, except for one that strays.
-/

namespace ObjectRelational

/-! ## Aliases -/

mutual

/-- The aliases of a property mapping, in order and with repetitions. -/
def PropertyMapping.aliases : PropertyMapping → List TableAlias
  | ⟨_, _, _, _, value, _⟩ => value.aliases

/-- The aliases of a value. -/
def PropertyValue.aliases : PropertyValue → List TableAlias
  | .relational operation _ => operation.aliases
  | .embedded _ _ primaryKey propertyMappings otherwise =>
    primaryKey.flatMap Operation.aliases ++ aliasesOfMappings propertyMappings ++
      match otherwise with
      | none => []
      | some otherwise => otherwise.join.aliases
  | .inline _ => []

/-- The aliases of property mappings. -/
def aliasesOfMappings : List PropertyMapping → List TableAlias
  | [] => []
  | m :: rest => m.aliases ++ aliasesOfMappings rest

end

/-- The aliases of a relational mapping: its main table, and those of its expressions. -/
def SetImplementation.aliases (i : SetImplementation) : List TableAlias :=
  i.mainTable :: (i.groupBy.flatMap Operation.aliases ++ i.primaryKey.flatMap Operation.aliases ++
    aliasesOfMappings i.propertyMappings)

/-- The aliases of all relational mappings that a class mapping is made of. -/
def ClassMapping.aliases (m : ClassMapping) : List TableAlias :=
  m.implementations.flatMap SetImplementation.aliases

/-- The aliases of an association mapping. -/
def AssociationMapping.aliases (a : AssociationMapping) : List TableAlias :=
  aliasesOfMappings a.propertyMappings

/-- The aliases of the mappings that a unit declares. -/
def MappingUnit.aliases (u : MappingUnit) : List TableAlias :=
  u.classMappings.flatMap ClassMapping.aliases ++
    u.associationMappings.flatMap AssociationMapping.aliases

/-- The aliases of the mappings that a unit shows, as they are seen. -/
def MappingUnit.seenAliases (u : MappingUnit) : List TableAlias :=
  (u.effectiveClassMappings.flatMap fun c =>
    c.declared.implementations.flatMap fun part => (c.withDeclared part).substituted.aliases) ++
  u.effectiveAssociationMappings.flatMap AssociationMapping.aliases

theorem aliasesOfMappings_append (l l' : List PropertyMapping) :
    aliasesOfMappings (l ++ l') = aliasesOfMappings l ++ aliasesOfMappings l' := by
  induction l with
  | nil => rfl
  | cons m rest ih => rw [List.cons_append, aliasesOfMappings, aliasesOfMappings, ih, List.append_assoc]

/-! ## Aliases of what is substituted -/

section MapDatabases

variable (f : DatabaseId → DatabaseId)

theorem Operation.aliases_mapDatabases (operation : Operation) :
    (operation.mapDatabases f).aliases = operation.aliases.map (TableAlias.mapDatabase f) :=
  aliases_mapAliases (TableAlias.mapDatabase f) f operation

theorem Operation.flatMap_aliases_mapDatabases (l : List Operation) :
    (l.map (mapDatabases f)).flatMap aliases = (l.flatMap aliases).map (TableAlias.mapDatabase f) := by
  rw [List.flatMap_map, List.map_flatMap]
  simp only [aliases_mapDatabases]

theorem JoinChain.aliases_mapDatabases (chain : JoinChain) :
    (chain.mapDatabases f).aliases = chain.aliases.map (TableAlias.mapDatabase f) :=
  Operation.aliases_mapDatabases f chain.toOperation

mutual

theorem PropertyMapping.aliases_mapDatabases : (m : PropertyMapping) →
    (m.mapDatabases f).aliases = m.aliases.map (TableAlias.mapDatabase f)
  | ⟨_, _, _, _, value, _⟩ => PropertyValue.aliases_mapDatabases value

theorem PropertyValue.aliases_mapDatabases : (value : PropertyValue) →
    (value.mapDatabases f).aliases = value.aliases.map (TableAlias.mapDatabase f)
  | .relational operation _ => operation.aliases_mapDatabases f
  | .embedded _ _ primaryKey propertyMappings otherwise => by
    simp only [PropertyValue.mapDatabases, PropertyValue.aliases,
      Operation.flatMap_aliases_mapDatabases, aliasesOfMappings_mapDatabases propertyMappings,
      List.map_append]
    cases otherwise with
    | none => rfl
    | some otherwise =>
      simp only [Option.map_some, Otherwise.mapDatabases, JoinChain.aliases_mapDatabases]
  | .inline _ => rfl

theorem aliasesOfMappings_mapDatabases : (l : List PropertyMapping) →
    aliasesOfMappings (mapDatabasesOfMappings f l) =
      (aliasesOfMappings l).map (TableAlias.mapDatabase f)
  | [] => rfl
  | m :: rest => by
    simp only [mapDatabasesOfMappings, aliasesOfMappings, PropertyMapping.aliases_mapDatabases m,
      aliasesOfMappings_mapDatabases rest, List.map_append]

end

theorem AssociationMapping.aliases_mapDatabases (a : AssociationMapping) :
    (a.mapDatabases f).aliases = a.aliases.map (TableAlias.mapDatabase f) :=
  aliasesOfMappings_mapDatabases f a.propertyMappings

end MapDatabases

/-- What is seen of a mapping has its aliases with other databases. -/
theorem Effective.aliases_substituted (e : Effective SetImplementation) :
    e.substituted.aliases = e.declared.aliases.map (TableAlias.mapDatabase e.substitute) := by
  have hproperties : aliasesOfMappings e.propertyMappings =
      (aliasesOfMappings e.declared.propertyMappings).map (TableAlias.mapDatabase e.substitute) := by
    obtain ⟨declared, substitution, unit⟩ := e
    cases substitution with
    | none => exact (List.map_id' _).symm
    | some s => exact aliasesOfMappings_mapDatabases s.apply _
  simp only [substituted, SetImplementation.aliases, mainTable, hproperties,
    Operation.flatMap_aliases_mapDatabases, List.map_cons, List.map_append]

theorem through_of_findImplementation? {R : DatabaseId → TableId → Prop} {own : List ClassMapping}
    (hown : ∀ m ∈ own, ∀ a ∈ m.aliases, a.Through R) {id : String} {i : SetImplementation}
    (h : findImplementation? own id = some i) : i.mainTable.Through R := by
  obtain ⟨m, hm, hfound⟩ := List.exists_of_findSome?_eq_some h
  exact hown m hm _ (List.mem_flatMap.2
    ⟨i, ClassMapping.mem_implementations_of_findImplementation? hfound, List.mem_cons_self⟩)

namespace Scope

/-- The relation holds for what the expressions of a unit look up, in any database, and for the main
tables with which the included mappings are seen. -/
structure Relates (s : Scope) (R : DatabaseId → TableId → Prop) : Prop where
  resolver : ∀ database, (s.resolverIn database).Relates R
  included : ∀ e ∈ s.includedMappings, ∀ i ∈ e.declared.implementations,
    (e.withDeclared i).mainTable.Through R

variable {s : Scope} {R : DatabaseId → TableId → Prop} {own : List ClassMapping} {header : Header}
  {body : Source.RelationalMapping}

/-! ## Property mappings -/

section Properties

variable {r : Resolver} {o : PropertyOwner} (hr : r.Relates R) (ho : o.main.Through R)
include hr ho

theorem resolve_through_main {source : Source.Operation} {operation : Operation}
    (h : (r.resolve (some o.main) source).result = .ok operation) :
    ∀ a ∈ operation.aliases, a.Through R :=
  Resolver.resolve_through hr _ (by rintro _ ⟨⟩; exact ho) _ _ h

theorem through_of_dataOperation {property : Name} {source : Source.Operation} {operation : Operation}
    (h : (dataOperation r o property source).result = .ok operation) :
    ∀ a ∈ operation.aliases, a.Through R := by
  obtain ⟨resolved, hresolved, h⟩ := Recorded.result_bind_eq_ok_iff.1 h
  split at h
  · exact absurd h (found_ne_ok _ _ _)
  · obtain rfl := Except.ok.inj h
    exact resolve_through_main hr ho hresolved

theorem through_of_localValue {property : Name} {source : Source.PropertyBody} {value : PropertyValue}
    (h : (localValue r o property source).result = .ok value) : ∀ a ∈ value.aliases, a.Through R := by
  unfold localValue at h
  split at h
  · obtain ⟨operation, hoperation, h⟩ := Recorded.result_bind_eq_ok_iff.1 h
    obtain rfl := Except.ok.inj h
    exact through_of_dataOperation hr ho hoperation
  · exact absurd h (found_ne_ok _ _ _)
  · exact absurd h (found_ne_ok _ _ _)
  · exact absurd h (found_ne_ok _ _ _)

theorem through_of_relationalValue {name : Name} {property : Model.Property}
    {targetId transformer : Option Name} {source : Source.Operation} {resolved : ResolvedBody}
    (h : (s.relationalValue r o name property targetId source transformer).result = .ok resolved) :
    ∀ a ∈ resolved.value.aliases, a.Through R := by
  obtain ⟨operation, hoperation, h⟩ := Recorded.result_bind_eq_ok_iff.1 h
  have hthrough := resolve_through_main hr ho hoperation
  split at h
  · split at h
    · exact absurd h (found_ne_ok _ _ _)
    · obtain ⟨_, -, h⟩ := Recorded.result_bind_eq_ok_iff.1 h
      obtain rfl := Except.ok.inj h
      exact hthrough
  · split at h
    · exact absurd h (found_ne_ok _ _ _)
    · split at h
      · obtain ⟨_, -, h⟩ := Recorded.result_bind_eq_ok_iff.1 h
        obtain rfl := Except.ok.inj h
        exact hthrough
      · exact absurd h (found_ne_ok _ _ _)

theorem through_of_otherwise? {property : Model.Property} {source : Option Source.Otherwise}
    {otherwise : Option Otherwise} (h : (s.otherwise? r o property source).result = .ok otherwise) :
    ∀ found, otherwise = some found → ∀ a ∈ found.join.aliases, a.Through R := by
  rintro found rfl
  cases source with
  | none => cases h
  | some source =>
    obtain ⟨_, -, h⟩ := Recorded.result_bind_eq_ok_iff.1 h
    obtain ⟨join, hjoin, h⟩ := Recorded.result_bind_eq_ok_iff.1 h
    obtain rfl := Option.some.inj (Except.ok.inj h)
    exact Resolver.resolvePath_through hr _ (by rintro _ ⟨⟩; exact ho) _ _ _ hjoin

end Properties

mutual

theorem mapping_through {r : Resolver} (hr : r.Relates R) (o : PropertyOwner) (ho : o.main.Through R) :
    (source : Source.PropertyMapping) → ∀ m, (s.mapping r o source).result = .ok m →
      ∀ a ∈ m.aliases, a.Through R
  | ⟨name, _, _, some localType, body, span⟩ => by
    intro m h
    unfold mapping at h
    obtain ⟨value, hvalue, h⟩ := Recorded.result_bind_eq_ok_iff.1 h
    obtain rfl := Except.ok.inj h
    exact through_of_localValue hr ho hvalue
  | ⟨name, _, targetId, none, body, span⟩ => by
    intro m h
    unfold mapping at h
    obtain ⟨property, -, h⟩ := Recorded.result_bind_eq_ok_iff.1 h
    obtain ⟨resolved, hresolved, h⟩ := Recorded.result_bind_eq_ok_iff.1 h
    obtain rfl := Except.ok.inj h
    exact value_through hr o ho name property targetId body resolved hresolved

theorem value_through {r : Resolver} (hr : r.Relates R) (o : PropertyOwner) (ho : o.main.Through R)
    (name : Name) (property : Model.Property) (targetId : Option Name) :
    (source : Source.PropertyBody) → ∀ resolved,
      (s.value r o name property targetId source).result = .ok resolved →
        ∀ a ∈ resolved.value.aliases, a.Through R
  | .relational source enumerationMapping => by
    intro resolved h
    unfold value at h
    exact through_of_relationalValue hr ho h
  | .embedded primaryKey propertyMappings otherwise => by
    intro resolved h
    unfold value at h
    split at h
    · exact absurd h (found_ne_ok _ _ _)
    · rename_i className _
      simp only [Recorded.result_bind_eq_ok_iff, Recorded.result_pure] at h
      obtain ⟨key, hkey, inner, hinner, other, hother, h⟩ := h
      obtain rfl := Except.ok.inj h
      have hkey := Resolver.resolveAll_through hr _ (by rintro _ ⟨⟩; exact ho) _ _ hkey
      have hinner := mappings_through hr ⟨o.embeddedId name.value, className, o.main⟩ ho []
        propertyMappings inner hinner
      refine List.forall_mem_append.2 ⟨List.forall_mem_append.2 ⟨hkey, hinner⟩, ?_⟩
      cases other with
      | none => simp
      | some found => exact through_of_otherwise? hr ho hother found rfl
  | .inline target => by
    intro resolved h
    unfold value inlineValue at h
    simp only [Recorded.result_ofResult] at h
    split at h
    · exact absurd h (found_ne_ok _ _ _)
    · obtain ⟨_, -, h⟩ := bind_eq_ok_iff.1 h
      obtain rfl := pure_eq_ok_iff.1 h
      simp [PropertyValue.aliases]

/-- The relation holds for all aliases of property mappings that resolve, if it does for the main
table. -/
theorem mappings_through {r : Resolver} (hr : r.Relates R) (o : PropertyOwner) (ho : o.main.Through R)
    (seen : List String) : (sources : List Source.PropertyMapping) → ∀ ms,
      (s.mappings r o seen sources).result = .ok ms → ∀ a ∈ aliasesOfMappings ms, a.Through R
  | [] => by
    intro ms h
    unfold mappings at h
    obtain rfl := Except.ok.inj h
    simp [aliasesOfMappings]
  | source :: rest => by
    intro ms h
    unfold mappings at h
    simp only [Recorded.result_bind_eq_ok_iff, Recorded.result_pure] at h
    obtain ⟨_, -, first, hfirst, others, hothers, h⟩ := h
    obtain rfl := Except.ok.inj h
    exact List.forall_mem_append.2 ⟨mapping_through hr o ho source first hfirst,
      mappings_through hr o ho _ rest others hothers⟩

end

/-! ## Main tables -/

theorem addTables_through {known roots : List TableAlias} (hknown : ∀ a ∈ known, a.Through R)
    (hroots : ∀ a ∈ roots, a.Through R) : ∀ a ∈ addTables known roots, a.Through R := by
  induction roots generalizing known with
  | nil => exact hknown
  | cons root rest ih =>
    obtain ⟨hroot, hrest⟩ := List.forall_mem_cons.1 hroots
    unfold addTables
    split
    · exact ih hknown hrest
    · exact ih (List.forall_mem_append.2 ⟨hknown, List.forall_mem_singleton.2 hroot⟩) hrest

theorem rootTables_through {r : Resolver} (hr : r.Relates R) {known found : List TableAlias}
    {operations : List Source.Operation} (hknown : ∀ a ∈ known, a.Through R)
    (h : rootTables r known operations = .ok found) : ∀ a ∈ found, a.Through R := by
  induction operations generalizing known with
  | nil =>
    obtain rfl := Except.ok.inj h
    exact hknown
  | cons operation rest ih =>
    obtain ⟨roots, hroots, h⟩ := bind_eq_ok_iff.1 h
    exact ih (addTables_through hknown (Resolver.inferRoots_through hr hroots)) h

theorem through_of_inferMainTable {r : Resolver} (hr : r.Relates R) {main : TableAlias}
    (h : inferMainTable r header body = .ok main) : main.Through R := by
  obtain ⟨tables, htables, h⟩ := bind_eq_ok_iff.1 h
  split at h
  · exact absurd h (found_ne_ok _ _ _)
  · obtain rfl := pure_eq_ok_iff.1 h
    exact rootTables_through hr (by simp) htables _ List.mem_cons_self
  · exact absurd h (found_ne_ok _ _ _)

theorem through_of_mainTable {r : Resolver} (hr : r.Relates R) {inherited : Option Inherited}
    (hinherited : ∀ i, inherited = some i → i.mainTable.Through R) {main : TableAlias}
    (h : (mainTable r header body inherited).result = .ok main) : main.Through R := by
  unfold mainTable at h
  split at h
  · rename_i inherited
    obtain rfl := Except.ok.inj h
    exact hinherited _ rfl
  · simp only [Resolver.tableRef, Resolver.table, Recorded.result_bind_eq_ok_iff,
      Recorded.result_monadLift, Recorded.result_pure] at h
    obtain ⟨found, hfound, _, -, _, -, h⟩ := h
    obtain rfl := Except.ok.inj h
    exact Resolver.through_of_lookupTable hr hfound
  · exact through_of_inferMainTable hr h

section Own

variable (hs : s.Relates R) (hown : ∀ m ∈ own, ∀ a ∈ m.aliases, a.Through R)
include hs

theorem through_of_findEffective? {id : String} {e : Effective SetImplementation}
    (h : findEffective? s.includedMappings id = some e) : e.mainTable.Through R := by
  obtain ⟨c, hc, hfound⟩ := List.exists_of_findSome?_eq_some h
  obtain ⟨i, hi, rfl⟩ := Option.map_eq_some_iff.1 hfound
  exact hs.included c hc i (ClassMapping.mem_implementations_of_findImplementation? hi)

include hown

theorem through_of_superMapping? {id : String} {inherited : Inherited}
    (h : s.superMapping? own id = some inherited) : inherited.mainTable.Through R := by
  unfold superMapping? at h
  split at h
  · rename_i implementation hfound
    obtain rfl := Option.some.inj h
    exact through_of_findImplementation? hown hfound
  · obtain ⟨e, he, rfl⟩ := Option.map_eq_some_iff.1 h
    exact hs.included e (List.mem_of_find?_eq_some he) _ e.declared.setImplementation_mem

theorem through_of_inherited? {inherited : Option Inherited}
    (h : s.inherited? own header body = .ok inherited) :
    ∀ i, inherited = some i → i.mainTable.Through R := by
  rintro i rfl
  rcases super_of_inherited? h with ⟨-, hnone⟩ | ⟨superId, found, -, hsuper, hsome⟩
  · cases hnone
  · obtain rfl := Option.some.inj hsome
    exact through_of_superMapping? hs hown hsuper

/-! ## Class mappings -/

omit hs hown in
/-- The columns that hold the times of the rows are columns of the main table. -/
theorem through_of_milestoning? {main : TableAlias} (hmain : main.Through R)
    {declared : List PropertyMapping} {m : PropertyMapping}
    (h : s.milestoning? header main declared = some m) : ∀ a ∈ m.aliases, a.Through R := by
  unfold milestoning? at h
  split at h
  · simp only [Option.bind_eq_bind, Option.bind_eq_some_iff, Option.pure_def, Option.some.injEq] at h
    obtain ⟨_, -, temporal, -, t, -, milestoning, -, versions, -, rfl⟩ := h
    have hcolumns : ∀ columns : List (String × String), ∀ a ∈ aliasesOfMappings
        (columns.map (Temporal.columnMapping (header.id ++ "_" ++ Temporal.propertyName) main
          header.span)), a = main := by
      intro columns
      induction columns with
      | nil => simp [aliasesOfMappings]
      | cons column rest ih => exact List.forall_mem_cons.2 ⟨rfl, ih⟩
    intro a ha
    obtain rfl : a = main := hcolumns versions.columns a (by
      simpa [Temporal.embeddedMapping, PropertyMapping.aliases, PropertyValue.aliases] using ha)
    exact hmain
  · cases h

theorem through_of_setImplementation {i : SetImplementation}
    (h : (s.setImplementation own header body).result = .ok i) : ∀ a ∈ i.aliases, a.Through R := by
  unfold setImplementation at h
  simp only [Recorded.result_bind_eq_ok_iff, Recorded.result_monadLift, Recorded.result_pure] at h
  obtain ⟨inherited, hinherited, database, -, main, hmain, filter, -, groupBy, hgroupBy, primaryKey,
    hprimaryKey, declared, hdeclared, _, -, h⟩ := h
  obtain rfl := Except.ok.inj h
  have hr := hs.resolver database
  have hmain := through_of_mainTable hr (through_of_inherited? hs hown hinherited) hmain
  have hsource : ∀ a, some main = some a → a.Through R := by
    rintro _ ⟨⟩
    exact hmain
  have hdeclared := mappings_through hr ⟨header.id, header.className, main⟩ hmain [] _ _ hdeclared
  refine List.forall_mem_cons.2 ⟨hmain, List.forall_mem_append.2 ⟨List.forall_mem_append.2
    ⟨Resolver.resolveAll_through hr _ hsource _ _ hgroupBy,
      Resolver.resolveAll_through hr _ hsource _ _ hprimaryKey⟩, ?_⟩⟩
  rw [aliasesOfMappings_append]
  refine List.forall_mem_append.2 ⟨hdeclared, ?_⟩
  cases hversions : s.milestoning? header main declared with
  | none => simp [aliasesOfMappings]
  | some m => simpa [aliasesOfMappings] using through_of_milestoning? hmain hversions

theorem through_of_classMapping {source : Source.ClassMapping} {m : ClassMapping}
    (h : (s.classMapping own source).result = .ok m) : ∀ a ∈ m.aliases, a.Through R := by
  refine List.forall_mem_flatMap.2 fun i hi => ?_
  obtain ⟨header, body, hpart⟩ := exists_part_of_classMapping h i hi
  exact through_of_setImplementation hs hown hpart

theorem resolveFrom_through {sources : List Source.ClassMapping} {resolved : List ClassMapping}
    (h : (s.resolveFrom own sources).result = .ok resolved) :
    ∀ m ∈ resolved, ∀ a ∈ m.aliases, a.Through R := by
  induction sources generalizing own with
  | nil =>
    obtain rfl := Except.ok.inj h
    exact hown
  | cons source rest ih =>
    obtain ⟨m, hm, hrest⟩ := Recorded.result_bind_eq_ok_iff.1 h
    refine ih (List.forall_mem_append.2 ⟨hown, List.forall_mem_singleton.2 ?_⟩) hrest
    exact through_of_classMapping hs hown hm

omit hown in
/-- The relation holds for all aliases of the class mappings of a unit. -/
theorem classMappings_through {sources : List Source.ClassMapping} {mappings : List ClassMapping}
    (h : (s.classMappings sources).result = .ok mappings) :
    ∀ m ∈ mappings, ∀ a ∈ m.aliases, a.Through R := by
  simp only [classMappings, Recorded.result_bind_eq_ok_iff, Recorded.result_pure] at h
  obtain ⟨order, -, resolved, hresolved, _, -, h⟩ := h
  obtain rfl := Except.ok.inj h
  intro m hm
  obtain ⟨source, -, hfound⟩ := List.mem_filterMap.1 hm
  exact resolveFrom_through hs (by simp) hresolved m (List.mem_of_find?_eq_some hfound)

/-! ## Association mappings -/

theorem through_of_endMapping? {id property : String} {found : EndMapping}
    (h : s.endMapping? own id property = some found) : found.mainTable.Through R := by
  unfold endMapping? at h
  split at h
  · rename_i i hfound
    obtain rfl := Option.some.inj h
    exact through_of_findImplementation? hown hfound
  · obtain ⟨e, he, rfl⟩ := Option.map_eq_some_iff.1 h
    exact through_of_findEffective? hs he

theorem through_of_associationPropertyMapping {association : Model.Association} {id : String}
    {source : Source.PropertyMapping} {m : PropertyMapping}
    (h : (s.associationPropertyMapping own association id source).result = .ok m) :
    ∀ a ∈ m.aliases, a.Through R := by
  simp only [associationPropertyMapping, Recorded.result_bind_eq_ok_iff, Recorded.result_pure] at h
  obtain ⟨b, hb, _, -, operation, hoperation, h⟩ := h
  obtain rfl := Except.ok.inj h
  have hsource := through_of_endMapping? hs hown (ends_of_binding hb).2.1
  unfold bindingPath at hoperation
  split at hoperation
  · obtain ⟨resolved, hresolved, h⟩ := Recorded.result_bind_eq_ok_iff.1 hoperation
    have hthrough := Resolver.resolve_through (hs.resolver b.source.mainTable.database) _
      (by rintro _ ⟨⟩; exact hsource) _ _ hresolved
    split at h
    · obtain ⟨_, -, h⟩ := Recorded.result_bind_eq_ok_iff.1 h
      obtain rfl := Except.ok.inj h
      exact hthrough
    · exact absurd h (found_ne_ok _ _ _)
  · exact absurd hoperation (found_ne_ok _ _ _)

theorem associationPropertyMappings_through {association : Model.Association} {id : String}
    {seen : List String} {sources : List Source.PropertyMapping} {ms : List PropertyMapping}
    (h : (s.associationPropertyMappings own association id seen sources).result = .ok ms) :
    ∀ a ∈ aliasesOfMappings ms, a.Through R := by
  induction sources generalizing seen ms with
  | nil =>
    obtain rfl := Except.ok.inj h
    simp [aliasesOfMappings]
  | cons source rest ih =>
    unfold associationPropertyMappings at h
    dsimp only at h
    split at h
    · exact absurd h (found_ne_ok _ _ _)
    · simp only [Recorded.result_bind_eq_ok_iff, Recorded.result_pure] at h
      obtain ⟨first, hfirst, others, hothers, h⟩ := h
      obtain rfl := Except.ok.inj h
      exact List.forall_mem_append.2
        ⟨through_of_associationPropertyMapping hs hown hfirst, ih hothers⟩

/-- The relation holds for all aliases of an association mapping. -/
theorem through_of_associationMapping {source : Source.AssociationMapping} {a : AssociationMapping}
    (h : (s.associationMapping own source).result = .ok a) : ∀ b ∈ a.aliases, b.Through R := by
  unfold associationMapping at h
  split at h
  · exact absurd h (found_ne_ok _ _ _)
  · obtain ⟨ms, hms, h⟩ := Recorded.result_bind_eq_ok_iff.1 h
    obtain rfl := Except.ok.inj h
    exact associationPropertyMappings_through hs hown hms

end Own

end Scope

/-! ## Units -/

theorem TableAlias.Through.mapDatabase {store : Store} {s : Substitution} {a : TableAlias}
    (hstore : store.Closed) (hs : s.Widens store) (h : a.Through store.Addresses) :
    (a.mapDatabase s.apply).Through store.Addresses :=
  Store.addresses_of_subset (hs a.database (Store.hasDatabase_of_addresses hstore h)).2 h

namespace MappingUnit

variable {store : Store} {u : MappingUnit}

theorem mem_aliases_of_mem_classMappings {m : ClassMapping} (hm : m ∈ u.classMappings)
    {part : SetImplementation} (hpart : part ∈ m.implementations) {a : TableAlias}
    (ha : a ∈ part.aliases) : a ∈ u.aliases :=
  List.mem_append_left _ (List.mem_flatMap.2 ⟨m, hm, List.mem_flatMap.2 ⟨part, hpart, ha⟩⟩)

theorem mem_aliases_of_mem_associationMappings {m : AssociationMapping}
    (hm : m ∈ u.associationMappings) {a : TableAlias} (ha : a ∈ m.aliases) : a ∈ u.aliases :=
  List.mem_append_right _ (List.mem_flatMap.2 ⟨m, hm, ha⟩)

theorem sizeOf_lt_of_mem_flattened {i : IncludedUnit} (hi : i ∈ u.flattened) :
    sizeOf i.unit < sizeOf u := by
  have hlist := List.sizeOf_lt_of_mem hi
  cases u
  cases i
  simp_all
  omega

namespace AcceptedOver

/-- All aliases of the mappings that a unit declares are addressed. -/
theorem aliases_addressed (hstore : store.Closed) (howned : store.Owned) :
    (u : MappingUnit) → u.AcceptedOver store → ∀ a ∈ u.aliases, a.Through store.Addresses
  | u, h => by
    have hflattened := h.of_mem_flattened hstore
    have hincluded : ∀ i ∈ u.flattened, ∀ a ∈ i.unit.aliases, a.Through store.Addresses :=
      fun i hi => aliases_addressed hstore howned i.unit (hflattened i hi).2
    cases h with
    | @resolved e compiled source _ he hincludes h =>
      subst he
      obtain ⟨s, hresolved⟩ := resolvedFrom_of_resolve h
      have hs : s.Relates e.store.Addresses := by
        rw [hresolved.scope]
        refine ⟨fun database => howned.relates, fun c hc part hpart => ?_⟩
        obtain ⟨i, hi, hseen⟩ := List.mem_flatMap.1 hc
        obtain ⟨m, hm, rfl⟩ := List.mem_map.1 hseen
        have hmain := mem_aliases_of_mem_classMappings hm hpart List.mem_cons_self
        exact (hincluded i hi _ hmain).mapDatabase hstore (hflattened i hi).1
      have hclasses := Scope.classMappings_through hs hresolved.resolved
      refine List.forall_mem_append.2 ⟨List.forall_mem_flatMap.2 hclasses,
        List.forall_mem_flatMap.2 fun a ha => ?_⟩
      obtain ⟨written, -, hassociation⟩ := exists_of_mem_right hresolved.associationMappings ha
      exact Scope.through_of_associationMapping hs hclasses hassociation
termination_by u => sizeOf u
decreasing_by exact sizeOf_lt_of_mem_flattened hi

/-- So are those of the mappings that it shows. -/
theorem seenAliases_addressed (hstore : store.Closed) (howned : store.Owned)
    (h : u.AcceptedOver store) : ∀ a ∈ u.seenAliases, a.Through store.Addresses := by
  have hflattened := h.of_mem_flattened hstore
  have hown := aliases_addressed hstore howned u h
  refine List.forall_mem_append.2 ⟨List.forall_mem_flatMap.2 fun c hc =>
    List.forall_mem_flatMap.2 fun part hpart => ?_, List.forall_mem_flatMap.2 fun a ha => ?_⟩
  · rw [Effective.aliases_substituted]
    refine List.forall_mem_map.2 fun a ha => ?_
    rcases mem_effectiveClassMappings_iff.1 hc with ⟨m, hm, rfl⟩ | ⟨i, hi, m, hm, rfl⟩
    · exact hown a (mem_aliases_of_mem_classMappings hm hpart ha)
    · obtain ⟨hwidens, hunit⟩ := hflattened i hi
      have hmem := mem_aliases_of_mem_classMappings hm hpart ha
      exact (aliases_addressed hstore howned i.unit hunit a hmem).mapDatabase hstore hwidens
  · rcases mem_effectiveAssociationMappings_iff.1 ha with ha | ⟨i, hi, declared, hdeclared, rfl⟩
    · exact fun b hb => hown b (mem_aliases_of_mem_associationMappings ha hb)
    · obtain ⟨hwidens, hunit⟩ := hflattened i hi
      rw [AssociationMapping.aliases_mapDatabases]
      refine List.forall_mem_map.2 fun b hb => ?_
      have hmem := mem_aliases_of_mem_associationMappings hdeclared hb
      exact (aliases_addressed hstore howned i.unit hunit b hmem).mapDatabase hstore hwidens

end AcceptedOver

end MappingUnit

namespace Store

/-! ## Stores that are built, and what is mapped over them -/

/-- A table is reached through a database that sees it, except for one that strays: in the conditions and
views of a store, in the mappings that a unit declares, and in those that it shows. -/
theorem aliases_seen (settings : ResolutionSettings) (sources : List Source.Database) (store : Store)
    (hbuild : build settings sources = .ok store) :
    (∀ a ∈ store.aliases,
      store.SeesTable a.database a.table ∨ store.Strays a.database a.table) ∧
    ∀ u : MappingUnit, u.AcceptedOver store →
      (∀ a ∈ u.aliases, store.SeesTable a.database a.table ∨ store.Strays a.database a.table) ∧
      ∀ a ∈ u.seenAliases,
        store.SeesTable a.database a.table ∨ store.Strays a.database a.table := by
  have hclosed := closed_of_build hbuild
  have haddressed := addressed_of_build hbuild
  refine ⟨fun a ha => seesTable_or_strays hclosed (haddressed.aliases a ha), fun u hu => ?_⟩
  have hdeclared := hu.aliases_addressed hclosed haddressed.owned
  have hshown := hu.seenAliases_addressed hclosed haddressed.owned
  exact ⟨fun a ha => seesTable_or_strays hclosed (hdeclared a ha),
    fun a ha => seesTable_or_strays hclosed (hshown a ha)⟩

/-- Persons have managers. -/
def personnelDatabase : Source.Database where
  name := ⟨"personnel", {}⟩
  schemas := [{
    name := ⟨"default", {}⟩
    tables := [{
      name := ⟨"PERSON", {}⟩
      columns := [⟨⟨"ID", {}⟩, .integer, false, true⟩, ⟨⟨"MANAGER_ID", {}⟩, .integer, true, false⟩] }] }]

/-- A column of the table of persons. -/
def personColumn (column : String) : Source.Operation :=
  .column { database := some ⟨"personnel", {}⟩, table := ⟨"PERSON", {}⟩, column := ⟨column, {}⟩ }

/-- Another database joins persons to their managers, and does not include the one that declares them. -/
def reportingDatabase : Source.Database where
  name := ⟨"reporting", {}⟩
  joins := [⟨⟨"manager", {}⟩, .function ⟨"equal", {}⟩
    [personColumn "MANAGER_ID", .targetColumn ⟨"ID", {}⟩], {}⟩]

/-- A person is mapped by the identifier of the manager, and the table is found from the join. -/
def managersSource : Source.Mapping where
  name := ⟨"managers", {}⟩
  classMappings := [{
    className := ⟨"Person", {}⟩
    body := .relational {
      propertyMappings := [⟨⟨"manager", {}⟩, none, none, none,
        .relational (.joinPath [{ database := some ⟨"reporting", {}⟩, name := ⟨"manager", {}⟩ }]
          (some (personColumn "ID"))) none, {}⟩] } }]

/-- What the mapping of persons is resolved against. -/
def managersEnvironment (store : Store) : Environment where
  model := .ofDefinition {
    classes := [{ path := "Person", properties := [{ name := "manager", type := .primitive .integer }] }] }
  store := store
  settings := {}

/-- The main table is found from the join, and reached through the database of the join. It strays. -/
theorem aliases_seen_of_managers :
    ∃ store unit, build {} [reportingDatabase, personnelDatabase] = .ok store ∧
      MappingUnit.resolve (managersEnvironment store) (fun _ => none) managersSource = .ok unit ∧
      (unit.classMappings.flatMap fun m => m.implementations.map (·.mainTable)) =
        [⟨"PERSON", ⟨0⟩, ⟨0⟩⟩] ∧
      (∀ a ∈ store.aliases,
        store.SeesTable a.database a.table ∨ store.Strays a.database a.table) ∧
      ∀ a ∈ unit.seenAliases,
        store.SeesTable a.database a.table ∨ store.Strays a.database a.table := by
  have hbuild : ∃ store unit, build {} [reportingDatabase, personnelDatabase] = .ok store ∧
      MappingUnit.resolve (managersEnvironment store) (fun _ => none) managersSource = .ok unit ∧
      (unit.classMappings.flatMap fun m => m.implementations.map (·.mainTable)) =
        [⟨"PERSON", ⟨0⟩, ⟨0⟩⟩] ∧ unit.includes = [] := by
    with_unfolding_all exact ⟨_, _, rfl, rfl, rfl, rfl⟩
  obtain ⟨store, unit, hstore, hunit, hmain, hnone⟩ := hbuild
  obtain ⟨haliases, hunits⟩ := aliases_seen {} [reportingDatabase, personnelDatabase] store hstore
  exact ⟨store, unit, hstore, hunit, hmain, haliases,
    (hunits unit (.resolved rfl (by simp [hnone]) hunit)).2⟩

/-- The far side of the join strays: it is reached through the database that joins persons, which does not
see the one that declares them. -/
theorem not_all_aliases_seen :
    ¬ ∀ (settings : ResolutionSettings) (sources : List Source.Database) (store : Store),
      build settings sources = .ok store →
      ∀ a ∈ store.aliases, store.SeesTable a.database a.table := by
  intro h
  have hbuild : ∃ store, build {} [reportingDatabase, personnelDatabase] = .ok store ∧
      store.aliases = [⟨"PERSON", ⟨0⟩, ⟨1⟩⟩, ⟨"t_PERSON", ⟨0⟩, ⟨0⟩⟩] ∧
      store.visibleDatabases ⟨0⟩ = [⟨0⟩] ∧ (store.table? ⟨0⟩).map (·.database) = some ⟨1⟩ := by
    with_unfolding_all exact ⟨_, rfl, rfl, rfl, rfl⟩
  obtain ⟨store, hstore, haliases, hvisible, htable⟩ := hbuild
  have hsees := h {} [reportingDatabase, personnelDatabase] store hstore ⟨"t_PERSON", ⟨0⟩, ⟨0⟩⟩
    (by simp [haliases])
  obtain ⟨owner, howner, t, ht, hdatabase⟩ := hsees
  rw [hvisible, List.mem_singleton] at howner
  rw [ht, Option.map_some, hdatabase, howner] at htable
  exact absurd htable (by decide)

end Store

end ObjectRelational
