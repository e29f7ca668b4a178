import ObjectRelational.Mapping.Resolution
import ObjectRelational.Proofs.Store.UsageErasure

/-!
# Units without usages

A unit holds its own usages, those of its store, and those of all units that it includes. None of them is
read when another unit is resolved against it.

* `MappingUnit.withoutUsages` is the unit with nothing recorded, at any depth of its includes.
* `Scope.silent` is a scope over such units and such a store. The lemmas about it go through the
  resolution of class and association mappings.
* `MappingUnit.resolve_silent`: without being asked for usages, units are resolved to the same but for the
  usages.
-/

namespace ObjectRelational

/-! ## Units -/

mutual

/-- The unit with nothing recorded: neither in itself, nor in its store, nor in what it includes. -/
def MappingUnit.withoutUsages : MappingUnit → MappingUnit
  | ⟨name, classMappings, associationMappings, enumerationMappings, includes, flattened, roots, _, store,
      span⟩ =>
    ⟨name, classMappings, associationMappings, enumerationMappings, includedWithoutUsages includes,
      includedWithoutUsages flattened, roots, .empty, store.withoutUsages, span⟩

/-- An included unit with nothing recorded. -/
def IncludedUnit.withoutUsages : IncludedUnit → IncludedUnit
  | ⟨unit, substitution⟩ => ⟨unit.withoutUsages, substitution⟩

/-- Included units with nothing recorded. -/
def includedWithoutUsages : List IncludedUnit → List IncludedUnit
  | [] => []
  | i :: rest => i.withoutUsages :: includedWithoutUsages rest

end

theorem includedWithoutUsages_eq_map (included : List IncludedUnit) :
    includedWithoutUsages included = included.map IncludedUnit.withoutUsages := by
  induction included with
  | nil => rfl
  | cons i rest ih => rw [includedWithoutUsages, ih, List.map_cons]

section Units

variable (u : MappingUnit) (i : IncludedUnit) (included : List IncludedUnit)

@[simp] theorem MappingUnit.withoutUsages_name : u.withoutUsages.name = u.name := by
  cases u
  rfl

@[simp] theorem MappingUnit.withoutUsages_usages : u.withoutUsages.usages = .empty := by
  cases u
  rfl

@[simp] theorem MappingUnit.withoutUsages_store :
    u.withoutUsages.store = u.store.withoutUsages := by
  cases u
  rfl

@[simp] theorem MappingUnit.withoutUsages_classMappings :
    u.withoutUsages.classMappings = u.classMappings := by
  cases u
  rfl

@[simp] theorem MappingUnit.withoutUsages_associationMappings :
    u.withoutUsages.associationMappings = u.associationMappings := by
  cases u
  rfl

@[simp] theorem MappingUnit.withoutUsages_enumerationMappings :
    u.withoutUsages.enumerationMappings = u.enumerationMappings := by
  cases u
  rfl

@[simp] theorem MappingUnit.withoutUsages_includes :
    u.withoutUsages.includes = u.includes.map IncludedUnit.withoutUsages := by
  cases u
  exact includedWithoutUsages_eq_map _

@[simp] theorem MappingUnit.withoutUsages_flattened :
    u.withoutUsages.flattened = u.flattened.map IncludedUnit.withoutUsages := by
  cases u
  exact includedWithoutUsages_eq_map _

@[simp] theorem IncludedUnit.withoutUsages_unit : i.withoutUsages.unit = i.unit.withoutUsages := by
  cases i
  rfl

@[simp] theorem IncludedUnit.withoutUsages_substitution :
    i.withoutUsages.substitution = i.substitution := by
  cases i
  rfl

theorem IncludedUnit.inner_withoutUsages :
    i.withoutUsages.inner = i.inner.map IncludedUnit.withoutUsages := by
  simp [IncludedUnit.inner, IncludedUnit.withoutUsages]

theorem MappingUnit.ids_withoutUsages : u.withoutUsages.ids = u.ids := by
  simp [MappingUnit.ids]

/-! ### What is seen of included units -/

theorem includedClassMappings_withoutUsages :
    includedClassMappings (included.map IncludedUnit.withoutUsages) =
      includedClassMappings included := by
  unfold includedClassMappings
  rw [List.flatMap_map]
  refine List.flatMap_congr fun i _ => ?_
  have hseen : ∀ m : ClassMapping, i.withoutUsages.seen m = i.seen m := by
    simp [IncludedUnit.seen]
  simp [hseen]

theorem includedAssociationMappings_withoutUsages :
    includedAssociationMappings (included.map IncludedUnit.withoutUsages) =
      includedAssociationMappings included := by
  simp [includedAssociationMappings, List.flatMap_map]

theorem includedEnumerationMappings_withoutUsages :
    includedEnumerationMappings (included.map IncludedUnit.withoutUsages) =
      includedEnumerationMappings included := by
  simp [includedEnumerationMappings, List.flatMap_map]

theorem MappingUnit.referencedDatabases_withoutUsages :
    u.withoutUsages.referencedDatabases = u.referencedDatabases := by
  have hseen : (u.withoutUsages.seenLocally : ClassMapping → Effective ClassMapping) =
      u.seenLocally := by
    funext m
    simp [MappingUnit.seenLocally]
  simp [referencedDatabases, effectiveClassMappings, effectiveAssociationMappings, hseen,
    includedClassMappings_withoutUsages, includedAssociationMappings_withoutUsages]

end Units

/-! ## Includes -/

namespace Include

/-- Flattening goes along names and substitutions. -/
theorem flattenFrom_withoutUsages (unit : String) (span : Span) (known queue : List IncludedUnit) :
    flattenFrom unit span (known.map IncludedUnit.withoutUsages)
        (queue.map IncludedUnit.withoutUsages) =
      List.map IncludedUnit.withoutUsages <$> flattenFrom unit span known queue := by
  induction known, queue using flattenFrom.induct with
  | case1 known =>
    simp only [List.map_nil, flattenFrom]
    rfl
  | case2 known next queue hnone ih =>
    have hnone' : (known.map IncludedUnit.withoutUsages).find?
        (fun i => i.unit.name = next.withoutUsages.unit.name) = none := by
      simpa [List.find?_map, Function.comp_def] using hnone
    rw [flattenFrom, hnone, List.map_cons, flattenFrom, hnone']
    simpa [IncludedUnit.inner_withoutUsages] using ih
  | case3 known next queue previous hsome hsame ih =>
    have hsome' : (known.map IncludedUnit.withoutUsages).find?
        (fun i => i.unit.name = next.withoutUsages.unit.name) = some previous.withoutUsages := by
      rw [List.find?_map]
      simpa [Function.comp_def] using ⟨previous, hsome, rfl⟩
    rw [flattenFrom, hsome, List.map_cons, flattenFrom, hsome']
    simpa [hsame] using ih
  | case4 known next queue previous hsome hdiffer =>
    have hsome' : (known.map IncludedUnit.withoutUsages).find?
        (fun i => i.unit.name = next.withoutUsages.unit.name) = some previous.withoutUsages := by
      rw [List.find?_map]
      simpa [Function.comp_def] using ⟨previous, hsome, rfl⟩
    rw [flattenFrom, hsome, List.map_cons, flattenFrom, hsome']
    simp [hdiffer, Fault.found]

theorem flatten_withoutUsages (unit : String) (span : Span) (direct : List IncludedUnit) :
    flatten unit span (direct.map IncludedUnit.withoutUsages) =
      List.map IncludedUnit.withoutUsages <$> flatten unit span direct :=
  flattenFrom_withoutUsages unit span [] direct

theorem checkMentioned_withoutUsages (outer : String) (source : Source.Include) (s : Substitution)
    (included : MappingUnit) (store : Store) :
    checkMentioned outer source s included.withoutUsages store.withoutUsages =
      checkMentioned outer source s included store := by
  simp only [checkMentioned, MappingUnit.referencedDatabases_withoutUsages,
    MappingUnit.withoutUsages_name]
  rfl

theorem checkIds_withoutUsages (unit : Source.Mapping) (flattened : List IncludedUnit) :
    checkIds unit (flattened.map IncludedUnit.withoutUsages) = checkIds unit flattened := by
  simp [checkIds, List.flatMap_map, MappingUnit.ids_withoutUsages]

end Include

/-! ## Scopes -/

/-- What units are resolved against when usages are neither there nor asked for. -/
def Environment.silent (e : Environment) : Environment :=
  ⟨e.model, e.store.withoutUsages, e.settings.silent⟩

namespace Scope

variable {s : Scope}

/-- The scope of a unit that is resolved without usages. -/
def silent (s : Scope) : Scope :=
  { s with
    toEnvironment := s.toEnvironment.silent
    included := s.included.map IncludedUnit.withoutUsages }

theorem silent_resolverIn (database : DatabaseId) :
    s.silent.resolverIn database = (s.resolverIn database).withoutUsages := by
  rfl

theorem includedMappings_silent : s.silent.includedMappings = s.includedMappings :=
  includedClassMappings_withoutUsages s.included

theorem checkTarget_silent (target : Name) (property : Model.Property) (owner : String) :
    s.silent.checkTarget target property owner = s.checkTarget target property owner := by
  simp only [checkTarget, classOf?, includedMappings_silent]
  rfl

theorem transformer_silent (property : Model.Property) (name : Name) :
    s.silent.transformer property name = s.transformer property name := by
  have henumeration : s.silent.enumerationMapping? name.value = s.enumerationMapping? name.value := by
    unfold enumerationMapping?
    rw [show includedEnumerationMappings s.silent.included = includedEnumerationMappings s.included from
      includedEnumerationMappings_withoutUsages s.included]
    rfl
  simp only [transformer, henumeration]

theorem transformer?_silent (property : Model.Property) (name : Option Name) :
    s.silent.transformer? property name = s.transformer? property name := by
  cases name with
  | none => rfl
  | some name => simp only [transformer?, transformer_silent]

theorem joinTarget_silent (o : PropertyOwner) (property : Model.Property) (target : Option Name) :
    s.silent.joinTarget o property target = s.joinTarget o property target := by
  cases target with
  | none => rfl
  | some target => simp only [joinTarget, checkTarget_silent]

/-! ### Property mappings -/

section Properties

variable (r : Resolver) (o : PropertyOwner)

theorem dataOperation_silent (property : Name) (source : Source.Operation) :
    dataOperation r.withoutUsages o property source = dataOperation r o property source := by
  simp only [dataOperation, Resolver.resolve_withoutUsages]

theorem localValue_silent (property : Name) (body : Source.PropertyBody) :
    localValue r.withoutUsages o property body = localValue r o property body := by
  cases body with
  | relational source enumerationMapping =>
    cases enumerationMapping with
    | none => simp only [localValue, dataOperation_silent]
    | some transformer => rfl
  | embedded primaryKey propertyMappings otherwise => rfl
  | inline target => rfl

theorem relationalValue_silent (name : Name) (property : Model.Property) (targetId : Option Name)
    (source : Source.Operation) (enumerationMapping : Option Name) :
    s.silent.relationalValue r.withoutUsages o name property targetId source enumerationMapping =
      s.relationalValue r o name property targetId source enumerationMapping := by
  simp only [relationalValue, Resolver.resolve_withoutUsages, transformer?_silent, joinTarget_silent]

theorem otherwise?_silent (property : Model.Property) (source : Option Source.Otherwise) :
    s.silent.otherwise? r.withoutUsages o property source = s.otherwise? r o property source := by
  cases source with
  | none => rfl
  | some source =>
    simp only [otherwise?, checkTarget_silent, Resolver.joinPath_withoutUsages]

theorem inlineValue_silent (name : Name) (property : Model.Property) (target : Name) :
    s.silent.inlineValue o name property target = s.inlineValue o name property target := by
  simp only [inlineValue, checkTarget_silent]

end Properties

mutual

theorem mapping_silent (r : Resolver) (o : PropertyOwner) : ∀ source : Source.PropertyMapping,
    s.silent.mapping r.withoutUsages o source = s.mapping r o source
  | ⟨_, _, _, some _, _, _⟩ => by simp only [mapping, localValue_silent]
  | ⟨name, _, targetId, none, body, _⟩ => by
    have hvalue := fun property => value_silent r o name property targetId body
    simp only [mapping, hvalue]
    rfl

theorem value_silent (r : Resolver) (o : PropertyOwner) (name : Name) (property : Model.Property)
    (targetId : Option Name) : ∀ body : Source.PropertyBody,
      s.silent.value r.withoutUsages o name property targetId body =
        s.value r o name property targetId body
  | .relational source enumerationMapping => by simp only [value, relationalValue_silent]
  | .embedded primaryKey propertyMappings otherwise => by
    have hmappings := fun o => mappings_silent r o [] propertyMappings
    simp only [value, hmappings, Resolver.resolveAll_withoutUsages, otherwise?_silent]
  | .inline target => by simp only [value, inlineValue_silent]

theorem mappings_silent (r : Resolver) (o : PropertyOwner) (seen : List String) :
    ∀ sources : List Source.PropertyMapping,
      s.silent.mappings r.withoutUsages o seen sources = s.mappings r o seen sources
  | [] => by simp only [mappings]
  | m :: rest => by
    simp only [mappings, mapping_silent r o m, mappings_silent r o _ rest]

end

/-! ### Class mappings -/

theorem checkMarkers_silent (header : Header) (database : DatabaseId) (markers : List Name) :
    s.silent.checkMarkers header database markers = s.checkMarkers header database markers := by
  induction markers with
  | nil => rfl
  | cons marker rest ih =>
    simp only [checkMarkers, ih]
    rfl

theorem inherited?_silent (own : List ClassMapping) (header : Header)
    (body : Source.RelationalMapping) :
    s.silent.inherited? own header body = s.inherited? own header body := by
  have hsuper : ∀ id, s.silent.superMapping? own id = s.superMapping? own id := by
    intro id
    simp only [superMapping?, includedMappings_silent]
  unfold inherited?
  cases header.superId with
  | none => rfl
  | some superId =>
    simp only [checkSuper, hsuper, checkMarkers_silent]
    rfl

theorem rootTables_withoutUsages (r : Resolver) (known : List TableAlias)
    (operations : List Source.Operation) :
    rootTables r.withoutUsages known operations = rootTables r known operations := by
  induction operations generalizing known with
  | nil => rfl
  | cons operation rest ih => simp only [rootTables, Resolver.inferRoots_withoutUsages, ih]

theorem mainTable_withoutUsages (r : Resolver) (header : Header) (body : Source.RelationalMapping)
    (inherited : Option Inherited) :
    mainTable r.withoutUsages header body inherited = mainTable r header body inherited := by
  unfold mainTable inferMainTable
  simp only [rootTables_withoutUsages]
  rfl

theorem setImplementation_silent (own : List ClassMapping) (header : Header)
    (body : Source.RelationalMapping) :
    s.silent.setImplementation own header body = s.setImplementation own header body := by
  have hdatabase : ∀ inherited, s.silent.defaultDatabase header body inherited =
      s.defaultDatabase header body inherited := fun _ => rfl
  simp only [setImplementation, inherited?_silent, hdatabase, silent_resolverIn,
    mainTable_withoutUsages, Resolver.filter?_withoutUsages, Resolver.resolveAll_withoutUsages,
    mappings_silent]
  rfl

theorem classMapping_silent (own : List ClassMapping) (source : Source.ClassMapping) :
    s.silent.classMapping own source = s.classMapping own source := by
  have haggregate : ∀ header, s.silent.aggregate own header = s.aggregate own header := by
    intro header
    funext view
    simp only [aggregate, setImplementation_silent]
    rfl
  have hheader : s.silent.header source = s.header source := rfl
  simp only [classMapping, hheader, setImplementation_silent, aggregationAware, haggregate]

theorem resolveFrom_silent (own : List ClassMapping) (sources : List Source.ClassMapping) :
    s.silent.resolveFrom own sources = s.resolveFrom own sources := by
  induction sources generalizing own with
  | nil => rfl
  | cons source rest ih => simp only [resolveFrom, classMapping_silent, ih]

/-! ### Ends of joins -/

theorem checkEnd_silent (own : List ClassMapping) (steps : List JoinStep) (id : String)
    (span : Span) : s.silent.checkEnd own steps id span = s.checkEnd own steps id span := by
  simp only [checkEnd, mainTableOf?, includedMappings_silent]
  rfl

mutual

theorem checkJoinEnd_silent (own : List ClassMapping) : ∀ m : PropertyMapping,
    s.silent.checkJoinEnd own m = s.checkJoinEnd own m
  | ⟨_, _, targetId, _, value, span⟩ => by
    simp only [checkJoinEnd, checkValueEnd_silent own targetId span value]

theorem checkValueEnd_silent (own : List ClassMapping) (targetId : Option String) (span : Span) :
    ∀ value : PropertyValue,
      s.silent.checkValueEnd own targetId span value = s.checkValueEnd own targetId span value
  | .relational _ _ => by simp only [checkValueEnd, checkEnd_silent]
  | .embedded _ _ _ propertyMappings _ => by
    simp only [checkValueEnd, checkJoinEnds_silent own propertyMappings, checkEnd_silent]
  | .inline _ => rfl

theorem checkJoinEnds_silent (own : List ClassMapping) : ∀ mappings : List PropertyMapping,
    s.silent.checkJoinEnds own mappings = s.checkJoinEnds own mappings
  | [] => rfl
  | m :: rest => by
    simp only [checkJoinEnds, checkJoinEnd_silent own m, checkJoinEnds_silent own rest]

end

theorem checkImplementations_silent (own : List ClassMapping)
    (implementations : List SetImplementation) :
    s.silent.checkImplementations own implementations =
      s.checkImplementations own implementations := by
  induction implementations with
  | nil => rfl
  | cons i rest ih => simp only [checkImplementations, checkJoinEnds_silent, ih]

theorem classMappings_silent (sources : List Source.ClassMapping) :
    s.silent.classMappings sources = s.classMappings sources := by
  simp only [classMappings, resolveFrom_silent, checkImplementations_silent]

/-! ### Association mappings -/

theorem bindingPath_silent (b : Binding) (source : Source.PropertyMapping) :
    s.silent.bindingPath b source = s.bindingPath b source := by
  simp only [bindingPath, silent_resolverIn, Resolver.resolve_withoutUsages]
  rfl

theorem associationPropertyMapping_silent (own : List ClassMapping)
    (association : Model.Association) (id : String) (source : Source.PropertyMapping) :
    s.silent.associationPropertyMapping own association id source =
      s.associationPropertyMapping own association id source := by
  have hend : ∀ x property, s.silent.endMapping? own x property = s.endMapping? own x property := by
    intro x property
    simp only [endMapping?, includedMappings_silent]
  have hbinding : s.silent.binding own association id source =
      s.binding own association id source := by
    simp only [binding, hend]
    rfl
  simp only [associationPropertyMapping, hbinding, bindingPath_silent]
  rfl

theorem associationPropertyMappings_silent (own : List ClassMapping)
    (association : Model.Association) (id : String) (seen : List String)
    (sources : List Source.PropertyMapping) :
    s.silent.associationPropertyMappings own association id seen sources =
      s.associationPropertyMappings own association id seen sources := by
  induction sources generalizing seen with
  | nil => rfl
  | cons m rest ih =>
    simp only [associationPropertyMappings, associationPropertyMapping_silent, ih]

theorem associationMapping_silent (own : List ClassMapping) (source : Source.AssociationMapping) :
    s.silent.associationMapping own source = s.associationMapping own source := by
  simp only [associationMapping, associationPropertyMappings_silent]
  rfl

theorem ofClasses_silent (e : Environment) (unit : Source.Mapping) (included : List IncludedUnit)
    (enumerationMappings : List EnumerationMapping) :
    ofClasses e.silent unit (included.map IncludedUnit.withoutUsages) enumerationMappings =
      silent <$> ofClasses e unit included enumerationMappings := by
  have hroots : Roots.resolve unit.span unit.classMappings
      (included.map IncludedUnit.withoutUsages) =
        Roots.resolve unit.span unit.classMappings included := by
    simp only [Roots.resolve, Roots.candidates, includedClassMappings_withoutUsages]
  unfold ofClasses
  rw [hroots]
  refine bind_congr_map fun _ _ => ?_
  refine bind_congr_map fun roots _ => ?_
  rfl

end Scope

/-! ## Resolving units -/

namespace MappingUnit

theorem resolveMappings_silent (s : Scope) (source : Source.Mapping) :
    resolveMappings s.silent source = resolveMappings s source := by
  have hassociation : ∀ own, s.silent.associationMapping own = s.associationMapping own := by
    intro own
    funext m
    exact Scope.associationMapping_silent own m
  simp only [resolveMappings, Scope.classMappings_silent, hassociation]

theorem resolveInclude_silent (e : Environment) (compiled : String → Option MappingUnit)
    (unit : String) (source : Source.Include) :
    resolveInclude e.silent (fun name => (compiled name).map withoutUsages) unit source =
      IncludedUnit.withoutUsages <$> resolveInclude e compiled unit source := by
  unfold resolveInclude
  cases hcompiled : compiled source.mapping.value with
  | none =>
    simp only [hcompiled, Option.map_none]
    rfl
  | some included =>
    simp only [hcompiled, Option.map_some]
    refine bind_congr_map fun substitution _ => ?_
    rw [show e.silent.store = e.store.withoutUsages from rfl, Include.checkMentioned_withoutUsages]
    refine bind_congr_map fun _ _ => ?_
    rfl

/-- A unit that is resolved without usages is the same but for them, and so are the failures. -/
theorem resolve_silent (e : Environment) (compiled : String → Option MappingUnit)
    (source : Source.Mapping) :
    resolve e.silent (fun name => (compiled name).map withoutUsages) source =
      withoutUsages <$> resolve e compiled source := by
  unfold resolve
  simp only
  refine bind_eq_map (mapM_eq_map fun i _ => resolveInclude_silent e compiled _ i)
    fun includes _ => ?_
  refine bind_eq_map (Include.flatten_withoutUsages _ _ includes) fun flattened _ => ?_
  rw [Include.checkIds_withoutUsages]
  refine bind_congr_map fun _ _ => ?_
  refine bind_congr_map fun enumerationMappings _ => ?_
  refine bind_eq_map (Scope.ofClasses_silent e source flattened enumerationMappings) fun s _ => ?_
  rw [resolveMappings_silent]
  refine bind_congr_map fun mappings _ => ?_
  rcases mappings with ⟨classMappings, associationMappings⟩
  simp only [map_pure, withoutUsages, includedWithoutUsages_eq_map]
  rfl

end MappingUnit

end ObjectRelational
