import ObjectRelational.Proofs.Mapping.Association

/-!
# Property mappings are well typed

Which mapping a property can have depends on its type: values are mapped to expressions, objects to
paths of joins, to embedded mappings or to other mappings of the same row. What a unit resolves keeps
to that on every level, whatever it refers to.

* `LevelTyped`, `MappingTyped` and `ValueTyped` say what is well typed, against the classes of the model
  and what a unit shows.
* `mappings_typed`: what resolves in the scope of a unit is well typed.
* `property_mappings_typed`: all relational mappings of a unit are.
-/

namespace ObjectRelational

/-! ## Typing -/

/-- The id names a relational mapping of the class, or of a subclass, that the unit shows. -/
def MappingUnit.MapsTo (u : MappingUnit) (model : ObjectModel) (id className : String) : Prop :=
  ∃ e, u.setImplementation? id = some e ∧
    model.isAncestorOrSelf className e.declared.className = true

/-- The id names a mapping of the enumeration that the unit shows. -/
def MappingUnit.Transforms (u : MappingUnit) (id enumeration : String) : Prop :=
  ∃ m, u.enumerationMapping? id = some m ∧ m.enumeration = enumeration

section Typing

variable (u : MappingUnit) (model : ObjectModel)

mutual

/-- The property mappings of a level are well typed: every property is mapped once, from the owner of
the level, and as its class has it. -/
inductive LevelTyped : (owner className : String) → List PropertyMapping → Prop
  | level {owner className : String} {l : List PropertyMapping}
      (hdistinct : (l.map (·.property)).Nodup) (howner : ∀ m ∈ l, m.sourceId = owner)
      (hmappings : ∀ m ∈ l, MappingTyped className m) : LevelTyped owner className l

/-- The mapping of a property is well typed: a local property is mapped to an expression, and any other
is a property that the class has, mapped according to its type. -/
inductive MappingTyped : (className : String) → PropertyMapping → Prop
  | localProperty {className : String} {m : PropertyMapping} {operation : Operation}
      (hlocal : m.localType.isSome) (htarget : m.targetId = none)
      (hvalue : m.value = .relational operation none) (hbare : operation.isBareJoin = false) :
      MappingTyped className m
  | property {className : String} {m : PropertyMapping} {p : Model.Property}
      (hlocal : m.localType = none) (hproperty : model.findProperty? className m.property = some p)
      (hvalue : ValueTyped p.type m.targetId m.value) : MappingTyped className m

/-- A property of the type can be mapped to the value, which leads to the target. -/
inductive ValueTyped : PropertyType → (targetId : Option String) → PropertyValue → Prop
  | data {type : PropertyType} {operation : Operation} {transformer : Option String}
      (htype : type.isDataType = true) (hbare : operation.isBareJoin = false)
      (htransformer : ∀ id, transformer = some id →
        ∃ enumeration, type = .enumeration enumeration ∧ u.Transforms id enumeration) :
      ValueTyped type none (.relational operation transformer)
  | join {className : String} {operation : Operation} {targetId : Option String}
      (hbare : operation.isBareJoin = true)
      (htarget : ∀ id, targetId = some id → u.MapsTo model id className) :
      ValueTyped (.ofClass className) targetId (.relational operation none)
  | embedded {className id : String} {primaryKey : List Operation} {mappings : List PropertyMapping}
      {otherwise : Option Otherwise} (hmappings : LevelTyped id className mappings)
      (hotherwise : ∀ o, otherwise = some o → u.MapsTo model o.targetId className) :
      ValueTyped (.ofClass className) (some id)
        (.embedded id className primaryKey mappings otherwise)
  | inline {className id : String} (htarget : u.MapsTo model id className) :
      ValueTyped (.ofClass className) (some id) (.inline id)

end

end Typing

/-! ## What resolves is well typed -/

namespace Scope

variable {s : Scope} {u : MappingUnit} {r : Resolver} {o : PropertyOwner} {name : Name}
  {property : Model.Property}

/-- A target that is checked is a mapping of the property's class. -/
theorem mapsTo_of_checkTarget (hs : s.Shows u) {target : Name} {owner : String}
    (h : s.checkTarget target property owner = .ok ()) :
    u.MapsTo s.model target.value property.type.classPath := by
  unfold checkTarget at h
  rw [hs.classOf] at h
  split at h
  · exact absurd h (found_ne_ok _ _ _)
  · rename_i targetClass hclass
    obtain ⟨e, he, rfl⟩ := Option.map_eq_some_iff.1 hclass
    dsimp only at h
    split at h
    · rename_i hancestor
      exact ⟨e, he, hancestor⟩
    · exact absurd h (found_ne_ok _ _ _)

/-- A join leads to a mapping of the property's class, whether that is named or the root. -/
theorem mapsTo_of_joinTarget (hs : s.Shows u) {className : String}
    (htype : property.type = .ofClass className) {named : Option Name} {target : Option String}
    (h : s.joinTarget o property named = .ok target) :
    ∀ id, target = some id → u.MapsTo s.model id className := by
  rintro id rfl
  cases named with
  | some name =>
    obtain ⟨_, hcheck, htarget⟩ := map_eq_ok_iff.1 h
    obtain rfl := Option.some.inj htarget
    have hmaps := mapsTo_of_checkTarget hs hcheck
    rwa [htype] at hmaps
  | none =>
    have hroot : s.roots.find? className = some id := by
      simpa [joinTarget, htype, PropertyType.classPath?] using h
    obtain ⟨e, he, rfl⟩ := hs.roots className id hroot
    exact ⟨e, he, by simp [ObjectModel.isAncestorOrSelf]⟩

/-- A transformer that is found maps the property's enumeration. -/
theorem transforms_of_transformer? (hs : s.Shows u) {named : Option Name}
    {transformer : Option String} (h : s.transformer? property named = .ok transformer) :
    ∀ id, transformer = some id →
      ∃ enumeration, property.type = .enumeration enumeration ∧ u.Transforms id enumeration := by
  rintro id rfl
  cases named with
  | none => cases h
  | some name =>
    obtain ⟨found, hfound, hid⟩ := map_eq_ok_iff.1 h
    obtain rfl := Option.some.inj hid
    unfold Scope.transformer at hfound
    split at hfound
    · rename_i enumeration htype
      rw [hs.enumerations] at hfound
      split at hfound
      · exact absurd hfound (found_ne_ok _ _ _)
      · rename_i mapping hmapping
        split at hfound
        · rename_i hsame
          obtain rfl := Except.ok.inj hfound
          exact ⟨enumeration, htype, mapping, hmapping, hsame⟩
        · exact absurd hfound (found_ne_ok _ _ _)
    · exact absurd hfound (found_ne_ok _ _ _)

/-- The value of a local property is an expression. -/
theorem exists_of_localValue {body : Source.PropertyBody} {value : PropertyValue}
    (h : (localValue r o name body).result = .ok value) :
    ∃ operation, value = .relational operation none ∧ operation.isBareJoin = false := by
  unfold localValue at h
  split at h
  · simp only [dataOperation, Recorded.result_bind_eq_ok_iff, Recorded.result_pure] at h
    obtain ⟨operation, ⟨resolved, -, hoperation⟩, hvalue⟩ := h
    obtain rfl := Except.ok.inj hvalue
    refine ⟨operation, rfl, ?_⟩
    split at hoperation
    · exact absurd hoperation (found_ne_ok _ _ _)
    · rename_i hbare
      obtain rfl := Except.ok.inj hoperation
      simpa using hbare
  · exact absurd h (found_ne_ok _ _ _)
  · exact absurd h (found_ne_ok _ _ _)
  · exact absurd h (found_ne_ok _ _ _)

theorem exists_class_of_not_isDataType {type : PropertyType} (h : ¬ type.isDataType = true) :
    ∃ className, type = .ofClass className := by
  cases type with
  | ofClass path => exact ⟨path, rfl⟩
  | primitive type => exact absurd rfl h
  | enumeration path => exact absurd rfl h

/-- An expression fits the type of its property. -/
theorem typed_of_relationalValue (hs : s.Shows u) {target : Option Name} {source : Source.Operation}
    {enumerationMapping : Option Name} {resolved : ResolvedBody}
    (h : (s.relationalValue r o name property target source enumerationMapping).result =
      .ok resolved) : ValueTyped u s.model property.type resolved.targetId resolved.value := by
  simp only [relationalValue, Recorded.result_bind_eq_ok_iff] at h
  obtain ⟨operation, -, h⟩ := h
  split at h
  · rename_i hdata
    split at h
    · exact absurd h (found_ne_ok _ _ _)
    · rename_i hbare
      obtain ⟨transformer, htransformer, h⟩ := Recorded.result_bind_eq_ok_iff.1 h
      obtain rfl := Except.ok.inj h
      exact .data hdata (by simpa using hbare) (transforms_of_transformer? hs htransformer)
  · rename_i hobject
    obtain ⟨className, htype⟩ := exists_class_of_not_isDataType hobject
    split at h
    · exact absurd h (found_ne_ok _ _ _)
    · split at h
      · rename_i hbare
        obtain ⟨target, htarget, h⟩ := Recorded.result_bind_eq_ok_iff.1 h
        obtain rfl := Except.ok.inj h
        rw [htype]
        exact .join hbare (mapsTo_of_joinTarget hs htype htarget)
      · exact absurd h (found_ne_ok _ _ _)

theorem typed_of_inlineValue (hs : s.Shows u) {target : Name} {resolved : ResolvedBody}
    (h : s.inlineValue o name property target = .ok resolved) :
    ValueTyped u s.model property.type resolved.targetId resolved.value := by
  unfold inlineValue at h
  split at h
  · exact absurd h (found_ne_ok _ _ _)
  · rename_i hobject
    obtain ⟨className, htype⟩ := exists_class_of_not_isDataType hobject
    obtain ⟨_, hcheck, h⟩ := bind_eq_ok_iff.1 h
    obtain rfl := pure_eq_ok_iff.1 h
    have hmaps := mapsTo_of_checkTarget hs hcheck
    rw [htype] at hmaps ⊢
    exact .inline hmaps

/-- The way to other properties leads to a mapping of the property's class. -/
theorem mapsTo_of_otherwise? (hs : s.Shows u) {source : Option Source.Otherwise}
    {otherwise : Option Otherwise} (h : (s.otherwise? r o property source).result = .ok otherwise) :
    ∀ found, otherwise = some found →
      u.MapsTo s.model found.targetId property.type.classPath := by
  rintro found rfl
  cases source with
  | none => cases h
  | some source =>
    simp only [otherwise?, Recorded.result_bind_eq_ok_iff, Recorded.result_pure] at h
    obtain ⟨_, hcheck, join, -, h⟩ := h
    obtain rfl := Option.some.inj (Except.ok.inj h)
    exact mapsTo_of_checkTarget hs hcheck

/-- On a level every property is mapped once. -/
theorem not_mem_of_checkHead {seen : List String} {sourceId : Option Name}
    (h : checkHead o seen name sourceId = .ok ()) : name.value ∉ seen := by
  unfold checkHead at h
  split at h
  · exact absurd h (found_ne_ok _ _ _)
  · assumption

mutual

theorem mapping_typed (hs : s.Shows u) (o : PropertyOwner) : (m : Source.PropertyMapping) →
    ∀ resolved, (s.mapping r o m).result = .ok resolved →
      resolved.property = m.property.value ∧ resolved.sourceId = o.id ∧
        MappingTyped u s.model o.className resolved
  | ⟨name, _, _, some localType, body, span⟩ => by
    intro resolved h
    unfold mapping at h
    obtain ⟨value, hvalue, h⟩ := Recorded.result_bind_eq_ok_iff.1 h
    obtain rfl := Except.ok.inj h
    obtain ⟨operation, rfl, hbare⟩ := exists_of_localValue hvalue
    exact ⟨rfl, rfl, .localProperty rfl rfl rfl hbare⟩
  | ⟨name, _, targetId, none, body, span⟩ => by
    intro resolved h
    unfold mapping at h
    simp only [Recorded.result_bind_eq_ok_iff, Recorded.result_pure] at h
    obtain ⟨property, hproperty, value, hvalue, h⟩ := h
    obtain rfl := Except.ok.inj h
    have hfound : s.model.findProperty? o.className name.value = some property := by
      unfold propertyNamed at hproperty
      split at hproperty
      · rename_i found hfound
        exact hfound.trans (congrArg some (Except.ok.inj hproperty))
      · exact absurd hproperty (found_ne_ok _ _ _)
    exact ⟨rfl, rfl, .property rfl hfound (value_typed hs o name property targetId body value hvalue)⟩

theorem value_typed (hs : s.Shows u) (o : PropertyOwner) (name : Name) (property : Model.Property)
    (targetId : Option Name) : (body : Source.PropertyBody) →
    ∀ resolved, (s.value r o name property targetId body).result = .ok resolved →
      ValueTyped u s.model property.type resolved.targetId resolved.value
  | .relational source enumerationMapping => by
    intro resolved h
    unfold value at h
    exact typed_of_relationalValue hs h
  | .embedded primaryKey propertyMappings otherwise => by
    intro resolved h
    unfold value at h
    split at h
    · exact absurd h (found_ne_ok _ _ _)
    · rename_i className hclass
      have htype : property.type = .ofClass className := by
        cases htype : property.type <;> simp_all [PropertyType.classPath?]
      simp only [Recorded.result_bind_eq_ok_iff, Recorded.result_pure] at h
      obtain ⟨key, -, resolvedMappings, hmappings, resolvedOtherwise, hotherwise, h⟩ := h
      obtain rfl := Except.ok.inj h
      obtain ⟨-, -, hlevel⟩ := mappings_typed hs ⟨_, className, o.main⟩ [] propertyMappings _ hmappings
      have hmaps := mapsTo_of_otherwise? hs hotherwise
      rw [htype] at hmaps ⊢
      exact .embedded hlevel hmaps
  | .inline target => by
    intro resolved h
    unfold value at h
    exact typed_of_inlineValue hs h

/-- What resolves on a level is well typed, and maps no property that was mapped before. -/
theorem mappings_typed (hs : s.Shows u) (o : PropertyOwner) (seen : List String) :
    (l : List Source.PropertyMapping) → ∀ resolved, (s.mappings r o seen l).result = .ok resolved →
      resolved.map (·.property) = l.map (·.property.value) ∧
        (∀ m ∈ resolved, m.property ∉ seen) ∧ LevelTyped u s.model o.id o.className resolved
  | [] => by
    intro resolved h
    unfold mappings at h
    obtain rfl := Except.ok.inj h
    exact ⟨rfl, by simp, .level List.nodup_nil (by simp) (by simp)⟩
  | m :: rest => by
    intro resolved h
    unfold mappings at h
    simp only [Recorded.result_bind_eq_ok_iff, Recorded.result_pure] at h
    obtain ⟨_, hhead, first, hfirst, others, hothers, h⟩ := h
    obtain rfl := Except.ok.inj h
    obtain ⟨hname, howner, htyped⟩ := mapping_typed hs o m first hfirst
    obtain ⟨hnames, hnew, hlevel⟩ := mappings_typed hs o (m.property.value :: seen) rest others hothers
    obtain ⟨hdistinct, howners, hmappings⟩ := hlevel
    refine ⟨?_, ?_, .level ?_ ?_ ?_⟩
    · rw [List.map_cons, List.map_cons, hname, hnames]
    · intro m' hm'
      rcases List.mem_cons.1 hm' with rfl | hm'
      · exact hname ▸ not_mem_of_checkHead hhead
      · exact fun hseen => hnew m' hm' (List.mem_cons_of_mem _ hseen)
    · rw [List.map_cons, List.nodup_cons]
      refine ⟨fun hmem => ?_, hdistinct⟩
      obtain ⟨m', hm', hsame⟩ := List.mem_map.1 hmem
      exact hnew m' hm' (by rw [hsame, hname]; exact List.mem_cons_self)
    · exact List.forall_mem_cons.2 ⟨howner, howners⟩
    · exact List.forall_mem_cons.2 ⟨htyped, hmappings⟩

end

end Scope

/-! ## Units -/

/-- A relational mapping is well typed for a class and for what is written: its property mappings are
those that are written and perhaps a generated one, and those that are written are well typed. -/
structure SetImplementation.WellTyped (u : MappingUnit) (model : ObjectModel) (className : String)
    (body : Source.RelationalMapping) (i : SetImplementation) : Prop where
  mapped : i.className = className
  properties : ∃ (declared : List PropertyMapping) (generated : Option PropertyMapping),
    i.propertyMappings = declared ++ generated.toList ∧
    declared.map (·.property) = body.propertyMappings.map (·.property.value) ∧
    LevelTyped u model i.id className declared

theorem Scope.ResolvedSet.wellTyped {s : Scope} {u : MappingUnit} (hs : s.Shows u) {header : Header}
    {body : Source.RelationalMapping} {i : SetImplementation} (h : s.ResolvedSet header body i) :
    i.WellTyped u s.model header.className body := by
  obtain ⟨r, declared, hdeclared, hall⟩ := h.properties
  obtain ⟨hnames, -, hlevel⟩ := mappings_typed hs _ [] body.propertyMappings declared hdeclared
  refine ⟨h.className, declared, _, hall, hnames, ?_⟩
  rw [h.id]
  exact hlevel

/-- The relational mappings of a resolved unit are well typed, whatever class mapping they are part
of. -/
theorem property_mappings_typed {e : Environment} {compiled : String → Option MappingUnit}
    {source : Source.Mapping} {unit : MappingUnit} (hincludes : ∀ i ∈ unit.includes, i.unit.Accepted)
    (h : MappingUnit.resolve e compiled source = .ok unit) :
    List.Forall₂ (fun written m => List.Forall₂
        (fun body i => i.WellTyped unit e.model written.className.value body)
        written.bodies m.implementations)
      source.classMappings unit.classMappings := by
  obtain ⟨s, hresolved⟩ := MappingUnit.resolvedFrom_of_resolve h
  have hs := Scope.shows_of_resolvedFrom hresolved hincludes
  have hmodel : s.model = e.model := by rw [hresolved.scope]
  refine hresolved.classMappings.imp fun written m hclass => ?_
  have hparts := (List.forall₂_and_left _ _).2 ⟨Scope.className_of_mem_parts, hclass.parts⟩
  rw [← s.map_snd_parts written, List.forall₂_map_left_iff, ← hmodel]
  refine hparts.imp fun part i ⟨hname, hset⟩ => ?_
  rw [← hname]
  exact hset.wellTyped hs

/-- A property is mapped to a column of a table. -/
def mappingToColumn (property table column : String) : Source.PropertyMapping :=
  ⟨⟨property, {}⟩, none, none, none,
    .relational (.column { table := ⟨table, {}⟩, column := ⟨column, {}⟩ }) none, {}⟩

/-- Firms are mapped to their table, with their names. -/
def firmsSource : Source.Mapping where
  name := ⟨"firms", {}⟩
  classMappings := [mappingOnto "Firm" "FIRM" [mappingToColumn "legalName" "FIRM" "NAME"]]

/-- Persons are mapped to theirs, with their firm embedded, which is otherwise found by the join. -/
def personsSource : Source.Mapping where
  name := ⟨"persons", {}⟩
  includes := [{ mapping := ⟨"firms", {}⟩ }]
  classMappings := [mappingOnto "Person" "PERSON" [
    ⟨⟨"firm", {}⟩, none, none, none,
      .embedded [] [mappingToColumn "legalName" "PERSON" "FIRM"]
        (some ⟨⟨"Firm", {}⟩, { joins := [{ name := ⟨"Employment", {}⟩ }] }⟩), {}⟩]]

/-- The unit of firms, when it is asked for. -/
def compiledFirms (name : String) : Option MappingUnit :=
  if name = "firms" then
    (MappingUnit.resolve employmentEnvironment (fun _ => none) firmsSource).toOption
  else none

/-- A firm that is embedded in persons is mapped well, and leads to an included mapping of firms. -/
theorem property_mappings_typed_of_embedded :
    ∃ unit, MappingUnit.resolve employmentEnvironment compiledFirms personsSource = .ok unit ∧
      (∀ i ∈ unit.includes, i.unit.Accepted) ∧ unit.includes.length = 1 ∧
      List.Forall₂ (fun written m => List.Forall₂
          (fun body i => i.WellTyped unit employmentModel written.className.value body)
          written.bodies m.implementations)
        personsSource.classMappings unit.classMappings := by
  have hfirms : ∃ firms, MappingUnit.resolve employmentEnvironment (fun _ => none) firmsSource =
      .ok firms ∧ firms.includes = [] := by
    with_unfolding_all exact ⟨_, rfl, rfl⟩
  have hpersons : ∃ unit, MappingUnit.resolve employmentEnvironment compiledFirms personsSource =
      .ok unit ∧ unit.includes.map (fun i => some i.unit) = [compiledFirms "firms"] := by
    with_unfolding_all exact ⟨_, rfl, rfl⟩
  obtain ⟨firms, hfirms, hnone⟩ := hfirms
  obtain ⟨unit, hunit, hincludes⟩ := hpersons
  have haccepted : firms.Accepted := .resolved (by simp [hnone]) hfirms
  have hcompiled : compiledFirms "firms" = some firms := by
    simp [compiledFirms, hfirms, Except.toOption]
  have hall : ∀ i ∈ unit.includes, i.unit.Accepted := by
    intro i hi
    have hunit : some i.unit ∈ unit.includes.map fun i => some i.unit := List.mem_map_of_mem hi
    rw [hincludes, hcompiled, List.mem_singleton] at hunit
    rw [Option.some.inj hunit]
    exact haccepted
  exact ⟨unit, hunit, hall, by simpa using congrArg List.length hincludes,
    property_mappings_typed hall hunit⟩

end ObjectRelational
