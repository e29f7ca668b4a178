import ObjectRelational.Proofs.Mapping.Unit

/-!
# What mappings read of each other

A mapping refers to the other mappings of its unit by their ids. It reads of them which class an id
maps, what there is to extend under an id, and which main table an id has; it never reads how they are
listed.

* `Scope.withClasses`: the same scope with another list of the classes that ids map.
* `Scope.classMapping_congr`, `Scope.checkImplementations_congr`, `Scope.associationMapping_congr`: what
  resolving a mapping, and checking where its joins end, depends on.
* `Scope.classMappings_withClasses`: how the classes are listed does not matter.
-/

namespace ObjectRelational.Scope

variable {s : Scope} {classes : List (String × String)} {own own' : List ClassMapping}

/-- The scope with another list of the classes that ids map. -/
def withClasses (s : Scope) (classes : List (String × String)) : Scope :=
  { s with classes := classes }

theorem withClasses_classes (s : Scope) : s.withClasses s.classes = s := rfl

/-! ## Class mappings -/

/-- What there is to extend under the id that a mapping extends is the same. -/
def ExtendsAlike (s : Scope) (own own' : List ClassMapping) (superId : Option Name) : Prop :=
  ∀ id, superId = some id → s.superMapping? own' id.value = s.superMapping? own id.value

section Classes

variable (hclasses : ∀ id, classes.lookup id = s.classes.lookup id)
include hclasses

theorem checkTarget_withClasses (target : Name) (property : Model.Property) (owner : String) :
    (s.withClasses classes).checkTarget target property owner =
      s.checkTarget target property owner := by
  have hclassOf : (s.withClasses classes).classOf? target.value = s.classOf? target.value := by
    simp only [classOf?, withClasses, hclasses]
    rfl
  unfold checkTarget
  rw [hclassOf]
  rfl

theorem joinTarget_withClasses (o : PropertyOwner) (property : Model.Property)
    (target : Option Name) :
    (s.withClasses classes).joinTarget o property target = s.joinTarget o property target := by
  cases target with
  | none => rfl
  | some target => simp only [joinTarget, checkTarget_withClasses hclasses]

theorem relationalValue_withClasses (r : Resolver) (o : PropertyOwner) (name : Name)
    (property : Model.Property) (targetId : Option Name) (source : Source.Operation)
    (enumerationMapping : Option Name) :
    (s.withClasses classes).relationalValue r o name property targetId source enumerationMapping =
      s.relationalValue r o name property targetId source enumerationMapping := by
  simp only [relationalValue, joinTarget_withClasses hclasses]
  rfl

theorem otherwise?_withClasses (r : Resolver) (o : PropertyOwner) (property : Model.Property)
    (source : Option Source.Otherwise) :
    (s.withClasses classes).otherwise? r o property source = s.otherwise? r o property source := by
  cases source with
  | none => rfl
  | some source => simp only [otherwise?, checkTarget_withClasses hclasses]

theorem inlineValue_withClasses (o : PropertyOwner) (name : Name) (property : Model.Property)
    (target : Name) :
    (s.withClasses classes).inlineValue o name property target =
      s.inlineValue o name property target := by
  simp only [inlineValue, checkTarget_withClasses hclasses]

omit hclasses

mutual

theorem mapping_withClasses (hclasses : ∀ id, classes.lookup id = s.classes.lookup id)
    (r : Resolver) (o : PropertyOwner) (source : Source.PropertyMapping) :
    (s.withClasses classes).mapping r o source = s.mapping r o source := by
  obtain ⟨name, sourceId, targetId, localType, body, span⟩ := source
  cases localType with
  | some localType => simp only [mapping]
  | none =>
    simp only [mapping, value_withClasses hclasses]
    rfl

theorem value_withClasses (hclasses : ∀ id, classes.lookup id = s.classes.lookup id)
    (r : Resolver) (o : PropertyOwner) (name : Name) (property : Model.Property)
    (targetId : Option Name) (body : Source.PropertyBody) :
    (s.withClasses classes).value r o name property targetId body =
      s.value r o name property targetId body := by
  cases body with
  | relational source enumerationMapping =>
    simp only [value, relationalValue_withClasses hclasses]
  | embedded primaryKey propertyMappings otherwise =>
    simp only [value, mappings_withClasses hclasses, otherwise?_withClasses hclasses]
  | inline target => simp only [value, inlineValue_withClasses hclasses]

theorem mappings_withClasses (hclasses : ∀ id, classes.lookup id = s.classes.lookup id)
    (r : Resolver) (o : PropertyOwner) (seen : List String)
    (sources : List Source.PropertyMapping) :
    (s.withClasses classes).mappings r o seen sources = s.mappings r o seen sources := by
  cases sources with
  | nil => rfl
  | cons m rest => simp only [mappings, mapping_withClasses hclasses, mappings_withClasses hclasses]

end

theorem checkMarkers_withClasses (header : Header) (database : DatabaseId) (markers : List Name) :
    (s.withClasses classes).checkMarkers header database markers =
      s.checkMarkers header database markers := by
  induction markers with
  | nil => rfl
  | cons marker rest ih =>
    simp only [checkMarkers, ih]
    rfl

include hclasses

/-- A relational mapping reads the classes of ids, and what it extends. -/
theorem setImplementation_congr {header : Header} {body : Source.RelationalMapping}
    (hsuper : s.ExtendsAlike own own' header.superId) :
    (s.withClasses classes).setImplementation own' header body =
      s.setImplementation own header body := by
  have hinherited : (s.withClasses classes).inherited? own' header body =
      s.inherited? own header body := by
    unfold inherited?
    cases hsource : header.superId with
    | none => rfl
    | some superId =>
      have hsame : (s.withClasses classes).superMapping? own' superId.value =
          s.superMapping? own superId.value := hsuper superId hsource
      simp only [checkSuper, hsame, checkMarkers_withClasses]
      rfl
  simp only [setImplementation, hinherited, mappings_withClasses hclasses]
  rfl

/-- So does a class mapping, with all of its parts. -/
theorem classMapping_congr {source : Source.ClassMapping}
    (hsuper : s.ExtendsAlike own own' source.superId) :
    (s.withClasses classes).classMapping own' source = s.classMapping own source := by
  have hpart : ∀ header body, header.superId = source.superId ∨ header.superId = none →
      (s.withClasses classes).setImplementation own' header body =
        s.setImplementation own header body := by
    intro header body hheader
    refine setImplementation_congr hclasses fun id hid => ?_
    rcases hheader with hsame | hnone
    · exact hsuper id (hsame ▸ hid)
    · simp [hnone] at hid
  have hheader : (s.withClasses classes).header source = s.header source := rfl
  unfold classMapping
  cases source.body with
  | relational body =>
    simp only [hheader, hpart (s.header source) body (.inl rfl)]
  | aggregationAware main views =>
    have hmain := hpart (mainHeader (s.header source)) main (.inl rfl)
    have haggregate : (s.withClasses classes).aggregate own' (s.header source) =
        s.aggregate own (s.header source) := by
      funext view
      have hview := hpart (aggregateHeader (s.header source) view.2 view.1.span)
        view.1.aggregateMapping (.inr rfl)
      simp only [aggregate, hview]
      rfl
    simp only [aggregationAware, hheader, hmain, haggregate]

theorem resolveFrom_withClasses (sources : List Source.ClassMapping) :
    (s.withClasses classes).resolveFrom own sources = s.resolveFrom own sources := by
  induction sources generalizing own with
  | nil => rfl
  | cons source rest ih =>
    simp only [resolveFrom, classMapping_congr hclasses (fun _ _ => rfl), ih]

end Classes

/-- A class mapping of a fixed scope depends on the mappings in front through what it extends. -/
theorem classMapping_of_extendsAlike {source : Source.ClassMapping}
    (hsuper : s.ExtendsAlike own own' source.superId) :
    s.classMapping own' source = s.classMapping own source := by
  have hsame : (s.withClasses s.classes).classMapping own' source = s.classMapping own source :=
    classMapping_congr (fun _ => rfl) hsuper
  exact hsame

/-! ## Ends of joins -/

theorem checkEnd_congr (hown : ∀ id, findImplementation? own' id = findImplementation? own id)
    (steps : List JoinStep) (id : String) (span : Span) :
    (s.withClasses classes).checkEnd own' steps id span = s.checkEnd own steps id span := by
  simp only [checkEnd, mainTableOf?, hown]
  rfl

mutual

theorem checkJoinEnd_congr
    (hown : ∀ id, findImplementation? own' id = findImplementation? own id)
    (m : PropertyMapping) :
    (s.withClasses classes).checkJoinEnd own' m = s.checkJoinEnd own m := by
  obtain ⟨property, sourceId, targetId, localType, value, span⟩ := m
  simp only [checkJoinEnd, checkValueEnd_congr hown]

theorem checkValueEnd_congr
    (hown : ∀ id, findImplementation? own' id = findImplementation? own id)
    (targetId : Option String) (span : Span) (value : PropertyValue) :
    (s.withClasses classes).checkValueEnd own' targetId span value =
      s.checkValueEnd own targetId span value := by
  cases value with
  | relational operation transformer => simp only [checkValueEnd, checkEnd_congr hown]
  | embedded id className primaryKey propertyMappings otherwise =>
    simp only [checkValueEnd, checkJoinEnds_congr hown, checkEnd_congr hown]
  | inline target => rfl

theorem checkJoinEnds_congr
    (hown : ∀ id, findImplementation? own' id = findImplementation? own id)
    (mappings : List PropertyMapping) :
    (s.withClasses classes).checkJoinEnds own' mappings = s.checkJoinEnds own mappings := by
  cases mappings with
  | nil => rfl
  | cons m rest => simp only [checkJoinEnds, checkJoinEnd_congr hown, checkJoinEnds_congr hown]

end

section Own

variable (hown : ∀ id, findImplementation? own' id = findImplementation? own id)
include hown

/-- Where joins end is checked against what ids denote. -/
theorem checkImplementations_congr (implementations : List SetImplementation) :
    (s.withClasses classes).checkImplementations own' implementations =
      s.checkImplementations own implementations := by
  induction implementations with
  | nil => rfl
  | cons i rest ih => simp only [checkImplementations, checkJoinEnds_congr hown, ih]

/-! ## Association mappings -/

theorem associationPropertyMapping_congr (association : Model.Association) (id : String)
    (source : Source.PropertyMapping) :
    (s.withClasses classes).associationPropertyMapping own' association id source =
      s.associationPropertyMapping own association id source := by
  have hbinding : (s.withClasses classes).binding own' association id source =
      s.binding own association id source := by
    have hend : ∀ x property, (s.withClasses classes).endMapping? own' x property =
        s.endMapping? own x property := by
      intro x property
      simp only [endMapping?, hown]
      rfl
    simp only [binding, hend]
    rfl
  simp only [associationPropertyMapping, hbinding]
  rfl

theorem associationPropertyMappings_congr (association : Model.Association) (id : String)
    (seen : List String) (sources : List Source.PropertyMapping) :
    (s.withClasses classes).associationPropertyMappings own' association id seen sources =
      s.associationPropertyMappings own association id seen sources := by
  induction sources generalizing seen with
  | nil => rfl
  | cons m rest ih =>
    simp only [associationPropertyMappings, associationPropertyMapping_congr hown, ih]

/-- An association mapping reads what ids denote. -/
theorem associationMapping_congr (source : Source.AssociationMapping) :
    (s.withClasses classes).associationMapping own' source = s.associationMapping own source := by
  simp only [associationMapping, associationPropertyMappings_congr hown]
  rfl

end Own

/-- The class mappings of a unit read which classes ids map, but not how that is listed. -/
theorem classMappings_withClasses (hclasses : ∀ id, classes.lookup id = s.classes.lookup id)
    (sources : List Source.ClassMapping) :
    (s.withClasses classes).classMappings sources = s.classMappings sources := by
  simp only [classMappings, resolveFrom_withClasses hclasses,
    checkImplementations_congr fun _ => rfl]

end ObjectRelational.Scope
