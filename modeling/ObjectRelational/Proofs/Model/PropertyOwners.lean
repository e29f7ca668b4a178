import ObjectRelational.Model.Registry
import ObjectRelational.Proofs.OrderedMap

/-!
# Where properties are found

A class finds the properties that it declares, that it inherits, and that associations contribute to it or to
what it inherits from. What is contributed is looked up by class, and that listing only grows: an association that
is registered again leaves behind the classes of its earlier registration, which then find a property that is
navigated from another class.

* `Model.Association.ownerAt`: the class from which an end of an association is navigated.
* `ObjectModel.Consistent`: what every registration keeps between the classes, the associations and the listing by
  class.
* `ObjectModel.found_properties_belong`: a property is found under its name and on its owner or on what inherits
  from it, unless its association was moved by a later registration.
-/

namespace ObjectRelational

namespace Model.Association

/-- The class from which the property at an end is navigated: the one at the opposite end. -/
def ownerAt (a : Association) (atEnd : AssociationEnd) : String :=
  (a.propertyAt atEnd.opposite).type.classPath

/-- The association as it is registered: its properties tell the classes from which they are navigated. -/
def owned (a : Association) : Association :=
  { a with
    first := { a.first with owner := a.ownerAt .first }
    second := { a.second with owner := a.ownerAt .second } }

@[simp] theorem path_owned (a : Association) : a.owned.path = a.path := rfl

@[simp] theorem ownerAt_owned (a : Association) (atEnd : AssociationEnd) :
    a.owned.ownerAt atEnd = a.ownerAt atEnd := by
  cases atEnd <;> rfl

@[simp] theorem owner_propertyAt_owned (a : Association) (atEnd : AssociationEnd) :
    (a.owned.propertyAt atEnd).owner = a.ownerAt atEnd := by
  cases atEnd <;> rfl

end Model.Association

namespace ObjectModel

variable {model : ObjectModel} {declared : List Model.Association}

/-! ## Registration -/

theorem addAssociation_eq (model : ObjectModel) (a : Model.Association) :
    model.addAssociation a =
      { (model.contribute (a.ownerAt .first) a.path .first).contribute (a.ownerAt .second) a.path .second with
        associations := model.associations.insert a.path a.owned } := rfl

/-- The ends that were registered for a class. -/
def contributionsTo (model : ObjectModel) (path : String) :
    List (String × Model.AssociationEnd) := (model.contributions.find? path).getD []

theorem contributionsTo_contribute (model : ObjectModel) (owner association path : String)
    (atEnd : Model.AssociationEnd) :
    (model.contribute owner association atEnd).contributionsTo path =
      if path = owner then model.contributionsTo path ++ [(association, atEnd)]
      else model.contributionsTo path := by
  unfold contributionsTo contribute
  rw [OrderedMap.find?_insert]
  by_cases h : path = owner <;> simp [h]

/-- Classes own their properties, the associations are the last ones registered under their paths, and every end
that is listed for a class is one of an association that was registered with the class at the opposite end. -/
structure Consistent (declared : List Model.Association) (model : ObjectModel) : Prop where
  classes : ∀ path c, model.class? path = some c →
    c.path = path ∧ ∀ p ∈ c.properties, p.owner = path
  associations : ∀ path a, model.association? path = some a →
    ∃ written ∈ declared, written.path = path ∧ a = written.owned
  contributions : ∀ path, ∀ listed ∈ model.contributionsTo path,
    ∃ written ∈ declared, written.path = listed.1 ∧ written.ownerAt listed.2 = path

theorem consistent_standard : Consistent [] standard where
  classes := by
    intro path c h
    cases h
  associations := by
    intro path a h
    cases h
  contributions := by
    intro path listed h
    cases h

theorem Consistent.addClass (h : Consistent declared model) (c : Model.Class) :
    Consistent declared (model.addClass c) where
  classes := by
    intro path found hfound
    unfold class? ObjectModel.addClass at hfound
    rw [OrderedMap.find?_insert] at hfound
    split at hfound
    · rename_i hpath
      obtain rfl := Option.some.inj hfound
      refine ⟨hpath.symm, ?_⟩
      intro p hp
      obtain ⟨written, -, rfl⟩ := List.mem_map.1 hp
      exact hpath.symm
    · exact h.classes path found hfound
  associations := h.associations
  contributions := h.contributions

/-- The two ends of an association are listed for the classes opposite to them, behind what is listed there. -/
theorem mem_contributionsTo_addAssociation {a : Model.Association} {path : String}
    {listed : String × Model.AssociationEnd}
    (hlisted : listed ∈ (model.addAssociation a).contributionsTo path) :
    listed ∈ model.contributionsTo path ∨ listed.1 = a.path ∧ a.ownerAt listed.2 = path := by
  have hcontributions : (model.addAssociation a).contributionsTo path =
      ((model.contribute (a.ownerAt .first) a.path .first).contribute (a.ownerAt .second) a.path
        .second).contributionsTo path := rfl
  rw [hcontributions, contributionsTo_contribute, contributionsTo_contribute] at hlisted
  grind

theorem Consistent.addAssociation (h : Consistent declared model) (a : Model.Association) :
    Consistent (declared ++ [a]) (model.addAssociation a) where
  classes := h.classes
  associations := by
    intro path found hfound
    rw [addAssociation_eq] at hfound
    unfold association? at hfound
    rw [OrderedMap.find?_insert] at hfound
    split at hfound
    · rename_i hpath
      obtain rfl := Option.some.inj hfound
      exact ⟨a, by simp, hpath.symm, rfl⟩
    · obtain ⟨written, hwritten, hsame⟩ := h.associations path found hfound
      exact ⟨written, List.mem_append_left _ hwritten, hsame⟩
  contributions := by
    intro path listed hlisted
    rcases mem_contributionsTo_addAssociation hlisted with hbefore | ⟨hpath, howner⟩
    · obtain ⟨written, hwritten, hsame⟩ := h.contributions path listed hbefore
      exact ⟨written, List.mem_append_left _ hwritten, hsame⟩
    · exact ⟨a, by simp, hpath.symm, howner⟩

theorem Consistent.addEnumeration (h : Consistent declared model) (e : Model.Enumeration) :
    Consistent declared (model.addEnumeration e) :=
  ⟨h.classes, h.associations, h.contributions⟩

theorem Consistent.addFunction (h : Consistent declared model) (f : Model.FunctionSignature) :
    Consistent declared (model.addFunction f) :=
  ⟨h.classes, h.associations, h.contributions⟩

theorem Consistent.addAssociations {before : List Model.Association} (h : Consistent before model)
    (l : List Model.Association) : Consistent (before ++ l) (l.foldl ObjectModel.addAssociation model) := by
  induction l generalizing before model with
  | nil => rwa [List.append_nil]
  | cons a rest ih =>
    rw [← List.singleton_append, ← List.append_assoc]
    exact ih (h.addAssociation a)

theorem consistent_ofDefinition (definition : Model.Definition) :
    Consistent definition.associations (ofDefinition definition) := by
  have hclasses : Consistent [] (definition.classes.foldl addClass standard) :=
    List.foldlRecOn _ _ consistent_standard fun _ h c _ => h.addClass c
  have hassociations : Consistent definition.associations _ :=
    hclasses.addAssociations definition.associations
  refine List.foldlRecOn _ _ ?_ fun _ h f _ => h.addFunction f
  exact List.foldlRecOn _ _ hassociations fun _ h e _ => h.addEnumeration e

/-! ## Lookup -/

/-- The owner of the property is the registered class that declares it, or the class at the opposite end of a
registered association that the property is an end of. -/
def TellsOwner (model : ObjectModel) (p : Model.Property) : Prop :=
  (∃ c, model.class? p.owner = some c ∧ p ∈ c.properties) ∨
    ∃ path a atEnd, model.association? path = some a ∧ a.propertyAt atEnd = p ∧ p.owner = a.ownerAt atEnd

/-- An association was registered so that the end `p` is navigated from the class `path`, and is now registered so that
what stands at that end is `p` and navigated from another class. -/
def MovedFrom (definition : Model.Definition) (p : Model.Property) (path : String) : Prop :=
  ∃ before ∈ definition.associations, ∃ now atEnd,
    (ofDefinition definition).association? before.path = some now ∧ now.propertyAt atEnd = p ∧
      before.ownerAt atEnd = path ∧ now.ownerAt atEnd ≠ path

theorem isAncestorOrSelf_of_mem_lineage {path : String} {c : Model.Class} (h : c ∈ model.lineage path) :
    model.isAncestorOrSelf c.path path = true := by
  unfold isAncestorOrSelf
  rw [Bool.or_eq_true, List.any_eq_true]
  exact .inr ⟨c, h, by simp⟩

/-- A property that is found is one that a class of the lineage declares or that is contributed to it. -/
theorem exists_of_findProperty? {path name : String} {p : Model.Property}
    (h : model.findProperty? path name = some p) :
    ∃ c ∈ model.lineage path, p.name = name ∧ (p ∈ c.properties ∨ p ∈ model.contributed c.path) := by
  obtain ⟨c, hc, hdirect⟩ := List.exists_of_findSome?_eq_some h
  refine ⟨c, hc, ?_⟩
  unfold directProperty? at hdirect
  split at hdirect
  · rename_i own hown
    obtain rfl := Option.some.inj hdirect
    exact ⟨by simpa using List.find?_some hown, .inl (List.mem_of_find?_eq_some hown)⟩
  · exact ⟨by simpa using List.find?_some hdirect, .inr (List.mem_of_find?_eq_some hdirect)⟩

/-- A property that is contributed to a class is one end of a registered association, which the class was listed for
when an association of the same path was registered. -/
theorem Consistent.exists_of_contributed (h : Consistent declared model) {path : String}
    {p : Model.Property} (hp : p ∈ model.contributed path) :
    ∃ before ∈ declared, ∃ now atEnd, model.association? before.path = some now ∧
      now.propertyAt atEnd = p ∧ before.ownerAt atEnd = path ∧ p.owner = now.ownerAt atEnd := by
  obtain ⟨⟨association, atEnd⟩, hlisted, hfound⟩ := List.mem_filterMap.1 hp
  obtain ⟨now, hnow, rfl⟩ := Option.map_eq_some_iff.1 hfound
  obtain ⟨before, hbefore, rfl, howner⟩ := h.contributions path _ hlisted
  obtain ⟨written, -, -, rfl⟩ := h.associations _ _ hnow
  exact ⟨before, hbefore, written.owned, atEnd, hnow, rfl, howner, by simp⟩

/-- A property that is found on a class has the name that was asked for, and its owner is the class that declares it or
the one at the opposite end of its association as it is registered. The owner is the class itself or one that it
inherits from, unless the association of the property was registered before with a class of the lineage in the place
of the owner. -/
theorem found_properties_belong (definition : Model.Definition) (path name : String)
    (p : Model.Property) (h : (ofDefinition definition).findProperty? path name = some p) :
    p.name = name ∧ (ofDefinition definition).TellsOwner p ∧
      ((ofDefinition definition).isAncestorOrSelf p.owner path = true ∨
        ∃ former, (ofDefinition definition).isAncestorOrSelf former path = true ∧
          MovedFrom definition p former) := by
  have hconsistent := consistent_ofDefinition definition
  obtain ⟨c, hc, hname, hp⟩ := exists_of_findProperty? h
  obtain ⟨found, -, hclass⟩ := List.mem_filterMap.1 hc
  obtain ⟨hpath, howners⟩ := hconsistent.classes found c hclass
  subst hpath
  have hancestor := isAncestorOrSelf_of_mem_lineage hc
  refine ⟨hname, ?_⟩
  rcases hp with hdeclared | hcontributed
  · have howner := howners p hdeclared
    rw [howner]
    exact ⟨.inl ⟨c, howner ▸ hclass, hdeclared⟩, .inl hancestor⟩
  · obtain ⟨before, hbefore, now, atEnd, hnow, hend, hlisted, howner⟩ :=
      hconsistent.exists_of_contributed hcontributed
    refine ⟨.inr ⟨before.path, now, atEnd, hnow, hend, howner⟩, ?_⟩
    by_cases hsame : now.ownerAt atEnd = c.path
    · exact .inl (by rwa [howner, hsame])
    · exact .inr ⟨c.path, hancestor, before, hbefore, now, atEnd, hnow, hend, hlisted, hsame⟩

/-! ## Firms and persons -/

/-- A firm has employees. -/
def employment : Model.Association :=
  ⟨"m::Employment", { name := "firm", type := .ofClass "m::Firm" },
    { name := "employees", type := .ofClass "m::Person" }, []⟩

/-- Firms that are organizations, and their employees. -/
def firmDefinition : Model.Definition where
  classes := [{ path := "m::Organization" },
    { path := "m::Firm", generalizations := ["m::Organization"] }, { path := "m::Person" }]
  associations := [employment]

theorem found_properties_belong_of_firms :
    ∃ p, (ofDefinition firmDefinition).findProperty? "m::Firm" "employees" = some p ∧
      p.name = "employees" ∧ (ofDefinition firmDefinition).TellsOwner p ∧
      (ofDefinition firmDefinition).isAncestorOrSelf p.owner "m::Firm" = true := by
  have hfound : ∃ p, (ofDefinition firmDefinition).findProperty? "m::Firm" "employees" = some p ∧
      (ofDefinition firmDefinition).isAncestorOrSelf p.owner "m::Firm" = true := by
    with_unfolding_all exact ⟨_, rfl, rfl⟩
  obtain ⟨p, hp, hancestor⟩ := hfound
  obtain ⟨hname, howner, -⟩ := found_properties_belong _ _ _ p hp
  exact ⟨p, hp, hname, howner, hancestor⟩

/-- The employment is registered again, with shops in the place of firms. -/
def shopDefinition : Model.Definition :=
  { firmDefinition with
    classes := firmDefinition.classes ++ [{ path := "m::Shop" }]
    associations := [employment,
      { employment with first := { name := "shop", type := .ofClass "m::Shop" } }] }

/-- A class finds a property that is navigated from a class to which it has no relation. -/
theorem not_all_found_belong :
    ¬ ∀ (definition : Model.Definition) (path name : String) (p : Model.Property),
      (ofDefinition definition).findProperty? path name = some p →
        p.name = name ∧ (ofDefinition definition).isAncestorOrSelf p.owner path = true := by
  intro h
  have hfound : ∃ p, (ofDefinition shopDefinition).findProperty? "m::Firm" "employees" = some p ∧
      p.owner = "m::Shop" := by
    with_unfolding_all exact ⟨_, rfl, rfl⟩
  have hunrelated : (ofDefinition shopDefinition).isAncestorOrSelf "m::Shop" "m::Firm" = false := by
    decide +kernel
  obtain ⟨p, hp, howner⟩ := hfound
  obtain ⟨-, hancestor⟩ := h shopDefinition "m::Firm" "employees" p hp
  rw [howner, hunrelated] at hancestor
  cases hancestor

end ObjectModel

end ObjectRelational
