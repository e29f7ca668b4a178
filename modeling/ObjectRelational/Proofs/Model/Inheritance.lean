import ObjectRelational.Proofs.Graph.Distance
import ObjectRelational.Proofs.Graph.SearchLoop
import ObjectRelational.Proofs.Model.PropertyOwners

/-!
# Inheritance

A class names the classes that it specializes. These may be named twice, may lead back to the class, and need not be
there: a path that is not registered leads nowhere. What a class inherits from is what is reached through
registered classes, and a property is looked up in these by their distance, so that what a nearer class has hides what
a farther one has, and what a class declares hides what associations contribute to it.

* `ObjectModel.Registered`: the models that registrations make, in whatever order they come.
* `ObjectModel.Inherits`: a class inherits from a registered class, or is it.
* `ObjectModel.visit_answers_lineage`: the loop that follows all paths that are named, registered or not, comes to an
  end, and what it lists of registered classes is the lineage.
* `ObjectModel.Shows`: the property that a class itself has under a name.
* `ObjectModel.inheritance_nearest_first`: inheritance is a closure, and what is found is shown by the nearest class.
-/

namespace ObjectRelational.ObjectModel

variable {model : ObjectModel} {path ancestor name : String} {p : Model.Property}

/-! ## Models that are made -/

/-- A model that is made by registering elements one after the other, from the one that has none. -/
inductive Registered : ObjectModel → Prop
  | standard : Registered standard
  | addClass {model : ObjectModel} (h : Registered model) (c : Model.Class) : Registered (model.addClass c)
  | addAssociation {model : ObjectModel} (h : Registered model) (a : Model.Association) :
      Registered (model.addAssociation a)
  | addEnumeration {model : ObjectModel} (h : Registered model) (e : Model.Enumeration) :
      Registered (model.addEnumeration e)
  | addFunction {model : ObjectModel} (h : Registered model) (f : Model.FunctionSignature) :
      Registered (model.addFunction f)

/-- The model of a list of declarations is one of them. -/
theorem registered_ofDefinition (definition : Model.Definition) : Registered (ofDefinition definition) := by
  have hclasses : Registered (definition.classes.foldl ObjectModel.addClass ObjectModel.standard) :=
    List.foldlRecOn _ _ .standard fun _ h c _ => h.addClass c
  have hassociations : Registered (definition.associations.foldl ObjectModel.addAssociation _) :=
    List.foldlRecOn _ _ hclasses fun _ h a _ => h.addAssociation a
  refine List.foldlRecOn _ _ ?_ fun _ h f _ => h.addFunction f
  exact List.foldlRecOn _ _ hassociations fun _ h e _ => h.addEnumeration e

theorem Registered.consistent (h : Registered model) : ∃ declared, Consistent declared model := by
  induction h with
  | standard => exact ⟨[], consistent_standard⟩
  | addClass _ c ih => exact ih.imp fun _ h => h.addClass c
  | addAssociation _ a ih =>
    obtain ⟨declared, h⟩ := ih
    exact ⟨declared ++ [a], h.addAssociation a⟩
  | addEnumeration _ e ih => exact ih.imp fun _ h => h.addEnumeration e
  | addFunction _ f ih => exact ih.imp fun _ h => h.addFunction f

/-- A class is registered under its own path. -/
theorem Registered.path_eq (h : Registered model) {c : Model.Class} (hc : model.class? path = some c) :
    c.path = path := by
  obtain ⟨declared, hconsistent⟩ := h.consistent
  exact (hconsistent.classes path c hc).1

/-- Every end that is recorded for a class is one of an association that is registered. -/
theorem Registered.isSome_association? (h : Registered model) :
    ∀ path, ∀ recorded ∈ model.contributionsTo path, (model.association? recorded.1).isSome := by
  induction h with
  | standard =>
    intro path recorded hrecorded
    cases hrecorded
  | addClass _ _ ih => exact ih
  | @addAssociation model _ a ih =>
    intro path recorded hrecorded
    rw [addAssociation_eq, association?, OrderedMap.find?_insert]
    split
    · rfl
    · rename_i hother
      rcases mem_contributionsTo_addAssociation hrecorded with hbefore | ⟨hpath, -⟩
      · exact ih path recorded hbefore
      · exact absurd hpath hother
  | addEnumeration _ _ ih => exact ih
  | addFunction _ _ ih => exact ih

/-! ## Inheritance -/

/-- A registered class names a registered class as one that it specializes. -/
def Specializes (model : ObjectModel) (path super : String) : Prop :=
  ∃ c, model.class? path = some c ∧ super ∈ c.generalizations ∧ (model.class? super).isSome

/-- The second class is registered, and it is the first one or is reached from it through registered classes. -/
def Inherits (model : ObjectModel) (path ancestor : String) : Prop :=
  (model.class? ancestor).isSome ∧ Relation.ReflTransGen model.Specializes path ancestor

/-- All that a class names as classes that it specializes, registered or not. -/
def generalizationsOf (model : ObjectModel) (path : String) : List String :=
  match model.class? path with
  | none => []
  | some c => c.generalizations

theorem generalizationsOf_of_none (h : model.class? path = none) : model.generalizationsOf path = [] := by
  unfold generalizationsOf
  rw [h]

theorem superclasses_eq (model : ObjectModel) (path : String) :
    model.superclasses path = (model.generalizationsOf path).filter fun p => (model.class? p).isSome := by
  unfold superclasses generalizationsOf
  cases model.class? path with
  | none => rfl
  | some c => rfl

theorem step_superclasses : Graph.Step model.superclasses = model.Specializes := by
  funext path super
  simp only [Graph.Step, superclasses_eq, generalizationsOf, Specializes, List.mem_filter, eq_iff_iff]
  cases model.class? path with
  | none => simp
  | some c => simp

theorem reaches_superclasses_iff :
    Graph.Reaches model.superclasses path ancestor ↔ Relation.ReflTransGen model.Specializes path ancestor := by
  unfold Graph.Reaches
  rw [step_superclasses]

/-- A class that inherits from a registered class is registered. -/
theorem Inherits.isSome_class? (h : model.Inherits path ancestor) : (model.class? path).isSome := by
  obtain ⟨hancestor, hreaches⟩ := h
  rcases Relation.ReflTransGen.cases_head hreaches with rfl | ⟨_, ⟨c, hc, -⟩, -⟩
  · exact hancestor
  · simp [hc]

theorem Inherits.trans {super : String} (h : model.Inherits path super) (h' : model.Inherits super ancestor) :
    model.Inherits path ancestor := ⟨h'.1, h.2.trans h'.2⟩

theorem closed_superclasses (model : ObjectModel) : Graph.Closed model.superclasses model.classes.keys := by
  intro path _ super hsuper
  rw [superclasses_eq, List.mem_filter] at hsuper
  exact OrderedMap.contains_iff.1 hsuper.2

theorem lineagePaths_of_isSome (h : (model.class? path).isSome) :
    model.lineagePaths path = Graph.reachable model.classes.keys.length model.superclasses [path] := if_pos h

/-- The lineage of a class lists what it inherits from, and the class itself. -/
theorem mem_lineagePaths_iff : ancestor ∈ model.lineagePaths path ↔ model.Inherits path ancestor := by
  by_cases hpath : (model.class? path).isSome
  · have hstart : [path] ⊆ model.classes.keys := List.cons_subset.2 ⟨OrderedMap.contains_iff.1 hpath, by simp⟩
    have hreaches : ancestor ∈ model.lineagePaths path ↔ Graph.Reaches model.superclasses path ancestor := by
      rw [lineagePaths_of_isSome hpath, Graph.mem_reachable_iff model.closed_superclasses (le_refl _) hstart]
      simp
    rw [hreaches]
    refine ⟨fun h => ⟨?_, reaches_superclasses_iff.1 h⟩, fun h => reaches_superclasses_iff.2 h.2⟩
    exact h.mem_of_forall_step (s := fun a => (model.class? a).isSome)
      (fun a ha b hb => OrderedMap.contains_iff.2
        (model.closed_superclasses a (OrderedMap.contains_iff.1 ha) b hb)) hpath
  · have hnone : model.lineagePaths path = [] := if_neg hpath
    simp only [hnone, List.not_mem_nil, false_iff]
    exact fun h => hpath h.isSome_class?

/-- The classes of a lineage are registered. -/
theorem mem_lineage_iff {c : Model.Class} :
    c ∈ model.lineage path ↔ ∃ ancestor, model.Inherits path ancestor ∧ model.class? ancestor = some c := by
  simp [lineage, mem_lineagePaths_iff]

/-- The loop that follows all that is named, whether it is registered or not, ends; and what it lists of registered
classes is the lineage. -/
theorem visit_answers_lineage (model : ObjectModel) (path : String) :
    ∃ visited, Graph.QueueSearch.Answers (Graph.QueueSearch.visit model.generalizationsOf) { queue := [path] }
      visited ∧ visited.filterMap model.class? = model.lineage path := by
  let named := path :: model.classes.values.flatMap (·.generalizations)
  have hnamed : Graph.Closed model.generalizationsOf named := by
    intro a _ b hb
    unfold generalizationsOf at hb
    split at hb
    · simp at hb
    · rename_i c hc
      exact List.mem_cons_of_mem _ (List.mem_flatMap.2 ⟨c, OrderedMap.mem_values_iff.2 ⟨a, hc⟩, hb⟩)
  have hvisit := Graph.QueueSearch.visit_answers_reachable hnamed (le_refl _)
    (show [path] ⊆ named by simp [named])
  refine ⟨_, hvisit, ?_⟩
  -- without the paths that are not registered, the loop lists the paths of the lineage
  have hkept : ∀ a, (model.class? a).isSome → model.superclasses a =
      (model.generalizationsOf a).filter fun p => (model.class? p).isSome := fun a _ => model.superclasses_eq a
  have hout : ∀ a, (model.class? a).isSome = false → model.generalizationsOf a = [] := fun a ha =>
    generalizationsOf_of_none (by simpa using ha)
  have hregistered := hvisit.filter hkept hout
  have hlineage : Graph.QueueSearch.Answers (Graph.QueueSearch.visit model.superclasses)
      (Graph.QueueSearch.filter (fun a => (model.class? a).isSome) { queue := [path] })
      (model.lineagePaths path) := by
    by_cases hpath : (model.class? path).isSome
    · rw [lineagePaths_of_isSome hpath]
      have hstart : [path] ⊆ model.classes.keys := List.cons_subset.2 ⟨OrderedMap.contains_iff.1 hpath, by simp⟩
      simpa [Graph.QueueSearch.filter, hpath] using
        Graph.QueueSearch.visit_answers_reachable model.closed_superclasses (le_refl _) hstart
    · have hnone : model.lineagePaths path = [] := if_neg hpath
      rw [hnone]
      exact ⟨_, Relation.ReflTransGen.refl, by simp [Graph.QueueSearch.filter, Graph.QueueSearch.visit, hpath]⟩
  rw [lineage, ← hregistered.unique hlineage, List.filterMap_filter]
  refine List.filterMap_congr fun a _ => ?_
  cases model.class? a <;> rfl

/-- One is an ancestor of a class, or the class itself, if it is the class or the class inherits from it. -/
theorem isAncestorOrSelf_iff (h : Registered model) :
    model.isAncestorOrSelf ancestor path = true ↔ ancestor = path ∨ model.Inherits path ancestor := by
  unfold isAncestorOrSelf
  rw [Bool.or_eq_true, decide_eq_true_iff, List.any_eq_true]
  refine or_congr_right ⟨?_, fun hinherits => ?_⟩
  · rintro ⟨c, hc, hpath⟩
    obtain ⟨registered, hinherits, hfound⟩ := mem_lineage_iff.1 hc
    obtain rfl : registered = ancestor := (h.path_eq hfound).symm.trans (of_decide_eq_true hpath)
    exact hinherits
  · obtain ⟨c, hc⟩ := Option.isSome_iff_exists.1 hinherits.1
    exact ⟨c, mem_lineage_iff.2 ⟨ancestor, hinherits, hc⟩, by simp [h.path_eq hc]⟩

/-! ## Properties -/

/-- The property stands at an end that is recorded for the class, in the association as it is registered now. -/
def RecordedFor (model : ObjectModel) (path : String) (p : Model.Property) : Prop :=
  ∃ association atEnd a, (association, atEnd) ∈ model.contributionsTo path ∧
    model.association? association = some a ∧ a.propertyAt atEnd = p

/-- The class itself has a property of the name: it declares one, or one is recorded for it. -/
def HasOwn (model : ObjectModel) (path name : String) : Prop :=
  ∃ c, model.class? path = some c ∧
    ((∃ p ∈ c.properties, p.name = name) ∨ ∃ p, model.RecordedFor path p ∧ p.name = name)

/-- The class itself has the property under the name: it declares it, or it declares none of the name and the property
is recorded for it. -/
def Shows (model : ObjectModel) (path name : String) (p : Model.Property) : Prop :=
  p.name = name ∧ ∃ c, model.class? path = some c ∧
    (p ∈ c.properties ∨ (∀ own ∈ c.properties, own.name ≠ name) ∧ model.RecordedFor path p)

theorem mem_contributed_iff : p ∈ model.contributed path ↔ model.RecordedFor path p := by
  unfold contributed RecordedFor contributionsTo
  simp only [List.mem_filterMap, Option.map_eq_some_iff, Prod.exists]
  grind

theorem isSome_directProperty?_iff {c : Model.Class} : (model.directProperty? c name).isSome ↔
    (∃ p ∈ c.properties, p.name = name) ∨ ∃ p, model.RecordedFor c.path p ∧ p.name = name := by
  have hown : (c.ownProperty? name).isSome ↔ ∃ p ∈ c.properties, p.name = name := by
    simp [Model.Class.ownProperty?, List.find?_isSome]
  have hcontributed : ((model.contributed c.path).find? fun p => p.name = name).isSome ↔
      ∃ p, model.RecordedFor c.path p ∧ p.name = name := by
    simp [List.find?_isSome, mem_contributed_iff]
  rw [← hown, ← hcontributed]
  unfold directProperty?
  cases c.ownProperty? name <;> simp

/-- What a class itself is found to have it shows. -/
theorem shows_of_directProperty? (h : Registered model) {c : Model.Class} (hc : model.class? path = some c)
    (hp : model.directProperty? c name = some p) : model.Shows path name p := by
  obtain rfl := h.path_eq hc
  unfold directProperty? at hp
  split at hp
  · rename_i own hown
    obtain rfl := Option.some.inj hp
    exact ⟨by simpa using List.find?_some hown, c, hc, .inl (List.mem_of_find?_eq_some hown)⟩
  · rename_i hnone
    refine ⟨by simpa using List.find?_some hp, c, hc, .inr ⟨?_, ?_⟩⟩
    · simpa [Model.Class.ownProperty?] using hnone
    · exact mem_contributed_iff.1 (List.mem_of_find?_eq_some hp)

/-- The lookup of a property goes through the paths of the lineage. -/
theorem findProperty?_eq (model : ObjectModel) (path name : String) : model.findProperty? path name =
    (model.lineagePaths path).findSome? fun ancestor =>
      (model.class? ancestor).bind fun c => model.directProperty? c name := by
  unfold findProperty? lineage
  rw [← List.head?_filterMap, List.filterMap_filterMap, List.head?_filterMap]

theorem isSome_bind_directProperty?_iff (h : Registered model) :
    ((model.class? path).bind fun c => model.directProperty? c name).isSome ↔ model.HasOwn path name := by
  unfold HasOwn
  cases hc : model.class? path with
  | none => simp
  | some c => simp [isSome_directProperty?_iff, h.path_eq hc]

/-- A property is found if a class that is inherited from has one. -/
theorem isSome_findProperty?_iff (h : Registered model) : (model.findProperty? path name).isSome ↔
    ∃ ancestor, model.Inherits path ancestor ∧ model.HasOwn ancestor name := by
  rw [findProperty?_eq, List.findSome?_isSome_iff]
  simp only [mem_lineagePaths_iff, isSome_bind_directProperty?_iff h]

theorem pairwise_distance_lineagePaths (model : ObjectModel) (path : String) :
    (model.lineagePaths path).Pairwise fun a b =>
      Graph.distance model.superclasses path a ≤ Graph.distance model.superclasses path b := by
  unfold lineagePaths
  split
  · exact Graph.pairwise_distance_reachable _ _ path
  · exact List.Pairwise.nil

/-- What is found is shown by a class that is inherited from, and no other one that has such a property is nearer. -/
theorem nearest_of_findProperty? (h : Registered model) (hp : model.findProperty? path name = some p) :
    ∃ ancestor, model.Inherits path ancestor ∧ model.Shows ancestor name p ∧
      ∀ other, model.Inherits path other → model.HasOwn other name →
        Graph.distance model.superclasses path ancestor ≤ Graph.distance model.superclasses path other := by
  rw [findProperty?_eq] at hp
  obtain ⟨ancestor, hancestor, hfound, hleast⟩ :=
    exists_least_of_findSome? (model.pairwise_distance_lineagePaths path) hp
  obtain ⟨c, hc, hdirect⟩ := Option.bind_eq_some_iff.1 hfound
  refine ⟨ancestor, mem_lineagePaths_iff.1 hancestor, shows_of_directProperty? h hc hdirect, ?_⟩
  intro other hother hown
  exact hleast other (mem_lineagePaths_iff.2 hother) ((isSome_bind_directProperty?_iff h).2 hown)

/-- In every model that registrations make, one is an ancestor of a class or the class itself iff it is the class, or is
registered and reached from it through registered classes; this goes on along the ancestors. A property is found on
a class iff a class that is reached has one of the name, and it is one that a nearest such class shows: one that
it declares, or else one that is recorded for it. Whatever circles the generalizations run in and whatever they name,
the loop that follows them ends with the classes that are searched, and what is recorded is an end of a registered
association. -/
theorem inheritance_nearest_first (h : Registered model) :
    (∀ ancestor path, model.isAncestorOrSelf ancestor path = true ↔
      ancestor = path ∨ model.Inherits path ancestor) ∧
    (∀ path, model.isAncestorOrSelf path path = true) ∧
    (∀ ancestor super path, model.isAncestorOrSelf ancestor super = true →
      model.isAncestorOrSelf super path = true → model.isAncestorOrSelf ancestor path = true) ∧
    (∀ path name, ((model.findProperty? path name).isSome ↔
        ∃ ancestor, model.Inherits path ancestor ∧ model.HasOwn ancestor name) ∧
      ∀ p, model.findProperty? path name = some p →
        ∃ ancestor, model.Inherits path ancestor ∧ model.Shows ancestor name p ∧
          ∀ other, model.Inherits path other → model.HasOwn other name →
            Graph.distance model.superclasses path ancestor ≤ Graph.distance model.superclasses path other) ∧
    (∀ path, ∃ visited, Graph.QueueSearch.Answers (Graph.QueueSearch.visit model.generalizationsOf)
      { queue := [path] } visited ∧ visited.filterMap model.class? = model.lineage path) ∧
    ∀ path, ∀ recorded ∈ model.contributionsTo path, (model.association? recorded.1).isSome := by
  refine ⟨fun _ _ => isAncestorOrSelf_iff h, fun path => (isAncestorOrSelf_iff h).2 (.inl rfl), ?_,
    fun path name => ⟨isSome_findProperty?_iff h, fun p hp => nearest_of_findProperty? h hp⟩,
    fun path => visit_answers_lineage model path, h.isSome_association?⟩
  intro ancestor super path hancestor hsuper
  rw [isAncestorOrSelf_iff h] at hancestor hsuper ⊢
  rcases hancestor with rfl | hancestor
  · exact hsuper
  · rcases hsuper with rfl | hsuper
    · exact .inr hancestor
    · exact .inr (hsuper.trans hancestor)

/-! ## Cars -/

/-- Cars are vehicles, which are named twice, and assets, which lead back to cars; one more class that is named is not
there. Both lead to things. An asset declares a name, and an association gives it another one. -/
def carDefinition : Model.Definition where
  classes := [
    { path := "m::Car", generalizations := ["m::Vehicle", "m::Missing", "m::Vehicle", "m::Asset"] },
    { path := "m::Vehicle", generalizations := ["m::Thing"] },
    { path := "m::Asset", generalizations := ["m::Thing", "m::Car"]
      properties := [{ name := "name", type := .primitive .string }] },
    { path := "m::Thing", properties := [{ name := "name", type := .primitive .string }] }]
  associations := [⟨"m::Naming", { name := "name", type := .ofClass "m::Thing" },
    { name := "named", type := .ofClass "m::Asset" }, []⟩]

/-- A car has the name that an asset declares: it is nearer than that of a thing, and hides the one that is recorded. -/
theorem inheritance_nearest_first_of_cars :
    let model := ofDefinition carDefinition
    model.Inherits "m::Car" "m::Thing" ∧ ¬ model.Inherits "m::Car" "m::Missing" ∧
      model.HasOwn "m::Thing" "name" ∧ ∃ p, model.findProperty? "m::Car" "name" = some p ∧
        p.owner = "m::Asset" ∧ p.type = .primitive .string ∧ ∃ ancestor, model.Inherits "m::Car" ancestor ∧
          model.Shows ancestor "name" p ∧ Graph.distance model.superclasses "m::Car" ancestor ≤
            Graph.distance model.superclasses "m::Car" "m::Thing" := by
  intro model
  obtain ⟨hancestor, -, -, hproperties, -, -⟩ := inheritance_nearest_first (registered_ofDefinition carDefinition)
  have hthing : model.Inherits "m::Car" "m::Thing" :=
    ((hancestor _ _).1 (by decide +kernel)).resolve_left (by decide)
  have hmissing : ¬ model.Inherits "m::Car" "m::Missing" := by
    intro h
    have hfalse : model.isAncestorOrSelf "m::Missing" "m::Car" = false := by decide +kernel
    exact absurd (((hancestor "m::Missing" "m::Car").2 (.inr h)).symm.trans hfalse) (by decide)
  have hown : model.HasOwn "m::Thing" "name" := by
    refine (isSome_bind_directProperty?_iff (registered_ofDefinition carDefinition)).1 ?_
    decide +kernel
  have hfound : (model.findProperty? "m::Car" "name").map (fun p => (p.owner, p.type)) =
      some ("m::Asset", .primitive .string) := by
    decide +kernel
  obtain ⟨p, hp, hpair⟩ := Option.map_eq_some_iff.1 hfound
  obtain ⟨howner, htype⟩ := Prod.mk.inj hpair
  obtain ⟨ancestor, hinherits, hshows, hnearest⟩ := (hproperties "m::Car" "name").2 p hp
  exact ⟨hthing, hmissing, hown, p, hp, howner, htype, ancestor, hinherits, hshows,
    hnearest "m::Thing" hthing hown⟩

end ObjectRelational.ObjectModel
