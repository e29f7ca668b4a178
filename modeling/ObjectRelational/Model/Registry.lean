import ObjectRelational.Graph.Search
import ObjectRelational.Model.Basic
import ObjectRelational.OrderedMap

/-!
# Object models

An object model answers what an element path stands for, which classes a class inherits from, and
which property or function a name denotes.

* `ObjectModel.ofDefinition` registers the declarations; a later one replaces an earlier one of the
  same path.
* `ObjectModel.lineage` is a class and all that it inherits from, nearest first.
* `ObjectModel.findProperty?` and `ObjectModel.findFunction?` are the lookups of the resolvers.
-/

namespace ObjectRelational

/-- An object model. -/
structure ObjectModel where
  /-- The classes by path. -/
  classes : OrderedMap String Model.Class := .empty
  /-- The associations by path. -/
  associations : OrderedMap String Model.Association := .empty
  /-- The enumerations by path. -/
  enumerations : OrderedMap String Model.Enumeration := .empty
  /-- The functions, in the order in which they are tried. -/
  functions : List Model.FunctionSignature := []
  /-- By the path of a class, the association ends that were registered for it. -/
  contributions : OrderedMap String (List (String × Model.AssociationEnd)) := .empty

namespace ObjectModel

/-- The functions that every object model has. -/
def standardFunctions : List Model.FunctionSignature :=
  [⟨"sum", .number, .number⟩, ⟨"sum", .integer, .integer⟩, ⟨"sum", .float, .float⟩,
   ⟨"sum", .decimal, .decimal⟩, ⟨"average", .number, .float⟩, ⟨"avg", .number, .float⟩,
   ⟨"count", .any, .integer⟩, ⟨"distinctCount", .any, .integer⟩, ⟨"min", .number, .number⟩,
   ⟨"min", .date, .date⟩, ⟨"min", .string, .string⟩, ⟨"max", .number, .number⟩,
   ⟨"max", .date, .date⟩, ⟨"max", .string, .string⟩]

/-- The model without declarations. -/
def standard : ObjectModel := { functions := standardFunctions }

/-! ## Registration -/

/-- Registers a class, which owns its properties. -/
def addClass (model : ObjectModel) (c : Model.Class) : ObjectModel :=
  let owned : Model.Class :=
    { c with
      properties := c.properties.map fun p => { p with owner := c.path }
      qualifiedProperties := c.qualifiedProperties.map fun p => { p with owner := c.path } }
  { model with classes := model.classes.insert c.path owned }

/-- Records that an association contributes the property at one of its ends to a class. -/
def contribute (model : ObjectModel) (owner association : String) (atEnd : Model.AssociationEnd) :
    ObjectModel :=
  let before := (model.contributions.find? owner).getD []
  { model with
    contributions := model.contributions.insert owner (before ++ [(association, atEnd)]) }

/-- Registers an association. Each end is owned by the class at the other end. -/
def addAssociation (model : ObjectModel) (a : Model.Association) : ObjectModel :=
  let firstOwner := a.second.type.classPath
  let secondOwner := a.first.type.classPath
  let owned : Model.Association :=
    { a with
      first := { a.first with owner := firstOwner }
      second := { a.second with owner := secondOwner } }
  let model := (model.contribute firstOwner a.path .first).contribute secondOwner a.path .second
  { model with associations := model.associations.insert a.path owned }

/-- Registers an enumeration. -/
def addEnumeration (model : ObjectModel) (e : Model.Enumeration) : ObjectModel :=
  { model with enumerations := model.enumerations.insert e.path e }

/-- Registers a function, to be tried after those before it. -/
def addFunction (model : ObjectModel) (f : Model.FunctionSignature) : ObjectModel :=
  { model with functions := model.functions ++ [f] }

/-- The object model of a list of declarations. -/
def ofDefinition (definition : Model.Definition) : ObjectModel :=
  let model := definition.classes.foldl addClass standard
  let model := definition.associations.foldl addAssociation model
  let model := definition.enumerations.foldl addEnumeration model
  definition.functions.foldl addFunction model

/-! ## Lookups -/

/-- The class of a path. -/
def class? (model : ObjectModel) (path : String) : Option Model.Class := model.classes.find? path

/-- The association of a path. -/
def association? (model : ObjectModel) (path : String) : Option Model.Association :=
  model.associations.find? path

/-- The enumeration of a path. -/
def enumeration? (model : ObjectModel) (path : String) : Option Model.Enumeration :=
  model.enumerations.find? path

/-- Is anything declared under a path? -/
def hasElement (model : ObjectModel) (path : String) : Bool :=
  (model.class? path).isSome || (model.association? path).isSome ||
    (model.enumeration? path).isSome

/-- The registered direct superclasses of a class. -/
def superclasses (model : ObjectModel) (path : String) : List String :=
  match model.class? path with
  | none => []
  | some c => c.generalizations.filter fun p => model.classes.contains p

/-- The paths of a class and of all registered classes it inherits from, nearest first and each
once; nothing for a class that is not registered. -/
def lineagePaths (model : ObjectModel) (path : String) : List String :=
  if model.classes.contains path then
    Graph.reachable model.classes.keys.length model.superclasses [path]
  else []

/-- A class and all that it inherits from, nearest first. -/
def lineage (model : ObjectModel) (path : String) : List Model.Class :=
  (model.lineagePaths path).filterMap model.class?

/-- Is `ancestor` the class itself or one that it inherits from? -/
def isAncestorOrSelf (model : ObjectModel) (ancestor path : String) : Bool :=
  ancestor = path || (model.lineage path).any fun c => c.path = ancestor

/-- The properties that associations contribute to a class, as the associations are now. -/
def contributed (model : ObjectModel) (path : String) : List Model.Property :=
  ((model.contributions.find? path).getD []).filterMap fun contribution =>
    (model.association? contribution.1).map fun a => a.propertyAt contribution.2

/-- The property of a name that a class itself declares or an association contributes to it. -/
def directProperty? (model : ObjectModel) (c : Model.Class) (name : String) :
    Option Model.Property :=
  match c.ownProperty? name with
  | some p => some p
  | none => (model.contributed c.path).find? fun p => p.name = name

/-- The property that a name denotes on a class: the nearest one in its lineage. -/
def findProperty? (model : ObjectModel) (path name : String) : Option Model.Property :=
  (model.lineage path).findSome? fun c => model.directProperty? c name

/-- The first function of a name that takes a collection of values of the given type. -/
def findFunction? (model : ObjectModel) (name : String) (argument : PropertyType) :
    Option Model.FunctionSignature :=
  model.functions.find? fun f =>
    f.name = name &&
      match argument with
      | .primitive type => f.parameter.accepts type
      | _ => f.parameter = .any

end ObjectModel

end ObjectRelational
