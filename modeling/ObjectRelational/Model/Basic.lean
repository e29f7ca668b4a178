import ObjectRelational.Types

/-!
# Elements of an object model

The classes, associations, enumerations and functions that a model declares.
-/

namespace ObjectRelational.Model

/-- A property of a class or an end of an association. -/
structure Property where
  name : String
  type : PropertyType
  multiplicity : Multiplicity := {}
  /-- The class that the property is navigated from. -/
  owner : String := ""
deriving DecidableEq

/-- A property that takes parameters. -/
structure QualifiedProperty where
  name : String
  returnType : PropertyType
  /-- The class that the property is navigated from. -/
  owner : String := ""
deriving DecidableEq

/-- How the objects of a class change over time. -/
inductive Temporal where
  | business
  | processing
  | bitemporal
deriving DecidableEq

/-- A class of an object model. -/
structure Class where
  path : String
  /-- The paths of the direct superclasses. -/
  generalizations : List String := []
  properties : List Property := []
  qualifiedProperties : List QualifiedProperty := []
  temporal : Option Temporal := none
deriving DecidableEq

/-- The property of a name that the class itself declares. -/
def Class.ownProperty? (c : Class) (name : String) : Option Property :=
  c.properties.find? fun p => p.name = name

/-- One of the two ends of an association. -/
inductive AssociationEnd where
  | first
  | second
deriving DecidableEq

/-- The end on the other side. -/
def AssociationEnd.opposite : AssociationEnd → AssociationEnd
  | first => second
  | second => first

/-- An association with two ends. Each of its properties is navigated from the class that is the
type of the other one. -/
structure Association where
  path : String
  first : Property
  second : Property
  qualifiedProperties : List QualifiedProperty := []
deriving DecidableEq

namespace Association

/-- The property at an end. -/
def propertyAt (a : Association) : AssociationEnd → Property
  | .first => a.first
  | .second => a.second

/-- The end that the property of a name stands at; of equal names the first one. -/
def endNamed? (a : Association) (name : String) : Option AssociationEnd :=
  if a.first.name = name then some .first
  else if a.second.name = name then some .second
  else none

/-- The property of a name. -/
def property? (a : Association) (name : String) : Option Property :=
  (a.endNamed? name).map a.propertyAt

/-- The qualified property of a name. -/
def qualifiedProperty? (a : Association) (name : String) : Option QualifiedProperty :=
  a.qualifiedProperties.find? fun p => p.name = name

/-- The class that the property of a name is navigated from. -/
def ownerOf? (a : Association) (name : String) : Option String :=
  (a.endNamed? name).bind fun atEnd => (a.propertyAt atEnd.opposite).type.classPath?

end Association

/-- An enumeration and its values. -/
structure Enumeration where
  path : String
  values : List String
deriving DecidableEq

/-- A function that aggregates a collection of values of type `parameter`. -/
structure FunctionSignature where
  name : String
  parameter : PrimitiveType
  returnType : PrimitiveType
deriving DecidableEq

/-- The declarations of an object model. -/
structure Definition where
  classes : List Class := []
  associations : List Association := []
  enumerations : List Enumeration := []
  functions : List FunctionSignature := []

end ObjectRelational.Model
