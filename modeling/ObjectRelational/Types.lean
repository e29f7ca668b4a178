/-!
# Types of columns and properties

* `DataType` is the type of a column.
* `PrimitiveType` is a type of the object model that is not declared by it; `accepts` says which
  values can stand for which.
* `Multiplicity` says how many values a property has.
* `PropertyType` is a primitive type, a class or an enumeration.
-/

namespace ObjectRelational

/-- The type of a column. -/
inductive DataType where
  | integer
  | bigInt
  | smallInt
  | tinyInt
  | float
  | double
  | decimal (precision scale : UInt8)
  | numeric (precision scale : UInt8)
  | varchar (size : UInt32)
  | char (size : UInt32)
  | bit
  | date
  | timestamp
  | other (name : String)
deriving DecidableEq

namespace DataType

/-- Is it the type of days, without a time? -/
def isDate (t : DataType) : Bool := t = date

/-- The type as it is written in a table definition. -/
def text : DataType → String
  | integer => "INTEGER"
  | bigInt => "BIGINT"
  | smallInt => "SMALLINT"
  | tinyInt => "TINYINT"
  | float => "FLOAT"
  | double => "DOUBLE"
  | decimal p s => s!"DECIMAL({p.toNat}, {s.toNat})"
  | numeric p s => s!"NUMERIC({p.toNat}, {s.toNat})"
  | varchar n => s!"VARCHAR({n.toNat})"
  | char n => s!"CHAR({n.toNat})"
  | bit => "BIT"
  | date => "DATE"
  | timestamp => "TIMESTAMP"
  | other name => name

end DataType

/-- A type that every object model has. -/
inductive PrimitiveType where
  | string
  | boolean
  | integer
  | float
  | decimal
  | number
  | date
  | strictDate
  | dateTime
  | any
deriving DecidableEq

namespace PrimitiveType

/-- Is it a type of numbers? -/
def isNumeric : PrimitiveType → Bool
  | integer | float | decimal | number => true
  | _ => false

/-- Is it a type of points in time? -/
def isTemporal : PrimitiveType → Bool
  | date | strictDate | dateTime => true
  | _ => false

/-- Can a value of type `given` be passed where `wanted` is asked for? -/
def accepts (wanted given : PrimitiveType) : Bool :=
  wanted = given || wanted = any ||
    match wanted with
    | number => given.isNumeric
    | date => given.isTemporal
    | _ => false

/-- The name of the type. -/
def text : PrimitiveType → String
  | string => "String"
  | boolean => "Boolean"
  | integer => "Integer"
  | float => "Float"
  | decimal => "Decimal"
  | number => "Number"
  | date => "Date"
  | strictDate => "StrictDate"
  | dateTime => "DateTime"
  | any => "Any"

/-- All primitive types. -/
def all : List PrimitiveType :=
  [string, boolean, integer, float, decimal, number, date, strictDate, dateTime, any]

/-- The primitive type of a name. -/
def ofName? (name : String) : Option PrimitiveType := all.find? fun t => t.text = name

end PrimitiveType

/-- How many values a property has; without an upper bound there can be any number. -/
structure Multiplicity where
  lower : UInt32 := 1
  upper : Option UInt32 := some 1
deriving DecidableEq

namespace Multiplicity

/-- Exactly one value. -/
def one : Multiplicity := {}

/-- Can there be more than one value? -/
def isToMany (m : Multiplicity) : Bool :=
  match m.upper with
  | none => true
  | some upper => 1 < upper

/-- The multiplicity in brackets. -/
def text (m : Multiplicity) : String :=
  match m.upper with
  | some upper =>
    if upper = m.lower then s!"[{upper.toNat}]" else s!"[{m.lower.toNat}..{upper.toNat}]"
  | none => if m.lower = 0 then "[*]" else s!"[{m.lower.toNat}..*]"

end Multiplicity

/-- The type of a property. -/
inductive PropertyType where
  | primitive (type : PrimitiveType)
  | ofClass (path : String)
  | enumeration (path : String)
deriving DecidableEq

namespace PropertyType

/-- Values of primitive types and enumerations are kept in columns, objects are joined. -/
def isDataType : PropertyType → Bool
  | ofClass _ => false
  | _ => true

/-- The class of a property that holds objects. -/
def classPath? : PropertyType → Option String
  | ofClass path => some path
  | _ => none

/-- The class of a property that holds objects, and the empty path for any other. -/
def classPath (t : PropertyType) : String := t.classPath?.getD ""

/-- The name of the type. -/
def text : PropertyType → String
  | primitive type => type.text
  | ofClass path => path
  | enumeration path => path

end PropertyType

end ObjectRelational
