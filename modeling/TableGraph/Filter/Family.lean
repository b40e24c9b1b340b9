import TableGraph.Schema.ColumnType

/-!
# Filter families

A family is a set of operators with a common type of operand; every filterable column belongs to
one, or has the filter of its enumeration.  `FilterFamily.ofColumnType?` tells the family a type has
unless a configuration says otherwise.
-/

namespace TableGraph

/-- What a filter asks of a column. -/
inductive Operator
  | eq
  | ne
  | gt
  | gte
  | lt
  | lte
  | isIn
  | isNotIn
  | isNull
  | isNotNull
  | between
  | notBetween
  | contains
  | startsWith
  | endsWith
  | like
  | notLike
  deriving DecidableEq, Repr

namespace Operator

/-- All operators. -/
def all : List Operator :=
  [eq, ne, gt, gte, lt, lte, isIn, isNotIn, isNull, isNotNull, between, notBetween, contains,
    startsWith, endsWith, like, notLike]

/-- The name of an operator. -/
def name : Operator → String
  | eq => "eq"
  | ne => "ne"
  | gt => "gt"
  | gte => "gte"
  | lt => "lt"
  | lte => "lte"
  | isIn => "isIn"
  | isNotIn => "isNotIn"
  | isNull => "isNull"
  | isNotNull => "isNotNull"
  | between => "between"
  | notBetween => "notBetween"
  | contains => "contains"
  | startsWith => "startsWith"
  | endsWith => "endsWith"
  | like => "like"
  | notLike => "notLike"

/-- The operator a name stands for. -/
def ofName? (name : String) : Option Operator := all.find? fun o => o.name = name

/-- The operand is a list. -/
def takesList : Operator → Bool
  | isIn | isNotIn | between | notBetween => true
  | _ => false

theorem ofName?_name (o : Operator) : ofName? o.name = some o := by
  cases o <;> decide

/-- Equality and order. -/
def comparisons : List Operator := [eq, ne, gt, gte, lt, lte]

/-- Membership and nullness. -/
def sets : List Operator := [isIn, isNotIn, isNull, isNotNull]

/-- Ranges. -/
def ranges : List Operator := [between, notBetween]

/-- Parts and patterns of texts. -/
def patterns : List Operator := [contains, startsWith, endsWith, like, notLike]

/-- What can be asked of a column of an enumeration. -/
def ofEnumeration : List Operator := [eq, ne, isIn, isNotIn, isNull, isNotNull]

end Operator

/-- The families of filters that all entities share. -/
inductive FilterFamily
  | string
  | text
  | integer
  | bigInteger
  | float
  | boolean
  | identity
  deriving DecidableEq, Repr

namespace FilterFamily

/-- All families. -/
def all : List FilterFamily := [string, text, integer, bigInteger, float, boolean, identity]

/-- The name of a family. -/
def name : FilterFamily → String
  | string => "String"
  | text => "Text"
  | integer => "Integer"
  | bigInteger => "BigInteger"
  | float => "Float"
  | boolean => "Boolean"
  | identity => "Identity"

/-- The name of the input type of a family. -/
def typeName (f : FilterFamily) : String := f.name ++ "FilterInput"

/-- The operators of a family. -/
def operators : FilterFamily → List Operator
  | string => Operator.comparisons ++ Operator.sets ++ Operator.ranges ++ Operator.patterns
  | boolean => Operator.comparisons ++ Operator.sets
  | _ => Operator.comparisons ++ Operator.sets ++ Operator.ranges

/-- The family a name stands for, in capitals or small letters. -/
def ofName (name : String) : Except Fault FilterFamily :=
  match all.find? fun f => f.name.toLower = name.toLower with
  | some f => .ok f
  | none => .error (.unreadable s!"Unknown filter family '{name}'")

/-- The family of a column type that is not an enumeration, if it can be filtered by. -/
def ofColumnType? : ColumnType → Option FilterFamily
  | .basic kind _ =>
    match kind with
    | .char => some text
    | .string => some string
    | .integer k => some (if k.isWide then bigInteger else integer)
    | .float | .double => some float
    | .bool => some boolean
    | .decimal | .date | .time | .dateTime | .dateTimeZoned | .uuid | .ipNetwork | .macAddress =>
      some text
    | .bytes | .json => none
  | _ => none

end FilterFamily

/-- The filter of a column: that of a family or that of an enumeration. -/
inductive ColumnFilter
  | family (f : FilterFamily)
  /-- The filter of an enumeration whose type has the given name. -/
  | enumeration (name typeName : String)
  deriving DecidableEq, Repr

namespace ColumnFilter

/-- The name of the input type. -/
def typeName : ColumnFilter → String
  | family f => f.typeName
  | enumeration _ typeName => typeName ++ "FilterInput"

/-- The operators that can be asked. -/
def operators : ColumnFilter → List Operator
  | family f => f.operators
  | enumeration .. => Operator.ofEnumeration

end ColumnFilter

end TableGraph
