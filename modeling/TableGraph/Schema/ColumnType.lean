import TableGraph.Fault

/-!
# Column types

What a column holds: a basic kind, a value of an enumeration, a value of a type known by name only,
or a list.  `ColumnType.of` builds a type from a kind's name, as configurations write it;
`ColumnType.text` shows one.
-/

namespace TableGraph

/-- The widths of whole numbers. -/
inductive IntegerKind
  | tiny
  | small
  | regular
  | big
  | tinyUnsigned
  | smallUnsigned
  | regularUnsigned
  | bigUnsigned
  deriving DecidableEq, Repr

namespace IntegerKind

/-- All widths. -/
def all : List IntegerKind :=
  [tiny, small, regular, big, tinyUnsigned, smallUnsigned, regularUnsigned, bigUnsigned]

/-- The name of a width. -/
def name : IntegerKind → String
  | tiny => "TinyInt"
  | small => "SmallInt"
  | regular => "Int"
  | big => "BigInt"
  | tinyUnsigned => "TinyUnsigned"
  | smallUnsigned => "SmallUnsigned"
  | regularUnsigned => "Unsigned"
  | bigUnsigned => "BigUnsigned"

/-- The width a name stands for. -/
def ofName? (name : String) : Option IntegerKind := all.find? fun k => k.name = name

/-- The smallest number of a width. -/
def low : IntegerKind → Int
  | tiny => -128
  | small => -32768
  | regular => -2147483648
  | big => -9223372036854775808
  | _ => 0

/-- The largest number of a width. -/
def high : IntegerKind → Int
  | tiny => 127
  | small => 32767
  | regular => 2147483647
  | big => 9223372036854775807
  | tinyUnsigned => 255
  | smallUnsigned => 65535
  | regularUnsigned => 4294967295
  | bigUnsigned => 18446744073709551615

/-- The number is within the width. -/
def holds (k : IntegerKind) (n : Int) : Bool := k.low ≤ n && n ≤ k.high

/-- The width goes beyond the 32 bits of an ordinary integer of the query language. -/
def isWide : IntegerKind → Bool
  | big | regularUnsigned | bigUnsigned => true
  | _ => false

theorem ofName?_name (k : IntegerKind) : ofName? k.name = some k := by
  cases k <;> decide

end IntegerKind

/-- The kinds of columns that need no further description. -/
inductive BasicKind
  | bool
  | integer (kind : IntegerKind)
  | float
  | double
  | decimal
  | string
  | char
  | bytes
  | json
  | date
  | time
  | dateTime
  | dateTimeZoned
  | uuid
  | ipNetwork
  | macAddress
  deriving DecidableEq, Repr

namespace BasicKind

/-- The name of a kind. -/
def name : BasicKind → String
  | bool => "Bool"
  | integer kind => kind.name
  | float => "Float"
  | double => "Double"
  | decimal => "Decimal"
  | string => "String"
  | char => "Char"
  | bytes => "Bytes"
  | json => "Json"
  | date => "Date"
  | time => "Time"
  | dateTime => "DateTime"
  | dateTimeZoned => "DateTimeWithTimeZone"
  | uuid => "Uuid"
  | ipNetwork => "IpNetwork"
  | macAddress => "MacAddress"

/-- All kinds. -/
def all : List BasicKind :=
  [bool, float, double, decimal, string, char, bytes, json, date, time, dateTime, dateTimeZoned,
    uuid, ipNetwork, macAddress] ++ IntegerKind.all.map integer

/-- The kind a name stands for. -/
def ofName? (name : String) : Option BasicKind := all.find? fun k => k.name = name

end BasicKind

/-- The type of a column. -/
inductive ColumnType
  /-- A basic kind, with a label that is only shown. -/
  | basic (kind : BasicKind) (label : Option String)
  | enumeration (name : String)
  | custom (name : String)
  | array (inner : ColumnType)
  deriving DecidableEq, Repr, Inhabited

namespace ColumnType

/-- A basic type without a label. -/
def plain (kind : BasicKind) : ColumnType := basic kind none

/-- The type a kind's name, an optional name and an optional element type describe. -/
def of (kind : String) (name : Option String) (inner : Option ColumnType) :
    Except Fault ColumnType :=
  let given := name.filter (!·.isEmpty)
  match kind, given with
  | "Enum", some n => .ok (enumeration n)
  | "Custom", some n => .ok (custom n)
  | "Enum", none => .error (.config "Enum column type requires a name")
  | "Custom", none => .error (.config "Custom column type requires a name")
  | "Array", _ =>
    match inner with
    | some t => .ok (array t)
    | none => .error (.config "Array column type requires an inner type")
  | kind, given =>
    match BasicKind.ofName? kind with
    | some k => .ok (basic k given)
    | none => .error (.unreadable s!"'{kind}' is not a valid column kind")

/-- The kind, followed by the name in parentheses if there is one. -/
def text : ColumnType → String
  | basic kind none => kind.name
  | basic kind (some label) => kind.name ++ "(" ++ label ++ ")"
  | enumeration name => "Enum(" ++ name ++ ")"
  | custom name => "Custom(" ++ name ++ ")"
  | array inner => "Array(" ++ inner.text ++ ")"

/-- The name of the kind alone. -/
def kindName : ColumnType → String
  | basic kind _ => kind.name
  | enumeration _ => "Enum"
  | custom _ => "Custom"
  | array _ => "Array"

/-- The width of a whole-number type. -/
def integerKind? : ColumnType → Option IntegerKind
  | basic (.integer k) _ => some k
  | _ => none

/-- The type is a whole number. -/
def isInteger (t : ColumnType) : Bool := t.integerKind?.isSome

/-- The type is one of the two floating-point types. -/
def isFloat : ColumnType → Bool
  | basic .float _ | basic .double _ => true
  | _ => false

/-- Rows can be ordered by columns of this type. -/
def isOrderable : ColumnType → Bool
  | basic .json _ | array _ => false
  | _ => true

/-- The enumeration the type or the innermost element type names. -/
def enumerationName? : ColumnType → Option String
  | enumeration name => some name
  | array inner => inner.enumerationName?
  | _ => none

end ColumnType

end TableGraph
