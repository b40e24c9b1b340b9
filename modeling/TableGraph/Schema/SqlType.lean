import TableGraph.Schema.Entity

/-!
# Storage types

The class of database type in which a column is kept.  A column of an enumeration that is not known
is kept as text.  Lists of lists cannot be kept; `SqlType.checkTable` refuses entities that have
columns of them, and columns without a name.
-/

namespace TableGraph

/-- A class of database types. -/
inductive SqlType
  | boolean
  | smallInteger
  | integer
  | bigInteger
  | float
  | double
  | numeric
  | character
  | binary
  | json
  | date
  | time
  | dateTime (zoned : Bool)
  | uuid
  | enumeration (values : List String)
  | array (inner : SqlType)
  | string
  deriving DecidableEq, Repr

namespace SqlType

/-- The name of a class. -/
def text : SqlType → String
  | boolean => "Boolean"
  | smallInteger => "SmallInteger"
  | integer => "Integer"
  | bigInteger => "BigInteger"
  | float => "Float"
  | double => "Double"
  | numeric => "Numeric"
  | character => "CHAR(1)"
  | binary => "LargeBinary"
  | json => "JSON"
  | date => "Date"
  | time => "Time"
  | dateTime false => "DateTime"
  | dateTime true => "DateTime(timezone)"
  | uuid => "Uuid"
  | enumeration values => "Enum(" ++ ",".intercalate values ++ ")"
  | array inner => "ARRAY(" ++ inner.text ++ ")"
  | string => "String"

/-- The class for a width of whole numbers. -/
def ofInteger : IntegerKind → SqlType
  | .tiny | .small | .tinyUnsigned => smallInteger
  | .regular | .smallUnsigned => integer
  | .big | .regularUnsigned | .bigUnsigned => bigInteger

/-- The class for a basic kind. -/
def ofBasic : BasicKind → SqlType
  | .bool => boolean
  | .integer k => ofInteger k
  | .float => float
  | .double => double
  | .decimal => numeric
  | .char => character
  | .bytes => binary
  | .json => json
  | .date => date
  | .time => time
  | .dateTime => dateTime false
  | .dateTimeZoned => dateTime true
  | .uuid => uuid
  | .string | .ipNetwork | .macAddress => string

/-- The class for a column type, enumerations being looked up by name. -/
def ofColumnType (enumerations : List Enumeration) : ColumnType → SqlType
  | .basic kind _ => ofBasic kind
  | .enumeration name =>
    match enumerations.find? fun e => e.name = name with
    | some e => enumeration e.values
    | none => string
  | .custom _ => string
  | .array inner => array (ofColumnType enumerations inner)

/-- Columns of the type can be kept: it is no list of lists. -/
def checkKept : ColumnType → Except Fault Unit
  | .array (.array _) => .error (.unreadable "a list holds no lists")
  | _ => .ok ()

/-- The entity can be kept as a table. -/
def checkTable (e : Entity) : Except Fault Unit := do
  e.columns.forM fun c => checkKept c.type
  if e.columns.any (·.name.isEmpty) then .error .namelessColumn else .ok ()

end SqlType

end TableGraph
