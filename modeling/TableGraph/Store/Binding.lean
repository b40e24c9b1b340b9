import TableGraph.Codec
import TableGraph.Store.Cell

/-!
# Values in cells

`SqlType.bind` turns a value into what a cell of a storage type keeps, `SqlType.read` turns a cell
back.  Decimals are kept as binary64 numbers and come back with ten places; moments are kept as text
of fixed width without their offset; identifiers as 32 digits; JSON as its text.

A value that is compared with a column is bound by the type of the column if both are of one family,
and by its own type otherwise.
-/

namespace TableGraph

namespace SqlType

/-- The database does not take a value. -/
def unbindable : Fault := .database "a value cannot be bound"

/-- The database holds a value that is not of its column's type. -/
def unreadable : Fault := .database "a value cannot be read back"

/-! ## Binding -/

/-- A number that is not NaN, which counts as null. -/
def cellOfReal : Binary64 → Cell
  | .nan => .null
  | x => .real x

/-- A whole number, which must have 64 bits. -/
def cellOfInt (n : Int) : Except Fault Cell :=
  if Cell.holds n then .ok (.int n) else .error unbindable

/-- A value as it is, where a cell can keep it. -/
def bindRaw : Value → Except Fault Cell
  | .null => .ok .null
  | .bool b => .ok (.int (if b then 1 else 0))
  | .int n => cellOfInt n
  | .float x => .ok (cellOfReal x)
  | .text s => .ok (.text s)
  | .bytes bs => .ok (.blob bs)
  | .date d => .ok (.text d.toText)
  | .dateTime t => .ok (.text (t.toText ' '))
  | _ => .error unbindable

/-- A clock of fixed width, without its offset. -/
def clockText (t : Time) : String :=
  String.ofList (paddedDigits 2 t.hour ++ ':' :: paddedDigits 2 t.minute ++
    ':' :: paddedDigits 2 t.second ++ '.' :: paddedDigits 6 t.micro)

/-- A moment of fixed width, without its offset. -/
def momentText (t : DateTime) : String := t.date.toText ++ " " ++ clockText t.time

/-- A number that is one or zero, as a truth value. -/
def bindTruth (v : Value) : Except Fault Cell :=
  if v.same (.int 0) then .ok (.int 0)
  else if v.same (.int 1) then .ok (.int 1)
  else .error unbindable

/-- A value as a cell of a column of the type. -/
def bind (t : SqlType) (v : Value) : Except Fault Cell :=
  match t, v with
  | .json, v =>
    match v.toJson? with
    | some s => .ok (.text s)
    | none => .error unbindable
  | _, .null => .ok .null
  | .boolean, v => bindTruth v
  | .float, v | .double, v | .numeric, v =>
    match Codec.toFloat v with
    | .ok x => .ok (cellOfReal x)
    | .error _ => .error unbindable
  | .enumeration _, .text s => .ok (.text s)
  | .binary, .bytes bs => .ok (.blob bs)
  | .date, .date d => .ok (.text d.toText)
  | .date, .dateTime t => .ok (.text t.date.toText)
  | .time, .time t => .ok (.text (clockText t))
  | .dateTime _, .dateTime t => .ok (.text (momentText t))
  | .dateTime _, .date d => .ok (.text (momentText ⟨d, .midnight⟩))
  | .uuid, .uuid u => .ok (.text (String.ofList u.digits))
  | .smallInteger, v | .integer, v | .bigInteger, v | .string, v | .character, v => bindRaw v
  | _, _ => .error unbindable

/-- Types of one family bind values alike. -/
inductive Family
  | number
  | whole
  | text
  | truth
  | binary
  | json
  | date
  | time
  | moment
  | uuid
  | list
  deriving DecidableEq, Repr

/-- The family of a type. -/
def family : SqlType → Family
  | .smallInteger | .integer | .bigInteger => .whole
  | .float | .double | .numeric => .number
  | .character | .enumeration _ | .string => .text
  | .boolean => .truth
  | .binary => .binary
  | .json => .json
  | .date => .date
  | .time => .time
  | .dateTime _ => .moment
  | .uuid => .uuid
  | .array _ => .list

/-- The type a value has by itself. -/
def ofValue? : Value → Option SqlType
  | .bool _ => some .boolean
  | .int _ => some .integer
  | .float _ => some .float
  | .decimal _ => some .numeric
  | .text _ => some .string
  | .bytes _ => some .binary
  | .date _ => some .date
  | .time _ => some .time
  | .dateTime _ => some (.dateTime false)
  | .uuid _ => some .uuid
  | _ => none

/-- The type by which a value is bound that is compared with a column of the type. -/
def comparedWith (t : SqlType) (v : Value) : SqlType :=
  match t, ofValue? v with
  | .binary, some .string => .binary
  | t, some own => if own.family = t.family then t else own
  | t, none => t

/-- A value that is compared with a column of the type, as a cell. -/
def bindOperand (t : SqlType) (v : Value) : Except Fault Cell :=
  match v with
  | .null => .ok .null
  | v => (t.comparedWith v).bind v

/-! ## Reading -/

/-- A cell as it is. -/
def readRaw : Cell → Value
  | .null => .null
  | .int n => .int n
  | .real x => .float x
  | .text s => .text s
  | .blob bs => .bytes bs

/-- What a reader finds, or the fault of a cell without a reading. -/
def found {α : Type} (make : α → Value) : Option α → Except Fault Value
  | some a => .ok (make a)
  | none => .error unreadable

/-- A cell of a column of the type as a value. -/
def read (t : SqlType) (c : Cell) : Except Fault Value :=
  match t, c with
  | _, .null => .ok .null
  | .numeric, .int n => .ok (.decimal (.ofPlaces 10 (.ofInt n)))
  | .numeric, .real x => .ok (.decimal (.ofPlaces 10 x))
  | .boolean, c => .ok (.bool (readRaw c).isTruthy)
  | .enumeration values, .text s =>
    if values.contains s then .ok (.text s) else .error unreadable
  | .binary, .blob bs => .ok (.bytes bs)
  | .json, .int n => .ok (.int n)
  | .json, .real x => .ok (.float x)
  | .json, .text s => (Value.ofJson s).mapError fun _ => unreadable
  | .date, .text s => found .date (Date.ofText? s)
  | .time, .text s => found .time (Time.ofText? s)
  | .dateTime _, .text s => found .dateTime (DateTime.ofText? s)
  | .uuid, .text s => found .uuid (Uuid.ofText? s)
  | .smallInteger, c | .integer, c | .bigInteger, c | .float, c | .double, c | .string, c
  | .character, c => .ok (readRaw c)
  | _, _ => .error unreadable

end SqlType

end TableGraph
