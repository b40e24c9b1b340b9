import TableGraph.Codec
import TableGraph.Cursor.Basic

/-!
# Keys of rows

`Key.encode` writes the primary key of a row as a cursor and `Key.decode` reads it back.  Whole
numbers and identifiers travel under their own tags, everything else as the text a client would be
shown.
-/

namespace TableGraph

/-- A row: values under the names of their columns. -/
abbrev Record := List (String × Value)

/-- The value of a column, null if the row has none. -/
def Record.get (r : Record) (name : String) : Value := (r.lookup name).getD .null

namespace ColumnType

/-- The tag under which keys of this type travel. -/
def cursorTag : ColumnType → CursorTag
  | basic (.integer k) _ => .integer k
  | basic .uuid _ => .uuid
  | _ => .text

end ColumnType

namespace Key

/-- The component of a cursor for one column. -/
def part (codec : Codec) (c : Column) (v : Value) : Except Fault CursorPart :=
  match c.type.cursorTag, v with
  | tag, .null => .ok ⟨tag, .null⟩
  | .text, v => do
    let shown ← codec.format c.type v
    .ok ⟨.text, shown⟩
  | tag, v => .ok ⟨tag, v⟩

/-- The cursor of a row. -/
def encode (codec : Codec) (columns : List Column) (r : Record) : Except Fault String := do
  let parts ← columns.mapM fun c => part codec c (r.get c.name)
  Cursor.encode parts

/-- The words for the two truth values. -/
def truthWords : List (String × Bool) :=
  [("True", true), ("False", false), ("true", true), ("false", false)]

/-- The column value a text component stands for. -/
def ofText (codec : Codec) (path : String) (c : Column) (s : String) : Except Fault Value :=
  match c.type with
  | .basic .float _ | .basic .double _ =>
    match Binary64.ofText? s with
    | some x => .ok (.float x)
    | none => .error (.cursor (path ++ ": invalid " ++ c.type.kindName ++ " key '" ++ s ++ "'"))
  | .basic .bool _ =>
    match truthWords.lookup s with
    | some b => .ok (.bool b)
    | none => .error (.cursor (path ++ ": invalid " ++ c.type.kindName ++ " key '" ++ s ++ "'"))
  | type =>
    match codec.parse path type (.text s) with
    | .error (.conversion path detail) => .error (.cursor (Fault.conversion path detail).message)
    | result => result

/-- The column value a component stands for. -/
def component (codec : Codec) (path : String) (c : Column) (v : Value) : Except Fault Value :=
  match v with
  | .null => .ok .null
  | v =>
    if c.type.isInteger then
      match v with
      | .int n => .ok (.int n)
      | _ => .error (.cursor s!"column '{c.name}' expects an integer key")
    else
      match c.type, v with
      | .basic .uuid _, .uuid u => .ok (.uuid u)
      | _, v => ofText codec path c v.shown

/-- Columns with their paths; a column without a path goes by its name. -/
def withPaths : List Column → List String → List (Column × String)
  | [], _ => []
  | c :: cs, [] => (c, c.name) :: withPaths cs []
  | c :: cs, p :: ps => (c, p) :: withPaths cs ps

/-- The key a cursor stands for, component by component. -/
def decode (codec : Codec) (columns : List Column) (paths : List String) (s : String) :
    Except Fault (List Value) := do
  let parts ← Cursor.decode s
  if parts.length ≠ columns.length then
    .error (.cursor s!"expected {columns.length} key values, got {parts.length}")
  else
    ((withPaths columns paths).zip parts).mapM fun ((c, path), p) =>
      component codec path c p.value

end Key

end TableGraph
