import TableGraph.Catalogue.Table
import TableGraph.Value.Basic

/-!
# Catalogues as documents

The tables of a database as a document lists them.  A type is a name, or an object with the name and
its parameters; `module.NAME` is the same as `NAME`.  A column refers to another one by
`table.column`, as do the foreign keys of a table.
-/

namespace TableGraph

namespace Catalogue

/-- A field of an object, null where there is none. -/
def field (v : Value) (name : String) : Value := (v.field? name).getD .null

/-- The text a value is. -/
def text? : Value → Option String
  | .text s => some s
  | _ => none

/-- The items a value lists. -/
def items : Value → List Value
  | .list vs => vs
  | _ => []

/-- The texts a value lists. -/
def texts (v : Value) : List String := (items v).filterMap text?

/-- The truth value a value is. -/
def flag (default : Bool) : Value → Bool
  | .bool b => b
  | _ => default

/-- A name without the module in front of it. -/
def withoutModule (name : String) : String := ((name.splitOn ".").getLast?).getD name

theorem sizeOf_lookup_lt {fields : List (String × Value)} {name : String} {v : Value}
    (h : fields.lookup name = some v) : sizeOf v < sizeOf fields := by
  induction fields with
  | nil => simp at h
  | cons f fs ih =>
    obtain ⟨k, w⟩ := f
    rw [List.lookup_cons] at h
    split at h
    · cases h
      simp
      omega
    · have := ih h
      simp
      omega

/-! ## Types -/

/-- The type of a name with parameters in order and by name. -/
def namedType (name : String) (ordered : List Value) (parameters : Value) : DeclaredType :=
  let first := ordered.headD .null
  let length := match first, field parameters "length" with
    | .int n, _ => some n
    | _, .int n => some n
    | _, _ => none
  let zoned := flag (flag false first) (field parameters "timezone")
  .named (withoutModule name) length (flag false (field parameters "unsigned")) zoned

/-- A choice among values, or among the values of the members of a class. -/
def choiceType (v : Value) : DeclaredType :=
  let name := (text? (field v "enum_name")).or (text? (field (field v "kwargs") "name"))
  match field v "members" with
  | .object members =>
    .choice (name.or ((text? (field v "class")).map (·.toLower)))
      ((members.map (·.2)).filterMap text?).eraseDups
  | _ => .choice name (texts (field v "values") ++ texts (field v "args"))

/-- The type a document describes. -/
def type : Value → DeclaredType
  | .text name => .named (withoutModule name) none false false
  | .object fields =>
    match (fields.lookup "name").bind text?, _ : fields.lookup "item" with
    | _, some item => .list (type item)
    | some name, none =>
      let v := Value.object fields
      if (withoutModule name).toLower = "enum" then choiceType v
      else namedType name (items (field v "args")) (field v "kwargs")
    | none, none => .named "" none false false
  | _ => .named "" none false false
termination_by v => sizeOf v
decreasing_by
  have := sizeOf_lookup_lt (by assumption)
  simp
  omega

/-! ## Tables -/

/-- The table and the column a reference names. -/
def reference (s : String) : String × String :=
  let parts := s.splitOn "."
  (".".intercalate parts.dropLast, (parts.getLast?).getD "")

/-- The foreign key of columns to the columns that references name. -/
def foreignKey (columns references : List String) : ForeignKey :=
  let targets := references.map reference
  { columns, table := ((targets.head?).map (·.1)).getD "", targets := targets.map (·.2) }

/-- How the rows are numbered. -/
def numbering : Value → Numbering
  | .bool true => .always
  | .null | .text "auto" => .automatic
  | _ => .never

/-- The column a document describes. -/
def column (v : Value) : DeclaredColumn where
  name := (text? (field v "name")).getD ""
  type := type (field v "type")
  primaryKey := flag false (field v "primary_key")
  nullable := flag true (field v "nullable")
  writerDefault := !(field v "default").isNull
  databaseDefault := !(field v "server_default").isNull
  numbering := numbering (field v "autoincrement")

/-- The table a document describes. -/
def table (v : Value) : DeclaredTable where
  name := (text? (field v "name")).getD ""
  columns := (items (field v "columns")).map column
  foreignKeys :=
    (items (field v "columns")).filterMap (fun c =>
      (text? (field c "fk")).map fun r => foreignKey [(text? (field c "name")).getD ""] [r]) ++
    (items (field v "foreign_keys")).map fun k =>
      foreignKey (texts (field k "columns")) (texts (field k "refs"))

/-- The tables a document lists. -/
def tables (v : Value) : List DeclaredTable := (items v).map table

end Catalogue

end TableGraph
