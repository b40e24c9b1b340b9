import TableGraph.Schema.ColumnType

/-!
# Declared tables

A table as a database declares it: its columns and the foreign keys that tie some of them to columns
of other tables.  Tables of different parts of a database may have the same name; the part, if there
is one, stands before the name where a table is told from others.  `DeclaredTable.sorted` lists
tables after those they refer to.

Every declared type stands for a column type.  A declared type goes by its name, whatever the case
of its letters; a choice among texts may be named, and takes the name it is given by its column
otherwise.
-/

namespace TableGraph

/-! ## Declared types -/

/-- A type as a table declares it. -/
inductive DeclaredType
  /-- A type known by its name, with what of its parameters matters. -/
  | named (name : String) (length : Option Int) (unsigned zoned : Bool)
  /-- One of a list of texts. -/
  | choice (name : Option String) (values : List String)
  | list (item : DeclaredType)
  deriving DecidableEq, Repr, Inhabited

namespace DeclaredType

/-- The names of whole-number types, with the width of each and the width without a sign. -/
def integerNames : List (String × IntegerKind × IntegerKind) :=
  [("tinyint", .tiny, .tinyUnsigned), ("smallinteger", .small, .smallUnsigned),
    ("smallint", .small, .smallUnsigned), ("integer", .regular, .regularUnsigned),
    ("int", .regular, .regularUnsigned), ("mediumint", .regular, .regularUnsigned),
    ("biginteger", .big, .bigUnsigned), ("bigint", .big, .bigUnsigned)]

/-- The names of the other types, with the kind of each. -/
def otherNames : List (String × BasicKind) :=
  [("boolean", .bool), ("bool", .bool), ("bit", .bool), ("float", .float), ("real", .float),
    ("double", .double), ("double_precision", .double), ("numeric", .decimal),
    ("decimal", .decimal), ("money", .decimal), ("largebinary", .bytes), ("blob", .bytes),
    ("bytea", .bytes), ("binary", .bytes), ("varbinary", .bytes), ("longblob", .bytes),
    ("json", .json), ("jsonb", .json), ("date", .date), ("time", .time), ("datetime", .dateTime),
    ("timestamp", .dateTime), ("uuid", .uuid), ("inet", .ipNetwork), ("cidr", .ipNetwork),
    ("macaddr", .macAddress), ("macaddr8", .macAddress), ("string", .string), ("varchar", .string),
    ("nvarchar", .string), ("text", .string), ("char", .string), ("nchar", .string),
    ("unicode", .string), ("unicodetext", .string), ("clob", .string)]

/-- The kind a type of this name is narrowed to: a character by its length, a moment by its zone. -/
def narrowed (name : String) (length : Option Int) (zoned : Bool) (kind : BasicKind) :
    BasicKind :=
  match kind with
  | .string => if length = some 1 && (name = "char" || name = "nchar") then .char else .string
  | .dateTime => if zoned then .dateTimeZoned else .dateTime
  | kind => kind

/-- The column type of a type known by its name in small letters. -/
def ofName (name : String) (length : Option Int) (unsigned zoned : Bool) : ColumnType :=
  match integerNames.lookup name, otherNames.lookup name with
  | some (signed, positive), _ => .plain (.integer (if unsigned then positive else signed))
  | none, some kind => .plain (narrowed name length zoned kind)
  | none, none => .custom name

/-- The column type a declared type stands for.  A choice without a name takes the given one. -/
def columnType (given : Option String) : DeclaredType → Except Fault ColumnType
  | named name length unsigned zoned => .ok (ofName name.toLower length unsigned zoned)
  | choice name _ =>
    match (name.filter (!·.isEmpty)).or given with
    | some name => .ok (.enumeration name)
    | none => .error .noMember
  | list (list _) => .error (.unreadable "a list holds no lists")
  | list item => .array <$> columnType none item

/-- The texts to choose from. -/
def values : DeclaredType → List String
  | choice _ values => values
  | _ => []

end DeclaredType

/-! ## Columns and tables -/

/-- Whether the database numbers the rows by a column of the key. -/
inductive Numbering
  /-- If the column is a whole number, alone in the key and in no foreign key. -/
  | automatic
  | always
  | never
  deriving DecidableEq, Repr

/-- A column as a table declares it. -/
structure DeclaredColumn where
  name : String
  type : DeclaredType
  primaryKey : Bool
  nullable : Bool
  /-- Who writes a row fills the column where it is left out. -/
  writerDefault : Bool
  /-- The database fills the column where it is left out. -/
  databaseDefault : Bool
  numbering : Numbering
  deriving DecidableEq, Repr

/-- The name of a table with the part of the database it is in, if it is in one. -/
def qualified (part : Option String) (name : String) : String :=
  match part with
  | some part => part ++ "." ++ name
  | none => name

/-- Columns of a table that hold the values of columns of another one. -/
structure ForeignKey where
  columns : List String
  /-- The part of the database the other table is in. -/
  part : Option String := none
  table : String
  targets : List String
  deriving DecidableEq, Repr

/-- The full name of the table a foreign key refers to. -/
def ForeignKey.target (k : ForeignKey) : String := qualified k.part k.table

/-- A table as a database declares it. -/
structure DeclaredTable where
  /-- The part of the database the table is in. -/
  part : Option String := none
  name : String
  columns : List DeclaredColumn
  foreignKeys : List ForeignKey
  deriving DecidableEq, Repr

namespace DeclaredTable

/-- The full name of a table. -/
def fullName (t : DeclaredTable) : String := qualified t.part t.name

/-- The columns of the primary key. -/
def primaryKey (t : DeclaredTable) : List String :=
  (t.columns.filter (·.primaryKey)).map (·.name)

/-- The column belongs to a foreign key. -/
def isReference (t : DeclaredTable) (column : String) : Bool :=
  t.foreignKeys.any fun k => k.columns.contains column

/-- The foreign keys by their columns. -/
def sortedKeys (t : DeclaredTable) : List ForeignKey :=
  t.foreignKeys.mergeSort fun a b => (compare a.columns b.columns).isLE

/-! ## The order of tables -/

/-- The other tables a table refers to. -/
def parents (t : DeclaredTable) : List String :=
  (t.foreignKeys.map (·.target)).filter (· ≠ t.fullName)

/-- The names together with those the tables of these names refer to, so many steps far. -/
def reach (tables : List DeclaredTable) : Nat → List String → List String
  | 0, names => names
  | n + 1, names =>
    let next := (tables.filter fun t => names.contains t.fullName).flatMap parents
    reach tables n (names ++ next).eraseDups

/-- The table refers to itself by way of other tables. -/
def isCyclic (tables : List DeclaredTable) (t : DeclaredTable) : Bool :=
  (reach tables tables.length t.parents).contains t.fullName

/-- The full names of tables. -/
def names (tables : List DeclaredTable) : List String := tables.map (·.fullName)

/-- The table waits for none of the others that are left. -/
def isReady (waitsFor : DeclaredTable → List String) (left : List DeclaredTable)
    (t : DeclaredTable) : Bool :=
  (waitsFor t).all fun p => !(names left).contains p

/-- The tables that wait for others. -/
def waiting (waitsFor : DeclaredTable → List String) (left : List DeclaredTable) :
    List DeclaredTable :=
  left.filter fun t => !isReady waitsFor left t

theorem length_waiting_lt {waitsFor : DeclaredTable → List String} {left : List DeclaredTable}
    (h : left.any (isReady waitsFor left) = true) :
    (waiting waitsFor left).length < left.length := by
  obtain ⟨t, ht, hr⟩ := List.any_eq_true.1 h
  exact List.length_filter_lt_length_iff_exists.2 ⟨t, ht, by simp [hr]⟩

/-- Takes out, round by round, the tables that wait for none of the others that are left. -/
def rounds (waitsFor : DeclaredTable → List String) (left : List DeclaredTable) :
    List DeclaredTable :=
  if _ : left.any (isReady waitsFor left) then
    left.filter (isReady waitsFor left) ++ rounds waitsFor (waiting waitsFor left)
  else left
termination_by left.length
decreasing_by exact length_waiting_lt (by assumption)

/-- The tables by full name, each after those it refers to; a table on a cycle waits for none. -/
def sorted (tables : List DeclaredTable) : List DeclaredTable :=
  rounds (fun t => if isCyclic tables t then [] else t.parents)
    (tables.mergeSort fun a b => decide (a.fullName ≤ b.fullName))

/-- The table is the one a foreign key refers to. -/
def isTarget (k : ForeignKey) (t : DeclaredTable) : Bool := t.part = k.part && t.name = k.table

/-- Some foreign key refers to a table that is not there. -/
def hasDangling (tables : List DeclaredTable) : Bool :=
  tables.any fun t => t.foreignKeys.any fun k => !tables.any (isTarget k)

end DeclaredTable

end TableGraph
