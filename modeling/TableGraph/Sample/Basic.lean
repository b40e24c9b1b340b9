import TableGraph.Cursor.Key

/-!
# Writing schemas down

Short forms of columns, relations and values for schemas that are written by hand.
-/

namespace TableGraph.Sample

/-- A column that is never null. -/
def column (name : String) (type : ColumnType) : Column := ⟨name, type, false, false, false, false⟩

/-- The column may be null. -/
def nullable (c : Column) : Column := { c with nullable := true }

/-- Clients do not see the column. -/
def hidden (c : Column) : Column := { c with ignored := true }

/-- The database numbers the rows. -/
def generated (c : Column) : Column := { c with autoIncrement := true }

/-- The database has a value for the column. -/
def defaulted (c : Column) : Column := { c with hasDefault := true }

/-- A relation. -/
def link (kind : RelationKind) (name target : String) (fromColumns toColumns : List String)
    (optional : Bool) (junction : Option Junction) : RelationShape :=
  ⟨name, kind, target, fromColumns, toColumns, optional, junction, none⟩

/-- A table. -/
def entity (name : String) (columns : List Column) (key : List String)
    (relations : List RelationShape) : Except Fault Entity := do
  let relations ← relations.mapM Relation.make
  Entity.make ⟨name, columns, key, relations⟩

/-- A key of one column names no column twice. -/
theorem distinct_single (k : String) : [k].Nodup := by
  simp

/-- One column makes a key. -/
theorem keyArity_single (k : String) : 1 ≤ [k].length ∧ [k].length ≤ 3 := by
  simp

/-- The only column is the column of the key. -/
theorem keyKnown_single (k : String) : ∀ c ∈ [k], c ∈ [k] := by
  intro c hc
  exact hc

/-- Tables, and enumerations with their values. -/
def schemaOf (entities : List (Except Fault Entity)) (enumerations : List (String × List String)) :
    Except Fault Schema := do
  let entities ← entities.mapM fun e => e
  let enumerations ← enumerations.mapM fun (name, values) => Enumeration.make name values
  .ok ⟨entities, enumerations⟩

/-- Rows with the values of the same columns. -/
def rows (columns : List String) (values : List (List Value)) : List Record :=
  values.map columns.zip

/-- A value that a text stands for. -/
def read {α : Type} (wrap : α → Value) (a : Option α) : Value := (a.map wrap).getD .null

/-- A binary64 number. -/
def float (s : String) : Value := read .float (Binary64.ofText? s)

/-- A decimal. -/
def decimal (s : String) : Value := read .decimal (Decimal.ofText? s)

/-- A byte string. -/
def bytes (s : String) : Value := read .bytes (Hexadecimal.ofText? s)

/-- A date. -/
def date (s : String) : Value := read .date (Date.ofText? s)

/-- A time of day. -/
def time (s : String) : Value := read .time (Time.ofText? s)

/-- A date with a time of day. -/
def moment (s : String) : Value := read .dateTime (DateTime.ofText? s)

/-- An identifier. -/
def uuid (s : String) : Value := read .uuid (Uuid.ofText? s)

end TableGraph.Sample
