import TableGraph.Filter.Basic
import TableGraph.Transaction

/-!
# Mutations

Creating, updating and deleting rows.  What a client sends is converted first; then the statements
of a mutation change what a transaction makes of the store.  Where the database does not return the
rows it changes, they are read back by their keys.
-/

namespace TableGraph

namespace Mutation

/-! ## Values -/

/-- The value of a column for what a client sends. -/
def columnValue (codec : Codec) (f : ColumnField) (v : Value) : Except Fault Value :=
  match v, f.override.bind (·.input) with
  | .null, _ => codec.parse f.path f.column.type .null
  | v, some convert => convert v
  | v, none => codec.parse f.path f.column.type v

/-- The values of columns for the fields of an input. -/
def columnValues (codec : Codec) (p : Projection) (data : List (String × Value)) :
    Except Fault Record :=
  data.mapM fun (name, v) => do
    let f ← p.field name
    let v ← columnValue codec f v
    .ok (f.column.name, v)

/-! ## Rows read back -/

/-- A row cannot be found again. -/
def lost (name : String) : Fault := .database s!"inserted {name} row could not be read back"

/-- The key in its order, ascending. -/
def keyOrder (p : Projection) : List Order := p.entity.primaryKey.map (Order.mk · false)

/-- The rows of some keys, in the order of the key. -/
def readBack (p : Projection) (keys : List (List Value)) : Work (List Record) :=
  if keys.isEmpty then pure []
  else Work.ask p.name fun t => do
    let rows ← t.keyed p.entity.primaryKey keys
    (t.sorted (keyOrder p) rows).mapM t.read

/-- The key of an inserted row as far as it is known: what was given, else the number supplied. -/
def insertedKey (p : Projection) (t : Table) (values : Record) (row : Row) : List Value :=
  p.keyColumns.map fun c =>
    match values.lookup c.name with
    | some v => v
    | none =>
      if c.autoIncrement ∧ t.numberedKey? = some c.name then SqlType.readRaw (row.get c.name)
      else .null

/-! ## Creating -/

/-- Inserts a row, and tells it. -/
def insert (p : Projection) (values : Record) : Work Record := do
  let (t, row, key) ← Work.write p.name fun t => do
    let (t', row) ← t.insert values
    .ok (t', row, insertedKey p t values row)
  if (← get).store.returning then t.read row
  else do
    let rows ← readBack p [key]
    match rows.head? with
    | some record => pure record
    | none => throw (lost p.name)

/-- Inserts rows one after another. -/
def insertAll (p : Projection) : List Record → Work (List Record)
  | [] => pure []
  | values :: rest => do
    let row ← insert p values
    let rows ← insertAll p rest
    pure (row :: rows)

/-- Creates a row. -/
def createOne (codec : Codec) (p : Projection) (data : List (String × Value)) :
    Session Record := do
  let values ← columnValues codec p data
  Session.transaction (insert p values)

/-- Creates all rows or none. -/
def createBatch (codec : Codec) (p : Projection) (items : List (List (String × Value))) :
    Session (List Record) := do
  let rows ← (items.mapM fun data => columnValues codec p data : Except Fault (List Record))
  Session.transaction (insertAll p rows)

/-! ## Updating and deleting -/

/-- The condition of a filter and a scope. -/
def condition (codec : Codec) (p : Projection) (filter : Value)
    (scope : Option (Predicate Value)) : Except Fault (Predicate Value) := do
  let c ← Filter.compile codec p filter
  .ok (c.andAlso scope)

/-- The rows of a table in the order of its key. -/
def inKeyOrder (t : Table) (rows : List Row) : Except Fault (List Record) :=
  (t.sorted [] rows).mapM t.read

/-- Updates by a database that returns what it changes. -/
def updateReturning (p : Projection) (condition : Predicate Value) (values : Record) :
    Work (List Record) := do
  let (t, changed) ← Work.write p.name fun t => t.update condition values
  inKeyOrder t changed

/-- Updates by a database that does not: the keys are asked for before, the rows after. -/
def updateReadingBack (p : Projection) (condition : Predicate Value) (values : Record) :
    Work (List Record) := do
  let keys ← Work.ask p.name fun t => do
    let rows ← t.matching condition
    rows.mapM fun r => Table.readColumns r (t.columns.filter fun c => p.entity.isKey c.name)
  let _ ← Work.write p.name fun t => t.update condition values
  readBack p (keys.map fun key =>
    p.entity.primaryKey.map fun name => (values.lookup name).getD (key.get name))

/-- Updates the rows of a condition, and tells them; without values they are only told. -/
def updateRows (p : Projection) (condition : Predicate Value) (values : Record) :
    Work (List Record) := do
  if values.isEmpty then Work.ask p.name fun t => t.select condition (keyOrder p) none 0
  else if (← get).store.returning then updateReturning p condition values
  else updateReadingBack p condition values

/-- Updates the rows of a filter within a scope, and tells them. -/
def update (codec : Codec) (p : Projection) (data : List (String × Value)) (filter : Value)
    (scope : Option (Predicate Value)) : Session (List Record) := do
  let values ← columnValues codec p data
  let c ← condition codec p filter scope
  Session.transaction (updateRows p c values)

/-- Deletes the rows of a condition, and tells their number. -/
def deleteRows (p : Projection) (condition : Predicate Value) : Work Nat := do
  let (_, n) ← Work.write p.name fun t => t.delete condition
  pure n

/-- Deletes the rows of a filter within a scope, and tells their number. -/
def delete (codec : Codec) (p : Projection) (filter : Value) (scope : Option (Predicate Value)) :
    Session Nat := do
  let c ← condition codec p filter scope
  Session.transaction (deleteRows p c)

end Mutation

end TableGraph
