import TableGraph.Cursor.Key
import TableGraph.Store.Condition

/-!
# Tables

A table has typed columns, a key and rows.  The key is unique where none of its cells is null, and
columns that do not take null have none; `Table.checkRows` tells.  Rows are selected by a condition
in an order; where the order does not tell rows apart, the key does, its columns taken in the order
of the table.

A key of one whole-number column numbers new rows by itself.
-/

namespace TableGraph

/-- A column as the store keeps it. -/
structure StoredColumn where
  name : String
  type : SqlType
  nullable : Bool

/-- A table with its rows. -/
structure Table where
  name : String
  columns : List StoredColumn
  /-- The columns of the key, in the order of the table. -/
  key : List String
  rows : List Row

namespace Table

/-- The table of an entity, without rows. -/
def ofEntity (enumerations : List Enumeration) (e : Entity) : Table :=
  { name := e.name
    columns := e.columns.map fun c => ⟨c.name, .ofColumnType enumerations c.type, c.nullable⟩
    key := (e.columns.map (·.name)).filter e.isKey
    rows := [] }

/-- The type of a column, or the fault of looking it up in vain. -/
def typeOf (t : Table) (column : String) : Except Fault SqlType :=
  match t.columns.find? fun c => c.name = column with
  | some c => .ok c.type
  | none => .error (.absent column)

/-! ## Selecting -/

/-- A condition with its operands as cells. -/
def bind (t : Table) (p : Predicate Value) : Except Fault (Predicate Cell) :=
  p.mapM fun column test => do
    let type ← t.typeOf column
    test.bind type

/-- The rows a condition holds of. -/
def matching (t : Table) (p : Predicate Value) : Except Fault (List Row) := do
  let p ← t.bind p
  .ok (t.rows.filter p.accepts)

/-- How two rows compare in one column. -/
def compareBy (o : Order) (a b : Row) : Ordering :=
  if o.descending then (b.get o.column).order (a.get o.column)
  else (a.get o.column).order (b.get o.column)

/-- How two rows compare in several columns, the first that differs deciding. -/
def compareRows (orders : List Order) (a b : Row) : Ordering :=
  orders.foldr (fun o rest => (compareBy o a b).then rest) .eq

/-- The orders, and the key where they do not tell rows apart. -/
def fullOrder (t : Table) (orders : List Order) : List Order :=
  orders ++ t.key.map (Order.mk · false)

/-- Rows in an order. -/
def sorted (t : Table) (orders : List Order) (rows : List Row) : List Row :=
  rows.mergeSort fun a b => compareRows (t.fullOrder orders) a b != .gt

/-- The values of a row in some columns. -/
def readColumns (row : Row) (columns : List StoredColumn) : Except Fault Record :=
  columns.mapM fun c => do
    let v ← c.type.read (row.get c.name)
    .ok (c.name, v)

/-- The values of a row. -/
def read (t : Table) (row : Row) : Except Fault Record := readColumns row t.columns

/-- The first rows behind an offset; there is no end without a limit or with a negative one. -/
def window (limit : Option Int) (offset : Int) (rows : List Row) : List Row :=
  let behind := rows.drop offset.toNat
  match limit with
  | none => behind
  | some n => if n < 0 then behind else behind.take n.toNat

/-- The values of the rows a condition holds of, in an order and within bounds. -/
def select (t : Table) (p : Predicate Value) (orders : List Order) (limit : Option Int)
    (offset : Int) : Except Fault (List Record) := do
  let rows ← t.matching p
  (window limit offset (t.sorted orders rows)).mapM t.read

/-! ## Keys -/

/-- The cells that each column is compared with, the first key telling the types. -/
def bindKeys (types : List SqlType) (keys : List (List Value)) : Except Fault (List (List Cell)) :=
  match keys with
  | [] => .ok []
  | first :: _ =>
    let own := (types.zip first).map fun (t, v) => t.comparedWith v
    keys.mapM fun key =>
      ((types.zip own).zip key).mapM fun ((t, t'), v) =>
        match v with
        | .null => .ok .null
        | v => (Cell.operand (.ofType t)) <$> t'.bind v

/-- The same cells, none of them null. -/
def sameCells (as bs : List Cell) : Bool :=
  (as.zip bs).all fun (a, b) => !a.isNull && a.order b == .eq

/-- The rows that have one of several keys in some columns. -/
def keyed (t : Table) (columns : List String) (keys : List (List Value)) :
    Except Fault (List Row) := do
  let types ← columns.mapM t.typeOf
  let cells ← bindKeys types keys
  .ok (t.rows.filter fun r => cells.any fun key => sameCells (columns.map r.get) key)

/-! ## Changing -/

/-- The values of the key of a row. -/
def keyCells (t : Table) (row : Row) : List Cell := t.key.map row.get

/-- The key of the row is not among others. -/
def isNewKey (t : Table) (row : Row) (others : List Row) : Bool :=
  others.all fun other => !sameCells (t.keyCells row) (t.keyCells other)

/-- The keys of the rows differ. -/
def hasUniqueKeys (t : Table) : List Row → Bool
  | [] => true
  | row :: rows => t.isNewKey row rows && hasUniqueKeys t rows

/-- The key is one column of ordinary whole numbers. -/
def numberedKey? (t : Table) : Option String :=
  match t.key with
  | [k] =>
    if t.columns.any fun c => c.name = k && c.type == .integer then some k else none
  | _ => none

/-- The row has no null where none is taken, and a whole number as the key that numbers rows. -/
def isComplete (t : Table) (row : Row) : Bool :=
  (t.columns.all fun c => c.nullable || !(row.get c.name).isNull) &&
    t.numberedKey?.all fun k => (row.get k) matches .int _

/-- The database does not take the rows. -/
def violated : Fault := .database "a constraint is violated"

/-- The table with other rows, if they are complete and their keys differ. -/
def checkRows (t : Table) (rows : List Row) : Except Fault Table :=
  if rows.all t.isComplete && t.hasUniqueKeys rows then .ok { t with rows } else .error violated

/-- The number behind the largest of a column. -/
def nextNumber (t : Table) (column : String) : Int :=
  match t.rows.filterMap fun r =>
      match r.get column with
      | .int n => some n
      | _ => none with
  | [] => 1
  | n :: ns => ns.foldl max n + 1

/-- The cells of given values, in the form their columns prefer. -/
def cellsOf (t : Table) (values : Record) : Except Fault Row :=
  values.mapM fun (column, v) => do
    let type ← t.typeOf column
    let cell ← type.bind v
    .ok (column, cell.preferred (.ofType type))

/-- A row of the cells, null where there are none; a key that numbers rows is supplied. -/
def rowOf (t : Table) (cells : Row) : Row :=
  t.columns.map fun c =>
    let cell := cells.get c.name
    let isNumbered := cell.isNull && t.numberedKey? = some c.name
    (c.name, if isNumbered then .int (t.nextNumber c.name) else cell)

/-- The table with one more row, and the row. -/
def insert (t : Table) (values : Record) : Except Fault (Table × Row) := do
  let cells ← t.cellsOf values
  let row := t.rowOf cells
  let t' ← t.checkRows (t.rows ++ [row])
  .ok (t', row)

/-- The row with some cells replaced. -/
def replaced (cells : Row) (row : Row) : Row :=
  row.map fun (column, cell) => (column, (cells.lookup column).getD cell)

/-- The table with values changed where a condition holds, and the changed rows. -/
def update (t : Table) (p : Predicate Value) (values : Record) :
    Except Fault (Table × List Row) := do
  let p ← t.bind p
  let cells ← t.cellsOf values
  let t' ← t.checkRows (t.rows.map fun r => if p.accepts r then replaced cells r else r)
  .ok (t', (t.rows.filter p.accepts).map (replaced cells))

/-- The table without the rows a condition holds of, and their number. -/
def delete (t : Table) (p : Predicate Value) : Except Fault (Table × Nat) := do
  let p ← t.bind p
  .ok ({ t with rows := t.rows.filter (!p.accepts ·) }, (t.rows.filter p.accepts).length)

end Table

end TableGraph
