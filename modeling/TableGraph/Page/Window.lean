import TableGraph.Cursor.Key
import TableGraph.Page.Request

/-!
# Pages of a list

A connection is a page of rows with their cursors, with flags that tell whether rows precede and
follow it, and with the arithmetic of counted pages.  The number of pages is a quotient in binary64,
rounded up.

`Window.paginate` cuts a page out of rows that are at hand already.  A cursor is looked up among the
rows by its key.
-/

namespace TableGraph

/-! ## Connections -/

/-- Where a page stands among counted rows. -/
structure PageCount where
  pages : Int
  current : Int
  offset : Int
  total : Int
  deriving DecidableEq, Repr

/-- A row and its cursor. -/
structure Edge where
  cursor : String
  node : Record

/-- A page of rows. -/
structure Connection where
  edges : List Edge
  hasPrevious : Bool
  hasNext : Bool
  count : Option PageCount

namespace Connection

/-- The cursor of the first row. -/
def startCursor (c : Connection) : Option String := c.edges.head?.map (·.cursor)

/-- The cursor of the last row. -/
def endCursor (c : Connection) : Option String := c.edges.getLast?.map (·.cursor)

/-- The rows. -/
def nodes (c : Connection) : List Record := c.edges.map (·.node)

end Connection

/-- Rows with their cursors. -/
def Edge.ofRecords (codec : Codec) (key : List Column) (rows : List Record) :
    Except Fault (List Edge) :=
  rows.mapM fun r => do
    let cursor ← Key.encode codec key r
    .ok ⟨cursor, r⟩

namespace PageCount

/-- The quotient of whole numbers as a binary64 number, rounded up. -/
def ceilQuotient (n d : Int) : Except Fault Int :=
  if d = 0 then .error .divisionByZero
  else
    let q := Binary64.round (decide (n < 0) != decide (d < 0)) n.natAbs d.natAbs
    match q.ceil? with
    | some k => .ok k
    | none => .error .overflow

/-- The count for a page number. -/
def ofPage (total limit number : Int) : Except Fault PageCount := do
  let pages ← ceilQuotient total limit
  .ok ⟨pages, number, number * limit, total⟩

/-- The count for an offset. -/
def ofOffset (total limit start : Int) : Except Fault PageCount := do
  let pages ← ceilQuotient total limit
  let current ← ceilQuotient start limit
  .ok ⟨pages, current, start, total⟩

/-- The count for all rows at once. -/
def ofAll (total : Int) : PageCount := ⟨1, 0, 0, total⟩

end PageCount

end TableGraph

namespace TableGraph.Window

/-! ## Windows -/

/-- The position an index means in a list of a length; negative ones count from the end. -/
def position (length : Nat) (i : Int) : Nat :=
  if i < 0 then (length + i).toNat else min i.toNat length

/-- The items from one index to another. -/
def slice {α : Type} (start stop : Int) (xs : List α) : List α :=
  let first := position xs.length start
  (xs.take (position xs.length stop)).drop first

/-- The values of the key columns of a row. -/
def keyOf (key : List Column) (r : Record) : List Value := key.map fun c => r.get c.name

/-- Behind the first row with a key. -/
def after? (key : List Column) (values : List Value) (rows : List Record) : Option Nat :=
  (rows.findIdx? fun r => Value.sameItems (keyOf key r) values).map (· + 1)

/-- Where the rows behind a cursor start. -/
def startAfter (codec : Codec) (key : List Column) (paths : List String) (rows : List Record)
    (after : Option String) : Except Fault Int :=
  match after.filter (!·.isEmpty) with
  | none => .ok 0
  | some text => do
    let values ← Key.decode codec key paths text
    match after? key values rows with
    | some n => .ok n
    | none => .error (.pagination "cursor" "cursor row no longer exists")

/-- A page of rows that are in order already. -/
def paginate (codec : Codec) (key : List Column) (paths : List String) (rows : List Record)
    (request : PageRequest) : Except Fault Connection := do
  let edges ← Edge.ofRecords codec key rows
  let total : Int := rows.length
  match request with
  | .all => .ok ⟨edges, false, false, some (.ofAll total)⟩
  | .page number limit =>
    let start := number * limit
    let count ← PageCount.ofPage total limit number
    .ok ⟨slice start (start + limit) edges, 0 < number, number + 1 < count.pages, some count⟩
  | .offset start limit =>
    let count ← PageCount.ofOffset total limit start
    .ok ⟨slice start (start + limit) edges, 0 < start, start + limit < total, some count⟩
  | .cursor after limit =>
    let start ← startAfter codec key paths rows after
    .ok ⟨slice start (start + limit) edges, 0 < start, start + limit < total, none⟩

end TableGraph.Window
