import TableGraph.Filter.Basic
import TableGraph.Page.Keyset
import TableGraph.Page.Window
import TableGraph.Store.Basic

/-!
# Pages of an entity

`Query.connection` reads one page of the rows that a condition holds of.  Counted pages take a
statement for the count and one for the rows.  A cursor stands for a row: the page starts strictly
behind it in the order, which the key completes, and one more row is looked for on either side of
the page to tell whether there is any.
-/

namespace TableGraph.Query

/-- Equality with a value in every one of some columns. -/
def isAt (key : Record) : Predicate Value :=
  .allOf (key.map fun (column, v) => .test column (.equals false v))

/-- The first row a condition holds of. -/
def first? (s : Store) (p : Projection) (condition : Predicate Value) :
    Counted (Option Record) := do
  let rows ← s.ask p.name fun t => t.select condition [] (some 1) 0
  pure rows.head?

/-- The number of rows a condition holds of. -/
def count (s : Store) (p : Projection) (condition : Predicate Value) : Counted Int := do
  let rows ← s.ask p.name fun t => t.matching condition
  pure rows.length

/-- The row of a key, if a condition holds of it. -/
def byKey (s : Store) (p : Projection) (key : Record) (scope : Option (Predicate Value)) :
    Counted (Option Record) :=
  first? s p ((isAt key).andAlso scope)

/-- Rows with the flags and the count of their page. -/
def page (codec : Codec) (p : Projection) (rows : List Record) (hasPrevious hasNext : Bool)
    (count : Option PageCount) : Except Fault Connection := do
  let edges ← Edge.ofRecords codec p.keyColumns rows
  .ok ⟨edges, hasPrevious, hasNext, count⟩

/-! ## Cursors -/

/-- The row of a key, which is looked up only where the order needs more than the key. -/
def anchorRow (s : Store) (p : Projection) (key : Record) (orders : List Order) :
    Counted Record :=
  if orders.all fun o => p.entity.isKey o.column then pure key
  else do
    match ← first? s p (isAt key) with
    | some row => pure row
    | none => throw (.pagination "cursor" "cursor row no longer exists")

/-- The row a cursor stands for: its key, and the rest of it where the order needs more. -/
def anchor (codec : Codec) (s : Store) (p : Projection) (cursor : String) (orders : List Order) :
    Counted Record := do
  let values ← Key.decode codec p.keyColumns p.keyPaths cursor
  let row ← anchorRow s p (p.entity.primaryKey.zip values) orders
  Keyset.checkAnchor row orders
  pure row

/-- The condition narrowed to the rows behind a cursor, if there is one. -/
def behind (codec : Codec) (s : Store) (p : Projection) (condition : Predicate Value)
    (orders : List Order) : Option String → Counted (Predicate Value)
  | none => pure condition
  | some cursor => do
    let row ← anchor codec s p cursor orders
    let beyond ← Keyset.condition p.entity orders row true
    pure (.allOf [condition, beyond])

/-- Whether a row lies beyond the given one; not known if it has nulls where it is ordered by. -/
def reaches (s : Store) (p : Projection) (condition : Predicate Value) (orders : List Order)
    (row : Record) (forward : Bool) : Counted (Option Bool) :=
  if orders.any fun o => (row.get o.column).isNull then pure none
  else do
    let beyond ← Keyset.condition p.entity orders row forward
    let rows ← s.ask p.name fun t => do
      let rows ← t.matching (.allOf [condition, beyond])
      ((t.sorted [] rows).take 1).mapM fun r =>
        Table.readColumns r (t.columns.filter fun c => p.entity.isKey c.name)
    pure (some !rows.isEmpty)

/-- Rows behind a cursor with the flags of their page. -/
def around (codec : Codec) (s : Store) (p : Projection) (condition : Predicate Value)
    (orders : List Order) (after : Option String) (limit : Int) (rows : List Record) :
    Counted Connection :=
  match rows.head?, rows.getLast? with
  | some front, some last => do
    let next ← reaches s p condition orders last true
    let previous ← reaches s p condition orders front false
    page codec p rows (previous.getD after.isSome) (next.getD (rows.length = limit)) none
  | _, _ => page codec p rows after.isSome false none

/-- A page behind a cursor, or the first one. -/
def cursorPage (codec : Codec) (s : Store) (p : Projection) (condition : Predicate Value)
    (orders : List Order) (after : Option String) (limit : Int) : Counted Connection := do
  let orders := Order.withKey orders p.entity.primaryKey
  let narrowed ← behind codec s p condition orders (after.filter (!·.isEmpty))
  let rows ← s.ask p.name fun t => t.select narrowed orders (some limit) 0
  around codec s p condition orders after limit rows

/-! ## Pages -/

/-- A page of the rows a condition holds of. -/
def connection (codec : Codec) (s : Store) (p : Projection) (condition : Predicate Value)
    (orders : List Order) (request : PageRequest) : Counted Connection :=
  match request with
  | .cursor after limit => cursorPage codec s p condition orders after limit
  | .all => do
    let rows ← s.ask p.name fun t => t.select condition orders none 0
    page codec p rows false false (some (.ofAll rows.length))
  | .page number limit => do
    let total ← count s p condition
    let rows ← s.ask p.name fun t => t.select condition orders (some limit) (number * limit)
    let count ← PageCount.ofPage total limit number
    page codec p rows (0 < number) (number + 1 < count.pages) (some count)
  | .offset start limit => do
    let total ← count s p condition
    let rows ← s.ask p.name fun t => t.select condition orders (some limit) start
    let count ← PageCount.ofOffset total limit start
    page codec p rows (0 < start) (start + limit < total) (some count)

end TableGraph.Query
