import TableGraph.Load.Key
import TableGraph.Store.Basic

/-!
# Batches of keys

Related rows are loaded for many keys at once.  Keys of one group take one statement, which finds
the rows of all of them; every row is then handed to the key it was found by.  `Load.many` answers
every key with its rows in the order of the group, `Load.one` with the first of them.
-/

namespace TableGraph.Load

/-- A row and the key it was found by. -/
structure Found where
  key : List Identity
  row : Record

/-- The identities of the values of some columns of a row. -/
def identityOf (row : Record) (columns : List String) : List Identity :=
  columns.map fun c => .ofValue (row.get c)

/-! ## One group -/

/-- Rows of the target that have a key themselves. -/
def direct (s : Store) (g : Group) (condition : Predicate Value) (keys : List (List Value)) :
    Except Fault (List Found) := do
  let t ← s.table g.target
  let holds ← t.bind condition
  let rows ← t.keyed g.columns keys
  (t.sorted g.orders (rows.filter holds.accepts)).mapM fun r => do
    let row ← t.read r
    .ok ⟨identityOf row g.columns, row⟩

/-- A row of the target and one of the junction belong together. -/
def joins (g : Group) (k : Junction) (target junction : Row) : Bool :=
  (g.columns.zip k.toColumns).all fun (a, b) =>
    let x := target.get a
    let y := junction.get b
    !x.isNull && x.order y == .eq

/-- The names that a statement through a junction is made of are all there. -/
def joined (s : Store) (g : Group) (k : Junction) : Except Fault Unit := do
  let t ← s.registered g.target
  let u ← s.registered k.table
  k.fromColumns.forM fun c => discard (u.typeOf c)
  (g.columns.zip k.toColumns).forM fun (a, b) => do
    discard (t.typeOf a)
    discard (u.typeOf b)

/-- Rows of the target that the junction connects with a key. -/
def connected (s : Store) (g : Group) (k : Junction) (condition : Predicate Value)
    (keys : List (List Value)) : Except Fault (List Found) := do
  joined s g k
  let t ← s.table g.target
  let u ← s.table k.table
  let holds ← t.bind condition
  let links ← u.keyed k.fromColumns keys
  let rows := t.sorted g.orders (t.rows.filter holds.accepts)
  let pairs := rows.flatMap fun r =>
    ((u.sorted [] links).filter (joins g k r)).map fun l => (r, l)
  pairs.mapM fun (r, l) => do
    let row ← t.read r
    let key ← Table.readColumns l (u.columns.filter fun c => k.fromColumns.contains c.name)
    .ok ⟨identityOf key k.fromColumns, row⟩

/-- The different keys without null. -/
def wanted : List LoadKey → List LoadKey
  | [] => []
  | k :: ks =>
    let rest := (wanted ks).filter fun l => !sameKey k.identity l.identity
    if k.hasNull then rest else k :: rest

/-- The rows of a group with their keys; no statement is sent if no key is wanted. -/
def group (s : Store) (g : Group) (keys : List LoadKey) : Counted (List Found) :=
  match (wanted keys).map (·.values) with
  | [] => pure []
  | values => do
    modify (· + 1)
    let condition := g.condition.getD .always
    match g.junction with
    | none => direct s g condition values
    | some k => connected s g k condition values

/-! ## Several groups -/

/-- The different groups of keys, in the order of their first keys. -/
def groups : List LoadKey → List Group
  | [] => []
  | k :: ks => k.group :: (groups ks).filter fun g => !k.group.same g

/-- The rows of every group. -/
def allGroups (s : Store) (keys : List LoadKey) : List Group → Counted (List (Group × List Found))
  | [] => pure []
  | g :: gs => do
    let found ← group s g (keys.filter fun k => g.same k.group)
    let rest ← allGroups s keys gs
    pure ((g, found) :: rest)

/-- The rows found by a key. -/
def rowsOf (found : List (Group × List Found)) (k : LoadKey) : List Record :=
  match found.find? fun (g, _) => g.same k.group with
  | none => []
  | some (_, rows) => (rows.filter fun f => sameKey f.key k.identity).map (·.row)

/-- For every key the rows that belong to it. -/
def many (s : Store) (keys : List LoadKey) : Counted (List (List Record)) := do
  let found ← allGroups s keys (groups keys)
  pure (keys.map (rowsOf found))

/-- For every key the first row that belongs to it. -/
def one (s : Store) (keys : List LoadKey) : Counted (List (Option Record)) := do
  let rows ← many s keys
  pure (rows.map (·.head?))

end TableGraph.Load
