import TableGraph.Order
import TableGraph.Guard

/-!
# Keys of related rows

Rows that belong together are loaded by key.  `Identity` tells which values are the same key: whole
numbers whatever type they are written with, and otherwise values of one type.  `Group` is the
shape of what is loaded; keys of equal groups are loaded together.
-/

namespace TableGraph

/-- What a value is as a part of a key. -/
structure Identity where
  family : String
  value : Value

namespace Identity

/-- The identity of a value. -/
def ofValue (v : Value) : Identity :=
  match v with
  | .decimal d =>
    match d.toInt? with
    | some n => ⟨"int", .int n⟩
    | none => ⟨v.typeName, v⟩
  | v => ⟨v.typeName, v⟩

/-- The same part of a key. -/
def same (a b : Identity) : Bool := a.family = b.family && a.value.same b.value

end Identity

/-- The same key, part by part. -/
def sameKey : List Identity → List Identity → Bool
  | [], [] => true
  | a :: as, b :: bs => a.same b && sameKey as bs
  | _, _ => false

/-- The shape of what is loaded by key. -/
structure Group where
  /-- The entity whose rows are loaded. -/
  target : String
  /-- The columns of the target that match the key, or the junction. -/
  columns : List String
  junction : Option Junction
  /-- What identifies the filter of the client. -/
  filters : Value
  /-- What identifies the row scope. -/
  scope : Value
  orders : List Order
  /-- The condition of filter and scope, which does not tell groups apart. -/
  condition : Option (Predicate Value)

namespace Group

/-- The same shape. -/
def same (a b : Group) : Bool :=
  a.target = b.target && a.columns = b.columns && a.junction = b.junction &&
    a.filters.same b.filters && a.scope.same b.scope && a.orders = b.orders

end Group

/-- A key and the shape of what is loaded by it. -/
structure LoadKey where
  values : List Value
  group : Group

namespace LoadKey

/-- The identities of the parts. -/
def identity (k : LoadKey) : List Identity := k.values.map .ofValue

/-- The same rows are loaded by both. -/
def same (a b : LoadKey) : Bool := sameKey a.identity b.identity && a.group.same b.group

/-- A part of the key is null, so that no row matches. -/
def hasNull (k : LoadKey) : Bool := k.values.any (·.isNull)

end LoadKey

end TableGraph
