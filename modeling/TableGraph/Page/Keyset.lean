import TableGraph.Cursor.Key
import TableGraph.Order
import TableGraph.Predicate.Sql

/-!
# Keyset conditions

The rows strictly behind, or strictly before, a given row in an order: those that are further in the
first column, or equal in it and further in the second, and so on.
-/

namespace TableGraph.Keyset

/-- The values of the row must not be null where it is ordered by. -/
def checkAnchor (anchor : Record) : List Order → Except Fault Unit
  | [] => .ok ()
  | o :: os =>
    if (anchor.get o.column).isNull then
      .error (.pagination "cursor" s!"ordering column '{o.column}' is NULL at the cursor row")
    else checkAnchor anchor os

/-- Equality with the given row in a column. -/
def level (anchor : Record) (o : Order) : Predicate Value :=
  .test o.column (.equals false (anchor.get o.column))

/-- Further than the given row in a column of the entity. -/
def step (e : Entity) (forward : Bool) (anchor : Record) (o : Order) :
    Except Fault (Predicate Value) := do
  if e.hasColumn o.column then
    let ascending := (!o.descending) == forward
    let t ← Test.ordered (if ascending then .gt else .lt) (anchor.get o.column)
    .ok (.test o.column t)
  else .error (.absent o.column)

/-- The branches of a keyset condition, behind columns in which rows are equal. -/
def branches (e : Entity) (forward : Bool) (anchor : Record) :
    List Order → List Order → Except Fault (List (Predicate Value))
  | _, [] => .ok []
  | equal, o :: os => do
    let further ← step e forward anchor o
    let rest ← branches e forward anchor (equal ++ [o]) os
    .ok (.allOf (equal.map (level anchor) ++ [further]) :: rest)

/-- The rows strictly behind the given one, or strictly before it. -/
def condition (e : Entity) (orders : List Order) (anchor : Record) (forward : Bool) :
    Except Fault (Predicate Value) :=
  .anyOf <$> branches e forward anchor [] orders

end TableGraph.Keyset
