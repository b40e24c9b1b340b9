import TableGraph.Projection
import TableGraph.Value.Shown

/-!
# Orders of rows

An order is a list of columns with directions, the first deciding.  `Order.ofValue` reads one from
what a client sends, in the order in which the client wrote the fields where that is known;
`Order.withKey` appends the columns of the primary key that are not ordered by yet.
-/

namespace TableGraph

namespace Order

/-- The name of a direction. -/
def direction (o : Order) : String := if o.descending then "desc" else "asc"

/-- An order with a direction given by name. -/
def make (column direction : String) : Except Fault Order :=
  match direction with
  | "asc" => .ok ⟨column, false⟩
  | "desc" => .ok ⟨column, true⟩
  | _ => .error .rejected

/-- The text of an order on a table. -/
def sql (table : String) (o : Order) : String :=
  table ++ "." ++ o.column ++ (if o.descending then " DESC" else " ASC")

/-- The keys of an object: those the client is known to have written first, in that order. -/
def keysOf (fields : List (String × Value)) (written : List String) : List String :=
  let names := fields.map (·.1)
  let first := written.filter names.contains
  first ++ names.filter (!first.contains ·)

/-- What a client sends asks for the descending direction. -/
def isDescending : Value → Bool
  | .member _ => false
  | v => v.shown.toLower = "desc"

/-- The orders of keys of an object; a null direction adds nothing. -/
def ofKeys (p : Projection) (fields : List (String × Value)) :
    List String → Except Fault (List Order)
  | [] => .ok []
  | key :: keys =>
    match (fields.lookup key).getD .null with
    | .null => ofKeys p fields keys
    | direction =>
      match p.orderFields.find? fun f => f.name = key with
      | none => .error (.filter s!"{p.orderTypeName}.{key}" "field is not orderable")
      | some f => do
        let orders ← ofKeys p fields keys
        .ok (⟨f.column.name, isDescending direction⟩ :: orders)

/-- Reads the orders a client sends, `written` being the keys as the client wrote them. -/
def ofValue (p : Projection) (v : Value) (written : Option (List String)) :
    Except Fault (List Order) :=
  match v with
  | .object fields => ofKeys p fields (keysOf fields (written.getD []))
  | v => if v.isTruthy then .error .noMember else .ok []

/-- The orders, then the key columns that are not among them, ascending. -/
def withKey (orders : List Order) (key : List String) : List Order :=
  let ordered := orders.map (·.column)
  orders ++ (key.filter (!ordered.contains ·)).map (Order.mk · false)

end Order

end TableGraph
