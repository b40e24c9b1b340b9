import TableGraph.Answer.Request
import TableGraph.Sample.Basic

/-!
# Filtered tables

Tables that clients filter by texts, and by content that is JSON; one of them has a column that they
do not see.
-/

/-!
## Forms

A table of forms with a level, which may be missing, and with content that is JSON.  Clients filter
by the content as if it were text.
-/

namespace TableGraph.Sample.Forms

/-- The table `form`. -/
def entity : Entity where
  name := "form"
  columns := [column "id" (.plain (.integer .regular)),
    nullable (column "level" (.plain (.integer .regular))), column "content" (.plain .json)]
  primaryKey := ["id"]
  relations := []
  distinct := by decide
  keyArity := keyArity_single "id"
  keyKnown := by decide

/-- The field of a column with its filter. -/
def field (c : Column) (family : FilterFamily) : ColumnField :=
  ⟨c, c.name, "Form." ++ c.name, none, some (.family family)⟩

/-- The projection of the table. -/
def projection : Projection :=
  ⟨entity, "Form", "form", [field (column "id" (.plain (.integer .regular))) .integer,
    field (nullable (column "level" (.plain (.integer .regular)))) .integer,
    field (column "content" (.plain .json)) .text], []⟩

/-- No enumeration is known. -/
def codec : Codec := ⟨[], false⟩

/-- A form. -/
def form (id : Int) (level content : Cell) : Row :=
  [("id", .int id), ("level", level), ("content", content)]

/-- The table with some forms. -/
def table (forms : List Row) : Table := { Table.ofEntity [] entity with rows := forms }

/-- What a tree selects of two forms. -/
def select (v : Value) : Except Fault (List Row) :=
  Filter.compile codec projection v >>=
    (table [form 1 .null (.int 5), form 3 (.int 2) (.int 7)]).matching

/-- The tree that asks one operator of one field. -/
def only (field operator : String) (operand : Value) : Value :=
  .object [(field, .object [(operator, operand)])]

/-- Forms of one of two levels, or in a range. -/
def tree : Value :=
  .object [("or", .list [only "level" "isIn" (.list [.int 2, .int 4]),
    only "id" "between" (.list [.int 5, .int 9])])]

/-- The same forms, asked for in another order. -/
def rearranged : Value :=
  .object [("or", .list [only "id" "between" (.list [.int 5, .int 9]),
    only "level" "isIn" (.list [.int 4, .int 2])])]

end TableGraph.Sample.Forms

/-!
## Rates

A table of rates with labels, whose key is a decimal.
-/

namespace TableGraph.Sample.Rates

/-- The table `rate`. -/
def entity : Entity where
  name := "rate"
  columns := [column "amount" (.plain .decimal), column "label" (.plain .string)]
  primaryKey := ["amount"]
  relations := []
  distinct := by decide
  keyArity := by decide
  keyKnown := by decide

/-- The projection of the table; clients filter by the label. -/
def projection : Projection :=
  ⟨entity, "Rate", "rate", [⟨column "amount" (.plain .decimal), "amount", "Rate.amount", none, none⟩,
    ⟨column "label" (.plain .string), "label", "Rate.label", none, some (.family .text)⟩], []⟩

/-- No enumeration is known. -/
def codec : Codec := ⟨[], false⟩

/-- A rate of so many units of the given power of ten. -/
def rate (units : Nat) (power : Int) (label : String) : Row :=
  [("amount", .real (.ofScientific false units power)), ("label", .text label)]

/-- The table with some rates. -/
def table (rates : List Row) : Table := { Table.ofEntity [] entity with rows := rates }

/-- The store with some rates; it does not return the rows it changes unless it is said to. -/
def store (returning : Bool) (rates : List Row) : Store :=
  ⟨[table rates], returning, false, [], fun _ => true⟩

/-- Rates of a label. -/
def labelled (label : String) : Value := .object [("label", .object [("eq", .text label)])]

/-- The label of what is told of a rate. -/
def labelOf (rate : Record) : String :=
  match rate.get "label" with
  | .text s => s
  | _ => ""

end TableGraph.Sample.Rates

/-!
## Moods

A table of items with labels, which clients filter by, and moods, which they do not see.
-/

namespace TableGraph.Sample.Moods

open TableGraph.Answer

/-- The enumeration of moods. -/
def moods : Enumeration := ⟨"mood", ["happy", "sad"], by decide, by decide⟩

/-- The table `item`. -/
def entity : Entity where
  name := "item"
  columns := [column "id" (.plain (.integer .regular)), column "label" (.plain .string),
    hidden (column "mood" (.enumeration "mood"))]
  primaryKey := ["id"]
  relations := []
  distinct := by decide
  keyArity := keyArity_single "id"
  keyKnown := by decide

/-- The field of the label, which clients filter by. -/
def labelField : ColumnField :=
  ⟨column "label" (.plain .string), "label", "Item.label", none, some (.family .string)⟩

/-- The projection of the table with its label alone. -/
def labels : Projection := ⟨entity, "Item", "item", [labelField], []⟩

/-- The table and the enumeration are registered. -/
def builder : Builder :=
  { Builder.empty {} with entities := [entity], enumerations := [moods] }

/-- The store with one item of a mood. -/
def store (mood : String) : Store :=
  ⟨[{ Table.ofEntity [moods] entity with
      rows := [[("id", .int 1), ("label", .text "one"), ("mood", .text mood)]] }],
    true, false, [], fun _ => true⟩

/-- The request for all that clients see of items. -/
def request : Request := ⟨"\x7b item \x7b nodes \x7b id label \x7d \x7d \x7d", [], none, []⟩

/-- What the request selects. -/
def selections : List Graph.Selection :=
  [.field none "item" [] [] [.field none "nodes" [] []
    [.field none "id" [] [] [], .field none "label" [] [] []]]]

/-- The operation of the request. -/
def operation : Graph.OperationDefinition := ⟨.query, none, [], [], selections⟩

/-- The document of the request. -/
def document : Graph.Document := [.operation operation]

/-- A reply without data. -/
def isEmpty : Reply → Bool
  | .answered data _ _ _ => data.isNull
  | .refused _ _ => true

end TableGraph.Sample.Moods
