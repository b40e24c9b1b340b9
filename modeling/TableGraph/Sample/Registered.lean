import TableGraph.Builder
import TableGraph.Catalogue.Table
import TableGraph.Sample.Basic
import TableGraph.Store.Basic
import TableGraph.Text.UpperCase

/-!
# Registered tables

Small schemas, some of them as a builder registers them and others as a store has them.
-/

/-!
## Names

Tables that have nothing in common but their shape: a key of one whole number.
-/

namespace TableGraph.Sample.Names

/-- A table of some name. -/
def named (name : String) : Entity where
  name := name
  columns := [column "id" (.plain (.integer .regular))]
  primaryKey := ["id"]
  relations := []
  distinct := distinct_single "id"
  keyArity := keyArity_single "id"
  keyKnown := keyKnown_single "id"

/-- Tables of some names are registered, one after another, and can be changed. -/
def builder (names : List String) : Builder :=
  ((Builder.empty {}).registerAll (names.flatMap fun name =>
    [.entity (named name), .mutations name])).1

end TableGraph.Sample.Names

/-!
## Shelves

Shelves have many books by way of a junction, which may or may not be the table of places.
-/

namespace TableGraph.Sample.Shelves

/-- The books of a shelf, by way of some junction. -/
def books (j : Junction) : Relation where
  name := "books"
  kind := .hasMany
  target := "book"
  fromColumns := ["id"]
  toColumns := ["id"]
  optional := false
  junction := some j
  reverseOf := none
  nonempty := by decide
  paired := rfl
  joined := nofun

/-- A table with a key of one whole number or two, and relations. -/
def keyed (name : String) (keys : List String) (relations : List Relation)
    (distinct : keys.Nodup) (arity : 1 ≤ keys.length ∧ keys.length ≤ 3) : Entity where
  name := name
  columns := keys.map fun k => column k (.plain (.integer .regular))
  primaryKey := keys
  relations := relations
  distinct := by simpa [column, Function.comp_def] using distinct
  keyArity := arity
  keyKnown := by simp [column, Function.comp_def]

/-- The books of a shelf are found by way of a junction. -/
def shelf (j : Junction) : Entity :=
  keyed "shelf" ["id"] [books j] (distinct_single "id") (keyArity_single "id")

def book : Entity :=
  keyed "book" ["id"] [] (distinct_single "id") (keyArity_single "id")

/-- A book on a shelf. -/
def place : Entity := keyed "place" ["shelf_id", "book_id"] [] (by decide) (by decide)

/-- Shelves, books and places. -/
def builder (j : Junction) : Builder :=
  ((Builder.empty {}).registerAll [.entity (shelf j), .entity book, .entity place]).1

/-- Books are found by way of the places. -/
theorem isOk_build_place : (builder ⟨"place", ["shelf_id"], ["book_id"]⟩).build.isOk := by
  decide +kernel

end TableGraph.Sample.Shelves

/-!
## Marks

Shops with notes.  Their marks are texts that clients filter by as if they were numbers.
-/

namespace TableGraph.Sample.Marks

/-- The table `note`. -/
def noteEntity : Entity where
  name := "note"
  columns := [column "id" (.plain (.integer .regular)),
    column "shop_id" (.plain (.integer .regular)), column "mark" (.plain .string)]
  primaryKey := ["id"]
  relations := []
  distinct := by decide
  keyArity := keyArity_single "id"
  keyKnown := by decide

/-- The notes of a shop. -/
def notes : Relation where
  toRelationShape := link .hasMany "notes" "note" ["id"] ["shop_id"] false none
  nonempty := by decide
  paired := rfl
  joined := by decide

/-- The table `shop`. -/
def shopEntity : Entity where
  name := "shop"
  columns := [column "id" (.plain (.integer .regular))]
  primaryKey := ["id"]
  relations := [notes]
  distinct := distinct_single "id"
  keyArity := keyArity_single "id"
  keyKnown := keyKnown_single "id"

/-- Marks are filtered by as if they were numbers. -/
def context : Context where
  filterOverrides := [("Note.mark", some "Float")]

/-- Both tables are registered. -/
def builder : Builder := { Builder.empty context with entities := [shopEntity, noteEntity] }

/-- The field of a column that is a whole number. -/
def wholeField (typeName column name : String) : ColumnField :=
  ⟨Sample.column column (.plain (.integer .regular)), name, typeName ++ "." ++ name, none,
    some (.family .integer)⟩

/-- The field of the mark. -/
def mark : ColumnField :=
  ⟨column "mark" (.plain .string), "mark", "Note.mark", none, some (.family .float)⟩

/-- The projection of the table `note`. -/
def note : Projection :=
  ⟨noteEntity, "Note", "note",
    [wholeField "Note" "id" "id", wholeField "Note" "shop_id" "shopId", mark], []⟩

/-- The field of the notes of a shop. -/
def notesField : RelationField := ⟨notes, "notes", "Shop.notes"⟩

/-- The projection of the table `shop`. -/
def shop : Projection :=
  ⟨shopEntity, "Shop", "shop", [wholeField "Shop" "id" "id"], [notesField]⟩

/-- A zero with its sign. -/
def zero (negative : Bool) : Value := .float (.finite negative 0 (-1074))

/-- A note with a mark. -/
def marked (text : String) : Row := [("id", .int 1), ("shop_id", .int 1), ("mark", .text text)]

/-- Notes with a number for a mark. -/
def withMark (number : Value) : Predicate Value := .test "mark" (.compare .eq number)

/-- A field shown as `whole` gets the notes marked with a whole number, others those marked with a
float. -/
def scope : Scope := fun call _ _ => .ok <| .rows <| some <|
  if call.path.getLast? = some (.key "whole") then withMark (.int 1)
  else withMark (.float (.ofInt 1))

/-- Both tables are registered, with the row scope of notes. -/
def scopedBuilder : Builder :=
  { Builder.empty { scopes := [("Note", scope)] } with entities := [shopEntity, noteEntity] }

/-- The store with one shop and a note that is marked with a whole number. -/
def store : Store :=
  ⟨[{ Table.ofEntity [] shopEntity with rows := [[("id", .int 1)]] },
    { Table.ofEntity [] noteEntity with rows := [marked "1"] }], true, false, [], fun _ => true⟩

end TableGraph.Sample.Marks

/-!
## Items

A table of items with ranks, which may be missing, and marks that are on or off.
-/

namespace TableGraph.Sample.Items

/-- The table `item`. -/
def entity : Entity where
  name := "item"
  columns := [column "id" (.plain (.integer .regular)),
    nullable (column "rank" (.plain (.integer .regular))), column "mark" (.plain .bool)]
  primaryKey := ["id"]
  relations := []
  distinct := by decide
  keyArity := keyArity_single "id"
  keyKnown := by decide

/-- The field of a column, with the filter of its type. -/
def field (c : Column) : ColumnField :=
  ⟨c, c.name, "Item." ++ c.name, none, (FilterFamily.ofColumnType? c.type).map .family⟩

/-- The projection of the table. -/
def projection : Projection := ⟨entity, "Item", "item", entity.columns.map field, []⟩

/-- Nothing is configured. -/
def context : Context := {}

/-- Pages have a default size and a largest one. -/
def paged (default most : Int) : Context :=
  { context with defaultLimit := some default, maxLimit := some most }

/-- The table is registered. -/
def builder (context : Context) : Builder := { Builder.empty context with entities := [entity] }

/-- An item. -/
def item (id : Int) (rank : Cell) (mark : Bool) : Row :=
  [("id", .int id), ("rank", rank), ("mark", .int (if mark then 1 else 0))]

/-- The table with some items. -/
def table (items : List Row) : Table := { Table.ofEntity [] entity with rows := items }

/-- The store with some items. -/
def store (items : List Row) : Store := ⟨[table items], true, false, [], fun _ => true⟩

end TableGraph.Sample.Items

/-!
## Codes

Items are known by their codes, which are texts.  What clients send may be converted.
-/

namespace TableGraph.Sample.Codes

/-- The table `item`. -/
def entity : Entity where
  name := "item"
  columns := [column "code" (.plain .string)]
  primaryKey := ["code"]
  relations := []
  distinct := distinct_single "code"
  keyArity := keyArity_single "code"
  keyKnown := keyKnown_single "code"

/-- A text in capitals. -/
def inCapitals (v : Value) : Except Fault Value := .ok (.text (Text.upperCase v.shown))

/-- The code is converted in some way, or not at all. -/
def override (convert : Option (Value → Except Fault Value)) : ColumnOverride :=
  ⟨none, convert, none⟩

def context (convert : Option (Value → Except Fault Value)) : Context where
  columnOverrides := [("Item.code", override convert)]

/-- The table is registered. -/
def builder (convert : Option (Value → Except Fault Value)) : Builder :=
  { Builder.empty (context convert) with entities := [entity] }

/-- The field of the code. -/
def code (convert : Option (Value → Except Fault Value)) : ColumnField :=
  ⟨column "code" (.plain .string), "code", "Item.code", some (override convert),
    some (.family .string)⟩

/-- The projection of the table. -/
def projection (convert : Option (Value → Except Fault Value)) : Projection :=
  ⟨entity, "Item", "item", [code convert], []⟩

/-- The table with one item. -/
def table (text : String) : Table :=
  { Table.ofEntity [] entity with rows := [[("code", .text text)]] }

/-- The store with one item. -/
def store (text : String) : Store := ⟨[table text], true, false, [], fun _ => true⟩

end TableGraph.Sample.Codes

/-!
## Sales

Every sale is made by a clerk.  The clerks of the first shop are the only ones that the row scope
lets through; sales have none.
-/

namespace TableGraph.Sample.Sales

/-- The table `clerk`. -/
def clerkEntity : Entity where
  name := "clerk"
  columns := [column "id" (.plain (.integer .regular)), column "shop" (.plain (.integer .regular))]
  primaryKey := ["id"]
  relations := []
  distinct := by decide
  keyArity := keyArity_single "id"
  keyKnown := by decide

/-- The clerk of a sale. -/
def clerk : Relation where
  toRelationShape := link .belongsTo "clerk" "clerk" ["clerk_id"] ["id"] false none
  nonempty := by decide
  paired := rfl
  joined := by decide

/-- The table `sale`. -/
def saleEntity : Entity where
  name := "sale"
  columns := [column "id" (.plain (.integer .regular)),
    column "clerk_id" (.plain (.integer .regular))]
  primaryKey := ["id"]
  relations := [clerk]
  distinct := by decide
  keyArity := keyArity_single "id"
  keyKnown := by decide

/-- The clerks of the first shop. -/
def ofFirstShop : Predicate Value := .test "shop" (.compare .eq (.int 1))

/-- Only clerks of the first shop are seen. -/
def context : Context where
  scopes := [("Clerk", fun _ _ _ => .ok (.rows (some ofFirstShop)))]

/-- Both tables are registered. -/
def builder : Builder := { Builder.empty context with entities := [saleEntity, clerkEntity] }

/-- Clerks of two shops. -/
def clerks : Table :=
  { Table.ofEntity [] clerkEntity with
    rows := [[("id", .int 1), ("shop", .int 1)], [("id", .int 2), ("shop", .int 2)]] }

/-- A sale by a clerk, of the same number. -/
def sales (n : Int) : Table :=
  { Table.ofEntity [] saleEntity with rows := [[("id", .int n), ("clerk_id", .int n)]] }

/-- The store with both clerks and a sale by one of them. -/
def store (n : Int) : Store := ⟨[sales n, clerks], true, false, [], fun _ => true⟩

end TableGraph.Sample.Sales

/-!
## Stores

Tables as databases declare them: stores with their staff, nodes that refer to each other, and
people with the cities they come from.
-/

namespace TableGraph.Sample.Stores

/-- A column of whole numbers. -/
def number (name : String) (primaryKey : Bool) : DeclaredColumn :=
  ⟨name, .named "Integer" none false false, primaryKey, !primaryKey, false, false, .automatic⟩

/-- A foreign key of one column to one of a table. -/
def pointer (column table target : String) : ForeignKey :=
  { columns := [column], table, targets := [target] }

/-- The table of stores. -/
def store : DeclaredTable :=
  { name := "store", columns := [number "store_id" true], foreignKeys := [] }

/-- The table of staff, each of whom works in the store in this column. -/
def staff (column : String) : DeclaredTable :=
  { name := "staff", columns := [number "staff_id" true, number column false]
    foreignKeys := [pointer column "store" "store_id"] }

/-- Stores and their staff. -/
def stores (column : String) : List DeclaredTable := [staff column, store]

/-- Nodes that each refer to another one. -/
def nodes : List DeclaredTable :=
  [{ name := "node", columns := [number "id" true, number "self_ref" false]
     foreignKeys := [pointer "self_ref" "node" "id"] }]

/-- A table of places. -/
def place (name : String) : DeclaredTable :=
  { name, columns := [number "id" true], foreignKeys := [] }

/-- People with the home of a city as their base, the city of their birth and their home city. -/
def people : List DeclaredTable :=
  [place "city", place "city_home",
    { name := "person"
      columns := [number "id" true, number "base" false, number "birth" false, number "home" false]
      foreignKeys := [pointer "base" "city_home" "id", pointer "birth" "city" "id",
        pointer "home" "city" "id"] }]

end TableGraph.Sample.Stores
