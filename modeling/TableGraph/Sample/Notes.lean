import TableGraph.Answer.Related
import TableGraph.Sample.Basic

/-!
# Notes

A table of notes with owners and prices.  The notes of the first owner are the only ones that the
row scope lets through.
-/

namespace TableGraph.Sample.Notes

/-- The table `note`. -/
def entity : Entity where
  name := "note"
  columns := [column "id" (.plain (.integer .regular)), column "owner" (.plain (.integer .regular)),
    column "price" (.plain .decimal)]
  primaryKey := ["id"]
  relations := []
  distinct := by decide
  keyArity := keyArity_single "id"
  keyKnown := by decide

/-- The field of a column. -/
def field (c : Column) : ColumnField := ⟨c, c.name, "Note." ++ c.name, none, none⟩

/-- The projection of the table. -/
def projection : Projection := ⟨entity, "Note", "note", entity.columns.map field, []⟩

/-- The notes of the first owner. -/
def ofFirstOwner : Predicate Value := .test "owner" (.compare .eq (.int 1))

/-- Only notes of the first owner are seen and changed. -/
def scope : Scope := fun _ _ _ => .ok (.rows (some ofFirstOwner))

/-- Clients see notes of the first owner only, and filter by no column. -/
def context : Context where
  filterOverrides := [("Note.id", none), ("Note.owner", none), ("Note.price", none)]
  scopes := [("Note", scope)]

/-- The schema with its row scope. -/
def schema : SealedSchema where
  context := context
  projections := [projection]
  codec := ⟨[], false⟩
  types := ⟨[], [], none⟩

/-- A request that carries nothing beside its document. -/
def environment : Answer.Environment := ⟨schema, {}⟩

/-- A note. -/
def note (id owner : Int) (price : Cell) : Row :=
  [("id", .int id), ("owner", .int owner), ("price", price)]

/-- The table with some notes. -/
def table (notes : List Row) : Table := { Table.ofEntity [] entity with rows := notes }

/-- The store with some notes. -/
def store (notes : List Row) : Store := ⟨[table notes], true, false, [], fun _ => true⟩

end TableGraph.Sample.Notes
