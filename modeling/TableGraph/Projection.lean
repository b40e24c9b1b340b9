import TableGraph.Context
import TableGraph.Filter.Family
import TableGraph.Schema.Entity
import TableGraph.Text.Quoted

/-!
# Projections of entities

What an entity looks like to the query language: the names of its types, a field for every visible
column and every relation, and how each column is filtered and ordered by.
-/

namespace TableGraph

/-- The field of a visible column. -/
structure ColumnField where
  column : Column
  name : String
  /-- The type and the field with a point between them. -/
  path : String
  override : Option ColumnOverride
  filter : Option ColumnFilter

/-- The field of a relation. -/
structure RelationField where
  relation : Relation
  name : String
  path : String

/-- An entity as the query language shows it. -/
structure Projection where
  entity : Entity
  typeName : String
  /-- The field of the root that lists the entity. -/
  queryField : String
  fields : List ColumnField
  relations : List RelationField

namespace ColumnField

/-- Rows can be ordered by the field. -/
def isOrderable (f : ColumnField) : Bool := f.column.type.isOrderable

end ColumnField

namespace RelationField

/-- The relation may find several rows. -/
def isToMany (r : RelationField) : Bool := r.relation.kind.isToMany

end RelationField

namespace Projection

/-- The name of the entity. -/
def name (p : Projection) : String := p.entity.name

/-- The type of rows that mutations return. -/
def basicTypeName (p : Projection) : String := p.typeName ++ "Basic"

/-- The type of pages. -/
def connectionTypeName (p : Projection) : String := p.typeName ++ "Connection"

/-- The type of rows with their cursors. -/
def edgeTypeName (p : Projection) : String := p.typeName ++ "Edge"

/-- The input type of filters. -/
def filterTypeName (p : Projection) : String := p.typeName ++ "FilterInput"

/-- The input type of orders. -/
def orderTypeName (p : Projection) : String := p.typeName ++ "OrderInput"

/-- The input type of new rows. -/
def insertTypeName (p : Projection) : String := p.typeName ++ "InsertInput"

/-- The input type of changes. -/
def updateTypeName (p : Projection) : String := p.typeName ++ "UpdateInput"

/-- The fields that can be filtered by. -/
def filterFields (p : Projection) : List ColumnField := p.fields.filter (·.filter.isSome)

/-- The fields that can be ordered by. -/
def orderFields (p : Projection) : List ColumnField := p.fields.filter (·.isOrderable)

/-- The field of a name, or the fault of looking it up in vain. -/
def field (p : Projection) (name : String) : Except Fault ColumnField :=
  match p.fields.find? fun f => f.name = name with
  | some f => .ok f
  | none => .error (.absent s!"{p.typeName}.{name}")

/-- The field of a column, if the column is visible. -/
def fieldForColumn? (p : Projection) (column : String) : Option ColumnField :=
  p.fields.find? fun f => f.column.name = column

/-- The columns of the primary key, in its order. -/
def keyColumns (p : Projection) : List Column := p.entity.keyColumns

/-- The paths of the key columns; a hidden one goes by its name. -/
def keyPaths (p : Projection) : List String :=
  p.keyColumns.map fun c =>
    match p.fieldForColumn? c.name with
    | some f => f.path
    | none => s!"{p.typeName}.{c.name}"

/-- How a column is filtered by: as configured, else as its type says. -/
def columnFilter (context : Context) (column : Column) (path : String) :
    Except Fault (Option ColumnFilter) :=
  match context.filterOverrides.lookup path with
  | some forced =>
    match forced.filter (!·.isEmpty) with
    | none => .ok none
    | some family => do
      let f ← FilterFamily.ofName family
      .ok (some (.family f))
  | none =>
    match column.type with
    | .enumeration name => .ok (some (.enumeration name (context.enumTypeName name)))
    | type => .ok ((FilterFamily.ofColumnType? type).map .family)

/-- The field of a column of a type. -/
def columnField (context : Context) (typeName : String) (column : Column) :
    Except Fault ColumnField := do
  let name := context.fieldName column.name
  let path := typeName ++ "." ++ name
  let filter ← columnFilter context column path
  .ok ⟨column, name, path, context.columnOverrides.lookup path, filter⟩

/-- The field of a relation of a type. -/
def relationField (context : Context) (typeName : String) (relation : Relation) : RelationField :=
  let name := context.fieldName relation.name
  ⟨relation, name, typeName ++ "." ++ name⟩

/-- The names that occur more than once, sorted. -/
def repeated (names : List String) : List String :=
  ((names.filter fun n => 1 < names.count n).eraseDups).mergeSort fun a b => decide (a ≤ b)

/-- The projection of an entity; its fields must have different names. -/
def make (context : Context) (entity : Entity) : Except Fault Projection := do
  let typeName := context.typeName entity.name
  let fields ← entity.visibleColumns.mapM (columnField context typeName)
  let relations := entity.allRelations.map (relationField context typeName)
  match repeated (fields.map (·.name) ++ relations.map (·.name)) with
  | [] => .ok ⟨entity, typeName, context.fieldName typeName, fields, relations⟩
  | clashes =>
    .error (.config (s!"Entity '{entity.name}' has clashing field names: " ++
      "[" ++ ", ".intercalate (clashes.map Text.quoted) ++ "]"))

end Projection

end TableGraph
