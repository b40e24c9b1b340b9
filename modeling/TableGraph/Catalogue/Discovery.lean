import TableGraph.Catalogue.Table
import TableGraph.Schema.Entity

/-!
# Discovery

The schema of a database.  Every table with a key of one to three columns becomes an entity of its
name, whatever part of the database it is in: of several tables of one name the last is kept.  Every
foreign key becomes a relation to the entity it refers to and one back, named after the entity each
leads to, or after entity and columns where that name is taken.

A database keeps columns, keys and the defaults it fills in itself of the tables that were created
in it.  It does not keep who numbers the rows, what a writer fills in, the choice of a text or the
zone of a moment; identifiers are stored as texts and spans of time as moments.
-/

namespace TableGraph.Discovery

/-- What of a database is looked at. -/
structure Selection where
  /-- The names of the tables, if not all. -/
  only : Option (List String) := none
  /-- Columns clients do not see, as `table.column`. -/
  ignored : List String := []

/-- The table is looked at. -/
def Selection.holds (s : Selection) (t : DeclaredTable) : Bool :=
  match s.only with
  | some names => names.contains t.name
  | none => true

/-! ## Columns and enumerations -/

/-- The database numbers the rows of the table by this column. -/
def isNumbered (t : DeclaredTable) (c : DeclaredColumn) (type : ColumnType) : Bool :=
  c.primaryKey &&
    match c.numbering with
    | .always => true
    | .never => false
    | .automatic => t.primaryKey.length = 1 && !t.isReference c.name && type.isInteger

/-- The column of an entity for a declared one. -/
def column (s : Selection) (t : DeclaredTable) (c : DeclaredColumn) : Except Fault Column := do
  let type ← c.type.columnType (some (t.name ++ "_" ++ c.name))
  pure
    { name := c.name, type
      nullable := c.nullable && !c.primaryKey
      ignored := s.ignored.contains (t.name ++ "." ++ c.name)
      autoIncrement := isNumbered t c type
      hasDefault := c.writerDefault || c.databaseDefault }

/-- The enumerations with the one a column brings, unless one of its name is known. -/
def withEnumeration (known : List Enumeration) (type : ColumnType) (declared : DeclaredType) :
    Except Fault (List Enumeration) :=
  match type with
  | .enumeration name =>
    if known.any fun e => e.name = name then .ok known
    else do
      let e ← Enumeration.make name declared.values
      pure (known ++ [e])
  | _ => .ok known

/-- The columns of a table, and the enumerations with those it brings. -/
def columns (s : Selection) (t : DeclaredTable) (known : List Enumeration) :
    List DeclaredColumn → Except Fault (List Column × List Enumeration)
  | [] => .ok ([], known)
  | d :: ds => do
    let c ← column s t d
    let known ← withEnumeration known c.type d.type
    let (cs, known) ← columns s t known ds
    pure (c :: cs, known)

/-! ## Entities -/

/-- An entity with the names its relations have taken. -/
structure Draft where
  entity : Entity
  taken : List String

/-- Items with one more, which takes the place of one of the same name. -/
def putByName {α : Type} (nameOf : α → String) (xs : List α) (x : α) : List α :=
  if xs.any fun y => nameOf y = nameOf x then
    xs.map fun y => if nameOf y = nameOf x then x else y
  else xs ++ [x]

/-- The entities and enumerations found so far with those of a table. -/
def withTable (s : Selection) (found : List Draft × List Enumeration) (t : DeclaredTable) :
    Except Fault (List Draft × List Enumeration) :=
  if !s.holds t then .ok found
  else do
    let (cs, known) ← columns s t found.2 t.columns
    let key := t.primaryKey
    if 1 ≤ key.length && key.length ≤ 3 then
      let e ← Entity.make ⟨t.name, cs, key, []⟩
      pure (putByName (·.entity.name) found.1 ⟨e, []⟩, known)
    else pure (found.1, known)

/-- The entities and enumerations of tables, without relations. -/
def entities (s : Selection) (tables : List DeclaredTable) :
    Except Fault (List Draft × List Enumeration) :=
  tables.foldlM (withTable s) ([], [])

/-! ## Relations -/

/-- The name a relation is known by if its name is taken already. -/
def freeName (taken : List String) (name : String) (columns : List String) : String :=
  if taken.contains name then name ++ "_" ++ "_".intercalate columns else name

/-- The draft of an entity with a relation added under a free name. -/
def Draft.relate (d : Draft) (columns : List String) (r : RelationShape) : Except Fault Draft := do
  let name := freeName d.taken r.name columns
  let r ← Relation.make { r with name }
  pure ⟨d.entity.addRelation r, name :: d.taken⟩

/-- The drafts with a relation added to the one of a name. -/
def relate (ds : List Draft) (name : String) (columns : List String) (r : RelationShape) :
    Except Fault (List Draft) :=
  ds.mapM fun d => if d.entity.name = name then d.relate columns r else .ok d

/-- The relation along a foreign key, by its own name or that of the entity it leads to. -/
def forward (name : String) (optional : Bool) (k : ForeignKey) : RelationShape :=
  ⟨name, .belongsTo, k.table, k.columns, k.targets, optional, none, none⟩

/-- The relation against a foreign key. -/
def backward (source : Entity) (k : ForeignKey) : RelationShape :=
  let isKey := k.columns.all source.primaryKey.contains && source.primaryKey.all k.columns.contains
  ⟨source.name, if isKey then .hasOne else .hasMany, source.name, k.targets, k.columns, true, none,
    none⟩

/-- Some column of an entity takes null; columns are looked up until one does. -/
def takesNull (source : Entity) : List String → Except Fault Bool
  | [] => .ok false
  | name :: names => do
    let c ← source.column name
    if c.nullable then .ok true else takesNull source names

/-- A relation of an entity to itself is known by this name. -/
def selfName : String := "self_ref"

/-- The drafts with the relations a foreign key of an entity gives rise to. -/
def withKey (source : Entity) (ds : List Draft) (k : ForeignKey) : Except Fault (List Draft) :=
  if !ds.any fun d => d.entity.name = k.table then .ok ds
  else do
    let optional ← takesNull source k.columns
    if k.table = source.name then
      relate ds source.name k.columns (forward selfName true k)
    else do
      let ds ← relate ds source.name k.columns (forward k.table optional k)
      relate ds k.table k.columns (backward source k)

/-- The drafts with the relations of a table, which are those of the entity of its name. -/
def withKeys (ds : List Draft) (t : DeclaredTable) : Except Fault (List Draft) :=
  match ds.find? fun d => d.entity.name = t.name with
  | some d => t.sortedKeys.foldlM (withKey d.entity) ds
  | none => .ok ds

/-- The schema of the tables of a database. -/
def discover (tables : List DeclaredTable) (s : Selection) : Except Fault Schema :=
  if DeclaredTable.hasDangling tables then .error .danglingReference
  else do
    let sorted := DeclaredTable.sorted tables
    let (ds, enumerations) ← entities s sorted
    let ds ← sorted.foldlM withKeys ds
    pure ⟨ds.map (·.entity), enumerations⟩

end TableGraph.Discovery

namespace TableGraph

/-! ## What a database tells of its tables -/

/-- The type a database keeps of a declared one. -/
def DeclaredType.stored : DeclaredType → DeclaredType
  | choice _ _ => named "VARCHAR" none false false
  | named "Uuid" _ _ _ => named "CHAR" (some 32) false false
  | named "Interval" _ _ _ => named "DATETIME" none false false
  | named name length unsigned _ => named name length unsigned false
  | list item => list item

/-- The column a database keeps of a declared one. -/
def DeclaredColumn.stored (c : DeclaredColumn) : DeclaredColumn :=
  { c with type := c.type.stored, writerDefault := false, numbering := .automatic }

/-- The table a database keeps of a declared one. -/
def DeclaredTable.stored (t : DeclaredTable) : DeclaredTable :=
  { t with columns := t.columns.map (·.stored) }

namespace Discovery

/-- The schema of the tables created in a database, of all of them or of those that are asked for;
these must be there. -/
def reflect (tables : List DeclaredTable) (only : Option (List String)) : Except Fault Schema :=
  let isMissing (name : String) : Bool := !(DeclaredTable.names tables).contains name
  if (only.getD []).any isMissing then .error .unknownTable
  else discover (tables.map (·.stored)) ⟨only, []⟩

end Discovery

end TableGraph
