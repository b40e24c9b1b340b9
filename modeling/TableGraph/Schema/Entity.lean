import TableGraph.Fault
import TableGraph.Schema.ColumnType

/-!
# Entities and relations

A relation leads from rows of one entity to rows of another by matching columns, directly or through
a junction table.  The type keeps what every relation has: as many columns on one side as on the
other, at least one, and a junction where it is many-to-many.

An entity is a table with its columns, its primary key and its relations; an enumeration is a named
list of values; a schema holds both.  Column names are distinct, the key has one to three columns of
the table, and the values of an enumeration are distinct and not none.
-/

namespace TableGraph

/-! ## Relations -/

/-- Which way a relation leads and how many rows it finds. -/
inductive RelationKind
  | hasOne
  | hasMany
  | belongsTo
  | manyToMany
  deriving DecidableEq, Repr

namespace RelationKind

/-- The name of a kind. -/
def name : RelationKind → String
  | hasOne => "has_one"
  | hasMany => "has_many"
  | belongsTo => "belongs_to"
  | manyToMany => "many_to_many"

/-- The kind a name stands for. -/
def ofName? : String → Option RelationKind
  | "has_one" => some hasOne
  | "has_many" => some hasMany
  | "belongs_to" => some belongsTo
  | "many_to_many" => some manyToMany
  | _ => none

/-- The relation may find several rows. -/
def isToMany : RelationKind → Bool
  | hasMany | manyToMany => true
  | _ => false

end RelationKind

/-- The table between the two sides of a many-to-many relation. -/
structure Junction where
  table : String
  /-- Columns that match the source. -/
  fromColumns : List String
  /-- Columns that match the target. -/
  toColumns : List String
  deriving DecidableEq, Repr

/-- Where a relation leads, from which columns to which. -/
structure RelationShape where
  name : String
  kind : RelationKind
  target : String
  fromColumns : List String
  toColumns : List String
  optional : Bool
  junction : Option Junction
  /-- The relation this one walks backwards, for generated companions. -/
  reverseOf : Option String
  deriving DecidableEq, Repr

/-- A relation whose sides fit each other. -/
structure Relation extends RelationShape where
  nonempty : fromColumns ≠ []
  paired : fromColumns.length = toColumns.length
  joined : kind = .manyToMany → junction ≠ none

namespace Relation

/-- A relation of a shape, if its sides fit each other. -/
def make (s : RelationShape) : Except Fault Relation :=
  if h₀ : s.fromColumns = [] ∨ s.toColumns = [] then
    .error (.config s!"Relation '{s.name}' needs at least one column on each side")
  else if h₁ : s.fromColumns.length = s.toColumns.length then
    if h₂ : s.kind = .manyToMany → s.junction ≠ none then
      .ok { s with nonempty := fun h => h₀ (.inl h), paired := h₁, joined := h₂ }
    else .error (.config s!"Many-to-many relation '{s.name}' requires a junction")
  else
    .error (.config (s!"Relation '{s.name}' has {s.fromColumns.length} source columns " ++
      s!"but {s.toColumns.length} target columns"))

/-- The relation that leads from the rows found back to the rows they belong to. -/
def companion (r : Relation) : Relation where
  name := r.name ++ "_reverse"
  kind := .hasMany
  target := r.target
  fromColumns := r.toColumns
  toColumns := r.fromColumns
  optional := true
  junction := none
  reverseOf := some r.name
  nonempty := by
    intro h
    have := r.paired
    rw [h] at this
    exact r.nonempty (List.length_eq_zero_iff.1 this)
  paired := r.paired.symm
  joined := by simp

end Relation

/-! ## Entities -/

/-- A column of a table. -/
structure Column where
  name : String
  type : ColumnType
  nullable : Bool
  /-- Clients do not see the column. -/
  ignored : Bool
  autoIncrement : Bool
  hasDefault : Bool
  deriving DecidableEq, Repr

/-- What an entity consists of. -/
structure EntityShape where
  name : String
  columns : List Column
  primaryKey : List String
  relations : List Relation

/-- An entity whose key and columns fit each other. -/
structure Entity extends EntityShape where
  distinct : (columns.map (·.name)).Nodup
  keyArity : 1 ≤ primaryKey.length ∧ primaryKey.length ≤ 3
  keyKnown : ∀ k ∈ primaryKey, k ∈ columns.map (·.name)

namespace Entity

/-- An entity of a shape, if key and columns fit each other. -/
def make (s : EntityShape) : Except Fault Entity :=
  if h₀ : (s.columns.map (·.name)).Nodup then
    if h₁ : 1 ≤ s.primaryKey.length ∧ s.primaryKey.length ≤ 3 then
      if h₂ : ∀ k ∈ s.primaryKey, k ∈ s.columns.map (·.name) then
        .ok { s with distinct := h₀, keyArity := h₁, keyKnown := h₂ }
      else
        let unknown := s.primaryKey.filter fun k => !(s.columns.map (·.name)).contains k
        .error (.config (s!"Entity '{s.name}' primary key refers to unknown column '" ++
          unknown.headD "" ++ "'"))
    else
      .error (.config (s!"Entity '{s.name}' primary key must have 1 to 3 columns, " ++
        s!"got {s.primaryKey.length}"))
  else .error (.config s!"Entity '{s.name}' has duplicate column names")

/-- The column of a name. -/
def column? (e : Entity) (name : String) : Option Column :=
  e.columns.find? fun c => c.name = name

/-- The column of a name, or the fault of looking it up in vain. -/
def column (e : Entity) (name : String) : Except Fault Column :=
  match e.column? name with
  | some c => .ok c
  | none => .error (.absent s!"{e.name}.{name}")

/-- The entity has a column of this name. -/
def hasColumn (e : Entity) (name : String) : Bool := e.columns.any fun c => c.name = name

/-- The column belongs to the primary key. -/
def isKey (e : Entity) (name : String) : Bool := e.primaryKey.contains name

/-- The columns clients see. -/
def visibleColumns (e : Entity) : List Column := e.columns.filter (!·.ignored)

/-- The columns of the primary key, in its order. -/
def keyColumns (e : Entity) : List Column := e.primaryKey.filterMap e.column?

/-- A relation of an entity to itself that has a companion walking it backwards. -/
def hasCompanion (e : Entity) (r : Relation) : Bool :=
  r.target = e.name && r.kind = .belongsTo

/-- The relations, then the companions of those that lead back to the entity itself. -/
def allRelations (e : Entity) : List Relation :=
  e.relations ++ (e.relations.filter e.hasCompanion).map Relation.companion

/-- The entity with one more relation. -/
def addRelation (e : Entity) (r : Relation) : Entity :=
  { e with relations := e.relations ++ [r] }

end Entity

/-- A named list of values. -/
structure Enumeration where
  name : String
  values : List String
  nonempty : values ≠ []
  distinct : values.Nodup

namespace Enumeration

/-- An enumeration, if its values are distinct and not none. -/
def make (name : String) (values : List String) : Except Fault Enumeration :=
  if h₀ : values = [] then .error (.config s!"Enumeration '{name}' has no values")
  else if h₁ : values.Nodup then .ok ⟨name, values, h₀, h₁⟩
  else .error (.config s!"Enumeration '{name}' has duplicate values")

end Enumeration

/-- Entities and enumerations. -/
structure Schema where
  entities : List Entity
  enumerations : List Enumeration

namespace Schema

/-- The first entity of a name, or the fault of looking it up in vain. -/
def entity (s : Schema) (name : String) : Except Fault Entity :=
  match s.entities.find? fun e => e.name = name with
  | some e => .ok e
  | none => .error (.absent name)

end Schema

end TableGraph
