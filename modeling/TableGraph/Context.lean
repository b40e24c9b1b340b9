import TableGraph.Guard
import TableGraph.Store.Basic
import TableGraph.Text.Words

/-!
# Configuration of a schema

How names are cased, how many rows a page may have, which columns are treated specially, and who may
do what.  Overrides, guards and scopes are keyed by names of the query language: a type name for
entities, `Type.field` for columns and relations.
-/

namespace TableGraph

/-- A column treated differently from others of its type. -/
structure ColumnOverride where
  /-- The type of the query language that stands for the column. -/
  typeName : Option String
  /-- From what a client sends to what the column holds. -/
  input : Option (Value → Except Fault Value)
  /-- From what the column holds to what a client is shown. -/
  output : Option (Value → Except Fault Value)

/--
Told of every mutation after it is committed, by the name of the type and the operation.  It finds
the rows stored, and what it answers changes nothing.
-/
abbrev Watch := FieldCall → Store → String → Operation → Except Fault Unit

/-- The configuration of a schema. -/
structure Context where
  typeCase : Text.Casing := .pascal
  fieldCase : Text.Casing := .camel
  variantCase : Text.Casing := .upper
  defaultLimit : Option Int := none
  maxLimit : Option Int := none
  rfc3339 : Bool := false
  depthLimit : Option Int := none
  complexityLimit : Option Int := none
  columnOverrides : List (String × ColumnOverride) := []
  /-- Families by path; no family means that the column cannot be filtered by. -/
  filterOverrides : List (String × Option String) := []
  entityGuards : List (String × Guard) := []
  fieldGuards : List (String × Guard) := []
  scopes : List (String × Scope) := []
  watch : Option Watch := none

namespace Context

/-- The name of the type for an entity. -/
def typeName (c : Context) (name : String) : String := c.typeCase.apply name

/-- The name of the field for a column, a relation or a type. -/
def fieldName (c : Context) (name : String) : String := c.fieldCase.apply name

/-- The name of the type for an enumeration. -/
def enumTypeName (c : Context) (name : String) : String := c.typeCase.apply name ++ "Enum"

end Context

end TableGraph
