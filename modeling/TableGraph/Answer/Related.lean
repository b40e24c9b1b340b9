import TableGraph.Answer.Fetch
import TableGraph.Builder
import TableGraph.Filter.Basic
import TableGraph.Page.Window

/-!
# Related rows

What has to be loaded for the field of a relation, and what becomes of the rows.  Guards are asked
first, then the row scope; a relation to several rows takes a page, an order and a filter from the
client.  Nothing is loaded for a key with null.
-/

namespace TableGraph.Answer

/-- A schema and the field that is being answered. -/
structure Environment where
  schema : SealedSchema
  call : FieldCall

/-- The arguments of a field, and the keys of its order as the client wrote them. -/
structure Arguments where
  values : List (String × Value)
  written : Option (List String)

namespace Arguments

/-- The value of an argument, null if it is left out. -/
def get (a : Arguments) (name : String) : Value := (a.values.lookup name).getD .null

end Arguments

namespace Environment

/-- The same request, answering a field. -/
def enter (env : Environment) (typeName field : String) (path : Path) : Environment :=
  { env with call := { env.call with typeName, field, path } }

/-- Asks the guard of an entity. -/
def checkEntity (env : Environment) (typeName : String) (o : Operation) : Except Fault Unit :=
  Guard.check env.schema.context.entityGuards typeName env.call o entityGuardPhrase

/-- Asks the guard of a field. -/
def checkField (env : Environment) (path : String) (o : Operation) : Except Fault Unit :=
  Guard.check env.schema.context.fieldGuards path env.call o fieldGuardPhrase

/-- The condition of the row scope of an entity. -/
def scope (env : Environment) (p : Projection) (o : Operation) :
    Except Fault (Option (Predicate Value)) :=
  Scope.condition env.schema.context.scopes p.typeName p.entity env.call o

end Environment

/-- The filter of a relation, null if it asks for nothing. -/
def filterOf (a : Arguments) : Value :=
  let v := a.get "filters"
  if v.isTruthy then v else .null

/-- The condition on related rows, if there is any. -/
def relatedCondition (codec : Codec) (target : Projection) (filter : Value)
    (scope : Option (Predicate Value)) : Except Fault (Option (Predicate Value)) :=
  match filter with
  | .null => .ok scope
  | filter => do
    let c ← Filter.compile codec target filter
    .ok (some (c.andAlso scope))

/-- The load of the rows related to a row. -/
def relatedLoad (codec : Codec) (r : RelationField) (target : Projection) (row : Record)
    (filter : Value) (orders : List Order) (scope : Option (Predicate Value)) :
    Except Fault Load := do
  let condition ← relatedCondition codec target filter scope
  let group : Group :=
    { target := target.name
      columns := r.relation.toColumns
      junction := r.relation.junction
      filters := filter.freeze
      scope := Scope.fingerprint target.name scope
      orders
      condition }
  .ok ⟨r.isToMany, ⟨r.relation.fromColumns.map row.get, group⟩⟩

/-- What to load for the field of a relation, and the page of the rows if there may be several. -/
structure Related where
  load : Load
  target : Projection
  request : PageRequest

/-- What to load for the field of a relation. -/
def related (env : Environment) (r : RelationField) (target : Projection) (row : Record)
    (a : Arguments) : Except Fault Related := do
  env.checkEntity target.typeName .read
  env.checkField r.path .read
  let scope ← env.scope target .read
  if r.isToMany then do
    let request ← PageRequest.ofValue env.schema.context (a.get "pagination")
    let orders ← Order.ofValue target (a.get "orderBy") a.written
    let orders := if request.isCursor then Order.withKey orders target.entity.primaryKey else orders
    let load ← relatedLoad env.schema.codec r target row (filterOf a) orders scope
    .ok ⟨load, target, request⟩
  else do
    let load ← relatedLoad env.schema.codec r target row .null [] scope
    .ok ⟨load, target, .all⟩

end TableGraph.Answer
