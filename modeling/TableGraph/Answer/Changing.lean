import TableGraph.Answer.Reading
import TableGraph.Mutation

/-!
# Answers to mutations

The fields of the root of mutations run one after another, and the first that fails ends them.  For
each, the guard of the entity is asked first and then that of every field the client supplies.  The
watch is told of a change after the transaction is committed; what is committed is kept whatever
happens later.
-/

namespace TableGraph.Answer

open TableGraph.Graph

/-- The fields of an input object. -/
def fieldsOfInput : Value → List (String × Value)
  | .object fields => fields
  | _ => []

/-- The input objects of a list. -/
def inputsOf : Value → List (List (String × Value))
  | .list items => items.map fieldsOfInput
  | v => [fieldsOfInput v]

/-- Asks the guard of an entity, and that of every supplied field once. -/
def checkInputs (env : Environment) (p : Projection) (o : Operation)
    (inputs : List (List (String × Value))) : Except Fault Unit := do
  env.checkEntity p.typeName o
  let names := (inputs.flatMap fun fields => fields.map (·.1)).eraseDups
  names.forM fun name => do
    let f ← p.field name
    env.checkField f.path o

/-- Rows as a list. -/
def rowItems (rows : List Record) : Item := .list (rows.map .row)

/--
Tells the watch, if there is one, of a mutation.  The rows are stored by then, so a watch that fails
is passed over.
-/
def notify (env : Environment) (typeName : String) (o : Operation) : Session Unit := do
  match env.schema.context.watch with
  | none => pure ()
  | some watch =>
    let s := (← get).stored
    match watch env.call s typeName o with
    | .ok () | .error _ => Session.record (.told env.call s typeName o)

/-- Runs the mutation of a field of the root. -/
def change (env : Environment) (f : OutputField) (a : Arguments) : Session Item :=
  let codec := env.schema.codec
  match f.source with
  | .createOne p => do
    checkInputs env p .create [fieldsOfInput (a.get "data")]
    let row ← Mutation.createOne codec p (fieldsOfInput (a.get "data"))
    notify env p.typeName .create
    pure (.row row)
  | .createBatch p => do
    checkInputs env p .create (inputsOf (a.get "data"))
    let rows ← Mutation.createBatch codec p (inputsOf (a.get "data"))
    notify env p.typeName .create
    pure (rowItems rows)
  | .update p => do
    checkInputs env p .update [fieldsOfInput (a.get "data")]
    let scope ← env.scope p .update
    let rows ← Mutation.update codec p (fieldsOfInput (a.get "data")) (a.get "filter") scope
    notify env p.typeName .update
    pure (rowItems rows)
  | .delete p => do
    checkInputs env p .delete []
    let scope ← env.scope p .delete
    let n ← Mutation.delete codec p (a.get "filter") scope
    notify env p.typeName .delete
    pure (.value (.int n))
  | _ => itemOf env mutationName f .null

/-- The mutation of one field of the root, and its answer. -/
def changeRoot (env : Environment) (p : Planned) (db : Database) : Report Value × Database :=
  match p.arguments with
  | .error f => (.failed f (rootPath p), db)
  | .ok values =>
    let entered := env.enter mutationName p.field.name (rootPath p)
    match (change entered p.field ⟨values, p.written⟩).outcome db with
    | (.error f, db) => (.failed f (rootPath p), db)
    | (.ok item, db) =>
      let (report, _, n) := showRoot env db.stored p (pure item) [] db.statements
      (report, { db with statements := n })

/-- The mutations of the fields of the root, up to the first that fails. -/
def changeRoots (env : Environment) :
    List Planned → Database → Report (List (String × Value)) × Database
  | [], db => (.ofValue [], db)
  | p :: ps, db =>
    let (report, db) := changeRoot env p db
    match report.result with
    | .error e => (⟨.error e, report.noted⟩, db)
    | .ok v =>
      let (rest, db) := changeRoots env ps db
      (report.bind fun _ => rest.bind fun fs => .ofValue ((p.key, v) :: fs), db)

end TableGraph.Answer
