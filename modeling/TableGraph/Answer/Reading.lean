import TableGraph.Answer.Complete
import TableGraph.Query.Page

/-!
# Answers to queries

The fields of the root of queries read pages of entities and rows by key.  Each is prepared first:
guards, the page, the order, the row scope and the filter, in this order, without touching the
store.  Then they are read one after another, and share what is loaded for relations.
-/

namespace TableGraph.Answer

open TableGraph.Graph

/-- What a field of the root reads. -/
inductive Reading
  | page (p : Projection) (condition : Predicate Value) (orders : List Order)
      (request : PageRequest)
  | row (p : Projection) (key : Record) (scope : Option (Predicate Value))
  | known (item : Item)

namespace Reading

/-- The page of an entity a client asks for. -/
def ofPage (env : Environment) (p : Projection) (a : Arguments) : Except Fault Reading := do
  env.checkEntity p.typeName .read
  let request ← PageRequest.ofValue env.schema.context (a.get "pagination")
  let orders ← Order.ofValue p (a.get "orderBy") a.written
  let scope ← env.scope p .read
  let condition ← Filter.compile env.schema.codec p (a.get "filters")
  .ok (.page p (condition.andAlso scope) orders request)

/-- The row of a key a client asks for. -/
def ofKey (env : Environment) (p : Projection) (a : Arguments) : Except Fault Reading := do
  env.checkEntity p.typeName .read
  let key ← a.values.mapM fun (name, v) => do
    let f ← p.field name
    let v ← env.schema.codec.parse f.path f.column.type v
    .ok (f.column.name, v)
  let scope ← env.scope p .read
  .ok (.row p key scope)

/-- What a field of the root asks for. -/
def ofField (env : Environment) (f : OutputField) (a : Arguments) : Except Fault Reading :=
  match f.source with
  | .connection p => ofPage env p a
  | .byKey p => ofKey env p a
  | _ => .known <$> itemOf env queryName f .null

/-- What is found in the store. -/
def run (codec : Codec) (s : Store) : Reading → Counted Item
  | page p condition orders request =>
    .connection <$> Query.connection codec s p condition orders request
  | row p key scope => .ofRow? <$> Query.byKey s p key scope
  | known item => pure item

end Reading

/-- A field of the root with what it reads; nothing if it has settled for null. -/
structure Prepared where
  planned : Planned
  reading : Option Reading

/-- The place of a field of the root. -/
def rootPath (p : Planned) : Path := [.key p.key]

/-- The field may be null. -/
def mayBeNull (p : Planned) : Bool := !p.field.type.isNonNull

/-- The arguments of the fields, up to the first that cannot do without. -/
def rootArguments : List Planned → Report (List (Planned × Option Arguments))
  | [] => .ofValue []
  | p :: ps =>
    let arguments := (Report.ofExcept (rootPath p) p.arguments).bind fun values =>
      .ofValue (some ⟨values, p.written⟩)
    (arguments.settle (mayBeNull p) none).bind fun a =>
      (rootArguments ps).bind fun rest => .ofValue ((p, a) :: rest)

/-- A field of the root with what it reads. -/
def prepare (env : Environment) (p : Planned) (a : Option Arguments) : Report Prepared :=
  match a with
  | none => .ofValue ⟨p, none⟩
  | some a =>
    let env := env.enter queryName p.field.name (rootPath p)
    ((Report.ofExcept (rootPath p) (Reading.ofField env p.field a)).bind fun r =>
      .ofValue ⟨p, some r⟩).settle (mayBeNull p) ⟨p, none⟩

/-- What a field of the root reads, as the client is shown it. -/
def showRoot (env : Environment) (s : Store) (p : Planned) (found : Counted Item) (l : Loaded)
    (n : Nat) : Report Value × Loaded × Nat :=
  let (report, l, n) : Report Value × Loaded × Nat := match found.run n with
    | .error f => (.failed f (rootPath p), l, n)
    | .ok (item, n) => (afterwards (showFound env p item (rootPath p) l)).run s l n
  (report.settle (mayBeNull p) .null, l, n)

/--
The fields of the root one after another, up to the first that cannot do without; what is loaded
and the number of statements are told as well.
-/
def readRoots (env : Environment) (s : Store) :
    List Prepared → Loaded → Nat → Report (List (String × Value)) × Loaded × Nat
  | [], l, n => (.ofValue [], l, n)
  | q :: qs, l, n =>
    let (report, l, n) : Report Value × Loaded × Nat := match q.reading with
      | none => (.ofValue .null, l, n)
      | some r => showRoot env s q.planned (r.run env.schema.codec s) l n
    match report.result with
    | .error e => (⟨.error e, report.noted⟩, l, n)
    | .ok v =>
      let (rest, l, n) := readRoots env s qs l n
      (report.bind fun _ => rest.bind fun fs => .ofValue ((q.planned.key, v) :: fs), l, n)

/-- The answer to a query, and the number of statements sent. -/
def answerQuery (env : Environment) (s : Store) (fields : List Planned) :
    Report (List (String × Value)) × Nat :=
  let prepared := (rootArguments fields).bind fun ps =>
    Report.all (ps.map fun (p, a) => prepare env p a)
  match prepared.result with
  | .error e => (⟨.error e, prepared.noted⟩, 0)
  | .ok qs =>
    let (report, _, n) := readRoots env s qs [] 0
    (prepared.bind fun _ => report, n)

end TableGraph.Answer
