import TableGraph.Answer.Request
import TableGraph.Graph.Printer

/-!
# The application

A sealed schema served over the web.  `POST /graphql` runs a request, `GET /graphql/schema` prints
the schema and `GET /health` tells that the service is alive.  `Application.handle` answers a call,
`Lifecycle` is what starting and stopping the application does.
-/

namespace TableGraph.Service

/-- A call from the web. -/
structure Call where
  method : String
  path : String
  /-- What the call carries, if anything. -/
  body : Option Value
  /-- Headers by name in small letters. -/
  headers : List (String × String)

/-- The path of a call without what it asks for. -/
def Call.place (c : Call) : String := String.ofList (c.path.toList.takeWhile (· ≠ '?'))

/-- The answer to a call. -/
inductive Response
  | reply (r : Answer.Reply)
  | object (v : Value)
  | text (s : String)
  /-- Nothing but the code of a refusal. -/
  | refusal (code : Nat)

/-- The headers of a call as what a request carries. -/
def headersOf (c : Call) : Extra :=
  [("headers", .object (c.headers.map fun (n, v) => (n, .text v)))]

/-- An application. -/
structure Application where
  schema : SealedSchema
  title : String := "sqlgraph"
  /-- What a request carries beside its document. -/
  extra : Call → Extra := headersOf

namespace Application

/-! ## Bodies -/

/-- A field of a body that is a text or null. -/
def optionalText (body : Value) (name : String) : Option (Option String) :=
  match (body.field? name).getD .null with
  | .null => some none
  | .text s => some (some s)
  | _ => none

/-- A field of a body that is an object or null. -/
def optionalObject (body : Value) (name : String) : Option (List (String × Value)) :=
  match (body.field? name).getD .null with
  | .null => some []
  | .object fields => some fields
  | _ => none

/-- The request a call carries. -/
def request? (a : Application) (c : Call) : Option Answer.Request := do
  let body ← c.body
  let document ← (optionalText body "query").join
  let bindings ← optionalObject body "variables"
  let operation ← optionalText body "operationName"
  some ⟨document, bindings, operation, a.extra c⟩

/-! ## Routes -/

/-- What is served. -/
inductive Route
  | graph
  | schema
  | health
  deriving DecidableEq, Repr

/-- The paths that are served, each with its method. -/
def routes : List (String × String × Route) :=
  [("/graphql", "POST", .graph), ("/graphql/schema", "GET", .schema), ("/health", "GET", .health)]

/-- A path without slashes at its end. -/
def withoutSlash (path : String) : String :=
  String.ofList (path.toList.reverse.dropWhile (· = '/')).reverse

/-- The call asks whether calls from elsewhere are welcome, which they are. -/
def isPreflight (c : Call) : Bool :=
  c.method = "OPTIONS" && (c.headers.lookup "origin").isSome &&
    (c.headers.lookup "access-control-request-method").isSome

/-- Answers a call of a route by its method. -/
def serve (a : Application) (s : Store) (c : Call) : Route → Response × Store
  | .health => (.object (.object [("status", .text "ok"), ("service", .text a.title)]), s)
  | .schema => (.text ("\n".intercalate a.schema.types.lines), s)
  | .graph =>
    match a.request? c with
    | none => (.refusal 422, s)
    | some r =>
      let (reply, s) := Answer.reply a.schema s r
      (.reply reply, s)

/-- Answers a call.  A path that is served but for a slash at its end is redirected. -/
def handle (a : Application) (s : Store) (c : Call) : Response × Store :=
  let path := c.place
  if isPreflight c then (.text "OK", s)
  else
    match routes.lookup path with
    | some (method, route) => if c.method = method then a.serve s c route else (.refusal 405, s)
    | none =>
      let bare := withoutSlash path
      if bare ≠ path && (routes.lookup bare).isSome then (.refusal 307, s) else (.refusal 404, s)

/-- Answers calls one after the other. -/
def handleAll (a : Application) (s : Store) : List Call → List Response
  | [] => []
  | c :: cs =>
    let (r, s) := a.handle s c
    r :: handleAll a s cs

end Application

/-! ## Starting and stopping -/

/-- What starting and stopping an application leaves behind. -/
structure Lifecycle where
  /-- How many filters the access log has. -/
  filters : Nat := 0
  /-- How often the engine was disposed of. -/
  disposals : Nat := 0
  deriving DecidableEq, Repr

namespace Lifecycle

/-- The access log gets its filter, once. -/
def start (l : Lifecycle) : Lifecycle := if l.filters = 0 then { l with filters := 1 } else l

/-- The engine is disposed of, if the application owns it. -/
def stop (l : Lifecycle) (owned : Bool) : Lifecycle :=
  if owned then { l with disposals := l.disposals + 1 } else l

/-- How many filters there are each time the application runs, and what is left behind. -/
def runs (owned : Bool) : Nat → Lifecycle → List Nat × Lifecycle
  | 0, l => ([], l)
  | n + 1, l =>
    let started := l.start
    let (counts, l) := runs owned n (started.stop owned)
    (started.filters :: counts, l)

end Lifecycle

end TableGraph.Service
