import TableGraph.Catalogue.Document
import TableGraph.CommandLine.Run
import TableGraph.Service.Application

/-!
# The command line

`schema` prints the schema of a database, `serve` answers requests, one JSON object on each line of
the standard input.  A database is a catalogue of tables, a JSON document at the path behind `:///`;
its tables are empty at first.
-/

namespace TableGraph.CommandLine

/-- How the command line is used. -/
def usage : List String :=
  ["usage: sqlgraph [-h] [--version] [--config CONFIG] \x7bschema,serve\x7d ...", "",
    "  schema [--database-url DATABASE_URL] [--tables TABLES]",
    "      Print the GraphQL SDL of a database",
    "  serve [--database-url DATABASE_URL] [--tables TABLES] [--host HOST] [--port PORT]",
    "      Serve the GraphQL API"]

/-- The path of an address. -/
def pathOf (address : String) : String := ((address.splitOn ":///").drop 1).headD address

/-- A failure as a document. -/
def failureValue (f : Answer.Failure) : Value :=
  let step : Answer.Step → Value
    | .key name => .text name
    | .index n => .int n
  let message := if f.fault.isVisible then f.fault.message else "InternalError"
  .object [("message", .text message), ("path", .list (f.path.map step))]

/-- A reply as a document. -/
def replyValue : Answer.Reply → Value
  | .refused malformed limits =>
    let messages := (if malformed then ["The request is not valid"] else []) ++ limits
    .object [("data", .null),
      ("errors", .list (messages.map fun m => .object [("message", .text m)]))]
  | .answered data failures _ _ =>
    .object (("data", data) ::
      if failures.isEmpty then [] else [("errors", .list (failures.map failureValue))])

/-- The answer to a call as a line. -/
def responseLine : Service.Response → String
  | .reply r => ((replyValue r).toJson?).getD "null"
  | .object v => (v.toJson?).getD "null"
  | .text s => s
  | .refusal code => toString code

/-- The text of a file, if it can be read. -/
def readFile? (path : String) : IO (Option String) := do
  try
    let text ← IO.FS.readFile path
    pure (some text)
  catch _ => pure none

/-- The settings that stand in the environment. -/
def readEnvironment : IO (List (String × String)) := do
  let found ← (({} : Settings).fields.map (·.1)).mapM fun name => do
    let known := (Settings.environmentStart ++ name).toUpper
    let value ← IO.getEnv known
    pure (value.map fun v => (known, v))
  pure (found.filterMap id)

/-- The tables of the catalogue at an address, none if it cannot be read. -/
def readTables (address : String) : IO (List DeclaredTable) := do
  let text ← readFile? (pathOf address)
  match text.map Value.ofJson with
  | some (.ok v) => pure (Catalogue.tables v)
  | _ => pure []

/-- What the command line finds around it: the files it names are read beforehand. -/
def readSurroundings (o : Options) : IO Surroundings := do
  let environment ← readEnvironment
  let document ← match o.config with
    | some path => readFile? path
    | none => pure none
  let around : Surroundings := ⟨environment, fun _ => document, fun _ => []⟩
  match o.settings around with
  | .ok s => do
    let tables ← readTables s.databaseUrl
    pure { around with tables := fun _ => tables }
  | .error _ => pure around

/-- Answers the requests of the standard input. -/
partial def serveLines (a : Service.Application) (s : Store) (input output : IO.FS.Stream) :
    IO Unit := do
  let line ← input.getLine
  if line.isEmpty then pure ()
  else
    let call : Service.Call := ⟨"POST", "/graphql", (Value.ofJson line).toOption, []⟩
    let (response, s) := a.handle s call
    output.putStrLn (responseLine response)
    output.flush
    serveLines a s input output

/-- Serves a schema. -/
def serve (s : Served) : IO Unit := do
  let entities := s.schema.projections.map (·.entity)
  let store := Store.ofEntities s.schema.codec.enumerations entities true false
  let input ← IO.getStdin
  let output ← IO.getStdout
  serveLines { schema := s.schema } store input output

/-- Tells how a command line ended, and gives its code. -/
def finish : Except Fault Outcome → IO UInt32
  | .ok (.exit .version) => do
    IO.println "sqlgraph 0.1.0"
    pure 0
  | .ok (.exit reason) => do
    IO.println ("\n".intercalate usage)
    pure reason.code.toUInt32
  | .ok .help => do
    IO.println ("\n".intercalate usage)
    pure 0
  | .ok (.finished code lines) => do
    IO.println ("\n".intercalate lines)
    pure code.toUInt32
  | .ok (.served s) => do
    serve s
    pure 0
  | .error fault => do
    IO.eprintln fault.message
    pure 1

end TableGraph.CommandLine

open TableGraph.CommandLine in
/-- Runs the command line. -/
def main (arguments : List String) : IO UInt32 := do
  let o := match parse arguments with
    | .ok (some (_, o)) => o
    | _ => {}
  let around ← readSurroundings o
  finish (run around arguments)
