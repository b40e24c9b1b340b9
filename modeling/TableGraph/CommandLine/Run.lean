import TableGraph.Builder
import TableGraph.Catalogue.Discovery
import TableGraph.CommandLine.Arguments
import TableGraph.Graph.Printer
import TableGraph.Service.Engine
import TableGraph.Settings

/-!
# Commands

What the commands do: `schema` prints the schema of a database, `serve` serves it.  Both read the
settings first.  A schema that cannot be built is told about and gives the code 1.
-/

namespace TableGraph.CommandLine

/-- What a command finds around it. -/
structure Surroundings where
  environment : List (String × String)
  /-- The text of a file, if it exists. -/
  file? : String → Option String
  /-- The tables of the database at an address. -/
  tables : String → List DeclaredTable

/-- A service that is started. -/
structure Served where
  schema : SealedSchema
  host : String
  port : Int
  logLevel : String

/-- How a command line ends. -/
inductive Outcome
  | exit (reason : Exit)
  /-- There is no command, and the help is printed. -/
  | help
  | finished (code : Nat) (lines : List String)
  | served (service : Served)

/-- The settings a command runs with. -/
def Options.settings (o : Options) (around : Surroundings) : Except Fault Settings :=
  let text (name : String) (value : Option String) : List (String × Value) :=
    (value.map fun s => (name, Value.text s)).toList
  let tables := (o.tables.filter (!·.isEmpty)).map fun s =>
    ("tables", Value.list ((s.splitOn ",").map .text))
  Settings.load around.environment (o.config.bind around.file?)
    (text "database_url" o.databaseUrl ++ text "host" o.host ++
      (o.port.map fun n => ("port", Value.int n)).toList ++ tables.toList)

/-- The schema of the database that the settings name. -/
def buildSchema (around : Surroundings) (s : Settings) : Except Fault SealedSchema := do
  let address ← Service.Address.make s.databaseUrl
  let found ← Discovery.reflect (around.tables address.text) s.tables
  match (Builder.empty s.context).registerSchema found s.mutations with
  | (b, .ok ()) => b.build
  | (_, .error e) => .error e

/-- The levels of importance a log can be limited to. -/
def logLevels : List String :=
  ["CRITICAL", "FATAL", "ERROR", "WARN", "WARNING", "INFO", "DEBUG", "NOTSET"]

/-- What is done with a schema; a faulty configuration is told about. -/
def withSchema (built : Except Fault SealedSchema) (use : SealedSchema → Outcome) :
    Except Fault Outcome :=
  match built with
  | .ok schema => .ok (use schema)
  | .error e =>
    if e.isConfig then
      .ok (.finished 1 (("Error building schema: " ++ e.message).splitOn "\n"))
    else .error e

/-- Runs a command. -/
def Command.run (around : Surroundings) (o : Options) : Command → Except Fault Outcome
  | .schema => do
    let s ← o.settings around
    withSchema (buildSchema around s) fun schema => .finished 0 schema.types.lines
  | .serve => do
    let s ← o.settings around
    if !logLevels.contains s.logLevel.toUpper then
      .error (.unreadable s!"Unknown level: {s.logLevel}")
    else
      withSchema (buildSchema around s) fun schema =>
        .served ⟨schema, s.host, s.port, s.logLevel.toLower⟩

/-- Runs a command line. -/
def run (around : Surroundings) (arguments : List String) : Except Fault Outcome :=
  match parse arguments with
  | .error reason => .ok (.exit reason)
  | .ok none => .ok .help
  | .ok (some (command, o)) => command.run around o

end TableGraph.CommandLine
