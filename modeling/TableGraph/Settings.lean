import TableGraph.Context
import TableGraph.Number.Lenient
import TableGraph.Outline.Node
import TableGraph.Value.Json

/-!
# Settings

What a service is configured by.  A setting is taken from the values that are given outright, else
from a settings document, else from the environment, else it has its default.  `Settings.load` reads
all of them; a setting of the wrong kind is refused, a name that is no setting is passed over.
-/

namespace TableGraph

/-- What a service is configured by. -/
structure Settings where
  databaseUrl : String := "sqlite+aiosqlite:///./sqlgraph.db"
  echoSql : Bool := false
  defaultLimit : Option Int := none
  maxLimit : Option Int := none
  rfc3339 : Bool := false
  typeCase : Text.Casing := .pascal
  fieldCase : Text.Casing := .camel
  depthLimit : Option Int := none
  complexityLimit : Option Int := none
  mutations : Bool := true
  /-- The tables that are served, if not all. -/
  tables : Option (List String) := none
  host : String := "127.0.0.1"
  port : Int := 8000
  logLevel : String := "INFO"

namespace Settings

/-! ## Reading values -/

/-- The text a value is. -/
def text? : Value → Option String
  | .text s => some s
  | _ => none

/-- A whole number above zero, or no limit. -/
def limit? : Value → Option (Option Int)
  | .null => some none
  | v => ((Lenient.integer? v).filter (0 < ·)).map some

/-- A convention for names; capitals are none. -/
def casing? (v : Value) : Option Text.Casing :=
  (text? v).bind fun s => (Text.Casing.ofName? s).filter (· ≠ .upper)

/-- A list of names, or no list. -/
def names? : Value → Option (Option (List String))
  | .null => some none
  | .list vs | .tuple vs => (vs.mapM text?).map some
  | _ => none

/-- The setting of a name among values, its default where it is not among them. -/
def setting {α : Type} (given : List (String × Value)) (name : String) (default : α)
    (read? : Value → Option α) : Except Fault α :=
  match given.lookup name with
  | none => .ok default
  | some v =>
    match read? v with
    | some a => .ok a
    | none => .error .rejected

/-- The settings that values by name make up. -/
def ofFields (given : List (String × Value)) : Except Fault Settings := do
  let d : Settings := {}
  let databaseUrl ← setting given "database_url" d.databaseUrl text?
  let echoSql ← setting given "echo_sql" d.echoSql Lenient.bool?
  let defaultLimit ← setting given "default_limit" d.defaultLimit limit?
  let maxLimit ← setting given "max_limit" d.maxLimit limit?
  let rfc3339 ← setting given "timestamp_rfc3339" d.rfc3339 Lenient.bool?
  let typeCase ← setting given "type_name_case" d.typeCase casing?
  let fieldCase ← setting given "field_name_case" d.fieldCase casing?
  let depthLimit ← setting given "depth_limit" d.depthLimit limit?
  let complexityLimit ← setting given "complexity_limit" d.complexityLimit limit?
  let mutations ← setting given "mutations" d.mutations Lenient.bool?
  let tables ← setting given "tables" d.tables names?
  let host ← setting given "host" d.host text?
  let port ← setting given "port" d.port Lenient.integer?
  let logLevel ← setting given "log_level" d.logLevel text?
  pure
    { databaseUrl, echoSql, defaultLimit, maxLimit, rfc3339, typeCase, fieldCase, depthLimit
      complexityLimit, mutations, tables, host, port, logLevel }

/-- A number, or null where there is none. -/
def limitValue : Option Int → Value
  | some n => .int n
  | none => .null

/-- The settings by name. -/
def fields (s : Settings) : List (String × Value) :=
  [("database_url", .text s.databaseUrl), ("echo_sql", .bool s.echoSql),
    ("default_limit", limitValue s.defaultLimit), ("max_limit", limitValue s.maxLimit),
    ("timestamp_rfc3339", .bool s.rfc3339), ("type_name_case", .text s.typeCase.name),
    ("field_name_case", .text s.fieldCase.name), ("depth_limit", limitValue s.depthLimit),
    ("complexity_limit", limitValue s.complexityLimit), ("mutations", .bool s.mutations),
    ("tables", (s.tables.map fun ts => Value.list (ts.map .text)).getD .null),
    ("host", .text s.host), ("port", .int s.port), ("log_level", .text s.logLevel)]

/-! ## Where values come from -/

/-- Variables of the environment that begin like this, in any case, are settings. -/
def environmentStart : String := "sqlgraph_"

/-- The value of a variable: the tables are written as a list, every other setting as a text. -/
def variableValue (name text : String) : Value :=
  if name = "tables" then
    match Value.ofJson text with
    | .ok v => v
    | .error _ => .text text
  else .text text

/-- The setting a variable of the environment is. -/
def ofVariable? (v : String × String) : Option (String × Value) :=
  let name := v.1.toLower.toList
  if environmentStart.toList.isPrefixOf name then
    let name := String.ofList (name.drop environmentStart.length)
    let value := variableValue name v.2
    if value.isNull then none else some (name, value)
  else none

/-- The settings in an environment; of two variables of one name the later counts. -/
def ofEnvironment (environment : List (String × String)) : List (String × Value) :=
  environment.reverse.filterMap ofVariable?

/-- The settings in a document, which is a mapping or says nothing. -/
def ofDocument (text : String) : Except Fault (List (String × Value)) := do
  let n ← Outline.Node.ofText text
  match n with
  | .mapping es =>
    let isNamed : Outline.Node × Outline.Node → Bool
      | (.scalar (.text _), _) => true
      | _ => false
    if es.all isNamed then .ok (Outline.Node.fields es)
    else .error (.wrongKind "the names of settings are texts")
  | n => if n.value.isTruthy then .error .noMember else .ok []

/-- The settings of an environment, a document if there is one, and values given outright, of which
null says nothing. -/
def load (environment : List (String × String)) (document : Option String)
    (given : List (String × Value)) : Except Fault Settings := do
  let written ← match document with
    | some text => ofDocument text
    | none => pure []
  ofFields (given.filter (!·.2.isNull) ++ written ++ ofEnvironment environment)

/-! ## Contexts -/

/-- The configuration of a schema that the settings ask for. -/
def context (s : Settings) : Context :=
  { typeCase := s.typeCase, fieldCase := s.fieldCase, defaultLimit := s.defaultLimit
    maxLimit := s.maxLimit, rfc3339 := s.rfc3339, depthLimit := s.depthLimit
    complexityLimit := s.complexityLimit }

/-- The whole number a value is. -/
def whole? : Value → Option Int
  | .int n => some n
  | _ => none

/-- The configuration with one thing changed. -/
def changed (c : Context) (change : String × Value) : Except Fault Context :=
  match change.1 with
  | "default_limit" => .ok { c with defaultLimit := whole? change.2 }
  | "max_limit" => .ok { c with maxLimit := whole? change.2 }
  | "depth_limit" => .ok { c with depthLimit := whole? change.2 }
  | "complexity_limit" => .ok { c with complexityLimit := whole? change.2 }
  | "timestamp_rfc3339" => .ok { c with rfc3339 := change.2.isTruthy }
  | _ => .error (.wrongKind "a configuration has no such part")

/-- The configuration the settings ask for, with changes. -/
def contextWith (s : Settings) (changes : List (String × Value)) : Except Fault Context :=
  changes.foldlM changed s.context

end Settings

end TableGraph
