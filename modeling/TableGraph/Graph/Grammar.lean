import TableGraph.BigInteger
import TableGraph.Fault
import TableGraph.Graph.Document
import TableGraph.Graph.Token

/-!
# The grammar of the query language

`Document.ofText` reads the operations and fragments of a request, `Literal.ofText` a single value.
The readers of nested parts carry a bound on their steps, which the number of tokens supplies.
-/

namespace TableGraph.Graph

/-- A reader of a part: it consumes tokens or fails. -/
abbrev Reader (α : Type) := List Token → Option (α × List Token)

namespace Reader

variable {α : Type}

/-- A given mark. -/
def mark (c : Char) : Reader Unit
  | .mark d :: ts => if c = d then some ((), ts) else none
  | _ => none

/-- The next token is a given mark. -/
def sees (c : Char) : List Token → Bool
  | .mark d :: _ => c = d
  | _ => false

/-- A name. -/
def name : Reader String
  | .name s :: ts => some (s, ts)
  | _ => none

/-- Parts up to a closing mark; `fuel` bounds their number. -/
def upTo (close : Char) (part : Reader α) : Nat → Reader (List α)
  | 0, _ => none
  | fuel + 1, ts =>
    if sees close ts then some ([], ts.tail)
    else do
      let (a, ts) ← part ts
      let (as, ts) ← upTo close part fuel ts
      some (a :: as, ts)

/-- Any number of parts between two marks. -/
def enclosed (opening close : Char) (part : Reader α) : Reader (List α) := fun ts => do
  let (_, ts) ← mark opening ts
  upTo close part (ts.length + 1) ts

/-- One or more parts between two marks. -/
def several (opening close : Char) (part : Reader α) : Reader (List α) := fun ts => do
  let (as, ts) ← enclosed opening close part ts
  if as.isEmpty then none else some (as, ts)

/-- One or more parts between two marks, or nothing. -/
def maybeSeveral (opening close : Char) (part : Reader α) : Reader (List α) := fun ts =>
  if sees opening ts then several opening close part ts else some ([], ts)

end Reader

open Reader

namespace Literal

/-- A value; without variables if it is constant.  `fuel` bounds the nesting. -/
def read (constant : Bool) : Nat → Reader Literal
  | 0, _ => none
  | fuel + 1, ts =>
    match ts with
    | .mark '[' :: _ => do
      let (items, ts) ← enclosed '[' ']' (read constant fuel) ts
      some (.list items, ts)
    | .mark '\x7b' :: _ => do
      let (fields, ts) ← enclosed '\x7b' '\x7d' (fun ts => do
        let (n, ts) ← Reader.name ts
        let (_, ts) ← mark ':' ts
        let (v, ts) ← read constant fuel ts
        some ((n, v), ts)) ts
      some (.object fields, ts)
    | .mark '$' :: .name n :: ts => if constant then none else some (.variable n, ts)
    | .int digits :: ts => some (.int digits, ts)
    | .float digits :: ts => some (.float digits, ts)
    | .string s :: ts => some (.string s, ts)
    | .name "true" :: ts => some (.bool true, ts)
    | .name "false" :: ts => some (.bool false, ts)
    | .name "null" :: ts => some (.null, ts)
    | .name n :: ts => some (.name n, ts)
    | _ => none

/-- A value with its nesting bounded by the number of tokens. -/
def reader (constant : Bool) : Reader Literal := fun ts => read constant (ts.length + 1) ts

/-- Reads a single value. -/
def ofText (s : String) : Except Fault Literal :=
  match (Token.scan s).bind (reader false) with
  | some (l, []) => .ok l
  | _ => .error .grammar

end Literal

namespace TypeRef

/-- An exclamation mark behind a type. -/
def suffixed (t : TypeRef) : Reader TypeRef := fun ts =>
  if sees '!' ts then some (.nonNull t, ts.tail) else some (t, ts)

/-- A type; `fuel` bounds the nesting. -/
def read : Nat → Reader TypeRef
  | 0, _ => none
  | fuel + 1, ts =>
    if sees '[' ts then do
      let (inner, ts) ← read fuel ts.tail
      let (_, ts) ← mark ']' ts
      suffixed (.list inner) ts
    else do
      let (n, ts) ← Reader.name ts
      suffixed (.named n) ts

/-- A type with its nesting bounded by the number of tokens. -/
def reader : Reader TypeRef := fun ts => read (ts.length + 1) ts

end TypeRef

/-- A name, a colon and a value. -/
def readArgument (constant : Bool) : Reader (String × Literal) := fun ts => do
  let (n, ts) ← Reader.name ts
  let (_, ts) ← mark ':' ts
  let (v, ts) ← Literal.reader constant ts
  some ((n, v), ts)

/-- The arguments of a field or a directive. -/
def readArguments (constant : Bool) : Reader (List (String × Literal)) :=
  maybeSeveral '(' ')' (readArgument constant)

/-- Directives, as many as there are; `fuel` bounds their number. -/
def readDirectivesFrom (constant : Bool) : Nat → Reader (List Directive)
  | 0, _ => none
  | fuel + 1, ts =>
    if sees '@' ts then do
      let (n, ts) ← Reader.name ts.tail
      let (arguments, ts) ← readArguments constant ts
      let (rest, ts) ← readDirectivesFrom constant fuel ts
      some (⟨n, arguments⟩ :: rest, ts)
    else some ([], ts)

/-- Directives, as many as there are. -/
def readDirectives (constant : Bool) : Reader (List Directive) := fun ts =>
  readDirectivesFrom constant (ts.length + 1) ts

namespace Selection

/-- A selection; `fuel` bounds the nesting. -/
def read : Nat → Reader Selection
  | 0, _ => none
  | fuel + 1, ts =>
    let nested := several '\x7b' '\x7d' (read fuel)
    match ts with
    | .spread :: .name "on" :: ts => do
      let (on, ts) ← Reader.name ts
      let (directives, ts) ← readDirectives false ts
      let (selections, ts) ← nested ts
      some (.inline (some on) directives selections, ts)
    | .spread :: .name n :: ts => do
      let (directives, ts) ← readDirectives false ts
      some (.spread n directives, ts)
    | .spread :: ts => do
      let (directives, ts) ← readDirectives false ts
      let (selections, ts) ← nested ts
      some (.inline none directives selections, ts)
    | ts => do
      let (first, ts) ← Reader.name ts
      let (label, n, ts) ←
        if sees ':' ts then (Reader.name ts.tail).map fun (n, ts) => (some first, n, ts)
        else some (none, first, ts)
      let (arguments, ts) ← readArguments false ts
      let (directives, ts) ← readDirectives false ts
      let (selections, ts) ← if sees '\x7b' ts then nested ts else some ([], ts)
      some (.field label n arguments directives selections, ts)

/-- One or more selections between braces. -/
def readSet : Reader (List Selection) := fun ts =>
  several '\x7b' '\x7d' (read (ts.length + 1)) ts

end Selection

/-- A variable with its type, its default value and its directives. -/
def readVariable : Reader VariableDefinition := fun ts => do
  let (_, ts) ← mark '$' ts
  let (n, ts) ← Reader.name ts
  let (_, ts) ← mark ':' ts
  let (type, ts) ← TypeRef.reader ts
  let (defaultValue, ts) ←
    if sees '=' ts then (Literal.reader true ts.tail).map fun (v, ts) => (some v, ts)
    else some (none, ts)
  let (directives, ts) ← readDirectives true ts
  some (⟨n, type, defaultValue, directives⟩, ts)

/-- An operation behind the word for its kind. -/
def readOperation (kind : OperationKind) : Reader Definition := fun ts => do
  let (n, ts) ← match ts with
    | .name n :: ts => some (some n, ts)
    | ts => some (none, ts)
  let (parameters, ts) ← maybeSeveral '(' ')' readVariable ts
  let (directives, ts) ← readDirectives false ts
  let (selections, ts) ← Selection.readSet ts
  some (.operation ⟨kind, n, parameters, directives, selections⟩, ts)

/-- A fragment behind its word. -/
def readFragment : Reader Definition := fun ts => do
  match ts with
  | .name n :: .name "on" :: .name on :: ts =>
    if n = "on" then none
    else
      let (directives, ts) ← readDirectives false ts
      let (selections, ts) ← Selection.readSet ts
      some (.fragment ⟨n, on, directives, selections⟩, ts)
  | _ => none

/-- An operation or a fragment. -/
def readDefinition : Reader Definition
  | .name "query" :: ts => readOperation .query ts
  | .name "mutation" :: ts => readOperation .mutation ts
  | .name "subscription" :: ts => readOperation .subscription ts
  | .name "fragment" :: ts => readFragment ts
  | ts => do
    let (selections, ts) ← Selection.readSet ts
    some (.operation ⟨.query, none, [], [], selections⟩, ts)

/-- Definitions to the end; `fuel` bounds their number. -/
def readDefinitions : Nat → List Token → Option Document
  | 0, _ => none
  | _, [] => some []
  | fuel + 1, ts => do
    let (d, ts) ← readDefinition ts
    let ds ← readDefinitions fuel ts
    some (d :: ds)

/-- Reads a document, which has at least one definition. -/
def Document.ofText (s : String) : Except Fault Document :=
  match (Token.scan s).bind fun ts => readDefinitions (ts.length + 1) ts with
  | some (d :: ds) => .ok (d :: ds)
  | _ => .error .grammar

/-- The name of the kind of a written value. -/
def Literal.kind : Literal → String
  | .variable _ => "variable"
  | .int _ => "int_value"
  | .float _ => "float_value"
  | .string _ => "string_value"
  | .bool _ => "boolean_value"
  | .null => "null_value"
  | .name _ => "enum_value"
  | .list _ => "list_value"
  | .object _ => "object_value"

/-- The big integer a written value stands for: digits, quoted or not. -/
def bigIntegerOfLiteral : Literal → Except Fault Int
  | .int digits => BigInteger.coerce (.text digits)
  | .string s => BigInteger.coerce (.text s)
  | l => .error (.graph ("BigInt cannot represent literal: " ++ l.kind))

end TableGraph.Graph
