import TableGraph.Predicate.Sql
import TableGraph.Schema.Entity

/-!
# Guards and row scopes

A guard decides whether an operation may go on; a row scope is a condition the client can neither
see nor lift.  Both are asked anew by every field that reads or changes rows, and depend on the
field, on what the request carries beside its document, and on the operation.  Guards and scopes
answer at once: an answer that is yet to come counts as a fault.
-/

namespace TableGraph

/-- What is about to be done with an entity. -/
inductive Operation
  | read
  | create
  | update
  | delete
  deriving DecidableEq, Repr

namespace Operation

/-- The name of an operation. -/
def name : Operation → String
  | read => "read"
  | create => "create"
  | update => "update"
  | delete => "delete"

/-- The operation a name stands for. -/
def ofName? : String → Option Operation
  | "read" => some read
  | "create" => some create
  | "update" => some update
  | "delete" => some delete
  | _ => none

end Operation

/-- What a request carries beside its document: values by name. -/
abbrev Extra := List (String × Value)

namespace Answer

/-- A step from an answer to one of its parts. -/
inductive Step
  | key (name : String)
  | index (n : Nat)
  deriving DecidableEq, Repr

/-- The way from the root of an answer to one of its parts. -/
abbrev Path := List Step

end Answer

/-- A field that is being answered, as guards, scopes and watches are told of it. -/
structure FieldCall where
  extra : Extra := []
  /-- The variables that came with the request. -/
  bindings : List (String × Value) := []
  /-- The type that has the field. -/
  typeName : String := ""
  field : String := ""
  /-- The place of the field in the answer. -/
  path : Answer.Path := []

/-- The answer of a guard. -/
inductive Decision
  | allow
  | block (reason : Option String)
  /-- The answer is yet to come. -/
  | deferred
  deriving DecidableEq, Repr

/-- A guard of an entity or a field. -/
abbrev Guard := FieldCall → Operation → Except Fault Decision

/-- The answer of a row scope. -/
inductive ScopeAnswer
  /-- The rows that may be seen, all of them if there is no condition. -/
  | rows (condition : Option (Predicate Value))
  /-- The answer is yet to come. -/
  | deferred

/-- A row scope of an entity. -/
abbrev Scope := FieldCall → Operation → Entity → Except Fault ScopeAnswer

/-- The phrase of an entity guard that gives no reason. -/
def entityGuardPhrase : String := "Entity guard triggered."

/-- The phrase of a field guard that gives no reason. -/
def fieldGuardPhrase : String := "Field guard triggered."

namespace Guard

/-- Evaluates a guard; an empty reason gives way to the phrase. -/
def run (guard : Guard) (call : FieldCall) (operation : Operation) (phrase : String) :
    Except Fault Unit := do
  match ← guard call operation with
  | .allow => .ok ()
  | .deferred => .error (.wrongKind "Guards must be synchronous")
  | .block reason =>
    .error (.blocked (match reason with
      | some r => if r.isEmpty then phrase else r
      | none => phrase))

/-- Evaluates the guard registered under a name, if there is one. -/
def check (guards : List (String × Guard)) (name : String) (call : FieldCall)
    (operation : Operation) (phrase : String) : Except Fault Unit :=
  match guards.lookup name with
  | some guard => run guard call operation phrase
  | none => .ok ()

end Guard

namespace Scope

/-- The condition of the scope registered for a type, if there is one. -/
def condition (scopes : List (String × Scope)) (typeName : String) (entity : Entity)
    (call : FieldCall) (operation : Operation) : Except Fault (Option (Predicate Value)) :=
  match scopes.lookup typeName with
  | none => .ok none
  | some scope => do
    match ← scope call operation entity with
    | .rows p => .ok p
    | .deferred => .error (.wrongKind "Entity filters must be synchronous")

/-- What identifies a condition: its text and its operands. -/
def fingerprint (table : String) : Option (Predicate Value) → Value
  | none => .null
  | some p => .tuple [.text (p.sql table).text, (Value.list (p.sql table).operands).freeze]

end Scope

end TableGraph
