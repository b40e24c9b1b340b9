import TableGraph.Answer.Changing
import TableGraph.Graph.Measure

/-!
# Requests

A request is a document with variables, run against a schema and a store.  What does not parse,
breaks a rule or exceeds a limit is refused before anything is read; everything else is answered,
as far as its failures allow.
-/

namespace TableGraph.Answer

open TableGraph.Graph

/-- What a client sends, and what comes with it. -/
structure Request where
  document : String
  bindings : List (String × Value)
  /-- Which operation of the document is meant. -/
  operation : Option String
  extra : Extra

/-- The reply to a request. -/
inductive Reply
  /-- The document is not acceptable, or exceeds the limits that are named. -/
  | refused (malformed : Bool) (limits : List String)
  | answered (data : Value) (failures : List Failure) (statements : Nat)
      (events : List (String × Operation))

/-- The failures of a report, the one that ends it being the last. -/
def failuresOf {α : Type} (r : Report α) : List Failure :=
  match r.result with
  | .ok _ => r.noted
  | .error e => r.noted ++ [e]

/-- The fields of a report as an object, null if it failed. -/
def dataOf (r : Report (List (String × Value))) : Value :=
  match r.result with
  | .ok fields => .object fields
  | .error _ => .null

/-- The reply to a plan, and the store after it. -/
def runPlan (env : Environment) (s : Store) (plan : Plan) : Reply × Store :=
  match plan.kind with
  | .mutation =>
    let (report, db) := changeRoots env plan.fields (.opened s)
    (.answered (dataOf report) (failuresOf report) db.statements db.events, db.stored)
  | _ =>
    let (report, n) := answerQuery env s plan.fields
    (.answered (dataOf report) (failuresOf report) n [], s)

/-- The reply to a request, and the store after it. -/
def reply (schema : SealedSchema) (s : Store) (r : Request) : Reply × Store :=
  match Document.ofText r.document with
  | .error _ => (.refused true [], s)
  | .ok d =>
    let context := schema.context
    let limits := d.complaints context.depthLimit context.complexityLimit
    let valid := d.isValid schema.types
    if !valid || !limits.isEmpty then (.refused (!valid) limits, s)
    else
      match d.plan? schema.types r.operation r.bindings with
      | none => (.refused true [], s)
      | some plan => runPlan ⟨schema, { extra := r.extra, bindings := r.bindings }⟩ s plan

end TableGraph.Answer
