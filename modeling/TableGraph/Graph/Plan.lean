import TableGraph.Graph.Rules

/-!
# Plans

A plan is what remains of a document for one request: the chosen operation with its fragments in
place, its variables replaced by values, and the fields of one name in the answer put together.
-/

namespace TableGraph.Graph

/-- A field that is to be answered. -/
structure Planned where
  /-- The name of the field in the answer. -/
  key : String
  field : OutputField
  arguments : Except Fault (List (String × Value))
  /-- The keys of the order in the order in which the client wrote them, if that is known. -/
  written : Option (List String)
  /-- Why the selections cannot be told. -/
  refusal : Option Fault
  selections : List Planned

/-- An operation that is to be answered. -/
structure Plan where
  kind : OperationKind
  /-- The type the fields belong to. -/
  root : String
  fields : List Planned

/-! ## Selections that are taken in -/

/-- The truth value of a directive of a name, if there is one. -/
def conditionOf (s : TypeSystem) (bindings : List (String × Value)) (directives : List Directive)
    (name : String) : Except Fault (Option Bool) :=
  match directives.find? fun d => d.name = name with
  | none => .ok none
  | some d => do
    let values ← argumentValues s bindings d.arguments [conditionArgument]
    .ok (match values.lookup conditionArgument.name with
      | some (.bool b) => some b
      | _ => none)

/-- The directives take a selection in. -/
def isIncluded (s : TypeSystem) (bindings : List (String × Value)) (directives : List Directive) :
    Except Fault Bool := do
  let skipped ← conditionOf s bindings directives "skip"
  if skipped = some true then .ok false
  else do
    let included ← conditionOf s bindings directives "include"
    .ok (included ≠ some false)

mutual

/-- The fields of a selection that are taken in, by their names in the answer. -/
def includedFields (s : TypeSystem) (bindings : List (String × Value)) :
    Selection → Except Fault (List (String × FieldShape))
  | .field label name arguments directives selections => do
    if ← isIncluded s bindings directives then
      .ok [(label.getD name, ⟨name, arguments, directives, selections⟩)]
    else .ok []
  | .spread _ _ => .ok []
  | .inline _ directives selections => do
    if ← isIncluded s bindings directives then allIncluded s bindings selections else .ok []
termination_by structural x => x

/-- The fields of several selections that are taken in. -/
def allIncluded (s : TypeSystem) (bindings : List (String × Value)) :
    List Selection → Except Fault (List (String × FieldShape))
  | [] => .ok []
  | x :: xs => do
    let fields ← includedFields s bindings x
    let more ← allIncluded s bindings xs
    .ok (fields ++ more)
termination_by structural xs => xs

end

/-! ## Planning -/

/-- The names in an order as the client wrote them, in the document or in a variable it sent. -/
def writtenKeys (sent : List (String × Value)) (arguments : List (String × Literal)) :
    Option (List String) :=
  match arguments.lookup "orderBy" with
  | some (.object fields) => some (fields.map (·.1))
  | some (.variable v) =>
    match sent.lookup v with
    | some (.object fields) => some (fields.map (·.1))
    | _ => none
  | _ => none

/-- Values of variables, as they are used and as the client sent them. -/
structure Variables where
  used : List (String × Value)
  sent : List (String × Value)

/-- The fields of a type that selections ask for, to a depth. -/
def planFields (s : TypeSystem) (bindings : Variables) :
    Nat → String → List Selection → Except Fault (List Planned)
  | 0, _, _ => .ok []
  | depth + 1, parent, selections => do
    let fields ← allIncluded s bindings.used selections
    .ok ((gather fields).filterMap fun (key, shapes) =>
      match shapes with
      | [] => none
      | shape :: _ =>
        (s.fieldOf? parent shape.name).map fun f =>
          let inner :=
            planFields s bindings depth f.type.base (shapes.flatMap (·.selections))
          { key
            field := f
            arguments := argumentValues s bindings.used shape.arguments f.arguments
            written := writtenKeys bindings.sent shape.arguments
            refusal := match inner with
              | .ok _ => none
              | .error e => some e
            selections := inner.toOption.getD [] })

/-- The operation of a name, or the only one. -/
def Document.operation? (d : Document) (name : Option String) : Option OperationDefinition :=
  match name with
  | some n => d.operations.find? fun o => o.name = some n
  | none =>
    match d.operations with
    | [o] => some o
    | _ => none

/-- The plan of an operation of a document for the variables a client sends. -/
def Document.plan? (d : Document) (s : TypeSystem) (operation : Option String)
    (sent : List (String × Value)) : Option Plan := do
  let o ← d.operation? operation
  let used ← variableValues s sent o.parameters
  let selections := d.expanded o
  let fields ← (planFields s ⟨used, sent⟩ (Selection.nestingOfAll selections) o.root
    selections).toOption
  some ⟨o.kind, o.root, fields⟩

end TableGraph.Graph
