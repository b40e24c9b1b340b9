import TableGraph.Graph.Document
import TableGraph.Graph.InputValue

/-!
# The rules of documents

What a document has to obey before it is run: names are known and not repeated, arguments and
literals are of their types, selections end at leaves, fragments are used and do not contain
themselves, variables are declared, used and of types that fit, and fields with one name in the
answer are one field.

`Document.isValid` joins the rules; a rule may rely on the ones before it.
-/

namespace TableGraph.Graph

/-! ## Directives and arguments -/

/-- The argument of a directive that leaves out or takes in a selection. -/
def conditionArgument : InputField := ⟨"if", .nonNull (.named "Boolean")⟩

/-- The directives a selection may have. -/
def selectionDirectives : List String := ["include", "skip"]

/-- The arguments are known, different, complete and of their types. -/
def argumentsFit (s : TypeSystem) (types : List InputField) (given : List (String × Literal)) :
    Bool :=
  areDistinct (given.map (·.1)) && hasRequired types (given.map (·.1)) && fitFields s given types

/-- The directives are known, different and have their arguments. -/
def directivesFit (s : TypeSystem) (directives : List Directive) : Bool :=
  areDistinct (directives.map (·.name)) &&
    directives.all fun d =>
      selectionDirectives.contains d.name && argumentsFit s [conditionArgument] d.arguments

/-- The variables in arguments. -/
def argumentUsages (s : TypeSystem) (types : List InputField) (given : List (String × Literal)) :
    List Usage :=
  usagesOfFields s given types

/-- The variables in directives. -/
def directiveUsages (s : TypeSystem) (directives : List Directive) : List Usage :=
  directives.flatMap fun d => argumentUsages s [conditionArgument] d.arguments

/-! ## Selections -/

namespace Selection

mutual

/-- The selection asks a type for fields it has, in the way it has them. -/
def fits (s : TypeSystem) (d : Document) : Selection → String → Bool
  | .field _ name arguments directives selections, parent =>
    match s.fieldOf? parent name with
    | none => false
    | some f =>
      argumentsFit s f.arguments arguments && directivesFit s directives &&
        selections.isEmpty != (s.objectFields? f.type.base).isSome &&
        allFit s d selections f.type.base
  | .spread name directives, parent =>
    directivesFit s directives && (d.fragment? name).any fun f => f.on = parent
  | .inline on directives selections, parent =>
    directivesFit s directives && on.all (· = parent) && allFit s d selections parent
termination_by structural s => s

/-- Several selections ask a type for fields it has. -/
def allFit (s : TypeSystem) (d : Document) : List Selection → String → Bool
  | [], _ => true
  | x :: xs, parent => fits s d x parent && allFit s d xs parent
termination_by structural xs => xs

end

mutual

/-- The variables of a selection of a type. -/
def usages (s : TypeSystem) : Selection → String → List Usage
  | .field _ name arguments directives selections, parent =>
    match s.fieldOf? parent name with
    | none => []
    | some f =>
      argumentUsages s f.arguments arguments ++ directiveUsages s directives ++
        allUsages s selections f.type.base
  | .spread _ directives, _ => directiveUsages s directives
  | .inline _ directives selections, parent =>
    directiveUsages s directives ++ allUsages s selections parent
termination_by structural s => s

/-- The variables of several selections of a type. -/
def allUsages (s : TypeSystem) : List Selection → String → List Usage
  | [], _ => []
  | x :: xs, parent => usages s x parent ++ allUsages s xs parent
termination_by structural xs => xs

end

end Selection

/-! ## Fields with one name in the answer -/

/-- A field without what it is named in the answer. -/
structure FieldShape where
  name : String
  arguments : List (String × Literal)
  directives : List Directive
  selections : List Selection

mutual

/-- The same literal up to the order of fields. -/
def Literal.alike : Literal → Literal → Bool
  | .variable a, .variable b => a == b
  | .int a, .int b => a == b
  | .float a, .float b => a == b
  | .string a, .string b => a == b
  | .bool a, .bool b => a == b
  | .null, .null => true
  | .name a, .name b => a == b
  | .list as, .list bs => allAlike as bs
  | .object as, .object bs => as.length == bs.length && fieldsAlike as bs
  | _, _ => false
termination_by structural l => l

/-- The same literals in the same order. -/
def allAlike : List Literal → List Literal → Bool
  | [], [] => true
  | a :: as, b :: bs => a.alike b && allAlike as bs
  | _, _ => false
termination_by structural ls => ls

/-- Every field is among others with the same literal. -/
def fieldsAlike : List (String × Literal) → List (String × Literal) → Bool
  | [], _ => true
  | (name, a) :: as, bs =>
    (match bs.lookup name with
      | some b => a.alike b
      | none => false) && fieldsAlike as bs
termination_by structural ls => ls

end

/-- Values put together by key, the keys in the order of their first values. -/
def gather {α : Type} (pairs : List (String × α)) : List (String × List α) :=
  (pairs.map (·.1)).eraseDups.map fun key =>
    (key, (pairs.filter fun p => p.1 == key).map (·.2))

mutual

/-- The fields of a selection by their names in the answer. -/
def Selection.fields : Selection → List (String × FieldShape)
  | .field label name arguments directives selections =>
    [(label.getD name, ⟨name, arguments, directives, selections⟩)]
  | .spread _ _ => []
  | .inline _ _ selections => fieldsOfAll selections
termination_by structural s => s

/-- The fields of several selections by their names in the answer. -/
def fieldsOfAll : List Selection → List (String × FieldShape)
  | [] => []
  | x :: xs => x.fields ++ fieldsOfAll xs
termination_by structural xs => xs

end

/-- The same field with the same arguments. -/
def FieldShape.alike (a b : FieldShape) : Bool :=
  a.name == b.name && a.arguments.length == b.arguments.length &&
    fieldsAlike a.arguments b.arguments

/-- Fields with one name in the answer are one field, to a depth. -/
def areMergeable : Nat → List Selection → Bool
  | 0, _ => true
  | depth + 1, selections =>
    (gather (fieldsOfAll selections)).all fun (_, fields) =>
      (match fields with
        | [] => true
        | f :: fs => fs.all f.alike) &&
        areMergeable depth (fields.flatMap (·.selections))

/-! ## Operations -/

/-- The type whose fields an operation selects. -/
def OperationDefinition.root (o : OperationDefinition) : String :=
  match o.kind with
  | .query => queryName
  | .mutation => mutationName
  | .subscription => ""

/-- The variable may stand where it is used. -/
def Usage.isAllowed (definitions : List VariableDefinition) (u : Usage) : Bool :=
  match definitions.find? fun d => d.name = u.name with
  | none => false
  | some d =>
    let hasDefault := d.defaultValue.any fun l => !l matches .null
    match u.type with
    | none => true
    | some t =>
      if t.isNonNull && !d.type.isNonNull then hasDefault && d.type.isWithin t.nullable
      else d.type.isWithin t

/-- The variable is declared with a type that clients can send, and a default value of it. -/
def VariableDefinition.fits (s : TypeSystem) (d : VariableDefinition) : Bool :=
  s.isInput d.type.base && d.directives.isEmpty &&
    d.defaultValue.all fun l => l.fits s d.type

namespace Document

/-- The operation asks its root for fields, and its variables are declared and used. -/
def operationFits (d : Document) (s : TypeSystem) (o : OperationDefinition) : Bool :=
  let selections := d.expanded o
  let usages := Selection.allUsages s selections o.root
  o.directives.isEmpty && (s.objectFields? o.root).isSome &&
    Selection.allFit s d o.selections o.root &&
    areDistinct (o.parameters.map (·.name)) && o.parameters.all (·.fits s) &&
    usages.all (·.isAllowed o.parameters) &&
    (o.parameters.all fun v => usages.any fun u => u.name = v.name) &&
    areMergeable (Selection.nestingOfAll selections) selections

/-- The fragment asks its type for fields, is used and does not contain itself. -/
def fragmentFits (d : Document) (s : TypeSystem) (f : FragmentDefinition) : Bool :=
  f.directives.isEmpty && (s.objectFields? f.on).isSome &&
    Selection.allFit s d f.selections f.on &&
    !(d.fragmentsIn f.selections).contains f.name &&
    d.operations.any fun o => (d.fragmentsIn o.selections).contains f.name

/-- The operations can be told apart. -/
def operationsDiffer (d : Document) : Bool :=
  let names := d.operations.filterMap (·.name)
  areDistinct names && (d.operations.length ≤ 1 || names.length == d.operations.length)

/-- The document obeys all rules. -/
def isValid (d : Document) (s : TypeSystem) : Bool :=
  d.operationsDiffer && areDistinct (d.fragments.map (·.name)) &&
    d.fragments.all (d.fragmentFits s) && d.operations.all (d.operationFits s)

end Document

end TableGraph.Graph
