/-!
# Documents of the query language

The parts of a request as they are written: literals, references to types, selections, and
operations and fragments made of them.

`Selection.expand` replaces the use of a fragment by a fragment without a name that has the same
selections.  A fragment that does not exist, or that stands inside itself, is replaced by nothing.
-/

namespace TableGraph.Graph

/-- A written value. -/
inductive Literal
  | variable (name : String)
  | int (digits : String)
  | float (digits : String)
  | string (s : String)
  | bool (b : Bool)
  | null
  | name (n : String)
  | list (items : List Literal)
  | object (fields : List (String × Literal))
  deriving Inhabited, Repr

/-- A written type. -/
inductive TypeRef
  | named (name : String)
  | list (inner : TypeRef)
  | nonNull (inner : TypeRef)
  deriving DecidableEq, Inhabited, Repr

/-- A directive with its arguments. -/
structure Directive where
  name : String
  arguments : List (String × Literal)
  deriving Inhabited

/-- A field, the use of a fragment, or a fragment without a name. -/
inductive Selection
  | field (label : Option String) (name : String) (arguments : List (String × Literal))
      (directives : List Directive) (selections : List Selection)
  | spread (name : String) (directives : List Directive)
  | inline (on : Option String) (directives : List Directive) (selections : List Selection)
  deriving Inhabited

/-- What an operation does. -/
inductive OperationKind
  | query
  | mutation
  | subscription
  deriving DecidableEq, Repr

/-- A variable of an operation. -/
structure VariableDefinition where
  name : String
  type : TypeRef
  defaultValue : Option Literal
  directives : List Directive

/-- An operation of a document. -/
structure OperationDefinition where
  kind : OperationKind
  name : Option String
  parameters : List VariableDefinition
  directives : List Directive
  selections : List Selection

/-- A fragment of a document. -/
structure FragmentDefinition where
  name : String
  on : String
  directives : List Directive
  selections : List Selection

/-- A definition of a document. -/
inductive Definition
  | operation (o : OperationDefinition)
  | fragment (f : FragmentDefinition)

/-- The definitions of a request, in order. -/
abbrev Document := List Definition

namespace TypeRef

/-- The name of the innermost type. -/
def base : TypeRef → String
  | named name => name
  | list inner => inner.base
  | nonNull inner => inner.base

/-- The type with null added. -/
def nullable : TypeRef → TypeRef
  | nonNull inner => inner
  | t => t

/-- The type is without null. -/
def isNonNull : TypeRef → Bool
  | nonNull _ => true
  | _ => false

/-- The written form of a type. -/
def text : TypeRef → String
  | named name => name
  | list inner => "[" ++ inner.text ++ "]"
  | nonNull inner => inner.text ++ "!"

/-- Every value of the first type is one of the second. -/
def isWithin : TypeRef → TypeRef → Bool
  | nonNull a, nonNull b => a.isWithin b
  | _, nonNull _ => false
  | nonNull a, b => a.isWithin b
  | list a, list b => a.isWithin b
  | named a, named b => a == b
  | _, _ => false

end TypeRef

namespace Document

/-- The operations of a document. -/
def operations (d : Document) : List OperationDefinition :=
  d.filterMap fun
    | .operation o => some o
    | .fragment _ => none

/-- The fragments of a document. -/
def fragments (d : Document) : List FragmentDefinition :=
  d.filterMap fun
    | .operation _ => none
    | .fragment f => some f

/-- The fragment of a name; of several the last one counts. -/
def fragment? (d : Document) (name : String) : Option FragmentDefinition :=
  d.fragments.reverse.find? fun f => f.name = name

end Document

/-! ## Fragments put in their place -/

namespace Fragments

/-- The fragment a name stands for among several; of equal names the last one counts. -/
def find? (fragments : List FragmentDefinition) (name : String) : Option FragmentDefinition :=
  fragments.reverse.find? fun f => f.name = name

/-- The fragments of other names. -/
def others (fragments : List FragmentDefinition) (name : String) : List FragmentDefinition :=
  fragments.filter fun f => f.name ≠ name

theorem length_others_lt {fragments : List FragmentDefinition} {name : String}
    {f : FragmentDefinition} (h : find? fragments name = some f) :
    (others fragments name).length < fragments.length := by
  have hm : f ∈ fragments := List.mem_reverse.1 (List.mem_of_find?_eq_some h)
  have hn : f.name = name := by simpa using List.find?_some h
  exact List.length_filter_lt_length_iff_exists.2 ⟨f, hm, by simp [hn]⟩

end Fragments

namespace Selection

mutual

/-- The selection with fragments in their place; `fragments` are those that may be expanded. -/
def expand (fragments : List FragmentDefinition) : Selection → Selection
  | .field label name arguments directives selections =>
    .field label name arguments directives (expandAll fragments selections)
  | .inline on directives selections => .inline on directives (expandAll fragments selections)
  | .spread name directives =>
    match h : Fragments.find? fragments name with
    | none => .inline none directives []
    | some f =>
      have := Fragments.length_others_lt h
      .inline (some f.on) directives (expandAll (Fragments.others fragments name) f.selections)
termination_by s => (fragments.length, sizeOf s)

/-- Several selections with fragments in their place. -/
def expandAll (fragments : List FragmentDefinition) : List Selection → List Selection
  | [] => []
  | s :: ss => expand fragments s :: expandAll fragments ss
termination_by ss => (fragments.length, sizeOf ss)

end

mutual

/-- The names of the fragments that are used in a selection. -/
def spreads : Selection → List String
  | .field _ _ _ _ selections => spreadsOfAll selections
  | .inline _ _ selections => spreadsOfAll selections
  | .spread name _ => [name]
termination_by structural s => s

/-- The names of the fragments that are used in several selections. -/
def spreadsOfAll : List Selection → List String
  | [] => []
  | s :: ss => spreads s ++ spreadsOfAll ss
termination_by structural ss => ss

end

mutual

/-- The number of fields and fragments inside one another at most. -/
def nesting : Selection → Nat
  | .field _ _ _ _ selections => nestingOfAll selections + 1
  | .inline _ _ selections => nestingOfAll selections + 1
  | .spread _ _ => 1
termination_by structural s => s

/-- The greatest nesting of several selections. -/
def nestingOfAll : List Selection → Nat
  | [] => 0
  | s :: ss => max (nesting s) (nestingOfAll ss)
termination_by structural ss => ss

end

end Selection

namespace Document

/-- The selections of an operation with fragments in their place. -/
def expanded (d : Document) (o : OperationDefinition) : List Selection :=
  Selection.expandAll d.fragments o.selections

/-- The fragments used by those of the given names, the names themselves included. -/
def reachable (d : Document) : Nat → List String → List String
  | 0, names => names
  | steps + 1, names =>
    let inside := d.fragments.filter fun f => names.contains f.name
    let more := inside.flatMap fun f => Selection.spreadsOfAll f.selections
    reachable d steps (names ++ more).eraseDups

/-- The fragments that selections use, directly or through others. -/
def fragmentsIn (d : Document) (selections : List Selection) : List String :=
  d.reachable d.fragments.length (Selection.spreadsOfAll selections)

end Document

end TableGraph.Graph
