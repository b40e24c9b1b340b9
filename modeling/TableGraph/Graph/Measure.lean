import TableGraph.Fault
import TableGraph.Graph.Document

/-!
# The size of operations

The depth of an operation is the length of its longest chain of nested fields, its complexity the
number of its fields, fragments being expanded.  Fields of the language itself are not counted, and
a fragment inside itself contributes nothing.
-/

namespace TableGraph.Graph

/-- The depth and the number of fields of selections. -/
structure Measure where
  depth : Nat
  count : Nat
  deriving DecidableEq, Repr

namespace Measure

/-- Selections without fields. -/
def zero : Measure := ⟨0, 0⟩

/-- One selection beside others. -/
def beside (a b : Measure) : Measure := ⟨max a.depth b.depth, a.count + b.count⟩

/-- A field around selections. -/
def around (a : Measure) : Measure := ⟨a.depth + 1, a.count + 1⟩

mutual

/-- The measure of a selection; `fragments` are those that may still be expanded. -/
def ofSelection (fragments : List FragmentDefinition) : Selection → Measure
  | .field _ name _ _ selections =>
    if "__".isPrefixOf name then zero else (ofSelections fragments selections).around
  | .inline _ _ selections => ofSelections fragments selections
  | .spread name _ =>
    match h : Fragments.find? fragments name with
    | none => zero
    | some f =>
      have := Fragments.length_others_lt h
      ofSelections (Fragments.others fragments name) f.selections
termination_by s => (fragments.length, sizeOf s)

/-- The measure of several selections side by side. -/
def ofSelections (fragments : List FragmentDefinition) : List Selection → Measure
  | [] => zero
  | s :: ss => (ofSelection fragments s).beside (ofSelections fragments ss)
termination_by ss => (fragments.length, sizeOf ss)

end

end Measure

namespace Document

/-- The measure of an operation of the document. -/
def measure (d : Document) (o : OperationDefinition) : Measure :=
  Measure.ofSelections d.fragments o.selections

/-- The complaint about an operation that is nested too deep. -/
def depthComplaint (d : Document) (limit : Option Int) (o : OperationDefinition) : List String :=
  match limit with
  | none => []
  | some most =>
    let depth := (d.measure o).depth
    if most < depth then [s!"Query is nested too deep: {depth} > {most}"] else []

/-- The complaint about an operation with too many fields. -/
def complexityComplaint (d : Document) (limit : Option Int) (o : OperationDefinition) :
    List String :=
  match limit with
  | none => []
  | some most =>
    let count := (d.measure o).count
    if most < count then [s!"Query is too complex: {count} > {most}"] else []

/-- The complaints about operations beyond the limits, operation by operation. -/
def complaints (d : Document) (depth complexity : Option Int) : List String :=
  d.operations.flatMap fun o => d.depthComplaint depth o ++ d.complexityComplaint complexity o

end Document

end TableGraph.Graph
