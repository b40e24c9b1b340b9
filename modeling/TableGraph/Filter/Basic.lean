import TableGraph.Codec
import TableGraph.Projection

/-!
# Filters

A filter is a tree of tests on columns with conjunctions and disjunctions.  `Filter.ofValue` reads
one from what a client sends: every entry of an object is a conjunct, `and` adds the conjuncts of
its subtrees, `or` one disjunction of them, and null adds nothing.  Operands become values of the
column in passing.  `Filter.predicate` is the condition on rows.
-/

namespace TableGraph

/-- A filter of the rows of an entity. -/
inductive Filter
  | test (column : String) (t : Test Value)
  | all (fs : List Filter)
  | any (fs : List Filter)
  deriving Inhabited

namespace Filter

/-! ## Tests of a column -/

/-- The fault of an operand as the fault of the filter that holds it. -/
def located (path : String) : Fault → Fault
  | .conversion _ detail => .filter path detail
  | .wrongKind detail => .filter path detail
  | .unreadable detail => .filter path detail
  | f => f

/-- An operand as a value of the column. -/
def decode (codec : Codec) (f : ColumnField) (path : String) (v : Value) : Except Fault Value :=
  match v with
  | .null => .ok .null
  | v =>
    match f.override.bind (·.input) with
    | some convert => (convert v).mapError (located path)
    | none => (codec.parse f.path f.column.type v).mapError (located path)

/-- The operands of an operator that takes a list. -/
def decodeList (codec : Codec) (f : ColumnField) (path : String) (v : Value) :
    Except Fault (List Value) :=
  match v with
  | .list items | .tuple items => items.mapM (decode codec f path)
  | _ => .error (.filter path "expected a list")

/-- The two bounds of a range. -/
def bounds (path : String) : List Value → Except Fault (Value × Value)
  | [low, high] => .ok (low, high)
  | vs => .error (.filter path s!"expected exactly 2 values, got {vs.length}")

/-- The text of a pattern. -/
def patternText (path : String) : Value → Except Fault String
  | .null => .error (.filter path "pattern must not be null")
  | v => .ok v.shown

/-- The operand of an operator that does not take null. -/
def present (path : String) : Value → Except Fault Value
  | .null => .error (.filter path "value must not be null")
  | v => .ok v

/-- The text that has to be part of another. -/
def needleText : Value → Except Fault String
  | .text s => .ok s
  | _ => .error (.wrongKind "String value expected when autoescape=True")

/-- What an operator with its operand asks of a column. -/
def columnTest (codec : Codec) (f : ColumnField) (path : String) (o : Operator) (v : Value) :
    Except Fault (Test Value) :=
  let compared (c : Comparison) : Except Fault (Test Value) := do
    let operand ← decode codec f path v
    let operand ← present path operand
    Test.ordered c operand
  let contained (place : Place) : Except Fault (Test Value) := do
    let operand ← decode codec f path v
    let operand ← present path operand
    .part place <$> needleText operand
  match o with
  | .isIn => .among false <$> decodeList codec f path v
  | .isNotIn => .among true <$> decodeList codec f path v
  | .between => do
    let (low, high) ← bounds path (← decodeList codec f path v)
    .ok (.between false low high)
  | .notBetween => do
    let (low, high) ← bounds path (← decodeList codec f path v)
    .ok (.between true low high)
  | .isNull => .ok (.null false)
  | .isNotNull => .ok (.null true)
  | .like => .like false <$> patternText path v
  | .notLike => .like true <$> patternText path v
  | .eq => .equals false <$> decode codec f path v
  | .ne => .equals true <$> decode codec f path v
  | .gt => compared .gt
  | .gte => compared .ge
  | .lt => compared .lt
  | .lte => compared .le
  | .contains => contained .anywhere
  | .startsWith => contained .start
  | .endsWith => contained .finish

/-- The operator of a name, if the filter of the field has it. -/
def operatorOf (f : ColumnField) (filter : ColumnFilter) (name : String) :
    Except Fault Operator :=
  match (Operator.ofName? name).filter filter.operators.contains with
  | some o => .ok o
  | none =>
    .error (.filter (f.path ++ "." ++ name) ("operator not supported by " ++ filter.typeName))

/-- The tests a client's object of operators asks for. -/
def columnTests (codec : Codec) (f : ColumnField) (filter : ColumnFilter) :
    List (String × Value) → Except Fault (List Filter)
  | [] => .ok []
  | (name, v) :: rest => do
    let o ← operatorOf f filter name
    let t ← columnTest codec f (f.path ++ "." ++ name) o v
    let ts ← columnTests codec f filter rest
    .ok (.test f.column.name t :: ts)

/-- The operators a client sends for a field. -/
def operatorsOf : Value → Except Fault (List (String × Value))
  | .object fields => .ok fields
  | _ => .error .noMember

/-- What a client's entry for a field asks for; null asks for nothing. -/
def fieldTests (codec : Codec) (p : Projection) (name : String) (v : Value) :
    Except Fault (List Filter) :=
  match p.filterFields.find? fun f => f.name = name with
  | none => .error (.filter s!"{p.typeName}.{name}" "field is not filterable")
  | some f =>
    match f.filter, v with
    | _, .null => .ok []
    | none, _ => .ok []
    | some filter, v => do
      let operators ← operatorsOf v
      columnTests codec f filter operators

/-! ## Trees -/

mutual

/-- The conjuncts of a tree; what counts as absent has none. -/
def conjuncts (codec : Codec) (p : Projection) : Value → Except Fault (List Filter)
  | .object fields => entries codec p fields
  | v => if v.isTruthy then .error .noMember else .ok []
termination_by structural v => v

/-- The conjuncts of the entries of a tree. -/
def entries (codec : Codec) (p : Projection) : List (String × Value) → Except Fault (List Filter)
  | [] => .ok []
  | (name, v) :: rest => do
    let fs ←
      if name = "and" then do
        let trees ← subtrees codec p v
        .ok (trees.map .all)
      else if name = "or" then do
        let trees ← subtrees codec p v
        .ok (if trees.isEmpty then [] else [.any (trees.map .all)])
      else fieldTests codec p name v
    let gs ← entries codec p rest
    .ok (fs ++ gs)
termination_by structural fields => fields

/-- The conjuncts of each tree of a list. -/
def subtrees (codec : Codec) (p : Projection) : Value → Except Fault (List (List Filter))
  | .list items => branches codec p items
  | .tuple items => branches codec p items
  | .object fields =>
    -- the names of the fields stand for trees, and an empty one counts as absent
    if fields.all (·.1.isEmpty) then .ok (fields.map fun _ => []) else .error .noMember
  | .text s => if s.isEmpty then .ok [] else .error .noMember
  | v => if v.isTruthy then .error (.wrongKind "not a list of filters") else .ok []
termination_by structural v => v

/-- The conjuncts of each tree. -/
def branches (codec : Codec) (p : Projection) : List Value → Except Fault (List (List Filter))
  | [] => .ok []
  | v :: vs => do
    let tree ← conjuncts codec p v
    let trees ← branches codec p vs
    .ok (tree :: trees)
termination_by structural vs => vs

end

/-- Reads a filter of the rows of an entity. -/
def ofValue (codec : Codec) (p : Projection) (v : Value) : Except Fault Filter :=
  .all <$> conjuncts codec p v

mutual

/-- The condition of a filter. -/
def predicate : Filter → Predicate Value
  | test column t => .test column t
  | all fs => .allOf (predicates fs)
  | any fs => .anyOf (predicates fs)
termination_by structural f => f

/-- The conditions of several filters. -/
def predicates : List Filter → List (Predicate Value)
  | [] => []
  | f :: fs => f.predicate :: predicates fs
termination_by structural fs => fs

end

/-- The condition of what a client sends. -/
def compile (codec : Codec) (p : Projection) (v : Value) : Except Fault (Predicate Value) :=
  predicate <$> ofValue codec p v

end Filter

end TableGraph
