import TableGraph.Graph.Scalar

/-!
# Values of input types

What clients send, written in the document or as variables, as values of the types that are asked
for.  A single value stands for a list of one, and the fields of an object come in the order of the
type.  `Literal.fits` tells whether a literal is of a type whatever its variables stand for;
`Literal.usages` tells the types that its variables must have.
-/

namespace TableGraph.Graph

namespace TypeRef

/-- The number of lists around the innermost type. -/
def layers : TypeRef → Nat
  | named _ => 0
  | list inner => inner.layers + 1
  | nonNull inner => inner.layers

end TypeRef

/-- A value inside a number of lists of one. -/
def inLists : Nat → Value → Value
  | 0, v => v
  | n + 1, v => .list [inLists n v]

/-- Fields in the order of the type, if those that cannot be null are there. -/
def arrange (fields : List (String × Value)) : List InputField → Option (List (String × Value))
  | [] => some []
  | f :: fs =>
    match fields.lookup f.name with
    | some v => ((f.name, v) :: ·) <$> arrange fields fs
    | none => if f.type.isNonNull then none else arrange fields fs

/-- The type of a field among others. -/
def typeOf? (fields : List InputField) (name : String) : Option TypeRef :=
  (fields.find? fun f => f.name = name).map (·.type)

/-! ## Variables -/

/-- A value of a scalar or an enumeration. -/
def leafOfValue? (s : TypeSystem) (type : String) (v : Value) : Option Value :=
  match s.body? type with
  | some (.scalar kind) => kind.ofValue? v
  | some (.enumeration values) =>
    match v with
    | .text name => values.lookup name
    | _ => none
  | _ => none

mutual

/-- A value a client sends as a value of a type. -/
def ofValue? (s : TypeSystem) : Value → TypeRef → Option Value
  | .null, t => if t.isNonNull then none else some .null
  | .list items, t =>
    match t.nullable with
    | .list inner => .list <$> ofItems? s items inner
    | t => leafOfValue? s t.base (.list items)
  | .object fields, t =>
    match s.inputFields? t.base with
    | none => inLists t.layers <$> leafOfValue? s t.base (.object fields)
    | some types => do
      let sent ← ofFields? s fields types
      let arranged ← arrange sent types
      some (inLists t.layers (.object arranged))
  | v, t => inLists t.layers <$> leafOfValue? s t.base v
termination_by structural v => v

/-- Several values of a type. -/
def ofItems? (s : TypeSystem) : List Value → TypeRef → Option (List Value)
  | [], _ => some []
  | v :: vs, t => do
    let a ← ofValue? s v t
    let as ← ofItems? s vs t
    some (a :: as)
termination_by structural vs => vs

/-- The fields of an object, which the type must know. -/
def ofFields? (s : TypeSystem) :
    List (String × Value) → List InputField → Option (List (String × Value))
  | [], _ => some []
  | (name, v) :: fields, types => do
    let t ← typeOf? types name
    let a ← ofValue? s v t
    let as ← ofFields? s fields types
    some ((name, a) :: as)
termination_by structural fields => fields

end

/-! ## Literals -/

/-- A scalar or the value of an enumeration that a literal stands for. -/
def leafOfLiteral? (s : TypeSystem) (bindings : List (String × Value)) (type : String)
    (l : Literal) : Option Value :=
  match s.body? type with
  | some (.scalar kind) => kind.ofLiteral? bindings l
  | some (.enumeration values) =>
    match l with
    | .name n => values.lookup n
    | _ => none
  | _ => none

/-- The literal is a variable that has no value. -/
def isAbsent (bindings : List (String × Value)) : Literal → Bool
  | .variable v => (bindings.lookup v).isNone
  | _ => false

/-- The value of a variable, which must not be null where null is not allowed. -/
def ofVariable? (bindings : List (String × Value)) (v : String) (t : TypeRef) : Option Value :=
  match bindings.lookup v with
  | some .null => if t.isNonNull then none else some .null
  | found => found

mutual

/-- A literal as a value of a type. -/
def ofLiteral? (s : TypeSystem) (bindings : List (String × Value)) :
    Literal → TypeRef → Option Value
  | .variable v, t => ofVariable? bindings v t
  | .null, t => if t.isNonNull then none else some .null
  | .list items, t =>
    match t.nullable with
    | .list inner => .list <$> ofLiterals? s bindings items inner
    | t => leafOfLiteral? s bindings t.base (.list items)
  | .object fields, t =>
    match s.inputFields? t.base with
    | none => inLists t.layers <$> leafOfLiteral? s bindings t.base (.object fields)
    | some types => do
      let written ← ofWritten? s bindings fields types
      let arranged ← arrange written types
      some (inLists t.layers (.object arranged))
  | l, t => inLists t.layers <$> leafOfLiteral? s bindings t.base l
termination_by structural l => l

/-- Several literals of a type; a variable without a value is null. -/
def ofLiterals? (s : TypeSystem) (bindings : List (String × Value)) :
    List Literal → TypeRef → Option (List Value)
  | [], _ => some []
  | l :: ls, t => do
    let a ←
      if isAbsent bindings l then (if t.isNonNull then none else some .null)
      else ofLiteral? s bindings l t
    let as ← ofLiterals? s bindings ls t
    some (a :: as)
termination_by structural ls => ls

/-- The fields of an object; a variable without a value leaves its field out. -/
def ofWritten? (s : TypeSystem) (bindings : List (String × Value)) :
    List (String × Literal) → List InputField → Option (List (String × Value))
  | [], _ => some []
  | (name, l) :: fields, types => do
    let as ← ofWritten? s bindings fields types
    match typeOf? types name with
    | none => some as
    | some t =>
      if isAbsent bindings l then some as
      else do
        let a ← ofLiteral? s bindings l t
        some ((name, a) :: as)
termination_by structural fields => fields

end

/-! ## Arguments -/

/-- The value of an argument, none if it is left out. -/
def argumentValue (s : TypeSystem) (bindings : List (String × Value)) (f : InputField)
    (given : Option Literal) : Except Fault (Option Value) :=
  match given.filter (!isAbsent bindings ·) with
  | none =>
    if f.type.isNonNull then .error (.graph s!"argument {f.name} is missing") else .ok none
  | some l =>
    match ofLiteral? s bindings l f.type with
    | some v => .ok (some v)
    | none => .error (.graph s!"argument {f.name} is invalid")

/-- The values of the arguments of a field that are not left out. -/
def argumentValues (s : TypeSystem) (bindings : List (String × Value))
    (given : List (String × Literal)) : List InputField → Except Fault (List (String × Value))
  | [] => .ok []
  | f :: fs => do
    let v ← argumentValue s bindings f (given.lookup f.name)
    let vs ← argumentValues s bindings given fs
    .ok (match v with
      | some v => (f.name, v) :: vs
      | none => vs)

/-- The values of the variables of an operation, from what a client sends. -/
def variableValues (s : TypeSystem) (sent : List (String × Value)) :
    List VariableDefinition → Option (List (String × Value))
  | [] => some []
  | d :: ds => do
    let vs ← variableValues s sent ds
    match sent.lookup d.name, d.defaultValue with
    | some v, _ => do
      let a ← ofValue? s v d.type
      some ((d.name, a) :: vs)
    | none, some l => do
      let a ← ofLiteral? s [] l d.type
      some ((d.name, a) :: vs)
    | none, none => if d.type.isNonNull then none else some vs

/-! ## Literals on their own -/

/-- No name occurs twice. -/
def areDistinct (names : List String) : Bool := decide names.Nodup

/-- The fields that cannot be left out are there. -/
def hasRequired (types : List InputField) (names : List String) : Bool :=
  types.all fun f => !f.type.isNonNull || names.contains f.name

mutual

/-- The literal is of a type, whatever its variables stand for. -/
def Literal.fits (s : TypeSystem) : Literal → TypeRef → Bool
  | .variable _, _ => true
  | .null, t => !t.isNonNull
  | .list items, t =>
    match t.nullable with
    | .list inner => fitAll s items inner
    | t => (leafOfLiteral? s [] t.base (.list items)).isSome
  | .object fields, t =>
    match s.inputFields? t.base with
    | none => (leafOfLiteral? s [] t.base (.object fields)).isSome
    | some types =>
      areDistinct (fields.map (·.1)) && hasRequired types (fields.map (·.1)) &&
        fitFields s fields types
  | l, t => (leafOfLiteral? s [] t.base l).isSome
termination_by structural l => l

/-- Several literals are of a type. -/
def fitAll (s : TypeSystem) : List Literal → TypeRef → Bool
  | [], _ => true
  | l :: ls, t => l.fits s t && fitAll s ls t
termination_by structural ls => ls

/-- The fields are known and of their types. -/
def fitFields (s : TypeSystem) : List (String × Literal) → List InputField → Bool
  | [], _ => true
  | (name, l) :: fields, types =>
    (match typeOf? types name with
      | some t => l.fits s t
      | none => false) && fitFields s fields types
termination_by structural fields => fields

end

/-- The use of a variable where a type is asked for; no type if any will do. -/
structure Usage where
  name : String
  type : Option TypeRef

mutual

/-- The variables of a literal with the types they stand for. -/
def Literal.usages (s : TypeSystem) : Literal → Option TypeRef → List Usage
  | .variable v, t => [⟨v, t⟩]
  | .list items, t =>
    usagesOfAll s items (t.map fun t =>
      match t.nullable with
      | .list inner => inner
      | t => t)
  | .object fields, t => usagesOfFields s fields ((t.bind fun t => s.inputFields? t.base).getD [])
  | _, _ => []
termination_by structural l => l

/-- The variables of several literals. -/
def usagesOfAll (s : TypeSystem) : List Literal → Option TypeRef → List Usage
  | [], _ => []
  | l :: ls, t => l.usages s t ++ usagesOfAll s ls t
termination_by structural ls => ls

/-- The variables of the fields of an object. -/
def usagesOfFields (s : TypeSystem) : List (String × Literal) → List InputField → List Usage
  | [], _ => []
  | (name, l) :: fields, types =>
    l.usages s (typeOf? types name) ++ usagesOfFields s fields types
termination_by structural fields => fields

end

end TableGraph.Graph
