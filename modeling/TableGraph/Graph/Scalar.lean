import TableGraph.BigInteger
import TableGraph.Codec
import TableGraph.Graph.Grammar
import TableGraph.Graph.TypeSystem

/-!
# Scalars and enumerations

The values of a leaf type in its three forms: written in a document, sent as a variable, and shown
in an answer.  Ordinary integers have 32 bits.
-/

namespace TableGraph.Graph

/-- A value of the query language breaks a rule of its type. -/
def misfit (v : Value) (type : String) : Fault := .graph (type ++ " cannot represent " ++ v.quoted)

/-- The number has 32 bits. -/
def isOrdinary (n : Int) : Bool := IntegerKind.regular.holds n

/-- The whole number digits stand for, if it has 32 bits. -/
def ordinaryOfDigits (digits : String) : Option Value :=
  match Numeral.integer digits with
  | .ok n => if isOrdinary n then some (.int n) else none
  | .error _ => none

/-- A number as the value of a float. -/
def floatOf (x : Except Fault Binary64) : Option Value :=
  match x with
  | .ok x => some (.float x)
  | .error _ => none

namespace Literal

mutual

/-- The value a literal denotes on its own, names of values being texts. -/
def plain (bindings : List (String × Value)) : Literal → Value
  | .variable v => (bindings.lookup v).getD .null
  | .int digits =>
    match Numeral.integer digits with
    | .ok n => .int n
    | .error _ => .null
  | .float digits => .float ((Binary64.ofText? digits).getD .nan)
  | .string s => .text s
  | .bool b => .bool b
  | .null => .null
  | .name n => .text n
  | .list items => .list (plainItems bindings items)
  | .object fields => .object (plainFields bindings fields)
termination_by structural l => l

/-- The values of several literals. -/
def plainItems (bindings : List (String × Value)) : List Literal → List Value
  | [] => []
  | l :: ls => plain bindings l :: plainItems bindings ls
termination_by structural ls => ls

/-- The values of the fields of an object. -/
def plainFields (bindings : List (String × Value)) :
    List (String × Literal) → List (String × Value)
  | [] => []
  | (key, l) :: fields => (key, plain bindings l) :: plainFields bindings fields
termination_by structural fields => fields

end

end Literal

namespace ScalarKind

/-- The value of a scalar that a literal stands for. -/
def ofLiteral? (bindings : List (String × Value)) : ScalarKind → Literal → Option Value
  | .int, .int digits => ordinaryOfDigits digits
  | .float, .int digits | .float, .float digits => floatOf (Codec.floatOfText digits)
  | .string, .string s => some (.text s)
  | .boolean, .bool b => some (.bool b)
  | .bigInteger, l => (bigIntegerOfLiteral l).toOption.map .int
  | .custom, l => some (l.plain bindings)
  | _, _ => none

/-- The value of a scalar that a variable stands for. -/
def ofValue? : ScalarKind → Value → Option Value
  | .int, .int n => if isOrdinary n then some (.int n) else none
  | .int, .float x =>
    match x.isInteger, x.truncate? with
    | true, some n => if isOrdinary n then some (.int n) else none
    | _, _ => none
  | .float, .int n => floatOf (Codec.floatOfWhole n)
  | .float, .float (.finite s m e) => some (.float (.finite s m e))
  | .string, .text s => some (.text s)
  | .boolean, .bool b => some (.bool b)
  | .bigInteger, v => (BigInteger.coerce v).toOption.map .int
  | .custom, v => some v
  | _, _ => none

/-- A value shown as an ordinary integer. -/
def showInt (v : Value) : Except Fault Value :=
  let within (n : Int) : Except Fault Value :=
    if isOrdinary n then .ok (.int n) else .error (misfit v "Int")
  match v with
  | .bool b => .ok (.int (if b then 1 else 0))
  | .float x =>
    match x.isInteger, x.truncate? with
    | true, some n => within n
    | _, _ => .error (misfit v "Int")
  | v =>
    match Codec.toWhole v with
    | .ok n => within n
    | .error _ => .error (misfit v "Int")

/-- A value shown as a float. -/
def showFloat (v : Value) : Except Fault Value :=
  match v with
  | .bool b => .ok (.int (if b then 1 else 0))
  | v =>
    match Codec.toFloat v with
    | .ok (.finite s m e) => .ok (.float (.finite s m e))
    | _ => .error (misfit v "Float")

/-- A value shown as a text. -/
def showText (v : Value) : Except Fault Value :=
  match v with
  | .bool b => .ok (.text (if b then "true" else "false"))
  | .text s => .ok (.text s)
  | .float (.finite s m e) => .ok (.text (Value.float (.finite s m e)).shown)
  | .int _ | .decimal _ | .date _ | .time _ | .dateTime _ | .uuid _ => .ok (.text v.shown)
  | v => .error (misfit v "String")

/-- A value shown as a truth value. -/
def showBool (v : Value) : Except Fault Value :=
  match v with
  | .bool b => .ok (.bool b)
  | .int n => .ok (.bool (n != 0))
  | .float (.finite _ m _) => .ok (.bool (m != 0))
  | v => .error (misfit v "Boolean")

/-- A value as an answer shows it. -/
def shown : ScalarKind → Value → Except Fault Value
  | .int, v => showInt v
  | .float, v => showFloat v
  | .string, v => showText v
  | .boolean, v => showBool v
  | .bigInteger, v => .int <$> BigInteger.coerce v
  | .custom, v => .ok v

end ScalarKind

/-- The name of an enumeration's value. -/
def nameOfValue (type : String) (values : List (String × Value)) (v : Value) :
    Except Fault Value :=
  match values.find? fun (_, raw) => raw.same v with
  | some (name, _) => .ok (.text name)
  | none => .error (misfit v type)

end TableGraph.Graph
