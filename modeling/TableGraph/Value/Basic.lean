import TableGraph.Calendar.DateTime
import TableGraph.Number.Decimal
import TableGraph.Value.Uuid

/-!
# Values

One type for what requests carry, what columns hold and what answers show.  Two equalities live on
it: `beq` is equality of the data, and `same` also identifies numbers of the same size whatever
their type, moments that coincide, and objects that differ in the order of their fields only.
-/

namespace TableGraph

/-- A value of a request, a column or an answer. -/
inductive Value
  | null
  | bool (b : Bool)
  | int (n : Int)
  | float (x : Binary64)
  | decimal (d : Decimal)
  | text (s : String)
  | bytes (bs : List UInt8)
  | date (d : Date)
  | time (t : Time)
  | dateTime (t : DateTime)
  | uuid (u : Uuid)
  | list (items : List Value)
  | tuple (items : List Value)
  | object (fields : List (String × Value))
  /-- A member of an enumeration that carries a value of its own. -/
  | member (value : Value)
  deriving Inhabited

namespace Value

/-! ## Equality of the data -/

mutual

/-- Equality of the data. -/
def beq : Value → Value → Bool
  | null, null => true
  | bool a, bool b => a == b
  | int a, int b => a == b
  | float a, float b => a == b
  | decimal a, decimal b => a == b
  | text a, text b => a == b
  | bytes a, bytes b => a == b
  | date a, date b => a == b
  | time a, time b => a == b
  | dateTime a, dateTime b => a == b
  | uuid a, uuid b => a == b
  | list as, list bs => beqItems as bs
  | tuple as, tuple bs => beqItems as bs
  | object as, object bs => beqFields as bs
  | member a, member b => a.beq b
  | _, _ => false
termination_by structural v => v

/-- Equality of lists of values. -/
def beqItems : List Value → List Value → Bool
  | [], [] => true
  | a :: as, b :: bs => a.beq b && beqItems as bs
  | _, _ => false
termination_by structural v => v

/-- Equality of fields, in their order. -/
def beqFields : List (String × Value) → List (String × Value) → Bool
  | [], [] => true
  | (k, a) :: as, (l, b) :: bs => k == l && a.beq b && beqFields as bs
  | _, _ => false
termination_by structural v => v

end

instance : BEq Value := ⟨beq⟩

/-! ## Numbers and moments -/

/-- The number a value denotes, truth values counting as zero and one. -/
def number? : Value → Option Decimal
  | bool b => some (.ofInt (if b then 1 else 0))
  | int n => some (.ofInt n)
  | decimal d => some d
  | float (.finite s m e) => Decimal.ofBinary64? (.finite s m e)
  | float (.infinite s) => some (.infinite s)
  | float .nan => some (.nan false false 0)
  | _ => none

/-- The value of a field of an object. -/
def field? (name : String) : Value → Option Value
  | object fields => fields.lookup name
  | _ => none

/-- Two values denote the same number. -/
def sameNumber (a b : Value) : Bool :=
  match a.number?, b.number? with
  | some x, some y => x.compare? y == some .eq
  | _, _ => false

mutual

/-- The same value, whatever type of number it is written with. -/
def same : Value → Value → Bool
  | null, b => match b with | null => true | _ => false
  | text a, b => match b with | text b => a == b | _ => false
  | bytes a, b => match b with | bytes b => a == b | _ => false
  | date a, b => match b with | date b => a == b | _ => false
  | time a, b => match b with | time b => a.same b | _ => false
  | dateTime a, b => match b with | dateTime b => a.same b | _ => false
  | uuid a, b => match b with | uuid b => a == b | _ => false
  | list as, b => match b with | list bs => sameItems as bs | _ => false
  | tuple as, b => match b with | tuple bs => sameItems as bs | _ => false
  | object as, b =>
    match b with
    | object bs => as.length == bs.length && sameFields as bs
    | _ => false
  | member a, b => match b with | member b => a.same b | _ => false
  | bool a, b => sameNumber (bool a) b
  | int a, b => sameNumber (int a) b
  | float a, b => sameNumber (float a) b
  | decimal a, b => sameNumber (decimal a) b
termination_by structural v => v

/-- The same values in the same order. -/
def sameItems : List Value → List Value → Bool
  | [], [] => true
  | a :: as, b :: bs => a.same b && sameItems as bs
  | _, _ => false
termination_by structural v => v

/-- Every field is among others with the same value. -/
def sameFields : List (String × Value) → List (String × Value) → Bool
  | [], _ => true
  | (k, a) :: as, bs =>
    (match bs.lookup k with | some b => a.same b | none => false) && sameFields as bs
termination_by structural v => v

end

/-! ## Emptiness -/

/-- Null, false, zero and what is empty count as absent. -/
def isTruthy : Value → Bool
  | null => false
  | bool b => b
  | int n => n != 0
  | float (.finite _ m _) => m != 0
  | float _ => true
  | decimal (.finite _ c _) => c != 0
  | decimal _ => true
  | text s => !s.isEmpty
  | bytes bs => !bs.isEmpty
  | list items => !items.isEmpty
  | tuple items => !items.isEmpty
  | object fields => !fields.isEmpty
  | _ => true

/-- The value is null. -/
def isNull : Value → Bool
  | null => true
  | _ => false

/-! ## Frozen values -/

mutual

/-- The value with objects and lists as tuples. -/
def freeze : Value → Value
  | list items => tuple (freezeItems items)
  | tuple items => tuple (freezeItems items)
  | object fields => tuple (freezeFields fields)
  | v => v
termination_by structural v => v

/-- Every item frozen. -/
def freezeItems : List Value → List Value
  | [] => []
  | v :: vs => v.freeze :: freezeItems vs
termination_by structural vs => vs

/-- Every field as a pair of its name and its frozen value. -/
def freezeFields : List (String × Value) → List Value
  | [] => []
  | (name, v) :: fields => tuple [text name, v.freeze] :: freezeFields fields
termination_by structural fields => fields

end

end Value

end TableGraph
