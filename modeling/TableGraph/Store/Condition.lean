import TableGraph.Predicate.Basic
import TableGraph.Store.Binding

/-!
# Conditions on cells

What a condition says about the cells of a row: it holds, it does not, or it is unknown because a
cell is null.  `Test.bind` prepares the operands of a test for a column, `Predicate.holds` decides a
row.
-/

namespace TableGraph

/-- True, false, or unknown. -/
abbrev Truth := Option Bool

namespace Truth

/-- Neither is false, and both are known. -/
def both : Truth → Truth → Truth
  | some false, _ => some false
  | _, some false => some false
  | some true, some true => some true
  | _, _ => none

/-- One is true, or both are known. -/
def either : Truth → Truth → Truth
  | some true, _ => some true
  | _, some true => some true
  | some false, some false => some false
  | _, _ => none

/-- The opposite where something is known. -/
def negatedIf (negated : Bool) (t : Truth) : Truth := t.map (· != negated)

end Truth

/-- The order of two operands is one the comparison accepts. -/
def Comparison.accepts : Comparison → Ordering → Bool
  | eq, o => o == .eq
  | ne, o => o != .eq
  | gt, o => o == .gt
  | ge, o => o != .lt
  | lt, o => o == .lt
  | le, o => o != .gt

namespace Test

/-- The operands of a test as cells that a column of the type is compared with. -/
def bind (type : SqlType) : Test Value → Except Fault (Test Cell)
  | compare c v => (fun x => .compare c (x.operand (.ofType type))) <$> type.bindOperand v
  | truth negated b =>
    -- a truth value is written as a number
    let x := (Cell.int (if b then 1 else 0)).operand (.ofType type)
    .ok (.compare (if negated then .ne else .eq) x)
  | null negated => .ok (.null negated)
  | among negated vs => do
    -- the first operand tells the type of all, unless one is null
    let type' := match vs with
      | [] => type
      | v :: _ => type.comparedWith v
    let xs ← vs.mapM fun v =>
      match v with
      | .null => .ok .null
      | v => if vs.any (·.isNull) then type.bindOperand v else type'.bind v
    .ok (.among negated (xs.map (Cell.operand (.ofType type))))
  | between negated low high => do
    let low ← type.bindOperand low
    let high ← type.bindOperand high
    .ok (.between negated (low.operand (.ofType type)) (high.operand (.ofType type)))
  | like negated pattern =>
    if type = .binary then .error SqlType.unbindable else .ok (.like negated pattern)
  | part place needle =>
    if type = .binary then .error SqlType.unbindable else .ok (.part place needle)

/-- How two cells compare, if neither is null. -/
def compared (k : Comparison) (a b : Cell) : Truth :=
  if a.isNull || b.isNull then none else some (k.accepts (a.order b))

/-- The cell is one of several. -/
def isAmong (c : Cell) (xs : List Cell) : Truth :=
  xs.foldl (fun found x => found.either (compared .eq c x)) (some false)

/-- The characters that a text must have to hold another at a place. -/
def partPattern (place : Place) (needle : String) : List Char :=
  let literal := Pattern.literal needle.toList
  match place with
  | .anywhere => '%' :: literal ++ ['%']
  | .start => literal ++ ['%']
  | .finish => '%' :: literal

/-- What a test says about a cell. -/
def holds : Test Cell → Cell → Truth
  | compare k x, c => compared k c x
  | truth negated b, c => (compared .eq c (.int (if b then 1 else 0))).negatedIf negated
  | null negated, c => some (c.isNull != negated)
  | among negated xs, c => (isAmong c xs).negatedIf negated
  | between negated low high, c =>
    ((compared .ge c low).both (compared .le c high)).negatedIf negated
  | like negated pattern, c =>
    Truth.negatedIf negated
      (c.text?.map fun s => Pattern.matches? none pattern.toList s.toList)
  | part place needle, c =>
    c.text?.map fun s =>
      Pattern.matches? (some Pattern.escapeMark) (partPattern place needle) s.toList

end Test

/-- The cells of a row under the names of their columns. -/
abbrev Row := List (String × Cell)

/-- The cell of a column, null if the row has none. -/
def Row.get (r : Row) (column : String) : Cell := (r.lookup column).getD .null

/-- What an expression says about a row. -/
def Expression.truth (r : Row) (e : Expression) : Truth := e.holds (e.columns.map r.get)

namespace Predicate

mutual

/-- What a condition says about a row. -/
def holds : Predicate Cell → Row → Truth
  | always, _ => some true
  | tautology, _ => some true
  | test column t, r => t.holds (r.get column)
  | expression e, r => e.truth r
  | all ps, r => allHold ps r
  | any ps, r => anyHolds ps r
termination_by structural p => p

/-- Whether several conditions hold of a row. -/
def allHold : List (Predicate Cell) → Row → Truth
  | [], _ => some true
  | p :: ps, r => (p.holds r).both (allHold ps r)
termination_by structural ps => ps

/-- Whether one of several conditions holds of a row. -/
def anyHolds : List (Predicate Cell) → Row → Truth
  | [], _ => some false
  | p :: ps, r => (p.holds r).either (anyHolds ps r)
termination_by structural ps => ps

end

/-- The rows that a condition holds of. -/
def accepts (p : Predicate Cell) (r : Row) : Bool := p.holds r = some true

end Predicate

end TableGraph
