import TableGraph.Fault
import TableGraph.Value.Shown

/-!
# Big integers of the query language

A scalar for whole numbers from `-2^63` to `2^64 - 1`.  Numbers without a fraction and quoted digits
are accepted, truth values are not.
-/

namespace TableGraph.BigInteger

/-- The smallest big integer. -/
def low : Int := -9223372036854775808

/-- The largest big integer. -/
def high : Int := 18446744073709551615

/-- The number lies within the bounds. -/
def holds (n : Int) : Bool := low ≤ n && n ≤ high

theorem holds_iff {n : Int} : holds n ↔ low ≤ n ∧ n ≤ high := by
  unfold holds
  rw [Bool.and_eq_true, decide_eq_true_iff, decide_eq_true_iff]

/-- The whole number a value stands for, whatever its size. -/
def whole? : Value → Option Int
  | .int n => some n
  | .float x => if x.isInteger then x.truncate? else none
  | .text s => (Numeral.integer s).toOption
  | _ => none

/-- A value is refused with words that show it, unless it cannot be written. -/
def refuse (words : String) (v : Value) : Except Fault Int :=
  if v.isWritable then .error (.graph (words ++ v.quoted))
  else .error (.unreadable Numeral.unwritableText)

/-- The big integer a value stands for. -/
def coerce (v : Value) : Except Fault Int :=
  match v with
  | .bool _ => refuse "BigInt cannot represent a boolean: " v
  | v =>
    match whole? v with
    | none => refuse "BigInt cannot represent non-integer value: " v
    | some n =>
      if holds n then .ok n else refuse "BigInt cannot represent value outside 64 bits: " v

end TableGraph.BigInteger
