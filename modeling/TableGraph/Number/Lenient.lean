import TableGraph.Value.Basic

/-!
# Lenient numbers and truth values

How settings and page requests are read: a whole number may also be given as a number without a
fraction, as a truth value or as decimal digits, and a truth value by the usual words.
-/

namespace TableGraph.Lenient

/-- Binary64 numbers from this size on are not taken for whole numbers. -/
def wholeLimit : Int := 9223372036854775808

/-- Without the fraction behind a point, if that has zeros only. -/
def withoutZeroFraction (cs : List Char) : List Char :=
  match cs.dropWhile (· ≠ '.') with
  | [] => cs
  | _ :: fraction => if fraction.all (· = '0') then cs.takeWhile (· ≠ '.') else cs

/-- The digits without underscores, which stand singly between digits. -/
def digits? (cs : List Char) : Option Nat := do
  let ds ← Numeral.joinedAfter none cs
  Numeral.digits? ds

/-- Decimal digits with an optional sign, blanks around them and a fraction of zeros. -/
def ofText? (s : String) : Option Int :=
  let cs := withoutZeroFraction (Text.trim Text.isPadding s.toList)
  if Numeral.digitLimit < cs.length then none
  else
    let (negative, body) := Numeral.splitSign cs
    (digits? body).map fun n => if negative then -(n : Int) else n

/-- The whole number a value stands for. -/
def integer? : Value → Option Int
  | .int n => some n
  | .bool b => some (if b then 1 else 0)
  | .float x =>
    if x.isInteger then
      x.truncate?.filter fun n => -wholeLimit < n && n < wholeLimit
    else none
  | .decimal d => d.toInt?
  | .text s => ofText? s
  | _ => none

/-- The words for true. -/
def trueWords : List String := ["1", "true", "t", "yes", "y", "on"]

/-- The words for false. -/
def falseWords : List String := ["0", "false", "f", "no", "n", "off"]

/-- The truth value a value stands for. -/
def bool? : Value → Option Bool
  | .bool b => some b
  | .int n => if n = 0 then some false else if n = 1 then some true else none
  | .float x =>
    if x.compare? (Binary64.ofInt 0) = some .eq then some false
    else if x.compare? (Binary64.ofInt 1) = some .eq then some true
    else none
  | .text s =>
    if trueWords.contains s.toLower then some true
    else if falseWords.contains s.toLower then some false
    else none
  | _ => none

end TableGraph.Lenient
