import TableGraph.Text.Character

/-!
# Powers and numerals

The powers that numbers of base two and of base ten are made of, and the reading of whole numbers
and of decimal notation.  Digits of every script are accepted, padding around a numeral is ignored,
and a single underscore may stand between two digits.

Main definitions: `integer`, which reads a signed whole number of at most `digitLimit` digits, and
`scientific?`, which reads decimal notation as a coefficient and a power of ten.
-/

namespace TableGraph

/-! ## Powers -/

/-- `2^n`. -/
def twoTo (n : Nat) : Nat := Nat.pow 2 n

/-- `5^n`. -/
def fiveTo (n : Nat) : Nat := Nat.pow 5 n

/-- `10^n`. -/
def tenTo (n : Nat) : Nat := Nat.pow 10 n

@[simp] theorem twoTo_zero : twoTo 0 = 1 := rfl

theorem twoTo_succ (n : Nat) : twoTo (n + 1) = twoTo n * 2 := rfl

@[simp] theorem tenTo_zero : tenTo 0 = 1 := rfl

theorem twoTo_pos (n : Nat) : 0 < twoTo n := Nat.pow_pos (by decide)

theorem tenTo_pos (n : Nat) : 0 < tenTo n := Nat.pow_pos (by decide)

end TableGraph

namespace TableGraph.Numeral

open Text

/-! ## Numerals -/

/-- Whole numbers with more digits are neither read nor written. -/
def digitLimit : Nat := 4300

/-- Why a text is not read as a whole number. -/
inductive Defect
  | malformed
  | tooLong (digits : Nat)
  deriving DecidableEq, Repr

/-- The wording for a numeral with too many digits. -/
def tooLongText (digits : Nat) : String :=
  s!"Exceeds the limit ({digitLimit} digits) for integer string conversion: " ++
    s!"value has {digits} digits; use sys.set_int_max_str_digits() to increase the limit"

/-- The wording for a number that has too many digits to be written. -/
def unwritableText : String :=
  s!"Exceeds the limit ({digitLimit} digits) for integer string conversion; " ++
    "use sys.set_int_max_str_digits() to increase the limit"

/-- A digit of any script as an ordinary digit. -/
def ordinary (c : Char) : Char :=
  match digitValue? c with
  | some d => digitChar d
  | none => c

/-- Removes the underscores, each of which has to stand between two digits. -/
def joinedAfter : Option Char → List Char → Option (List Char)
  | before, [] => if before = some '_' then none else some []
  | before, c :: cs =>
    if c = '_' then
      if before.any Char.isDigit then joinedAfter (some c) cs else none
    else if before = some '_' ∧ !c.isDigit then none
    else (joinedAfter (some c) cs).map (c :: ·)

/-- The characters of a numeral: padding and underscores are gone, digits are ordinary. -/
def plain? (cs : List Char) : Option (List Char) :=
  joinedAfter none ((trim isPadding cs).map ordinary)

/-- A leading sign, `true` for minus, and the rest. -/
def splitSign : List Char → Bool × List Char
  | '-' :: cs => (true, cs)
  | '+' :: cs => (false, cs)
  | cs => (false, cs)

/-- The value of ordinary digits. -/
def valueOf (digits : List Char) : Nat :=
  digits.foldl (fun n c => 10 * n + (c.toNat - 48)) 0

/-- One or more ordinary digits. -/
def digits? (cs : List Char) : Option Nat :=
  if !cs.isEmpty && cs.all Char.isDigit then some (valueOf cs) else none

/-- A whole number with an optional sign. -/
def integer (s : String) : Except Defect Int :=
  match plain? s.toList with
  | none => .error .malformed
  | some cs =>
    let (negative, ds) := splitSign cs
    if ds.isEmpty || !ds.all Char.isDigit then .error .malformed
    else if digitLimit < ds.length then .error (.tooLong ds.length)
    else .ok (if negative then -(valueOf ds : Int) else valueOf ds)

/-- The optional exponent at the end of decimal notation. -/
def exponent? : List Char → Option Int
  | [] => some 0
  | c :: cs =>
    if c = 'e' ∨ c = 'E' then
      let (negative, ds) := splitSign cs
      (digits? ds).map fun n => if negative then -(n : Int) else n
    else none

/--
Unsigned decimal notation with ordinary digits: the coefficient and the power of ten it is
multiplied with.
-/
def scientific? (cs : List Char) : Option (Nat × Int) :=
  let whole := cs.takeWhile Char.isDigit
  match cs.dropWhile Char.isDigit with
  | '.' :: rest =>
    let fraction := rest.takeWhile Char.isDigit
    if whole.isEmpty && fraction.isEmpty then none
    else
      (exponent? (rest.dropWhile Char.isDigit)).map fun e =>
        (valueOf (whole ++ fraction), e - fraction.length)
  | rest => if whole.isEmpty then none else (exponent? rest).map fun e => (valueOf whole, e)

/-- `cs` spells the word `w`, in capitals or small letters. -/
def spells (w : String) (cs : List Char) : Bool :=
  cs.map Char.toLower == w.toList

/-- The number of decimal digits of `n`, at least one. -/
def digitCount (n : Nat) : Nat := (Nat.toDigits 10 n).length

end TableGraph.Numeral
