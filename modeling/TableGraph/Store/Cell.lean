import TableGraph.Number.Binary64
import TableGraph.Schema.SqlType

/-!
# Cells

What a table keeps in one place: nothing, a whole number, a binary64 number, a text or bytes.  Cells
are ordered in this sequence, numbers by size and texts by their characters.

A column has an affinity: numbers and texts are kept in the form it prefers where nothing is lost,
and what a cell is compared with takes that form first.
-/

namespace TableGraph

/-- What a table keeps in one place. -/
inductive Cell
  | null
  | int (n : Int)
  | real (x : Binary64)
  | text (s : String)
  | blob (bs : List UInt8)
  deriving DecidableEq, Repr, Inhabited

/-- The form a column prefers. -/
inductive Affinity
  | integer
  | numeric
  | real
  | text
  | blob
  deriving DecidableEq, Repr

namespace Affinity

/-- The affinity of a storage type. -/
def ofType : SqlType → Affinity
  | .smallInteger | .integer | .bigInteger => integer
  | .float | .double => real
  | .boolean | .numeric | .json | .date | .time | .dateTime _ => numeric
  | .character | .uuid | .enumeration _ | .string | .array _ => text
  | .binary => blob

end Affinity

namespace Cell

/-- The cell holds nothing. -/
def isNull : Cell → Bool
  | null => true
  | _ => false

/-! ## Order -/

/-- The order of two byte strings. -/
def compareBytes : List UInt8 → List UInt8 → Ordering
  | [], [] => .eq
  | [], _ => .lt
  | _, [] => .gt
  | a :: as, b :: bs => (compare a.toNat b.toNat).then (compareBytes as bs)

/-- The exact number of a whole number, which a binary64 number can be compared with. -/
def exactly (n : Int) : Binary64 := .finite (n < 0) n.natAbs 0

/-- The order of two binary64 numbers; what is no number, and never kept, comes first. -/
def compareReals (x y : Binary64) : Ordering :=
  match x, y with
  | .nan, .nan => .eq
  | .nan, _ => .lt
  | _, .nan => .gt
  | x, y => (x.compare? y).getD .eq

/-- The place of the class of a cell in the order. -/
def rank : Cell → Nat
  | null => 0
  | int _ | real _ => 1
  | text _ => 2
  | blob _ => 3

/-- The order of cells: null, numbers, texts, bytes. -/
def order (a b : Cell) : Ordering :=
  match a, b with
  | int m, int n => compare m n
  | int m, real y => compareReals (exactly m) y
  | real x, int n => compareReals x (exactly n)
  | real x, real y => compareReals x y
  | text s, text t => compare s t
  | blob s, blob t => compareBytes s t
  | a, b => compare a.rank b.rank

/-! ## Numbers in texts -/

/-- The whole numbers a cell can hold. -/
def holds (n : Int) : Bool := IntegerKind.big.holds n

/-- Blanks around a number. -/
def isBlank (c : Char) : Bool := c = ' ' || ('\t' ≤ c && c ≤ '\r')

/-- A text without blanks around it. -/
def trimmed (cs : List Char) : List Char :=
  ((cs.dropWhile isBlank).reverse.dropWhile isBlank).reverse

/-- The number a text spells in ASCII digits, if it spells one. -/
def numberOf? (s : String) : Option Cell := do
  let cs := trimmed s.toList
  if cs.any fun c => !(c.isDigit || ['+', '-', '.', 'e', 'E'].contains c) then none
  else
    let (negative, body) := Numeral.splitSign cs
    let (c, k) ← Numeral.scientific? body
    if body.all Char.isDigit then
      let n : Int := if negative then -(c : Int) else c
      if holds n then some (int n) else some (real (.ofScientific negative c k))
    else some (real (.ofScientific negative c k))

/-- A binary64 number as a whole number where nothing is lost. -/
def wholeIfExact (x : Binary64) : Cell :=
  match x.isInteger, x.truncate? with
  | true, some n => if IntegerKind.big.low < n ∧ n < IntegerKind.big.high then int n else real x
  | _, _ => real x

/-! ## Numbers as texts -/

/-- The digits of a number with a point after the first `whole` ones, without zeros at the end. -/
def pointed (digits : List Char) (whole : Int) : List Char :=
  let (before, behind) :=
    if whole ≤ 0 then (['0'], List.replicate (-whole).toNat '0' ++ digits)
    else
      let w := whole.toNat
      (digits.take w ++ List.replicate (w - digits.length) '0', digits.drop w)
  let kept := (behind.reverse.dropWhile (· = '0')).reverse
  before ++ '.' :: (if kept.isEmpty then ['0'] else kept)

/-- The coefficient of the positive number `num / den` to 15 digits, and the power of ten. -/
def fifteenDigits (num den : Nat) : Nat × Int :=
  let top := Binary64.magnitude num den
  let k := top - 14
  let c := if 0 ≤ k then Binary64.divRound num (den * tenTo k.toNat)
    else Binary64.divRound (num * tenTo (-k).toNat) den
  if c = tenTo 15 then (tenTo 14, k + 1) else (c, k)

/-- A binary64 number to 15 digits, positional from `10^-4` up to `10^15`. -/
def realText : Binary64 → String
  | .nan => "NaN"
  | .infinite s => if s then "-Inf" else "Inf"
  | .finite s m e =>
    if m = 0 then "0.0"
    else
      let (num, den) := Binary64.scale m e
      let (c, k) := fifteenDigits num den
      let digits := Nat.toDigits 10 c
      let whole := k + digits.length
      let body :=
        if -4 < whole ∧ whole ≤ 15 then pointed digits whole
        else pointed digits 1 ++ Binary64.exponentText (whole - 1)
      String.ofList (if s then '-' :: body else body)

/-- The cell as text, if it holds anything. -/
def text? : Cell → Option String
  | null => none
  | int n => some (toString n)
  | real x => some (realText x)
  | text s => some s
  | blob bs => some (String.ofList (bs.map fun b => Char.ofNat b.toNat))

/-! ## Affinities -/

/-- The cell in the form the affinity prefers. -/
def preferred (a : Affinity) (c : Cell) : Cell :=
  match a, c with
  | .blob, c => c
  | .text, int n => text (toString n)
  | .text, real x => text (realText x)
  | .text, c => c
  | .real, int n => real (.ofInt n)
  | .real, real x => real x
  | .real, text s =>
    match numberOf? s with
    | some (int n) => real (.ofInt n)
    | some number => number
    | none => text s
  | _, real x => wholeIfExact x
  | _, text s =>
    match numberOf? s with
    | some (real x) => wholeIfExact x
    | some number => number
    | none => text s
  | _, c => c

/-- The operand of a comparison in the form a column of the affinity asks for. -/
def operand (a : Affinity) (c : Cell) : Cell :=
  match a, c with
  | .text, c => preferred .text c
  | .blob, c => c
  | _, text s => (numberOf? s).getD (text s)
  | _, c => c

end Cell

end TableGraph
