import TableGraph.Number.Numeral

/-!
# Binary64 numbers

A binary64 number is `± m · 2^e` with `m < 2^53`, an infinity, or no number at all.  All arithmetic
on it is exact arithmetic on `m` and `e`.

Main definitions: `round`, the nearest number of a quotient with ties to the even mantissa;
`compare?`, the order of the numbers; `shortest`, the fewest decimal digits that round back, and
`toText`, which writes them positionally between `10^-4` and `10^16`; `fixed`, a given count of
decimal places; `ofText?`, the reader.
-/

namespace TableGraph

/-- A binary64 number. -/
inductive Binary64
  | finite (negative : Bool) (mantissa : Nat) (exponent : Int)
  | infinite (negative : Bool)
  | nan
  deriving DecidableEq, Repr

namespace Binary64

/-- The exponent of the smallest positive number. -/
def minExponent : Int := -1074

/-- The largest exponent of a finite number. -/
def maxExponent : Int := 971

/-- The zero of a sign. -/
def zero (negative : Bool) : Binary64 := finite negative 0 minExponent

/-- `n · 2^e` as a numerator and a denominator. -/
def scale (n : Nat) (e : Int) : Nat × Nat :=
  if 0 ≤ e then (n * twoTo e.toNat, 1) else (n, twoTo (-e).toNat)

/-- `num / den` rounded to a whole number, a half to the even side. -/
def divRound (num den : Nat) : Nat :=
  let q := num / den
  let r := num % den
  if 2 * r < den then q
  else if den < 2 * r then q + 1
  else if q % 2 = 0 then q else q + 1

/-- The quotient `num / den` in units of `2^e`, rounded. -/
def inUnits (num den : Nat) (e : Int) : Nat :=
  if 0 ≤ e then divRound num (den * twoTo e.toNat) else divRound (num * twoTo (-e).toNat) den

/-- Whether `num / den < 2^k`. -/
def isBelow (num den : Nat) (k : Int) : Bool :=
  if 0 ≤ k then num < den * twoTo k.toNat else num * twoTo (-k).toNat < den

/-- The exponent at which the whole part of `num / den` fills 53 bits, if the format has it. -/
def exponentFor (num den : Nat) : Int :=
  let top : Int := (Nat.log2 num : Int) - Nat.log2 den
  max ((if isBelow num den top then top - 1 else top) - 52) minExponent

/-- The number nearest to `± num / den`, of two the one with an even mantissa. -/
def round (negative : Bool) (num den : Nat) : Binary64 :=
  if num = 0 then zero negative
  else
    let e := exponentFor num den
    let m := inUnits num den e
    let (m, e) := if m = twoTo 53 then (twoTo 52, e + 1) else (m, e)
    if maxExponent < e then infinite negative else finite negative m e

/-- The number nearest to a whole number. -/
def ofInt (n : Int) : Binary64 := round (n < 0) n.natAbs 1

/-- The sign is a minus. -/
def isNegative : Binary64 → Bool
  | finite negative _ _ => negative
  | infinite negative => negative
  | nan => false

/-- `± num / 2^k` with a common `k`: the number as a signed numerator over `2^shift`. -/
def numerator (negative : Bool) (m : Nat) (e : Int) (shift : Nat) : Int :=
  let n : Int := m * twoTo (e + shift).toNat
  if negative then -n else n

/-- How two numbers compare; nothing compares with `nan`. -/
def compare? : Binary64 → Binary64 → Option Ordering
  | nan, _ => none
  | _, nan => none
  | infinite a, infinite b =>
    some (if a = b then .eq else if a then .lt else .gt)
  | infinite a, finite .. => some (if a then .lt else .gt)
  | finite .., infinite b => some (if b then .gt else .lt)
  | finite s m e, finite t n f =>
    let shift := (max (-e) (max (-f) 0)).toNat
    some (compare (numerator s m e shift) (numerator t n f shift))

/-- The number is a whole number. -/
def isInteger : Binary64 → Bool
  | finite _ m e => 0 ≤ e || m % twoTo (-e).toNat == 0
  | _ => false

/-- The whole part of a finite number. -/
def truncate? : Binary64 → Option Int
  | finite s m e =>
    let n : Int := if 0 ≤ e then m * twoTo e.toNat else m / twoTo (-e).toNat
    some (if s then -n else n)
  | _ => none

/-- The least whole number that is not smaller. -/
def ceil? : Binary64 → Option Int
  | finite s m e =>
    if 0 ≤ e then
      let n : Int := m * twoTo e.toNat
      some (if s then -n else n)
    else
      let d := twoTo (-e).toNat
      some (if s then -(m / d : Nat) else ((m + d - 1) / d : Nat))
  | _ => none

/-! ## Decimal digits -/

/-- Whether `10^k ≤ num / den`. -/
def reaches (num den : Nat) (k : Int) : Bool :=
  if 0 ≤ k then den * tenTo k.toNat ≤ num else den ≤ num * tenTo (-k).toNat

/-- The power of ten of the leading digit of `num / den > 0`. -/
def magnitude (num den : Nat) : Int :=
  let guess : Int := ((Nat.log2 num : Int) - Nat.log2 den - 1) * 30103 / 100000
  (List.range 4).foldl
    (fun (k : Int) (i : Nat) => if reaches num den (guess + i) then guess + i else k) (guess - 1)

/-- `num / den` in units of `10^k`: the floor, and the remainder over the returned divisor. -/
def decimalUnits (num den : Nat) (k : Int) : Nat × Nat × Nat :=
  let (n, d) := if 0 ≤ k then (num, den * tenTo k.toNat) else (num * tenTo (-k).toNat, den)
  (n / d, n % d, d)

/-- Whether `c · 10^k` lies between `low / den` and `high / den`, ends included if `closed`. -/
def between (low high den : Nat) (closed : Bool) (c : Nat) (k : Int) : Bool :=
  let (n, d) := if 0 ≤ k then (c * tenTo k.toNat, 1) else (c, tenTo (-k).toNat)
  if closed then low * d ≤ n * den && n * den ≤ high * d
  else low * d < n * den && n * den < high * d

/--
The positive number `m · 2^e` as a coefficient times a power of ten, with the fewest digits that
round back to it; of two candidates with as many digits the nearer one, then the even one.
-/
def shortest (m : Nat) (e : Int) : Nat × Int :=
  -- in units of a quarter of the last place
  let below := if m = twoTo 52 ∧ minExponent < e then 1 else 2
  let (quarter, den) := scale 1 (e - 2)
  let num := 4 * m * quarter
  let low := (4 * m - below) * quarter
  let high := (4 * m + 2) * quarter
  let closed := m % 2 = 0
  let top := magnitude num den
  let at_ (k : Int) : Option (Nat × Int) :=
    let (q, r, d) := decimalUnits num den k
    let lower := q ≠ 0 ∧ between low high den closed q k
    let upper := between low high den closed (q + 1) k
    if lower ∧ upper then
      if 2 * r < d ∨ (2 * r = d ∧ q % 2 = 0) then some (q, k) else some (q + 1, k)
    else if lower then some (q, k)
    else if upper then some (q + 1, k)
    else none
  match (List.range 17).findSome? fun (i : Nat) => at_ (top - i) with
  | some r => r
  | none => (num / den, 0)

/-- Drops the zeros at the end of a coefficient, raising the power of ten. -/
def stripZeros : Nat → Nat → Int → Nat × Int
  | 0, c, k => (c, k)
  | fuel + 1, c, k => if c % 10 = 0 ∧ c ≠ 0 then stripZeros fuel (c / 10) (k + 1) else (c, k)

/-- Digits with a point after the first `whole` of them, filled with zeros. -/
def positional (digits : List Char) (whole : Int) : List Char :=
  if whole ≤ 0 then '0' :: '.' :: List.replicate (-whole).toNat '0' ++ digits
  else
    let w := whole.toNat
    if digits.length ≤ w then digits ++ List.replicate (w - digits.length) '0' ++ ['.', '0']
    else digits.take w ++ '.' :: digits.drop w

/-- A power of ten behind the letter `e`, with a sign and at least two digits. -/
def exponentText (k : Int) : List Char :=
  let ds := Nat.toDigits 10 k.natAbs
  'e' :: (if k < 0 then '-' else '+') :: List.replicate (2 - ds.length) '0' ++ ds

/-- The shortest text that reads back: positional from `10^-4` up to `10^16`. -/
def toText : Binary64 → String
  | nan => "nan"
  | infinite false => "inf"
  | infinite true => "-inf"
  | finite s m e =>
    let body :=
      if m = 0 then ['0', '.', '0']
      else
        let (c, k) := shortest m e
        let (c, k) := stripZeros 20 c k
        let ds := Nat.toDigits 10 c
        let whole := k + ds.length
        if -4 < whole ∧ whole ≤ 16 then positional ds whole
        else
          match ds with
          | [] => []
          | d :: [] => d :: exponentText (whole - 1)
          | d :: rest => d :: '.' :: rest ++ exponentText (whole - 1)
    String.ofList (if s then '-' :: body else body)

/-- The coefficient of the number in units of `10^-places`, a half going to the even side. -/
def inPlaces (places m : Nat) (e : Int) : Nat :=
  let (n, d) := scale m e
  divRound (n * tenTo places) d

/-! ## Reading -/

/-- The number nearest to `± c · 10^k`. -/
def ofScientific (negative : Bool) (c : Nat) (k : Int) : Binary64 :=
  if c = 0 then zero negative
  else
    let top := k + Numeral.digitCount c
    if 400 < top then infinite negative
    else if top < -400 then zero negative
    else if 0 ≤ k then round negative (c * tenTo k.toNat) 1
    else round negative c (tenTo (-k).toNat)

/-- Reads decimal notation, `inf`, `infinity` and `nan`, in capitals or small letters. -/
def ofText? (s : String) : Option Binary64 := do
  let cs ← Numeral.plain? s.toList
  let (negative, body) := Numeral.splitSign cs
  if Numeral.spells "inf" body || Numeral.spells "infinity" body then some (infinite negative)
  else if Numeral.spells "nan" body then some nan
  else
    let (c, k) ← Numeral.scientific? body
    some (ofScientific negative c k)

end Binary64

end TableGraph
