import TableGraph.Number.Binary64

/-!
# Exact decimals

A decimal keeps its coefficient and its power of ten, so that `1.50` and `1.5` are equal numbers
with different texts.  Infinities and undefined results exist as well, the latter with an optional
diagnostic number.

Main definitions: `ofText?` and `toText`, the reader and the printer; `compare?`, the order of the
numbers; `toInt?` for whole numbers; `toBinary64` and `ofPlaces`, the way into binary64 and back.
-/

namespace TableGraph

/-- A decimal number. -/
inductive Decimal
  | finite (negative : Bool) (coefficient : Nat) (exponent : Int)
  | infinite (negative : Bool)
  | nan (negative signaling : Bool) (diagnostic : Nat)
  deriving DecidableEq, Repr

namespace Decimal

/-- The largest power of ten of a leading digit. -/
def maxMagnitude : Int := 999999999999999999

/-- The smallest power of ten of a last digit. -/
def minExponent : Int := -1999999999999999997

/-- The number is neither infinite nor undefined. -/
def isFinite : Decimal → Bool
  | finite .. => true
  | _ => false

/-- A coefficient and a power of ten, if the exponent is within bounds. -/
def ofScientific? (negative : Bool) (c : Nat) (k : Int) : Option Decimal :=
  if maxMagnitude < k + Numeral.digitCount c - 1 ∨ k < minExponent then none
  else some (finite negative c k)

/-- The diagnostic digits behind the word for an undefined result. -/
def diagnostic? (word : String) (cs : List Char) : Option Nat :=
  if Numeral.spells word (cs.take word.length) then
    match cs.drop word.length with
    | [] => some 0
    | ds => Numeral.digits? ds
  else none

/-- Reads decimal notation; underscores may stand anywhere and blanks around it. -/
def ofText? (s : String) : Option Decimal :=
  let cs := ((Text.trim Text.isBlank s.toList).filter (· ≠ '_')).map Numeral.ordinary
  let (negative, body) := Numeral.splitSign cs
  if Numeral.spells "inf" body || Numeral.spells "infinity" body then some (infinite negative)
  else
    match diagnostic? "nan" body, diagnostic? "snan" body with
    | some d, _ => some (nan negative false d)
    | _, some d => some (nan negative true d)
    | none, none => do
      let (c, k) ← Numeral.scientific? body
      ofScientific? negative c k

/-- The power of ten behind the letter `E`, with a sign. -/
def exponentText (k : Int) : List Char :=
  'E' :: (if k < 0 then '-' else '+') :: Nat.toDigits 10 k.natAbs

/-- The digits of a finite decimal: positional unless that needs more than six leading zeros. -/
def finiteText (c : Nat) (k : Int) : List Char :=
  let ds := Nat.toDigits 10 c
  let leading := k + ds.length
  if k ≤ 0 ∧ -6 < leading then
    if k = 0 then ds
    else if leading ≤ 0 then '0' :: '.' :: List.replicate (-leading).toNat '0' ++ ds
    else ds.take leading.toNat ++ '.' :: ds.drop leading.toNat
  else
    match ds with
    | [] => []
    | [d] => d :: exponentText (leading - 1)
    | d :: rest => d :: '.' :: rest ++ exponentText (leading - 1)

/-- The text that keeps coefficient and power of ten. -/
def toText : Decimal → String
  | finite negative c k =>
    String.ofList (if negative then '-' :: finiteText c k else finiteText c k)
  | infinite false => "Infinity"
  | infinite true => "-Infinity"
  | nan negative signaling d =>
    (if negative then "-" else "") ++ (if signaling then "sNaN" else "NaN") ++
      (if d = 0 then "" else toString d)

/-- A coefficient in units of `10^-k`, for a power of ten of at least `-k`. -/
def inUnits (negative : Bool) (c : Nat) (e : Int) (k : Nat) : Int :=
  let n : Int := c * tenTo (e + k).toNat
  if negative then -n else n

/-- How two finite decimals compare. -/
def compareFinite (s : Bool) (c : Nat) (e : Int) (t : Bool) (d : Nat) (f : Int) : Ordering :=
  if c = 0 ∧ d = 0 then .eq
  else if c = 0 then (if t then .gt else .lt)
  else if d = 0 then (if s then .lt else .gt)
  else if s ≠ t then (if s then .lt else .gt)
  else
    let top := e + Numeral.digitCount c
    let top' := f + Numeral.digitCount d
    if top < top' then (if s then .gt else .lt)
    else if top' < top then (if s then .lt else .gt)
    else
      -- equal magnitudes: the exponents differ by no more than the digit counts
      let low := min e f
      let n : Int := c * tenTo (e - low).toNat
      let m : Int := d * tenTo (f - low).toNat
      if s then compare m n else compare n m

/-- How two decimals compare; nothing compares with an undefined result. -/
def compare? : Decimal → Decimal → Option Ordering
  | nan .., _ => none
  | _, nan .. => none
  | infinite a, infinite b => some (if a = b then .eq else if a then .lt else .gt)
  | infinite a, finite .. => some (if a then .lt else .gt)
  | finite .., infinite b => some (if b then .gt else .lt)
  | finite s c e, finite t d f => some (compareFinite s c e t d f)

/-- A whole number as a decimal. -/
def ofInt (n : Int) : Decimal := finite (n < 0) n.natAbs 0

/-- The whole number a finite decimal denotes, if it is one. -/
def toInt? : Decimal → Option Int
  | finite s c e =>
    if 0 ≤ e then
      let n : Int := c * tenTo e.toNat
      some (if s then -n else n)
    else if c = 0 then some 0
    else
      -- more places than digits leave a fraction
      if Numeral.digitCount c < (-e).toNat then none
      else
        let d := tenTo (-e).toNat
        if c % d = 0 then
          let n : Int := (c / d : Nat)
          some (if s then -n else n)
        else none
  | _ => none

/-- The whole part of a finite decimal. -/
def truncate? : Decimal → Option Int
  | finite s c e =>
    let n : Int :=
      if 0 ≤ e then c * tenTo e.toNat
      else if Numeral.digitCount c < (-e).toNat then 0
      else (c / tenTo (-e).toNat : Nat)
    some (if s then -n else n)
  | _ => none

/-- The nearest binary64 number. -/
def toBinary64 : Decimal → Binary64
  | finite s c e => Binary64.ofScientific s c e
  | infinite s => .infinite s
  | nan .. => .nan

/-- A binary64 number as an exact decimal, if it is finite. -/
def ofBinary64? : Binary64 → Option Decimal
  | .finite s m e =>
    some (if 0 ≤ e then finite s (m * twoTo e.toNat) 0 else finite s (m * fiveTo (-e).toNat) e)
  | _ => none

/-- A binary64 number rounded to a fixed count of decimal places. -/
def ofPlaces (places : Nat) : Binary64 → Decimal
  | .finite s m e => finite s (Binary64.inPlaces places m e) (-(places : Int))
  | .infinite s => infinite s
  | .nan => nan false false 0

end Decimal

end TableGraph
