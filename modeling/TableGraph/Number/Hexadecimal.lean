import TableGraph.Number.Numeral

/-!
# Hexadecimal text

Byte strings are written with two small digits a byte; the reader takes either case and skips
blanks between bytes.  Whole numbers in base sixteen are read with a sign, the mark `0x` and single
underscores allowed.
-/

namespace TableGraph.Hexadecimal

open Text

/-- The ASCII blanks that may stand between two bytes. -/
def isGap (c : Char) : Bool := c = ' ' || (9 ≤ c.toNat && c.toNat ≤ 13)

/-- Two digits a byte. -/
def chars (bs : List UInt8) : List Char :=
  bs.flatMap fun b => [hexChar (b.toNat / 16), hexChar (b.toNat % 16)]

/-- Two digits a byte. -/
def toText (bs : List UInt8) : String := String.ofList (chars bs)

/-- Reads pairs of digits, with gaps in front of pairs. -/
def bytes? : List Char → Option (List UInt8)
  | [] => some []
  | [c] => if isGap c then some [] else none
  | c :: d :: rest =>
    if isGap c then bytes? (d :: rest)
    else do
      let high ← hexValue? c
      let low ← hexValue? d
      let bs ← bytes? rest
      some (UInt8.ofNat (16 * high + low) :: bs)

/-- Reads a byte string. -/
def ofText? (s : String) : Option (List UInt8) := bytes? s.toList

/-- Removes the underscores, each of which has to stand behind a digit and in front of one. -/
def joinedAfter : Bool → List Char → Option (List Char)
  | pending, [] => if pending then none else some []
  | pending, c :: cs =>
    if c = '_' then if pending then none else joinedAfter true cs
    else (joinedAfter false cs).map (c :: ·)

/-- What follows the mark `0x`, if it is there, and an underscore behind it. -/
def unmarked : List Char → List Char
  | '0' :: 'x' :: '_' :: rest => rest
  | '0' :: 'X' :: '_' :: rest => rest
  | '0' :: 'x' :: rest => rest
  | '0' :: 'X' :: rest => rest
  | rest => rest

/-- A whole number in base sixteen. -/
def integer? (cs : List Char) : Option Int := do
  let (negative, body) := Numeral.splitSign ((trim isPadding cs).map Numeral.ordinary)
  let body := unmarked body
  if body.head? = some '_' ∨ body.isEmpty then none
  else
    let ds ← joinedAfter false body
    let values ← ds.mapM hexValue?
    let n : Nat := values.foldl (fun n d => 16 * n + d) 0
    some (if negative then -(n : Int) else n)

end TableGraph.Hexadecimal
