import TableGraph.Number.Hexadecimal
import TableGraph.Number.Numeral

/-!
# Universally unique identifiers

A 128-bit number, written as 32 small hexadecimal digits in groups of 8, 4, 4, 4 and 12.  The reader
drops the words `urn:` and `uuid:`, braces around the text and all hyphens, and takes what is left
for a hexadecimal number if it has exactly 32 characters.
-/

namespace TableGraph

/-- A universally unique identifier. -/
structure Uuid where
  bits : BitVec 128
  deriving DecidableEq

namespace Uuid

/-- The 32 digits without hyphens. -/
def digits (u : Uuid) : List Char := Text.hexDigits 32 u.bits.toNat

/-- The text in five groups. -/
def chars (u : Uuid) : List Char :=
  let ds := u.digits
  ds.take 8 ++ '-' :: (ds.drop 8).take 4 ++ '-' :: (ds.drop 12).take 4 ++
    '-' :: (ds.drop 16).take 4 ++ '-' :: ds.drop 20

/-- The text in five groups. -/
def toText (u : Uuid) : String := String.ofList u.chars

/-- `cs` without the occurrences of a word, after passing over `skip` characters. -/
def without (word : List Char) : Nat → List Char → List Char
  | _, [] => []
  | skip + 1, _ :: cs => without word skip cs
  | 0, c :: cs =>
    if word.isPrefixOf (c :: cs) then without word (word.length - 1) cs
    else c :: without word 0 cs

/-- The characters that count. -/
def significant (cs : List Char) : List Char :=
  let bare := without "uuid:".toList 0 (without "urn:".toList 0 cs)
  (Text.trim (fun c => c = '\x7b' || c = '\x7d') bare).filter (· ≠ '-')

/-- Reads an identifier. -/
def ofText? (s : String) : Option Uuid := do
  let body := significant s.toList
  if body.length ≠ 32 then none
  else
    let n ← Hexadecimal.integer? body
    if 0 ≤ n ∧ n < twoTo 128 then some ⟨BitVec.ofNat 128 n.toNat⟩ else none

end Uuid

end TableGraph
