import TableGraph.Text.Character

/-!
# Tokens of the query language

`Token.scan` cuts a text into tokens.  Blanks, commas, line ends, byte order marks and comments
separate tokens and mean nothing else.  A number must not run into a name or a second point.
-/

namespace TableGraph.Graph

/-- A token. -/
inductive Token
  | mark (c : Char)
  | spread
  | name (s : String)
  | int (digits : String)
  | float (digits : String)
  | string (s : String)
  deriving DecidableEq, Repr, Inhabited

namespace Token

open Text

/-- The first character of a name. -/
def isNameStart (c : Char) : Bool := c.isAlpha || c = '_'

/-- A later character of a name. -/
def isNamePart (c : Char) : Bool := c.isAlphanum || c = '_'

/-- Characters between tokens. -/
def isGap (c : Char) : Bool :=
  c = ' ' || c = '\t' || c = ',' || c = '\n' || c = '\r' || c = '\ufeff'

/-- The end of a line. -/
def isLineEnd (c : Char) : Bool := c = '\n' || c = '\r'

/-- Marks that stand for themselves. -/
def isMark (c : Char) : Bool := "!$&():=@[]|\x7b\x7d".toList.contains c

/-- One or more digits at the front. -/
def digits? (cs : List Char) : Option (List Char × List Char) :=
  let ds := cs.takeWhile Char.isDigit
  if ds.isEmpty then none else some (ds, cs.dropWhile Char.isDigit)

/-- The part of a number in front of the point: zero alone, or digits without a leading zero. -/
def wholeDigits? (cs : List Char) : Option (List Char × List Char) :=
  match cs with
  | '0' :: rest => if rest.head?.any Char.isDigit then none else some (['0'], rest)
  | cs => digits? cs

/-- A point and the digits behind it, if there is a point. -/
def fraction? (cs : List Char) : Option (List Char × List Char) :=
  match cs with
  | '.' :: rest => (digits? rest).map fun (ds, rest) => ('.' :: ds, rest)
  | cs => some ([], cs)

/-- An exponent, if there is one. -/
def exponent? (cs : List Char) : Option (List Char × List Char) :=
  match cs with
  | c :: rest =>
    if c = 'e' ∨ c = 'E' then
      let (sign, rest) := match rest with
        | '+' :: rest => (['+'], rest)
        | '-' :: rest => (['-'], rest)
        | rest => ([], rest)
      (digits? rest).map fun (ds, rest) => (c :: sign ++ ds, rest)
    else some ([], cs)
  | [] => some ([], [])

/-- A number. -/
def number? (cs : List Char) : Option (Token × List Char) := do
  let (sign, rest) := match cs with
    | '-' :: rest => (['-'], rest)
    | rest => ([], rest)
  let (whole, rest) ← wholeDigits? rest
  let (fraction, rest) ← fraction? rest
  let (exponent, rest) ← exponent? rest
  if rest.head?.any fun c => c = '.' || isNameStart c then none
  else
    let text := String.ofList (sign ++ whole ++ fraction ++ exponent)
    some (if fraction.isEmpty && exponent.isEmpty then .int text else .float text, rest)

/-- The value of hexadecimal digits. -/
def hexNumber? (cs : List Char) : Option Nat :=
  cs.foldlM (fun n c => (hexValue? c).map (16 * n + ·)) 0

/-- A code point that is a character. -/
def character? (n : Nat) : Option Char :=
  if n < 0xd800 ∨ (0xdfff < n ∧ n ≤ 0x10ffff) then some (Char.ofNat n) else none

/-- Four hexadecimal digits. -/
def fourDigits? (cs : List Char) : Option (Nat × List Char) :=
  if (cs.take 4).length = 4 then (hexNumber? (cs.take 4)).map fun n => (n, cs.drop 4) else none

/-- The character behind a backslash and `u`: four digits, a pair of them, or digits in braces. -/
def unicode? (cs : List Char) : Option (Char × List Char) :=
  match cs with
  | '\x7b' :: rest =>
    let ds := rest.takeWhile (· ≠ '\x7d')
    if ds.isEmpty ∨ 8 < ds.length ∨ rest.length = ds.length then none
    else do
      let c ← (hexNumber? ds).bind character?
      some (c, rest.drop (ds.length + 1))
  | cs => do
    let (n, rest) ← fourDigits? cs
    match character? n with
    | some c => some (c, rest)
    | none =>
      match rest with
      | '\\' :: 'u' :: more => do
        let (m, rest) ← fourDigits? more
        if n ≤ 0xdbff ∧ 0xdc00 ≤ m ∧ m ≤ 0xdfff then
          some (Char.ofNat (0x10000 + (n - 0xd800) * 0x400 + (m - 0xdc00)), rest)
        else none
      | _ => none

/-- The character a backslash and a letter stand for. -/
def escaped? : Char → Option Char
  | '"' => some '"'
  | '\\' => some '\\'
  | '/' => some '/'
  | 'b' => some (Char.ofNat 8)
  | 'f' => some (Char.ofNat 12)
  | 'n' => some '\n'
  | 'r' => some '\r'
  | 't' => some '\t'
  | _ => none

/-- The rest of a text behind its opening quote; `fuel` bounds the characters read. -/
def text? : Nat → List Char → Option (List Char × List Char)
  | 0, _ => none
  | _, [] => none
  | fuel + 1, c :: cs =>
    if c = '"' then some ([], cs)
    else if isLineEnd c then none
    else do
      let (d, rest) ←
        if c = '\\' then
          match cs with
          | 'u' :: more => unicode? more
          | e :: more => (escaped? e).map fun d => (d, more)
          | [] => none
        else some (c, cs)
      let (ds, rest) ← text? fuel rest
      some (d :: ds, rest)

/-- The rest of a block of text behind its three opening quotes. -/
def blockText? : List Char → Option (List Char × List Char)
  | '"' :: '"' :: '"' :: rest => some ([], rest)
  | '\\' :: '"' :: '"' :: '"' :: rest =>
    (blockText? rest).map fun (cs, after) => ('"' :: '"' :: '"' :: cs, after)
  | c :: rest => (blockText? rest).map fun (cs, after) => (c :: cs, after)
  | [] => none

/-- The lines of a block; a carriage return with a line feed is one line end. -/
def linesOf : List Char → List (List Char)
  | [] => [[]]
  | '\r' :: '\n' :: rest => [] :: linesOf rest
  | c :: rest =>
    if isLineEnd c then [] :: linesOf rest
    else
      match linesOf rest with
      | [] => [[c]]
      | line :: lines => (c :: line) :: lines

/-- A blank inside a line. -/
def isIndent (c : Char) : Bool := c = ' ' || c = '\t'

/-- The blanks in front of a line. -/
def indentOf (line : List Char) : Nat := (line.takeWhile isIndent).length

/-- A line of blanks only. -/
def isBlankLine (line : List Char) : Bool := line.all isIndent

/-- A block without the common indentation of its later lines and without blank lines around it. -/
def dedent (cs : List Char) : String :=
  let lines := linesOf cs
  let indents := (lines.tail.filter (!isBlankLine ·)).map indentOf
  let common := indents.foldl min (indents.headD 0)
  let lines := match lines with
    | [] => []
    | first :: rest => first :: rest.map fun line : List Char => line.drop common
  let kept := ((lines.dropWhile isBlankLine).reverse.dropWhile isBlankLine).reverse
  "\n".intercalate (kept.map String.ofList)

/-- One token at the front of a text that starts with none of the separators. -/
def next? (cs : List Char) : Option (Token × List Char) :=
  match cs with
  | [] => none
  | '.' :: '.' :: '.' :: rest => some (.spread, rest)
  | '"' :: '"' :: '"' :: rest =>
    (blockText? rest).map fun (cs, after) => (.string (dedent cs), after)
  | '"' :: rest =>
    (text? (rest.length + 1) rest).map fun (cs, after) => (.string (String.ofList cs), after)
  | c :: rest =>
    if isMark c then some (.mark c, rest)
    else if isNameStart c then
      some (.name (String.ofList (cs.takeWhile isNamePart)), cs.dropWhile isNamePart)
    else if c.isDigit || c = '-' then number? cs
    else none

/-- The text without separators and comments in front of it; `fuel` bounds the comments. -/
def skip : Nat → List Char → List Char
  | 0, cs => cs
  | fuel + 1, cs =>
    match cs.dropWhile isGap with
    | '#' :: rest => skip fuel (rest.dropWhile (!isLineEnd ·))
    | rest => rest

/-- The tokens of a text; `fuel` bounds their number. -/
def scanFrom : Nat → List Char → Option (List Token)
  | 0, _ => none
  | fuel + 1, cs =>
    match skip (cs.length + 1) cs with
    | [] => some []
    | rest => do
      let (t, rest) ← next? rest
      let ts ← scanFrom fuel rest
      some (t :: ts)

/-- The tokens of a text. -/
def scan (s : String) : Option (List Token) := scanFrom (s.length + 1) s.toList

end Token

end TableGraph.Graph
