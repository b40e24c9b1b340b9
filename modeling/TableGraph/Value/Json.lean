import TableGraph.Value.Basic

/-!
# JSON text

`Value.toJson?` writes a value on one line, with a blank behind commas and colons and everything
outside ASCII escaped; `Value.ofJson` reads.  Numbers with a fraction or an exponent are binary64,
the others whole; `NaN`, `Infinity` and `-Infinity` are numbers too.  Of two fields of one name the
later value counts, at the place of the first.
-/

namespace TableGraph

/-- Why a text is not read as JSON. -/
inductive JsonDefect
  | malformed
  /-- A whole number with more digits than are read. -/
  | tooManyDigits (digits : Nat)
  deriving DecidableEq, Repr

namespace Json

open Text

/-! ## Writing -/

/-- A UTF-16 unit behind a backslash and `u`. -/
def unitChars (n : Nat) : List Char := '\\' :: 'u' :: hexDigits 4 n

/-- One character of a text. -/
def escapeChar (c : Char) : List Char :=
  if c = '"' then ['\\', '"']
  else if c = '\\' then ['\\', '\\']
  else if c = '\n' then ['\\', 'n']
  else if c = '\r' then ['\\', 'r']
  else if c = '\t' then ['\\', 't']
  else if c.toNat = 12 then ['\\', 'f']
  else if c.toNat = 8 then ['\\', 'b']
  else if 32 ≤ c.toNat ∧ c.toNat < 127 then [c]
  else if c.toNat < 0x10000 then unitChars c.toNat
  else
    let n := c.toNat - 0x10000
    unitChars (0xd800 + n / 0x400) ++ unitChars (0xdc00 + n % 0x400)

/-- A text between double quotes. -/
def textChars (s : String) : List Char := '"' :: s.toList.flatMap escapeChar ++ ['"']

/-- A number with a fraction, or one of the three words. -/
def floatText : Binary64 → String
  | .nan => "NaN"
  | .infinite false => "Infinity"
  | .infinite true => "-Infinity"
  | x => x.toText

mutual

/-- The characters of a value, if it is made of what JSON has. -/
def chars? : Value → Option (List Char)
  | .null => some "null".toList
  | .bool b => some (if b then "true".toList else "false".toList)
  | .int n => some (toString n).toList
  | .float x => some (floatText x).toList
  | .text s => some (textChars s)
  | .list items => (itemChars? true items).map fun cs => '[' :: cs ++ [']']
  | .tuple items => (itemChars? true items).map fun cs => '[' :: cs ++ [']']
  | .object fields => (fieldChars? true fields).map fun cs => '\x7b' :: cs ++ ['\x7d']
  | _ => none
termination_by structural v => v

/-- Items with commas between them. -/
def itemChars? : Bool → List Value → Option (List Char)
  | _, [] => some []
  | first, item :: items => do
    let cs ← chars? item
    let rest ← itemChars? false items
    some ((if first then [] else [',', ' ']) ++ cs ++ rest)
termination_by structural _ v => v

/-- Fields with commas between them. -/
def fieldChars? : Bool → List (String × Value) → Option (List Char)
  | _, [] => some []
  | first, (name, value) :: fields => do
    let cs ← chars? value
    let rest ← fieldChars? false fields
    some ((if first then [] else [',', ' ']) ++ textChars name ++ ':' :: ' ' :: cs ++ rest)
termination_by structural _ v => v

end

/-! ## Reading -/

/-- The blanks between tokens. -/
def isGap (c : Char) : Bool := c = ' ' || c = '\t' || c = '\n' || c = '\r'

/-- What follows the blanks. -/
def skipGap (cs : List Char) : List Char := cs.dropWhile isGap

/-- Four hexadecimal digits. -/
def unit? (cs : List Char) : Option (Nat × List Char) := do
  match cs with
  | a :: b :: c :: d :: rest =>
    let a ← hexValue? a
    let b ← hexValue? b
    let c ← hexValue? c
    let d ← hexValue? d
    some (((a * 16 + b) * 16 + c) * 16 + d, rest)
  | _ => none

/-- The character of a unit and, for the first half of a pair, of the half that follows it. -/
def escapedUnit? (n : Nat) (rest : List Char) : Option (Char × List Char) :=
  if 0xd800 ≤ n ∧ n ≤ 0xdbff then
    match rest with
    | '\\' :: 'u' :: more =>
      match unit? more with
      | some (m, after) =>
        if 0xdc00 ≤ m ∧ m ≤ 0xdfff then
          some (Char.ofNat (0x10000 + (n - 0xd800) * 0x400 + (m - 0xdc00)), after)
        else some ('\ufffd', rest)
      | none => none
    | _ => some ('\ufffd', rest)
  else if 0xdc00 ≤ n ∧ n ≤ 0xdfff then some ('\ufffd', rest)
  else some (Char.ofNat n, rest)

/-- The character a backslash and a letter stand for. -/
def escaped? : Char → Option Char
  | '"' => some '"'
  | '\\' => some '\\'
  | '/' => some '/'
  | 'b' => some (Char.ofNat 8)
  | 'f' => some (Char.ofNat 12)
  | 'n' => some '\n'
  | 'r' => some '\r'
  | 't' => some '\t'
  | _ => none

/-- The rest of a text behind its opening quote; `fuel` bounds the characters read. -/
def text? : Nat → List Char → Option (List Char × List Char)
  | 0, _ => none
  | _, [] => none
  | fuel + 1, c :: cs =>
    if c = '"' then some ([], cs)
    else if c.toNat < 32 then none
    else do
      let (d, rest) ←
        if c = '\\' then
          match cs with
          | 'u' :: more => do
            let (n, after) ← unit? more
            escapedUnit? n after
          | e :: more => (escaped? e).map fun d => (d, more)
          | [] => none
        else some (c, cs)
      let (ds, rest) ← text? fuel rest
      some (d :: ds, rest)

/-- The digits of a fraction or an exponent: a mark, and at least one digit behind it. -/
def fractionChars (cs : List Char) : List Char × List Char :=
  match cs with
  | '.' :: rest =>
    let ds := rest.takeWhile Char.isDigit
    if ds.isEmpty then ([], cs) else ('.' :: ds, rest.dropWhile Char.isDigit)
  | _ => ([], cs)

/-- An exponent, if one is written in full. -/
def exponentChars (cs : List Char) : List Char × List Char :=
  match cs with
  | c :: rest =>
    if c = 'e' ∨ c = 'E' then
      let (sign, more) := match rest with
        | '+' :: more => (['+'], more)
        | '-' :: more => (['-'], more)
        | more => ([], more)
      let ds := more.takeWhile Char.isDigit
      if ds.isEmpty then ([], cs) else (c :: sign ++ ds, more.dropWhile Char.isDigit)
    else ([], cs)
  | [] => ([], cs)

/-- A number at the front. -/
def number (cs : List Char) : Except JsonDefect (Value × List Char) :=
  let (negative, body) := match cs with
    | '-' :: rest => (true, rest)
    | rest => (false, rest)
  let (whole, rest) := match body with
    | '0' :: rest => (['0'], rest)
    | rest => (rest.takeWhile Char.isDigit, rest.dropWhile Char.isDigit)
  if whole.isEmpty then .error .malformed
  else
    let (fraction, rest) := fractionChars rest
    let (exponent, rest) := exponentChars rest
    if fraction.isEmpty && exponent.isEmpty then
      if Numeral.digitLimit < whole.length then .error (.tooManyDigits whole.length)
      else
        let n : Int := Numeral.valueOf whole
        .ok (.int (if negative then -n else n), rest)
    else
      match Numeral.scientific? (whole ++ fraction ++ exponent) with
      | some (c, k) => .ok (.float (Binary64.ofScientific negative c k), rest)
      | none => .error .malformed

/-- What follows a word, if the text starts with it. -/
def after? (word : String) (cs : List Char) : Option (List Char) :=
  if word.toList.isPrefixOf cs then some (cs.drop word.length) else none

/-- The values JSON has words for. -/
def words : List (String × Value) :=
  [("null", .null), ("true", .bool true), ("false", .bool false), ("NaN", .float .nan),
    ("Infinity", .float (.infinite false)), ("-Infinity", .float (.infinite true))]

/-- A field put behind others, or in place of the one of its name. -/
def setField (name : String) (value : Value) : List (String × Value) → List (String × Value)
  | [] => [(name, value)]
  | (k, v) :: fields =>
    if k = name then (k, value) :: fields else (k, v) :: setField name value fields

mutual

/-- A value at the front; `fuel` bounds the steps. -/
def value : Nat → List Char → Except JsonDefect (Value × List Char)
  | 0, _ => .error .malformed
  | fuel + 1, cs =>
    match words.findSome? fun (w, v) => (after? w cs).map fun rest => (v, rest) with
    | some found => .ok found
    | none =>
      match cs with
      | '"' :: rest =>
        match text? (rest.length + 1) rest with
        | some (ds, rest) => .ok (.text (String.ofList ds), rest)
        | none => .error .malformed
      | '[' :: rest =>
        match skipGap rest with
        | ']' :: after => .ok (.list [], after)
        | rest => do
          let (items, rest) ← items fuel rest
          .ok (.list items, rest)
      | '\x7b' :: rest =>
        match skipGap rest with
        | '\x7d' :: after => .ok (.object [], after)
        | rest => do
          let (fields, rest) ← fields fuel [] rest
          .ok (.object fields, rest)
      | cs => number cs

/-- The items of a list up to its closing bracket. -/
def items : Nat → List Char → Except JsonDefect (List Value × List Char)
  | 0, _ => .error .malformed
  | fuel + 1, cs => do
    let (v, rest) ← value fuel cs
    match skipGap rest with
    | ']' :: after => .ok ([v], after)
    | ',' :: more =>
      let (vs, after) ← items fuel (skipGap more)
      .ok (v :: vs, after)
    | _ => .error .malformed

/-- The fields of an object up to its closing brace. -/
def fields : Nat → List (String × Value) → List Char →
    Except JsonDefect (List (String × Value) × List Char)
  | 0, _, _ => .error .malformed
  | fuel + 1, found, cs =>
    match cs with
    | '"' :: rest =>
      match text? (rest.length + 1) rest with
      | none => .error .malformed
      | some (name, rest) =>
        match skipGap rest with
        | ':' :: rest => do
          let (v, rest) ← value fuel (skipGap rest)
          let found := setField (String.ofList name) v found
          match skipGap rest with
          | '\x7d' :: after => .ok (found, after)
          | ',' :: more => fields fuel found (skipGap more)
          | _ => .error .malformed
        | _ => .error .malformed
    | _ => .error .malformed

end

end Json

namespace Value

/-- The JSON text of a value, if it is made of what JSON has. -/
def toJson? (v : Value) : Option String := (Json.chars? v).map String.ofList

/-- Reads one JSON value with blanks around it. -/
def ofJson (s : String) : Except JsonDefect Value := do
  let cs := Json.skipGap s.toList
  let (v, rest) ← Json.value (cs.length + 1) cs
  if (Json.skipGap rest).isEmpty then .ok v else .error .malformed

end Value

end TableGraph
