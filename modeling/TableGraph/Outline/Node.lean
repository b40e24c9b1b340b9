import TableGraph.Fault
import TableGraph.Outline.Token
import TableGraph.Value.Basic

/-!
# Outlines

What an outline holds: a scalar, a list or a mapping.  `Node.ofText` reads the one outline of
a text; an empty text is nothing.

An unquoted text stands for nothing, a truth value, a whole number in base two, eight, ten, sixteen
or sixty, a number with a point, a day or a moment, and else the text itself.  Numbers may hold
underscores after their first digit.
-/

namespace TableGraph.Outline

/-! ## Plain scalars -/

/-- The spellings of a word in small letters, with a capital, and in capitals. -/
def spellings (word : String) : List String := [word, word.capitalize, word.toUpper]

/-- The words for nothing. -/
def nullWords : List String := ["", "~"] ++ spellings "null"

/-- The words for true. -/
def trueWords : List String := ["yes", "true", "on"].flatMap spellings

/-- The words for false. -/
def falseWords : List String := ["no", "false", "off"].flatMap spellings

/-! ## Numbers -/

/-- The sign of a text and the rest. -/
def splitSign : List Char → Bool × List Char
  | '-' :: cs => (true, cs)
  | '+' :: cs => (false, cs)
  | cs => (false, cs)

/-- A digit or an underscore. -/
def isDigitPart (c : Char) : Bool := c.isDigit || c = '_'

/-- The characters without underscores. -/
def withoutUnderscores (cs : List Char) : List Char := cs.filter (· ≠ '_')

/-- The number digits of a base denote, most significant first. -/
def ofDigits (base : Nat) (cs : List Char) : Nat :=
  cs.foldl (fun n c => n * base + (Text.hexValue? c).getD 0) 0

/-- The number that digits of a base with underscores denote, if there are any. -/
def digitsOf? (base : Nat) (isDigit : Char → Bool) (cs : List Char) : Option Nat :=
  let ds := withoutUnderscores cs
  if !ds.isEmpty && ds.all isDigit then some (ofDigits base ds) else none

/-- A number of base sixty between colons: digits first, then groups below sixty. -/
def sexagesimal? (cs : List Char) : Option Nat :=
  match (String.ofList cs).splitOn ":" with
  | first :: groups =>
    let isGroup (g : String) : Bool :=
      match g.toList with
      | [a] => a.isDigit
      | [a, b] => '0' ≤ a && a ≤ '5' && b.isDigit
      | _ => false
    if groups.isEmpty || !groups.all isGroup then none
    else
      (digitsOf? 10 Char.isDigit first.toList).map fun n =>
        groups.foldl (fun n g => n * 60 + ofDigits 10 g.toList) n
  | [] => none

/-- The size of a whole number. -/
def magnitude? : List Char → Option Nat
  | '0' :: 'b' :: cs => digitsOf? 2 (fun c => c = '0' || c = '1') cs
  | '0' :: 'x' :: cs => digitsOf? 16 (fun c => (Text.hexValue? c).isSome) cs
  | ['0'] => some 0
  | '0' :: cs => digitsOf? 8 (fun c => '0' ≤ c && c ≤ '7') ('0' :: cs)
  | c :: cs =>
    if !c.isDigit then none
    else if cs.all isDigitPart then digitsOf? 10 Char.isDigit (c :: cs)
    else sexagesimal? (c :: cs)
  | [] => none

/-- The whole number a text denotes. -/
def integer? (cs : List Char) : Option Int :=
  let (negative, cs) := splitSign cs
  (magnitude? cs).map fun n => if negative then -(n : Int) else n

/-- An exponent, whose sign is always written. -/
def isExponent : List Char → Bool
  | [] => true
  | e :: sign :: d :: ds =>
    (e = 'e' || e = 'E') && (sign = '+' || sign = '-') && (d :: ds).all Char.isDigit
  | _ => false

/-- A number with a point: digits before it or behind it, and perhaps an exponent. -/
def hasPoint (cs : List Char) : Bool :=
  let behind := (cs.dropWhile isDigitPart).tail
  let isPoint := (cs.dropWhile isDigitPart).head? = some '.'
  match cs.head? with
  | some '.' =>
    behind.head?.any Char.isDigit && isExponent (behind.dropWhile isDigitPart)
  | some c => c.isDigit && isPoint && isExponent (behind.dropWhile isDigitPart)
  | none => false

/-- The number with a point a text denotes. -/
def float? (cs : List Char) : Option Binary64 :=
  let (negative, body) := splitSign cs
  let signed := cs ≠ body
  if (spellings "inf").any fun w => body = '.' :: w.toList then some (.infinite negative)
  else if !signed && ([".nan", ".NaN", ".NAN"].any fun w => cs = w.toList) then some .nan
  else if hasPoint body && !(signed && body.head? = some '.') then
    Binary64.ofText? (String.ofList (withoutUnderscores cs))
  else none

/-! ## Days and moments -/

/-- The text begins with a day. -/
def day? (cs : List Char) : Option Date :=
  if (cs.take 10).map (fun c => if c.isDigit then '0' else c) = "0000-00-00".toList then
    Date.ofText? (String.ofList (cs.take 10))
  else none

/-- The value a plain scalar stands for. -/
def plainValue (s : String) : Value :=
  let cs := s.toList
  if nullWords.contains s then .null
  else if trueWords.contains s then .bool true
  else if falseWords.contains s then .bool false
  else
    match integer? cs, float? cs, day? cs with
    | some n, _, _ => .int n
    | none, some x, _ => .float x
    | none, none, some d =>
      if cs.length = 10 then .date d
      else
        match DateTime.ofText? s with
        | some t => .dateTime t
        | none => .text s
    | none, none, none => .text s

/-! ## Nodes -/

/-- A part of a document. -/
inductive Node
  | scalar (value : Value)
  | list (items : List Node)
  | mapping (entries : List (Node × Node))
  deriving Inhabited

namespace Node

/-- Nothing is written. -/
def empty : Node := scalar .null

/-- The tokens do not go on as they should. -/
def defect {α : Type} : List Token → Except Fault α
  | .broken :: _ => .error .malformedToken
  | _ => .error .malformedDocument

/-- The value of a scalar. -/
def ofScalar (text : String) (plain : Bool) : Node :=
  scalar (if plain then plainValue text else .text text)

/-- The first token is one of these. -/
def startsWith (ts : List Token) (among : List Token) : Bool := ts.head?.any among.contains

mutual

/-- A part of a document.  `inBlock` tells that blocks may open here, and `bare` that a list may
stand at the indentation of the mapping around it. -/
def node (inBlock bare : Bool) : Nat → List Token → Except Fault (Node × List Token)
  | 0, ts => defect ts
  | fuel + 1, ts =>
    match ts with
    | .scalar text plain :: ts => .ok (ofScalar text plain, ts)
    | .openList :: ts => do
      let (ns, ts) ← listItems true fuel ts
      .ok (list ns, ts)
    | .openMap :: ts => do
      let (es, ts) ← mapEntries true fuel ts
      .ok (mapping es, ts)
    | .dash :: _ =>
      if bare then do
        let (ns, ts) ← bareItems fuel ts
        .ok (list ns, ts)
      else defect ts
    | .blockSequence :: rest =>
      if inBlock then do
        let (ns, ts) ← blockItems fuel rest
        .ok (list ns, ts)
      else defect ts
    | .blockMapping :: rest =>
      if inBlock then do
        let (es, ts) ← blockEntries fuel rest
        .ok (mapping es, ts)
      else defect ts
    | ts => defect ts

/-- A part of a document, or nothing in front of one of the tokens. -/
def nodeUnless (ends : List Token) (inBlock bare : Bool) :
    Nat → List Token → Except Fault (Node × List Token)
  | 0, ts => defect ts
  | fuel + 1, ts => if startsWith ts ends then .ok (empty, ts) else node inBlock bare fuel ts

/-- The items of a list in a block of its own. -/
def blockItems : Nat → List Token → Except Fault (List Node × List Token)
  | 0, ts => defect ts
  | fuel + 1, ts =>
    match ts with
    | .dash :: ts => do
      let (n, ts) ← nodeUnless [.dash, .blockEnd] true false fuel ts
      let (ns, ts) ← blockItems fuel ts
      .ok (n :: ns, ts)
    | .blockEnd :: ts => .ok ([], ts)
    | ts => defect ts

/-- The items of a list at the indentation of the mapping around it. -/
def bareItems : Nat → List Token → Except Fault (List Node × List Token)
  | 0, ts => defect ts
  | fuel + 1, ts =>
    match ts with
    | .dash :: ts => do
      let (n, ts) ← nodeUnless [.dash, .key, .colon, .blockEnd] true false fuel ts
      let (ns, ts) ← bareItems fuel ts
      .ok (n :: ns, ts)
    | ts => .ok ([], ts)

/-- The entries of a mapping in a block. -/
def blockEntries : Nat → List Token → Except Fault (List (Node × Node) × List Token)
  | 0, ts => defect ts
  | fuel + 1, ts =>
    match ts with
    | .key :: ts => do
      let (k, ts) ← nodeUnless [.key, .colon, .blockEnd] true true fuel ts
      let (v, ts) ← valueUnless [.key, .colon, .blockEnd] true fuel ts
      let (es, ts) ← blockEntries fuel ts
      .ok ((k, v) :: es, ts)
    | .blockEnd :: ts => .ok ([], ts)
    | ts => defect ts

/-- The value behind a colon; nothing if there is no colon. -/
def valueUnless (ends : List Token) (inBlock : Bool) :
    Nat → List Token → Except Fault (Node × List Token)
  | 0, ts => defect ts
  | fuel + 1, ts =>
    match ts with
    | .colon :: ts => nodeUnless ends inBlock inBlock fuel ts
    | ts => .ok (empty, ts)

/-- The items of a list in brackets. -/
def listItems (first : Bool) : Nat → List Token → Except Fault (List Node × List Token)
  | 0, ts => defect ts
  | fuel + 1, ts =>
    match ts with
    | .closeList :: ts => .ok ([], ts)
    | .comma :: rest => if first then defect ts else listItem fuel rest
    | ts => if first then listItem fuel ts else defect ts

/-- An item of a list in brackets and those behind it; a mapping of one entry needs no brackets. -/
def listItem : Nat → List Token → Except Fault (List Node × List Token)
  | 0, ts => defect ts
  | fuel + 1, ts =>
    match ts with
    | .closeList :: ts => .ok ([], ts)
    | .key :: ts => do
      let (k, ts) ← nodeUnless [.colon, .comma, .closeList] false false fuel ts
      let (v, ts) ← valueUnless [.comma, .closeList] false fuel ts
      let (ns, ts) ← listItems false fuel ts
      .ok (mapping [(k, v)] :: ns, ts)
    | ts => do
      let (n, ts) ← node false false fuel ts
      let (ns, ts) ← listItems false fuel ts
      .ok (n :: ns, ts)

/-- The entries of a mapping in brackets. -/
def mapEntries (first : Bool) :
    Nat → List Token → Except Fault (List (Node × Node) × List Token)
  | 0, ts => defect ts
  | fuel + 1, ts =>
    match ts with
    | .closeMap :: ts => .ok ([], ts)
    | .comma :: rest => if first then defect ts else mapEntry fuel rest
    | ts => if first then mapEntry fuel ts else defect ts

/-- An entry of a mapping in brackets and those behind it. -/
def mapEntry : Nat → List Token → Except Fault (List (Node × Node) × List Token)
  | 0, ts => defect ts
  | fuel + 1, ts =>
    match ts with
    | .closeMap :: ts => .ok ([], ts)
    | .key :: ts => do
      let (k, ts) ← nodeUnless [.colon, .comma, .closeMap] false false fuel ts
      let (v, ts) ← valueUnless [.comma, .closeMap] false fuel ts
      let (es, ts) ← mapEntries false fuel ts
      .ok ((k, v) :: es, ts)
    | ts => do
      let (k, ts) ← node false false fuel ts
      let (es, ts) ← mapEntries false fuel ts
      .ok ((k, empty) :: es, ts)

end

/-- Enough steps to read so many tokens. -/
def steps (ts : List Token) : Nat := 4 * ts.length + 4

/-- The document of a list of tokens. -/
def ofTokens (ts : List Token) : Except Fault Node := do
  let (marked, ts) := match ts with
    | .documentStart :: ts => (true, ts)
    | ts => (false, ts)
  if ts.isEmpty then .ok empty
  else
    let ends := if marked then [.documentStart, .documentEnd] else []
    let (n, ts) ← nodeUnless ends true false (steps ts) ts
    if (ts.dropWhile (· = .documentEnd)).isEmpty then .ok n else defect ts

/-- The document of a text. -/
def ofText (text : String) : Except Fault Node := ofTokens (Token.scan text)

mutual

/-- The value of a part; a key that is no text goes by the text it is shown as. -/
def value : Node → Value
  | scalar v => v
  | list ns => .list (values ns)
  | mapping es => .object (fields es)

/-- The values of parts. -/
def values : List Node → List Value
  | [] => []
  | n :: ns => n.value :: values ns

/-- The fields of entries; of two with one name the later counts. -/
def fields : List (Node × Node) → List (String × Value)
  | [] => []
  | (k, v) :: es =>
    let name := match k with
      | scalar (.text s) => s
      | _ => ""
    let later := fields es
    (name, (later.lookup name).getD v.value) :: later.filter fun f => f.1 ≠ name

end

end Node

end TableGraph.Outline
