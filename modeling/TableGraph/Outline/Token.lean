import TableGraph.Text.Character

/-!
# Tokens of an outline

An outline is a document whose lines are structured by indentation.  `Token.scan` cuts it into
tokens: a deeper line opens a block, a shallower line closes those it leaves.  That a scalar or a
bracketed collection is the key of a mapping shows only at the colon behind it, so places where a
key may stand are remembered and the tokens that announce it are put in there afterwards.  A text
that cannot be cut ends with `broken`.
-/

namespace TableGraph.Outline

/-- A token. -/
inductive Token
  | documentStart
  | documentEnd
  | blockSequence
  | blockMapping
  | blockEnd
  | openList
  | closeList
  | openMap
  | closeMap
  | dash
  | comma
  | key
  | colon
  | scalar (text : String) (plain : Bool)
  | broken
  deriving DecidableEq, Repr

/-- A place where the key of a mapping may stand. -/
structure KeyPlace where
  depth : Nat
  /-- How many tokens stand in front of it. -/
  index : Nat
  line : Nat
  column : Nat
  /-- How many characters are left at it. -/
  left : Nat
  required : Bool

/-- How far a document is cut. -/
structure Scanner where
  rest : List Char
  line : Nat
  column : Nat
  tokens : List Token
  /-- How many brackets are open. -/
  depth : Nat
  indent : Int
  indents : List Int
  keyAllowed : Bool
  places : List KeyPlace

namespace Scanner

/-- The end of a line. -/
def isBreak (c : Char) : Bool :=
  c = '\n' || c = '\r' || c = '\x85' || c = '\u2028' || c = '\u2029'

/-- A blank or the end of a line. -/
def isGap (c : Char) : Bool := c = ' ' || c = '\t' || c = '\x00' || isBreak c

/-- The characters end, or go on with a gap. -/
def atGap (cs : List Char) : Bool := cs.head?.all isGap

/-- Moves behind the next characters, which do not end a line. -/
def skip (s : Scanner) (n : Nat) : Scanner :=
  { s with rest := s.rest.drop n, column := s.column + n }

/-- Moves behind the end of a line. -/
def nextLine (s : Scanner) : Scanner :=
  { s with rest := s.rest.drop 1, line := s.line + 1, column := 0 }

/-- The tokens with one more. -/
def put (s : Scanner) (t : Token) : Scanner := { s with tokens := s.tokens ++ [t] }

/-- The characters stand at a line of three marks that separates documents. -/
def atMarks (mark : Char) (cs : List Char) : Bool :=
  cs.take 3 = [mark, mark, mark] && atGap (cs.drop 3)

/-! ## Gaps -/

/-- Moves to the next token: behind blanks, comments and ends of lines. -/
def skipGaps : Nat → Scanner → Scanner
  | 0, s => s
  | fuel + 1, s =>
    let s := s.skip (s.rest.takeWhile (· = ' ')).length
    let s := match s.rest with
      | '#' :: _ => s.skip (s.rest.takeWhile fun c => !isBreak c && c ≠ '\x00').length
      | _ => s
    match s.rest with
    | c :: _ =>
      if isBreak c then
        skipGaps fuel { s.nextLine with keyAllowed := s.keyAllowed || s.depth = 0 }
      else s
    | [] => s

/-! ## Places of keys -/

/-- A key spans one line and so many characters at most. -/
def keyLimit : Nat := 1024

/-- Without the places that are left behind; a required one must not be. -/
def dropStale (s : Scanner) : Option Scanner :=
  let isStale (p : KeyPlace) : Bool := p.line ≠ s.line || keyLimit < p.left - s.rest.length
  if s.places.any fun p => isStale p && p.required then none
  else some { s with places := s.places.filter fun p => !isStale p }

/-- Without the place of the innermost bracket; a required one must not be left. -/
def dropPlace (s : Scanner) : Option Scanner :=
  if s.places.any fun p => p.depth = s.depth && p.required then none
  else some { s with places := s.places.filter fun p => p.depth ≠ s.depth }

/-- With the next token as the place of a key, if one may stand there. -/
def savePlace (s : Scanner) : Option Scanner :=
  if !s.keyAllowed then some s
  else do
    let s ← s.dropPlace
    let required := s.depth = 0 && s.indent = s.column
    some { s with
      places := ⟨s.depth, s.tokens.length, s.line, s.column, s.rest.length, required⟩ :: s.places }

/-! ## Indentation -/

/-- Closes the blocks that are deeper than a column. -/
def closeBlocks (column : Int) : List Int → Scanner → Scanner
  | [], s => s
  | outer :: indents, s =>
    if column < s.indent then
      closeBlocks column indents { s.put .blockEnd with indent := outer, indents }
    else s

/-- Closes the blocks that the column leaves; within brackets there are none. -/
def unwind (s : Scanner) (column : Int) : Scanner :=
  if 0 < s.depth then s else closeBlocks column s.indents s

/-- Opens a block at a column that is deeper than the innermost one. -/
def indentTo (s : Scanner) (column : Nat) (opening : Token) (index : Nat) : Scanner :=
  if s.indent < column then
    { s with
      indents := s.indent :: s.indents, indent := column
      tokens := s.tokens.take index ++ opening :: s.tokens.drop index }
  else s

/-! ## Marks -/

/-- A bracket that opens a collection. -/
def openBracket (s : Scanner) (t : Token) : Option Scanner := do
  let s ← s.savePlace
  some { (s.skip 1).put t with depth := s.depth + 1, keyAllowed := true }

/-- A bracket that closes a collection. -/
def closeBracket (s : Scanner) (t : Token) : Option Scanner := do
  let s ← s.dropPlace
  some { (s.skip 1).put t with depth := s.depth - 1, keyAllowed := false }

/-- A comma. -/
def comma (s : Scanner) : Option Scanner := do
  let s ← s.dropPlace
  some { (s.skip 1).put .comma with keyAllowed := true }

/-- The dash in front of an item. -/
def dash (s : Scanner) : Option Scanner :=
  if s.depth = 0 && !s.keyAllowed then none
  else do
    let t := if s.depth = 0 then s.indentTo s.column .blockSequence s.tokens.length else s
    let t ← t.dropPlace
    some { (t.skip 1).put .dash with keyAllowed := true }

/-- The question mark in front of a key. -/
def question (s : Scanner) : Option Scanner :=
  if s.depth = 0 && !s.keyAllowed then none
  else do
    let t := if s.depth = 0 then s.indentTo s.column .blockMapping s.tokens.length else s
    let t ← t.dropPlace
    some { (t.skip 1).put .key with keyAllowed := t.depth = 0 }

/-- The colon behind a key; the key is announced where it began. -/
def colon (s : Scanner) : Option Scanner :=
  match s.places.find? fun p => p.depth = s.depth with
  | some p =>
    let tokens := s.tokens.take p.index ++ .key :: s.tokens.drop p.index
    let t := { s with tokens, places := s.places.filter fun q => q.depth ≠ s.depth }
    let t := if s.depth = 0 then t.indentTo p.column .blockMapping p.index else t
    some { (t.skip 1).put .colon with keyAllowed := false }
  | none =>
    if s.depth = 0 && !s.keyAllowed then none
    else do
      let t := if s.depth = 0 then s.indentTo s.column .blockMapping s.tokens.length else s
      let t ← t.dropPlace
      some { (t.skip 1).put .colon with keyAllowed := t.depth = 0 }

/-- Three marks at the beginning of a line. -/
def marks (s : Scanner) (t : Token) : Option Scanner := do
  let s ← (s.unwind (-1)).dropPlace
  some { (s.skip 3).put t with keyAllowed := false }

/-! ## Folded lines -/

/-- Moves behind the ends of lines and the blanks between them, and gives how many ends there are. -/
def breaks (isBlank : Char → Bool) : Nat → Scanner → Nat × Scanner
  | 0, s => (0, s)
  | fuel + 1, s =>
    let s := s.skip (s.rest.takeWhile isBlank).length
    match s.rest with
    | c :: _ =>
      if isBreak c then
        let (n, s) := breaks isBlank fuel s.nextLine
        (n + 1, s)
      else (0, s)
    | [] => (0, s)

/-- So many ends of lines within a text: one stands for a blank, each further one for itself. -/
def folded (n : Nat) : List Char := if n = 1 then [' '] else List.replicate (n - 1) '\n'

/-! ## Plain scalars -/

/-- The characters a plain scalar does not hold within brackets. -/
def isBracketMark (c : Char) : Bool := ",?[]\x7b\x7d".toList.contains c

/-- The characters of a plain scalar up to the next gap or mark. -/
def plainRun (bracketed : Bool) : List Char → List Char
  | [] => []
  | c :: cs =>
    let ends := isGap c || (bracketed && isBracketMark c) ||
      (c = ':' && (atGap cs || (bracketed && cs.head?.any fun d => d ≠ '?' && isBracketMark d)))
    if ends then [] else c :: plainRun bracketed cs

/-- The rest of a plain scalar, behind its first characters. -/
def plainRest : Nat → Scanner → List Char × Scanner
  | 0, s => ([], s)
  | fuel + 1, s =>
    let blanks := s.rest.takeWhile (· = ' ')
    let t := s.skip blanks.length
    let (gap, t) := match t.rest with
      | c :: _ =>
        if isBreak c then
          let (n, t) := breaks (· = ' ') t.rest.length t
          (folded n, { t with keyAllowed := true })
        else (blanks, t)
      | [] => (blanks, t)
    let isOver := gap.isEmpty || t.rest.head? = some '#' ||
      (t.column = 0 && (atMarks '-' t.rest || atMarks '.' t.rest)) ||
      (t.depth = 0 && (t.column : Int) ≤ t.indent)
    let run := plainRun (0 < t.depth) t.rest
    if isOver || run.isEmpty then ([], t)
    else
      let (more, t) := plainRest fuel { t.skip run.length with keyAllowed := false }
      (gap ++ run ++ more, t)

/-- A plain scalar. -/
def plain (s : Scanner) : Option Scanner := do
  let s ← s.savePlace
  let run := plainRun (0 < s.depth) s.rest
  let (more, t) := plainRest s.rest.length { s.skip run.length with keyAllowed := false }
  some (t.put (.scalar (String.ofList (run ++ more)) true))

/-- A plain scalar may begin here. -/
def atPlain (s : Scanner) : Bool :=
  match s.rest with
  | c :: cs =>
    !isGap c && !("-?:,[]\x7b\x7d#&*!|>'\"%@".toList.contains c || c = '\x60') ||
      (!atGap cs && (c = '-' || (s.depth = 0 && (c = '?' || c = ':'))))
  | [] => false

/-! ## Quoted scalars -/

/-- The characters that single letters behind a backslash stand for. -/
def escapes : List (Char × Char) :=
  [('0', '\x00'), ('a', '\x07'), ('b', '\x08'), ('t', '\t'), ('\t', '\t'), ('n', '\n'),
    ('v', '\x0b'), ('f', '\x0c'), ('r', '\r'), ('e', '\x1b'), (' ', ' '), ('"', '"'), ('\\', '\\'),
    ('/', '/'), ('N', '\x85'), ('_', '\xa0'), ('L', '\u2028'), ('P', '\u2029')]

/-- How many digits a numbered character behind a backslash has. -/
def codeLength? : Char → Option Nat
  | 'x' => some 2
  | 'u' => some 4
  | 'U' => some 8
  | _ => none

/-- The character of a code in base sixteen. -/
def coded? (digits : List Char) (length : Nat) : Option Char := do
  let ds ← digits.mapM Text.hexValue?
  if ds.length = length then some (Char.ofNat (ds.foldl (fun n d => n * 16 + d) 0)) else none

/-- What a backslash and the characters behind it stand for. -/
def escaped? (s : Scanner) : Option (List Char × Scanner) :=
  match s.rest.drop 1 with
  | [] => none
  | c :: cs =>
    match escapes.lookup c, codeLength? c with
    | some d, _ => some ([d], s.skip 2)
    | none, some n => (coded? (cs.take n) n).map fun d => ([d], s.skip (2 + n))
    | none, none =>
      if isBreak c then
        let t := (s.skip 1).nextLine
        let (n, t) := breaks (fun c => c = ' ' || c = '\t') t.rest.length t
        some (List.replicate n '\n', t)
      else none

/-- A quoted scalar up to its closing quote. -/
def quotedRest (double : Bool) : Nat → Scanner → Option (List Char × Scanner)
  | 0, _ => none
  | fuel + 1, s =>
    match s.rest with
    | [] => none
    | c :: cs =>
      if double && c = '"' || !double && c = '\'' && cs.head? ≠ some '\'' then some ([], s.skip 1)
      else
        let part := if double && c = '\\' then escaped? s
          else if !double && c = '\'' then some (['\''], s.skip 2)
          else if c = ' ' || c = '\t' || isBreak c then
            let blanks := s.rest.takeWhile fun c => c = ' ' || c = '\t'
            let t := s.skip blanks.length
            if t.rest.head?.any isBreak then
              let (n, t) := breaks (fun c => c = ' ' || c = '\t') t.rest.length t
              if atMarks '-' t.rest || atMarks '.' t.rest then none else some (folded n, t)
            else some (blanks, t)
          else some ([c], s.skip 1)
        part.bind fun (chars, t) =>
          (quotedRest double fuel t).map fun (more, t) => (chars ++ more, t)

/-- A quoted scalar. -/
def quoted (s : Scanner) (double : Bool) : Option Scanner := do
  let s ← s.savePlace
  let (text, t) ← quotedRest double s.rest.length { s.skip 1 with keyAllowed := false }
  some (t.put (.scalar (String.ofList text) false))

/-! ## Documents -/

/-- Cuts off the next token; none if the characters there begin no token. -/
def token (s : Scanner) : Option Scanner :=
  match s.rest with
  | [] => some s
  | c :: cs =>
    if s.column = 0 && atMarks '-' s.rest then s.marks .documentStart
    else if s.column = 0 && atMarks '.' s.rest then s.marks .documentEnd
    else
      match c with
      | '[' => s.openBracket .openList
      | '\x7b' => s.openBracket .openMap
      | ']' => s.closeBracket .closeList
      | '\x7d' => s.closeBracket .closeMap
      | ',' => s.comma
      | '\'' => s.quoted false
      | '"' => s.quoted true
      | c =>
        if c = '-' && atGap cs then s.dash
        else if c = '?' && (0 < s.depth || atGap cs) then s.question
        else if c = ':' && (0 < s.depth || atGap cs) then s.colon
        else if s.atPlain then s.plain
        else none

/-- The tokens of a document that cannot be cut further.  Those that a key may still precede are not
among them. -/
def halted (s : Scanner) : List Token :=
  s.tokens.take (s.places.foldl (fun n p => min n p.index) s.tokens.length) ++ [.broken]

/-- The tokens of what is left of a document. -/
def run : Nat → Scanner → List Token
  | 0, s => s.halted
  | fuel + 1, s =>
    let s := s.skipGaps (s.rest.length + 1)
    match s.dropStale with
    | none => s.halted
    | some s =>
      let s := s.unwind s.column
      match s.rest with
      | [] =>
        match (s.unwind (-1)).dropPlace with
        | some s => s.tokens
        | none => s.halted
      | _ =>
        match s.token with
        | some s => run fuel s
        | none => s.halted

end Scanner

/-- The tokens of a document. -/
def Token.scan (text : String) : List Token :=
  let cs := text.toList
  let cs := if cs.head? = some '\ufeff' then cs.tail else cs
  Scanner.run (cs.length + 1) ⟨cs, 0, 0, [], 0, -1, [], true, []⟩

end TableGraph.Outline
