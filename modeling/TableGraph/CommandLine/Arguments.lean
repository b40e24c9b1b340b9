import TableGraph.Number.Numeral

/-!
# Arguments

What the words of a command line ask for.  Options stand before the command or behind it, each side
with its own; a long one may be cut short as long as it stays unique, and its value may be attached
by `=`.  The first misuse in the order of the words ends the reading, and so does a request for help
or for the version.
-/

namespace TableGraph.CommandLine

/-- Why a command line runs no command. -/
inductive Exit
  | help
  | version
  | misuse
  deriving DecidableEq, Repr

/-- The code a command line that runs no command ends with. -/
def Exit.code : Exit → Nat
  | help | version => 0
  | misuse => 2

/-- What an option is about. -/
inductive Flag
  | help
  | version
  | config
  | databaseUrl
  | tables
  | host
  | port
  deriving DecidableEq, Repr

/-- The option has a value. -/
def Flag.takesValue : Flag → Bool
  | help | version => false
  | _ => true

/-- The spellings of options. -/
abbrev Spellings := List (String × Flag)

/-- What can be done. -/
inductive Command
  /-- Print the schema of a database. -/
  | schema
  /-- Serve a database. -/
  | serve
  deriving DecidableEq, Repr

/-- The options of every command. -/
def commonSpellings : Spellings :=
  [("-h", .help), ("--help", .help), ("--database-url", .databaseUrl), ("--tables", .tables)]

namespace Command

/-- The command a word names. -/
def ofName? : String → Option Command
  | "schema" => some schema
  | "serve" => some serve
  | _ => none

/-- The options of a command. -/
def spellings : Command → Spellings
  | schema => commonSpellings
  | serve => commonSpellings ++ [("--host", .host), ("--port", .port), ("-p", .port)]

end Command

/-- The options in front of a command. -/
def generalSpellings : Spellings :=
  [("-h", .help), ("--help", .help), ("--version", .version), ("--config", .config),
    ("-c", .config)]

/-- The values of options. -/
structure Options where
  config : Option String := none
  databaseUrl : Option String := none
  tables : Option String := none
  host : Option String := none
  port : Option Int := none
  /-- There are words that mean nothing. -/
  stray : Bool := false

/-- The options with a value set. -/
def Options.set (o : Options) (value : String) : Flag → Except Exit Options
  | .config => .ok { o with config := some value }
  | .databaseUrl => .ok { o with databaseUrl := some value }
  | .tables => .ok { o with tables := some value }
  | .host => .ok { o with host := some value }
  | .port =>
    match Numeral.integer value with
    | .ok n => .ok { o with port := some n }
    | .error _ => .error .misuse
  | .help => .error .help
  | .version => .error .version

/-! ## Words -/

/-- What a word is. -/
inductive Word
  | operand
  | option (flag : Flag) (isShort : Bool) (attached : Option String)
  | unknown
  | separator
  deriving DecidableEq, Repr

namespace Word

/-- The parts of a word before and behind the first `=`. -/
def splitValue (cs : List Char) : List Char × Option String :=
  match cs.dropWhile (· ≠ '=') with
  | [] => (cs, none)
  | _ :: value => (cs.takeWhile (· ≠ '='), some (String.ofList value))

/-- The text is a number below zero. -/
def isNegative (cs : List Char) : Bool :=
  match cs with
  | '-' :: cs =>
    let whole := cs.takeWhile Char.isDigit
    match cs.dropWhile Char.isDigit with
    | [] => !whole.isEmpty
    | '.' :: fraction => !fraction.isEmpty && fraction.all Char.isDigit
    | _ => false
  | _ => false

/-- The options a word may be short for. -/
def candidates (spellings : Spellings) (cs : List Char) : List Word :=
  match cs with
  | '-' :: '-' :: _ =>
    let (name, value) := splitValue cs
    (spellings.filter fun s => name.isPrefixOf s.1.toList).map fun s => option s.2 false value
  | '-' :: c :: value =>
    (spellings.filter fun s => s.1.toList = ['-', c]).map fun s =>
      option s.2 true (some (String.ofList value))
  | _ => []

/-- What a word is among options; misuse if it is short for several. -/
def read (spellings : Spellings) (word : String) : Except Exit Word :=
  let cs := word.toList
  let (name, value) := splitValue cs
  let isShort := cs[1]? ≠ some '-'
  if word = "--" then .ok separator
  else if cs.head? ≠ some '-' then .ok operand
  else
    match spellings.lookup word, spellings.lookup (String.ofList name) with
    | some f, _ => .ok (option f isShort none)
    | none, some f => .ok (option f isShort value)
    | none, none =>
      if word = "-" then .ok operand
      else
        match candidates spellings cs with
        | [w] => .ok w
        | _ :: _ :: _ => .error .misuse
        | [] => .ok (if isNegative cs || cs.contains ' ' then operand else unknown)

/-- What each word is; behind a separator there are no options. -/
def readAll (spellings : Spellings) : List String → Except Exit (List (String × Word))
  | [] => .ok []
  | word :: words => do
    let w ← read spellings word
    if w = separator then .ok ((word, w) :: words.map fun word => (word, operand))
    else do
      let ws ← readAll spellings words
      .ok ((word, w) :: ws)

end Word

/-! ## Reading -/

/-- The letters behind a short option without a value are short options, too. -/
def areLetters (spellings : Spellings) (valueFollows : Bool) : List Char → Bool
  | [] => true
  | c :: cs =>
    match spellings.lookup (String.ofList ['-', c]) with
    | some f => if f.takesValue then !cs.isEmpty || valueFollows
        else areLetters spellings valueFollows cs
    | none => false

/-- The next word is an operand. -/
def operandFollows : List (String × Word) → Bool
  | (_, .operand) :: _ => true
  | _ => false

/-- What is attached to an option without a value is not misused: it is nothing, or letters behind a
short option. -/
def isProper (spellings : Spellings) (isShort : Bool) (attached : Option String)
    (words : List (String × Word)) : Bool :=
  match attached with
  | none => true
  | some s => isShort && !s.isEmpty && areLetters spellings (operandFollows words) s.toList

/-- Reads options up to the first operand if there is to be a command, up to the end if not. -/
def readOptions (spellings : Spellings) (hasCommand : Bool) (o : Options) :
    List (String × Word) → Except Exit (Options × List String)
  | [] => .ok (o, [])
  | (_, .option flag isShort attached) :: words =>
    if !flag.takesValue then
      if isProper spellings isShort attached words then do
        let o ← o.set "" flag
        .ok (o, [])
      else .error .misuse
    else
      match attached, words with
      | some value, words => do
        let o ← o.set value flag
        readOptions spellings hasCommand o words
      | none, (value, .operand) :: words => do
        let o ← o.set value flag
        readOptions spellings hasCommand o words
      | none, _ => .error .misuse
  | (_, .unknown) :: words => readOptions spellings hasCommand { o with stray := true } words
  | (word, .operand) :: words =>
    if hasCommand then .ok (o, word :: words.map (·.1))
    else readOptions spellings hasCommand { o with stray := true } words
  | (_, .separator) :: _ =>
    if hasCommand then .error .misuse else .ok ({ o with stray := true }, [])

/-- What a command line asks for: a command with its options, or nothing. -/
def parse (arguments : List String) : Except Exit (Option (Command × Options)) := do
  let words ← Word.readAll generalSpellings arguments
  let (o, rest) ← readOptions generalSpellings true {} words
  let asked ← match rest with
    | [] => pure none
    | name :: rest =>
      match Command.ofName? name with
      | none => .error .misuse
      | some command => do
        let words ← Word.readAll command.spellings rest
        let (o, _) ← readOptions command.spellings false o words
        pure (some (command, o))
  if ((asked.map (·.2)).getD o).stray then .error .misuse else .ok asked

end TableGraph.CommandLine
