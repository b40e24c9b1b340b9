import TableGraph.Fault

/-!
# Words of an identifier

An identifier is read as a list of words.  Characters other than ASCII letters and digits
separate words, and so do two changes of case: a capital after a small letter or a digit, and the
last capital of a run when a small letter follows (`HTTPResponse` is `HTTP`, `Response`).  Names in
the other conventions are put together from these words.

A blank is put at every change of case first, in two passes over the text, one for each change;
then the text is divided where something else than letters and digits stands.

Main definitions: `words`, `snakeCase`, `camelCase`, `pascalCase`, `upperCamel`, and `Casing`, the
choice between them by name.
-/

namespace TableGraph.Text

/-- ASCII letters and digits. -/
def isWordChar (c : Char) : Bool := c.isAlphanum

/-! ## Changes of case -/

/-- A run of capitals at the front, as long as it can be with a capital and a small letter behind. -/
def acronym? : List Char → Option (List Char × List Char)
  | [] => none
  | a :: cs =>
    if a.isUpper then
      -- the run goes on if it can
      match acronym? cs with
      | some (run, word) => some (a :: run, word)
      | none =>
        match cs with
        | b :: c :: _ => if b.isUpper && c.isLower then some ([a], [b, c]) else none
        | _ => none
    else none

/-- A small letter or a digit at the front, and a capital behind it. -/
def rise? : List Char → Option (List Char × List Char)
  | a :: b :: _ => if (a.isLower || a.isDigit) && b.isUpper then some ([a], [b]) else none
  | _ => none

/--
The text with a blank between the two parts of everything that `find?` finds.  The search goes from
left to right and continues behind what it has found: the first `covered` characters belong to that.
-/
def spaced (find? : List Char → Option (List Char × List Char)) : Nat → List Char → List Char
  | _, [] => []
  | covered + 1, _ :: cs => spaced find? covered cs
  | 0, c :: cs =>
    match find? (c :: cs) with
    | some (first, second) =>
      first ++ ' ' :: second ++ spaced find? (first.length + second.length - 1) cs
    | none => c :: spaced find? 0 cs

/-! ## Words -/

/-- Puts a character in front of the first word. -/
def prepend (c : Char) : List (List Char) → List (List Char)
  | [] => [[c]]
  | w :: ws => (c :: w) :: ws

/-- What stands before, between and behind the characters that separate words. -/
def pieces : List Char → List (List Char)
  | [] => [[]]
  | c :: cs => if isWordChar c then prepend c (pieces cs) else [] :: pieces cs

/-- The words of a list of characters, in order. -/
def wordsOf (cs : List Char) : List (List Char) :=
  (pieces (spaced rise? 0 (spaced acronym? 0 cs))).filter fun w => !w.isEmpty

/-- The words of an identifier. -/
def words (name : String) : List String := (wordsOf name.toList).map String.ofList

/-- Small letters joined by underscores. -/
def snakeCase (name : String) : String :=
  "_".intercalate ((words name).map String.toLower)

/-- A word with a leading capital and small letters after it. -/
def capitalize : List Char → List Char
  | [] => []
  | c :: cs => c.toUpper :: cs.map Char.toLower

/-- Words with a leading capital, joined without a mark. -/
def pascalCase (name : String) : String :=
  String.ofList ((wordsOf name.toList).flatMap capitalize)

/-- Like `pascalCase`, with a small first letter. -/
def camelCase (name : String) : String :=
  match (pascalCase name).toList with
  | [] => ""
  | c :: cs => String.ofList (c.toLower :: cs)

/-- Like `pascalCase`, all in capitals. -/
def upperCamel (name : String) : String := (pascalCase name).toUpper

/-- The naming conventions a configuration may ask for. -/
inductive Casing
  | snake
  | camel
  | pascal
  | upper
  deriving DecidableEq, Repr

namespace Casing

/-- The name written in a convention. -/
def apply : Casing → String → String
  | snake => snakeCase
  | camel => camelCase
  | pascal => pascalCase
  | upper => upperCamel

/-- The convention a configuration calls `name`. -/
def ofName? : String → Option Casing
  | "snake" => some snake
  | "camel" => some camel
  | "pascal" => some pascal
  | "upper" => some upper
  | _ => none

/-- The word a configuration uses for a convention. -/
def name : Casing → String
  | snake => "snake"
  | camel => "camel"
  | pascal => "pascal"
  | upper => "upper"

/-- The convention a configuration names, or the fault of a name that stands for none. -/
def named (name : String) : Except Fault Casing :=
  match ofName? name with
  | some c => .ok c
  | none =>
    .error (.unreadable (s!"Unknown casing rule '{name}', " ++
      "expected one of ['camel', 'pascal', 'snake', 'upper']"))

theorem ofName?_name (c : Casing) : ofName? c.name = some c := by
  cases c <;> rfl

end Casing

end TableGraph.Text
