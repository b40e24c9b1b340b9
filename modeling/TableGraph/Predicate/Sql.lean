import TableGraph.Predicate.Basic

/-!
# Conditions as SQL

The text of a condition with a question mark for each operand, and the operands in the same order.
A disjunction inside a conjunction stands in parentheses, a name that could be taken for something
else stands in double quotes.
-/

namespace TableGraph

/-- The text of a condition and the operands it stands for. -/
structure SqlText where
  text : String
  operands : List Value

namespace Comparison

/-- The sign of a comparison. -/
def sign : Comparison → String
  | eq => "="
  | ne => "!="
  | gt => ">"
  | ge => ">="
  | lt => "<"
  | le => "<="

end Comparison

/-! ## Names -/

/-- Words that are no names unless they are quoted. -/
def reservedWords : List String :=
  ["all", "analyse", "analyze", "and", "any", "array", "as", "asc", "asymmetric", "authorization",
    "between", "binary", "both", "case", "cast", "check", "collate", "column", "constraint",
    "create", "cross", "current_date", "current_role", "current_time", "current_timestamp",
    "current_user", "default", "deferrable", "desc", "distinct", "do", "else", "end", "except",
    "false", "for", "foreign", "freeze", "from", "full", "grant", "group", "having", "ilike", "in",
    "initially", "inner", "intersect", "into", "is", "isnull", "join", "leading", "left", "like",
    "limit", "localtime", "localtimestamp", "natural", "new", "not", "notnull", "null", "off",
    "offset", "old", "on", "only", "or", "order", "outer", "overlaps", "placing", "primary",
    "references", "right", "select", "session_user", "set", "similar", "some", "symmetric", "table",
    "then", "to", "trailing", "true", "union", "unique", "user", "using", "verbose", "when",
    "where"]

/-- A character of a name without quotes. -/
def isNameChar (c : Char) : Bool := c.isLower || c.isDigit || c == '_' || c == '$'

/-- A name without quotes: no upper case, no digit or `$` in front, no word of another meaning. -/
def isPlainName (name : String) : Bool :=
  match name.toList with
  | [] => false
  | c :: cs => (c.isLower || c == '_') && cs.all isNameChar && !reservedWords.contains name

/-- A character of a name in double quotes. -/
def quotedChar (c : Char) : List Char := if c = '"' then ['"', '"'] else [c]

/-- A name between double quotes, with those inside it doubled. -/
def quotedName (name : String) : String :=
  String.ofList ('"' :: name.toList.flatMap quotedChar ++ ['"'])

/-- A name, in quotes where it needs them. -/
def nameText (name : String) : String := if isPlainName name then name else quotedName name

/-- A column of a table. -/
def columnText (table column : String) : String := nameText table ++ "." ++ nameText column

/-! ## Conditions -/

/-- A list that no value is in. -/
def emptyListText : String := "SELECT 1 FROM (SELECT 1) WHERE 1!=1"

namespace Test

/-- The text of a test of a column. -/
def sql (column : String) : Test Value → SqlText
  | compare c v => ⟨column ++ " " ++ c.sign ++ " ?", [v]⟩
  | truth negated b =>
    ⟨column ++ (if negated then " != " else " = ") ++ (if b then "1" else "0"), []⟩
  | null negated => ⟨column ++ (if negated then " IS NOT NULL" else " IS NULL"), []⟩
  | among negated vs =>
    let list := if vs.isEmpty then emptyListText else ", ".intercalate (vs.map fun _ => "?")
    if negated then ⟨"(" ++ column ++ " NOT IN (" ++ list ++ "))", vs⟩
    else ⟨column ++ " IN (" ++ list ++ ")", vs⟩
  | between negated low high =>
    ⟨column ++ (if negated then " NOT BETWEEN ? AND ?" else " BETWEEN ? AND ?"), [low, high]⟩
  | like negated pattern =>
    ⟨column ++ (if negated then " NOT LIKE ?" else " LIKE ?"), [.text pattern]⟩
  | part place needle =>
    let shape := match place with
      | .anywhere => "'%' || ? || '%'"
      | .start => "? || '%'"
      | .finish => "'%' || ?"
    ⟨column ++ " LIKE " ++ shape ++ " ESCAPE '/'",
      [.text (String.ofList (Pattern.literal needle.toList))]⟩

end Test

namespace Predicate

/-- The condition needs parentheses inside a conjunction. -/
def isAny {α : Type} : Predicate α → Bool
  | any _ => true
  | _ => false

mutual

/-- The text of a condition on the columns of a table. -/
def sql (table : String) : Predicate Value → SqlText
  | always => ⟨"1", []⟩
  | tautology => ⟨"1 = 1", []⟩
  | test column t => t.sql (columnText table column)
  | expression e => ⟨e.text, e.operands⟩
  | all ps =>
    let parts := sqlItems table true ps
    ⟨" AND ".intercalate (parts.map (·.text)), parts.flatMap (·.operands)⟩
  | any ps =>
    let parts := sqlItems table false ps
    ⟨" OR ".intercalate (parts.map (·.text)), parts.flatMap (·.operands)⟩
termination_by structural p => p

/-- The texts of several conditions, disjunctions in parentheses if asked for. -/
def sqlItems (table : String) (parenthesized : Bool) : List (Predicate Value) → List SqlText
  | [] => []
  | p :: ps =>
    let part := sql table p
    let part :=
      if parenthesized && p.isAny then { part with text := "(" ++ part.text ++ ")" } else part
    part :: sqlItems table parenthesized ps
termination_by structural ps => ps

end

end Predicate

end TableGraph
