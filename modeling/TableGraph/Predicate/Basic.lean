import TableGraph.Store.Cell
import TableGraph.Value.Basic

/-!
# Conditions on rows and orders of rows

A condition is a tree of tests on single columns and of expressions, which ask anything of several
columns.  `Predicate.allOf` and `Predicate.anyOf` join conditions and keep the tree flat: what asks
for nothing disappears from a conjunction and makes a disjunction a tautology, and joins of one
condition are that condition.

The operands of tests are of any type: values as they are written into a statement, or cells of the
store they are compared with.

A pattern is matched with a text as a whole: `%` stands for any characters, `_` for one, and a
character behind an escape character for itself.  Capitals and small letters of ASCII are not told
apart.  `Pattern.matches` decides; `Pattern.literal` writes a text so that it stands for itself.
-/

namespace TableGraph

/-! ## Patterns of texts -/

/-- An element of a pattern. -/
inductive PatternItem
  | many
  | one
  | exactly (c : Char)
  deriving DecidableEq, Repr

namespace Pattern

/-- The escape character of patterns made from texts. -/
def escapeMark : Char := '/'

/-- The elements of a pattern, with an escape character if there is one. -/
def items (escape : Option Char) : List Char → List PatternItem
  | [] => []
  | [c] => [if c = '%' then .many else if c = '_' then .one else .exactly c]
  | c :: d :: rest =>
    if escape = some c then .exactly d :: items escape rest
    else (if c = '%' then .many else if c = '_' then .one else .exactly c) ::
      items escape (d :: rest)

/-- Two characters are the same letter. -/
def sameLetter (c d : Char) : Bool := c.toLower == d.toLower

/-- Some end of the text satisfies `f`. -/
def anySuffix (f : List Char → Bool) : List Char → Bool
  | [] => f []
  | c :: cs => f (c :: cs) || anySuffix f cs

/-- The elements cover the text. -/
def covers : List PatternItem → List Char → Bool
  | [], cs => cs.isEmpty
  | .many :: items, cs => anySuffix (covers items) cs
  | .one :: items, cs =>
    match cs with
    | [] => false
    | _ :: cs => covers items cs
  | .exactly c :: items, cs =>
    match cs with
    | [] => false
    | d :: cs => sameLetter c d && covers items cs

/-- The pattern matches the text. -/
def matches? (escape : Option Char) (pattern text : List Char) : Bool :=
  covers (items escape pattern) text

/-- The text with the escape character in front of all characters that mean something else. -/
def literal (cs : List Char) : List Char :=
  cs.flatMap fun c =>
    if c = escapeMark ∨ c = '%' ∨ c = '_' then [escapeMark, c] else [c]

end Pattern

/-! ## Tests and conditions -/

/-- Comparisons of two operands. -/
inductive Comparison
  | eq
  | ne
  | gt
  | ge
  | lt
  | le
  deriving DecidableEq, Repr

/-- Where a text has to stand inside another. -/
inductive Place
  | anywhere
  | start
  | finish
  deriving DecidableEq, Repr

/-- What is asked of one column. -/
inductive Test (α : Type)
  | compare (c : Comparison) (operand : α)
  /-- The column is that truth value, or is not. -/
  | truth (negated value : Bool)
  | null (negated : Bool)
  | among (negated : Bool) (operands : List α)
  | between (negated : Bool) (low high : α)
  | like (negated : Bool) (pattern : String)
  | part (place : Place) (needle : String)
  deriving Repr

/-- What is asked of several columns at once. -/
structure Expression where
  /-- How it is written, with a question mark for each operand. -/
  text : String
  operands : List Value
  columns : List String
  /-- What it says about the cells of its columns: true, false or unknown. -/
  holds : List Cell → Option Bool

/-- A condition on a row. -/
inductive Predicate (α : Type)
  /-- Nothing is asked. -/
  | always
  /-- A disjunction with a branch that asks for nothing. -/
  | tautology
  | test (column : String) (t : Test α)
  | expression (e : Expression)
  | all (ps : List (Predicate α))
  | any (ps : List (Predicate α))
  deriving Inhabited

namespace Test

/-- Equality with a value: null and truth values have tests of their own. -/
def equals (negated : Bool) : Value → Test Value
  | .null => .null negated
  | .bool b => .truth negated b
  | v => .compare (if negated then .ne else .eq) v

/-- A comparison by size, which null and truth values do not take part in. -/
def ordered (c : Comparison) : Value → Except Fault (Test Value)
  | .null | .bool _ => .error .truthOrdering
  | v => .ok (.compare c v)

/-- The operands converted, in order. -/
def mapM {α β : Type} (f : α → Except Fault β) : Test α → Except Fault (Test β)
  | compare c v => (.compare c ·) <$> f v
  | truth negated b => .ok (.truth negated b)
  | null negated => .ok (.null negated)
  | among negated vs => (.among negated ·) <$> vs.mapM f
  | between negated low high => do
    let low ← f low
    let high ← f high
    .ok (.between negated low high)
  | like negated pattern => .ok (.like negated pattern)
  | part place needle => .ok (.part place needle)

end Test

namespace Predicate

variable {α β : Type}

/-- The conditions a conjunction is flattened to. -/
def conjuncts : Predicate α → List (Predicate α)
  | always => []
  | all ps => ps
  | p => [p]

/-- The conditions a disjunction is flattened to. -/
def disjuncts : Predicate α → List (Predicate α)
  | any ps => ps
  | p => [p]

/-- The condition asks for nothing. -/
def isAlways : Predicate α → Bool
  | always => true
  | _ => false

/-- All conditions hold. -/
def allOf (ps : List (Predicate α)) : Predicate α :=
  match ps.flatMap conjuncts with
  | [] => always
  | [p] => p
  | qs => all qs

/-- One of the conditions holds. -/
def anyOf (ps : List (Predicate α)) : Predicate α :=
  if ps.any isAlways then tautology
  else
    match ps.flatMap disjuncts with
    | [p] => p
    | qs => any qs

/-- Both conditions hold; a missing one always does. -/
def andAlso (p : Predicate α) (scope : Option (Predicate α)) : Predicate α :=
  match scope with
  | none => p
  | some q => allOf [p, q]

mutual

/-- The operands converted, each by its column, in order. -/
def mapM (f : String → Test α → Except Fault (Test β)) : Predicate α → Except Fault (Predicate β)
  | always => .ok always
  | tautology => .ok tautology
  | test column t => (test column ·) <$> f column t
  | expression e => .ok (expression e)
  | all ps => all <$> mapMItems f ps
  | any ps => any <$> mapMItems f ps
termination_by structural p => p

/-- The operands of several conditions converted. -/
def mapMItems (f : String → Test α → Except Fault (Test β)) :
    List (Predicate α) → Except Fault (List (Predicate β))
  | [] => .ok []
  | p :: ps => do
    let q ← p.mapM f
    let qs ← mapMItems f ps
    .ok (q :: qs)
termination_by structural ps => ps

end

end Predicate

/-! ## Orders -/

/-- A column to order rows by. -/
structure Order where
  column : String
  descending : Bool
  deriving DecidableEq, Repr

end TableGraph
