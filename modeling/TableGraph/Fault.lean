/-!
# Faults

Everything that can go wrong, by cause.  `message` is the wording; `isVisible` tells the causes a
client is told about from those that are masked.
-/

namespace TableGraph

/-- A cause of failure. -/
inductive Fault
  /-- A value does not fit its column. -/
  | conversion (path detail : String)
  /-- A filter cannot be compiled. -/
  | filter (path detail : String)
  /-- A pagination request is malformed or out of bounds. -/
  | pagination (subject reason : String)
  /-- A cursor cannot be written or read. -/
  | cursor (detail : String)
  /-- A guard refuses the resolution. -/
  | blocked (reason : String)
  /-- The database rejects a statement. -/
  | database (cause : String)
  /-- The metamodel or the configuration is invalid. -/
  | config (detail : String)
  /-- An entity is registered twice. -/
  | duplicateEntity (name : String)
  /-- A text or number has no reading. -/
  | unreadable (detail : String)
  /-- A value is of a type the operation does not take. -/
  | wrongKind (detail : String)
  /-- A name is looked up in vain. -/
  | absent (key : String)
  /-- A number is too large for its format. -/
  | overflow
  /-- A quotient has no divisor. -/
  | divisionByZero
  /-- A value has no such member. -/
  | noMember
  /-- A rule of the query language is broken. -/
  | graph (detail : String)
  /-- A document of the query language does not parse. -/
  | grammar
  /-- A setting or an order direction is not acceptable. -/
  | rejected
  /-- The parts of a settings document do not fit together. -/
  | malformedDocument
  /-- A settings document cannot be cut into tokens. -/
  | malformedToken
  /-- A column is compared by size with a truth value or with null. -/
  | truthOrdering
  /-- The address of a database has no scheme. -/
  | malformedAddress
  /-- A column of a table has no name. -/
  | namelessColumn
  /-- A table to be reflected does not exist. -/
  | unknownTable
  /-- A foreign key refers to a table that does not exist. -/
  | danglingReference
  deriving DecidableEq, Repr, Inhabited

namespace Fault

/-- The wording of a fault. -/
def message : Fault → String
  | conversion path detail => s!"Type conversion failed for {path}: {detail}"
  | filter path detail => s!"Invalid filter {path}: {detail}"
  | pagination subject reason => s!"Invalid pagination ({subject}): {reason}"
  | cursor detail => "Invalid cursor: " ++ detail
  | blocked reason => reason
  | database cause => "Database error: " ++ cause
  | config detail => detail
  | duplicateEntity name => s!"Entity '{name}' is already registered"
  | unreadable detail => detail
  | wrongKind detail => detail
  | absent key => key
  | overflow => "number too large"
  | divisionByZero => "division by zero"
  | noMember => "no such member"
  | graph detail => detail
  | grammar => "the document does not parse"
  | rejected => "not an acceptable value"
  | malformedDocument => "the settings do not parse"
  | malformedToken => "the settings hold no token here"
  | truthOrdering => "truth values and null have no order"
  | malformedAddress => "the address of the database has no scheme"
  | namelessColumn => "a column has no name"
  | unknownTable => "no such table"
  | danglingReference => "a foreign key refers to a missing table"

/-- Clients are shown the message of these faults; all others are masked. -/
def isVisible : Fault → Bool
  | conversion .. | filter .. | pagination .. | cursor .. | blocked .. => true
  | _ => false

/-- The fault lies in the configuration. -/
def isConfig : Fault → Bool
  | config .. | duplicateEntity .. => true
  | _ => false

end Fault

end TableGraph
