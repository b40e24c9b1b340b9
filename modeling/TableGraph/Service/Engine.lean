import TableGraph.Fault

/-!
# Engines

An engine holds the connections to a database.  A service shares one: the first one asked for is
kept until it is closed, whatever address is asked for in between.
-/

namespace TableGraph.Service

/-- The address of a database: a scheme, `://`, and what the scheme makes of the rest. -/
structure Address where
  text : String
  deriving DecidableEq, Repr

namespace Address

/-- A character of a scheme. -/
def isSchemePart (c : Char) : Bool := c.isAlphanum || c = '_' || c = '+'

/-- The text begins with a scheme. -/
def hasScheme (cs : List Char) : Bool :=
  !(cs.takeWhile isSchemePart).isEmpty &&
    "://".toList.isPrefixOf (cs.dropWhile isSchemePart)

/-- The address a text is. -/
def make (text : String) : Except Fault Address :=
  if hasScheme text.toList then .ok ⟨text⟩ else .error .malformedAddress

end Address

/-- An engine: which one it is, and the database it leads to. -/
structure Engine where
  number : Nat
  address : Address
  deriving DecidableEq, Repr

/-- The engine a service shares. -/
structure EngineCache where
  shared : Option Engine := none
  /-- How many engines were opened so far. -/
  opened : Nat := 0
  deriving DecidableEq, Repr

namespace EngineCache

/-- The shared engine; it is opened if there is none. -/
def get (c : EngineCache) (address : Address) : Engine × EngineCache :=
  match c.shared with
  | some e => (e, c)
  | none =>
    let e : Engine := ⟨c.opened, address⟩
    (e, ⟨some e, c.opened + 1⟩)

/-- Closes the shared engine. -/
def close (c : EngineCache) : EngineCache := { c with shared := none }

/-- There is no shared engine. -/
def isClosed (c : EngineCache) : Bool := c.shared.isNone

end EngineCache

end TableGraph.Service
