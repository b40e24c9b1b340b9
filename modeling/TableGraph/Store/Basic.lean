import TableGraph.Store.Table

/-!
# Stores

A store is a set of tables that statements are run against, one for each registered entity.  No
statement is made for an entity that is not registered; every statement fails while the store cannot
be reached, and so does a statement on a table that was never created.
-/

namespace TableGraph

/-- Tables, and how the database that keeps them behaves. -/
structure Store where
  /-- The tables of the registered entities. -/
  tables : List Table
  /-- Statements that change rows return them. -/
  returning : Bool
  /-- The database cannot be reached. -/
  isDown : Bool
  /-- The entities whose tables were never created. -/
  missing : List String
  /-- What is checked of the tables when a transaction is committed, and not before. -/
  deferred : List Table → Bool

/-- A computation that counts the statements it sends. -/
abbrev Counted (α : Type) := StateT Nat (Except Fault) α

namespace Store

/-- What every statement fails with while the database cannot be reached. -/
def unreachable : Fault := .database "the database cannot be reached"

/-- The tables may be committed. -/
def commits (s : Store) : Bool := s.deferred s.tables

/-- The table of a registered entity, whether it can be reached or not. -/
def registered (s : Store) (name : String) : Except Fault Table :=
  match s.tables.find? fun t => t.name = name with
  | some t => .ok t
  | none => .error (.config s!"Entity '{name}' is not registered")

/-- The table a statement is on. -/
def table (s : Store) (name : String) : Except Fault Table := do
  let t ← s.registered name
  if s.isDown then .error unreachable
  else if s.missing.contains name then .error (.database s!"there is no table {name}")
  else .ok t

/-- One statement that reads a table. -/
def ask {α : Type} (s : Store) (name : String) (f : Table → Except Fault α) : Counted α := do
  modify (· + 1)
  let t ← s.table name
  f t

/-- The store with another state of a table. -/
def put (s : Store) (t : Table) : Store :=
  { s with tables := s.tables.map fun u => if u.name = t.name then t else u }

/-- A store of empty tables for entities. -/
def ofEntities (enumerations : List Enumeration) (entities : List Entity)
    (returning isDown : Bool) : Store :=
  { tables := entities.map (.ofEntity enumerations)
    returning, isDown
    missing := []
    deferred := fun _ => true }

/-- The store with rows added to its tables. -/
def seed (s : Store) (rows : List (String × List Record)) : Except Fault Store := do
  let tables ← s.tables.mapM fun t =>
    ((rows.lookup t.name).getD []).foldlM (fun t r => Prod.fst <$> t.insert r) t
  .ok { s with tables }

end Store

end TableGraph
