import TableGraph.Guard
import TableGraph.Store.Basic

/-!
# Transactions

Statements run in a transaction, each on what those before it made of the store.  The transaction is
committed if all of them go well, and rolled back else: statements that went well before the one
that failed have changed the pending store by then, and `Session.rollBack` is what gives that up.
-/

namespace TableGraph

/-- A computation on a state that may fail, and leaves the state as far as it got. -/
abbrev Attempt (σ α : Type) := ExceptT Fault (StateM σ) α

/-- How an attempt ends, and the state it leaves behind. -/
def Attempt.outcome {σ α : Type} (x : Attempt σ α) (s : σ) : Except Fault α × σ :=
  Id.run (StateT.run (ExceptT.run x) s)

/-- What a transaction makes of the store, and the number of statements sent. -/
structure Working where
  store : Store
  statements : Nat

/-- Statements of a transaction. -/
abbrev Work (α : Type) := Attempt Working α

namespace Work

/-- One statement that reads a table. -/
def ask {α : Type} (name : String) (f : Table → Except Fault α) : Work α := do
  modify fun w => { w with statements := w.statements + 1 }
  let t ← (← get).store.table name
  f t

/-- One statement that changes a table, and tells the new table as well. -/
def write {α : Type} (name : String) (f : Table → Except Fault (Table × α)) :
    Work (Table × α) := do
  let (t, a) ← ask name f
  modify fun w => { w with store := w.store.put t }
  pure (t, a)

end Work

/-- What happens to a database. -/
inductive Occurrence
  | begun
  | committed
  | rolledBack
  /-- The watch is told of a mutation, and finds this stored. -/
  | told (call : FieldCall) (stored : Store) (typeName : String) (o : Operation)

/-- A database, and what happened to it so far. -/
structure Database where
  /-- What is committed. -/
  stored : Store
  /-- What the open transaction makes of it. -/
  pending : Option Store
  statements : Nat
  trace : List Occurrence

namespace Database

/-- A database that nothing happened to yet. -/
def opened (s : Store) : Database := ⟨s, none, 0, []⟩

/-- What the watch was told. -/
def events (db : Database) : List (String × Operation) :=
  db.trace.filterMap fun
    | .told _ _ typeName o => some (typeName, o)
    | _ => none

end Database

/-- What a request does to a database. -/
abbrev Session (α : Type) := Attempt Database α

namespace Session

/-- Adds to what happened. -/
def record (o : Occurrence) : Session Unit :=
  modify fun db => { db with trace := db.trace ++ [o] }

/-- Connects, and opens a transaction. -/
def begin : Session Unit := do
  if (← get).stored.isDown then throw Store.unreachable
  modify fun db => { db with pending := some db.stored }
  record .begun

/-- Sends statements in the open transaction. -/
def perform {α : Type} (work : Work α) : Session α := do
  let db ← get
  let (result, w) := work.outcome ⟨db.pending.getD db.stored, db.statements⟩
  set { db with pending := some w.store, statements := w.statements }
  result

/-- Commits the open transaction, unless its tables fail what is checked by then. -/
def commit : Session Unit := do
  let db ← get
  let s := db.pending.getD db.stored
  if s.commits then
    set { db with stored := s, pending := none }
    record .committed
  else throw (.database "the transaction cannot be committed")

/-- Gives up what the open transaction made of the store. -/
def rollBack : Session Unit := do
  modify fun db => { db with pending := none }
  record .rolledBack

/-- Commits what statements do, and rolls back if one of them fails or the commit does. -/
def transaction {α : Type} (work : Work α) : Session α := do
  begin
  try
    let a ← perform work
    commit
    pure a
  catch f =>
    rollBack
    throw f

end Session

end TableGraph
