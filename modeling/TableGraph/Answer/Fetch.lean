import TableGraph.Guard
import TableGraph.Load.Batch

/-!
# Answers that wait for rows

A report is what became of a part of an answer: a result, or the failure that keeps it from having
one, and the failures noted on the way.  A part that may be null settles: its failure is noted and it
is null.

A part of an answer is done, or it waits for rows: it names the loads it needs and goes on when they
are there.  `Fetch.alongside` puts two parts side by side, so that what both wait for is loaded
together; `Fetch.run` loads until nothing waits any more.  What was loaded once is kept.
-/

namespace TableGraph.Answer

/-! ## Reports -/

/-- A fault and the part of the answer it belongs to. -/
structure Failure where
  fault : Fault
  path : Path

/-- A result or a failure, and the failures noted on the way. -/
structure Report (α : Type) where
  result : Except Failure α
  noted : List Failure

namespace Report

variable {α β : Type}

/-- A result without failures. -/
def ofValue (a : α) : Report α := ⟨.ok a, []⟩

/-- The failure of a part. -/
def failed (fault : Fault) (path : Path) : Report α := ⟨.error ⟨fault, path⟩, []⟩

/-- An outcome at a part. -/
def ofExcept (path : Path) : Except Fault α → Report α
  | .ok a => ofValue a
  | .error f => failed f path

/-- Goes on with a result, keeping what was noted. -/
def bind (r : Report α) (f : α → Report β) : Report β :=
  match r.result with
  | .ok a => ⟨(f a).result, r.noted ++ (f a).noted⟩
  | .error e => ⟨.error e, r.noted⟩

instance : Monad Report where
  pure := ofValue
  bind := bind

/-- All of several parts: the first failure is that of the whole, and everything is noted. -/
def all : List (Report α) → Report (List α)
  | [] => ofValue []
  | r :: rs =>
    let rest := all rs
    ⟨r.result.bind fun a => rest.result.map (a :: ·), r.noted ++ rest.noted⟩

/-- A part that may be null has a result in any case. -/
def settle (nullable : Bool) (null : α) (r : Report α) : Report α :=
  match nullable, r.result with
  | true, .error e => ⟨.ok null, r.noted ++ [e]⟩
  | _, _ => r

end Report

/-! ## Parts that wait -/

/-- A load of related rows: all of them, or the first one. -/
structure Load where
  many : Bool
  key : LoadKey

namespace Load

/-- The same load. -/
def same (a b : Load) : Bool := a.many == b.many && a.key.same b.key

end Load

/-- What was loaded so far, failures included. -/
abbrev Loaded := List (Load × Except Fault (List Record))

namespace Loaded

/-- The rows of a load, if it was made. -/
def find? (l : Loaded) (r : Load) : Option (Except Fault (List Record)) :=
  (List.find? (fun p => p.1.same r) l).map (·.2)

/-- The rows of a load that was made. -/
def get (l : Loaded) (r : Load) : Except Fault (List Record) :=
  (l.find? r).getD (.error (.database "rows are not loaded"))

end Loaded

/-- A part of an answer that is done or waits for rows. -/
inductive Fetch (α : Type)
  | done (a : α)
  | waiting (loads : List Load) (resume : Loaded → Fetch α)

namespace Fetch

variable {α β : Type}

/-- Something done with the part when it is there. -/
def map (f : α → β) : Fetch α → Fetch β
  | done a => done (f a)
  | waiting loads resume => waiting loads fun l => (resume l).map f

/-- Another part that follows. -/
def bind (x : Fetch α) (f : α → Fetch β) : Fetch β :=
  match x with
  | done a => f a
  | waiting loads resume => waiting loads fun l => (resume l).bind f

/-- The rows of a load, and what was loaded by then. -/
def load (l : Loaded) (r : Load) : Fetch (Except Fault (List Record) × Loaded) :=
  match l.find? r with
  | some rows => done (rows, l)
  | none => waiting [r] fun l' => done (l'.get r, l')

/-- The failures noted in a part that is done. -/
def noted : Fetch (Report α) → List Failure
  | done r => r.noted
  | waiting _ _ => []

/--
Two parts side by side.  Both wait together; as soon as one of them fails the whole fails, with what
is noted by then.
-/
def alongside : Fetch (Report α) → Fetch (Report β) → Fetch (Report (α × β))
  | done r, y =>
    match r.result with
    | .error e => done ⟨.error e, r.noted ++ y.noted⟩
    | .ok a => y.map fun s => ⟨s.result.map fun b => (a, b), r.noted ++ s.noted⟩
  | waiting loads resume, done s =>
    match s.result with
    | .error e => done ⟨.error e, s.noted⟩
    | .ok b => waiting loads fun l => (resume l).alongside (done ⟨.ok b, s.noted⟩)
  | waiting loads resume, waiting loads' resume' =>
    waiting (loads ++ loads') fun l => (resume l).alongside (resume' l)

/-- Parts side by side. -/
def together : List (Fetch (Report α)) → Fetch (Report (List α))
  | [] => done (.ofValue [])
  | x :: xs => (x.alongside (together xs)).map fun r => r.bind fun (a, as) => .ofValue (a :: as)

/-! ## Loading -/

/-- The loads that were not made, each once. -/
def missing (l : Loaded) : List Load → List Load
  | [] => []
  | r :: rs =>
    let rest := (missing l rs).filter fun s => !r.same s
    if (l.find? r).isSome then rest else r :: rest

/-- The loads of one kind made together; a failure is that of all of them. -/
def loadTogether (s : Store) (n : Nat) (loads : List Load) : Loaded × Nat :=
  match (TableGraph.Load.many s (loads.map (·.key))).run n with
  | .ok (rows, n') => (loads.zip (rows.map .ok), n')
  | .error f => (loads.map fun r => (r, .error f), n)

/-- What is loaded after some loads more, and the number of statements sent. -/
def makeLoads (s : Store) (l : Loaded) (n : Nat) (loads : List Load) : Loaded × Nat :=
  let new := missing l loads
  let (single, n) := loadTogether s n (new.filter fun r => !r.many)
  let (several, n) := loadTogether s n (new.filter fun r => r.many)
  (l ++ single ++ several, n)

/-- Loads until the part is done; what is loaded and the number of statements are carried on. -/
def run (s : Store) : Fetch α → Loaded → Nat → α × Loaded × Nat
  | done a, l, n => (a, l, n)
  | waiting loads resume, l, n =>
    let (l', n') := makeLoads s l n loads
    run s (resume l') l' n'

end Fetch

end TableGraph.Answer
