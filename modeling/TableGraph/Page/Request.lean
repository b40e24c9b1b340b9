import TableGraph.Context
import TableGraph.Number.Lenient

/-!
# Page requests

A client asks for a page by its number, by an offset, or by the cursor of the row before it.
`PageRequest.ofValue` reads what the client sends and checks it against the bounds of the
configuration; a client that sends nothing gets the first page of the configured size, or all rows.
-/

namespace TableGraph

/-- Which rows of a list are asked for. -/
inductive PageRequest
  | all
  | page (number limit : Int)
  | offset (start limit : Int)
  /-- The rows behind the one of a cursor, or the first ones. -/
  | cursor (after : Option String) (limit : Int)
  deriving DecidableEq, Repr

namespace PageRequest

/-- The page starts behind a row and not at a position. -/
def isCursor : PageRequest → Bool
  | cursor .. => true
  | _ => false

/-- The number of rows of a page, if it is bounded. -/
def limit? : PageRequest → Option Int
  | all => none
  | page _ limit => some limit
  | offset _ limit => some limit
  | cursor _ limit => some limit

/-- The page for a client that does not ask for one. -/
def default (context : Context) : PageRequest :=
  match context.defaultLimit.filter (· ≠ 0), context.maxLimit with
  | some limit, _ => page 0 limit
  | none, some limit => page 0 limit
  | none, none => all

/-- The fault of a request that is not of the right form. -/
def malformed : Fault := .pagination "input" "not a page request"

/-- A whole number of an object. -/
def number (fields : List (String × Value)) (name : String) : Except Fault Int :=
  match (fields.lookup name).bind Lenient.integer? with
  | some n => .ok n
  | none => .error malformed

/-- The text of a cursor, which may be absent. -/
def cursorText (fields : List (String × Value)) : Except Fault (Option String) :=
  match (fields.lookup "cursor").getD .null with
  | .null => .ok none
  | .text s => .ok (some s)
  | _ => .error malformed

/-- The fields of an object that may be absent. -/
def variantFields (fields : List (String × Value)) (name : String) :
    Except Fault (Option (List (String × Value))) :=
  match (fields.lookup name).getD .null with
  | .null => .ok none
  | .object inner => .ok (some inner)
  | _ => .error malformed

/-- The kinds of requests. -/
def kindNames : List String := ["cursor", "page", "offset"]

/-- The request of each kind that an object holds. -/
def variants (fields : List (String × Value)) : Except Fault (List PageRequest) := do
  if fields.any fun (name, _) => !kindNames.contains name then .error malformed
  else
    let byCursor ← (← variantFields fields "cursor").mapM fun inner => do
      let after ← cursorText inner
      let limit ← number inner "limit"
      .ok (cursor after limit)
    let byPage ← (← variantFields fields "page").mapM fun inner => do
      let n ← number inner "page"
      let limit ← number inner "limit"
      .ok (page n limit)
    let byOffset ← (← variantFields fields "offset").mapM fun inner => do
      let start ← number inner "offset"
      let limit ← number inner "limit"
      .ok (offset start limit)
    .ok (byCursor.toList ++ byPage.toList ++ byOffset.toList)

/-- The limit is positive and not above the largest one. -/
def checkLimit (context : Context) (limit : Int) : Except Fault Unit :=
  if limit ≤ 0 then .error (.pagination "limit" "must be > 0")
  else
    match context.maxLimit with
    | some most =>
      if most < limit then .error (.pagination "limit" s!"must be <= {most}") else .ok ()
    | none => .ok ()

/-- The request is within bounds. -/
def check (context : Context) (r : PageRequest) : Except Fault PageRequest := do
  match r.limit? with
  | some limit => checkLimit context limit
  | none => .ok ()
  match r with
  | page number _ => if number < 0 then .error (.pagination "page" "must be >= 0") else .ok r
  | offset start _ => if start < 0 then .error (.pagination "offset" "must be >= 0") else .ok r
  | r => .ok r

/-- Reads what a client sends. -/
def ofValue (context : Context) (v : Value) : Except Fault PageRequest :=
  match v with
  | .null => .ok (default context)
  | .object fields => do
    match ← variants fields with
    | [] => .error (.pagination "zero" "one of cursor, page or offset is required")
    | [r] => check context r
    | _ => .error (.pagination "multiple" "exactly one of cursor, page or offset is allowed")
  | _ => .error malformed

end PageRequest

end TableGraph
