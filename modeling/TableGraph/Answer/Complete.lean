import TableGraph.Answer.Related
import TableGraph.Graph.Plan

/-!
# Answers to selections

From what a field finds to what the client is shown.  Leaves are shown by the rules of their type,
lists item by item and objects field by field.  A part that must not be null and cannot be shown
makes the part around it fail; a part that may be null becomes null and its failure is noted.
-/

namespace TableGraph.Answer

open TableGraph.Graph

/-- What a field finds. -/
inductive Item
  | null
  | value (v : Value)
  | row (r : Record)
  | connection (c : Connection)
  | edge (e : Edge)
  | count (c : PageCount)
  | list (items : List Item)
  deriving Inhabited

namespace Item

/-- A text that may be missing. -/
def ofText? : Option String → Item
  | some s => value (.text s)
  | none => null

/-- A row that may be missing. -/
def ofRow? : Option Record → Item
  | some r => row r
  | none => null

/-- A value, lists of values being lists. -/
def ofValue : Value → Item
  | .null => null
  | v => value v

end Item

/-- A field is asked of something that does not have it. -/
def notThere (name : String) : Fault := .wrongKind s!"there is no {name} here"

/-- The value of a column as the client is shown it. -/
def columnItem (env : Environment) (f : ColumnField) (r : Record) : Except Fault Item := do
  env.checkField f.path .read
  let v := r.get f.column.name
  match f.override.bind (·.output) with
  | some convert => .ofValue <$> convert v
  | none => .ofValue <$> env.schema.codec.format f.column.type v

/-- What a field finds in a page. -/
def connectionItem (c : Connection) : Source → Option Item
  | .edges => some (.list (c.edges.map .edge))
  | .nodes => some (.list (c.nodes.map .row))
  | .pageInfo => some (.connection c)
  | .pageCount => some (match c.count with
    | some n => .count n
    | none => .null)
  | .hasPrevious => some (.value (.bool c.hasPrevious))
  | .hasNext => some (.value (.bool c.hasNext))
  | .startCursor => some (.ofText? c.startCursor)
  | .endCursor => some (.ofText? c.endCursor)
  | _ => none

/-- What a field finds in a row with its cursor. -/
def edgeItem (e : Edge) : Source → Option Item
  | .edgeCursor => some (.value (.text e.cursor))
  | .edgeNode => some (.row e.node)
  | _ => none

/-- What a field finds in the count of a page. -/
def countItem (c : PageCount) : Source → Option Item
  | .pages => some (.value (.int c.pages))
  | .current => some (.value (.int c.current))
  | .offset => some (.value (.int c.offset))
  | .total => some (.value (.int c.total))
  | _ => none

/-- What a field that waits for nothing finds. -/
def itemOf (env : Environment) (typeName : String) (f : OutputField) (parent : Item) :
    Except Fault Item :=
  let found : Option Item → Except Fault Item
    | some item => .ok item
    | none => .error (notThere f.name)
  match f.source, parent with
  | .typeName, _ => .ok (.value (.text typeName))
  | .column c, .row r => columnItem env c r
  | source, .connection c => found (connectionItem c source)
  | source, .edge e => found (edgeItem e source)
  | source, .count c => found (countItem c source)
  | _, _ => .error (notThere f.name)

/-! ## Showing -/

/-- A part of an answer: what is known at once, and what it waits for. -/
abbrev Part (α : Type) := Report (Fetch (Report α))

/-- A part that is known at once. -/
def Part.known {α : Type} (a : α) : Part α := .ofValue (.done (.ofValue a))

/-- A part that may be null settles, at once or when it is there. -/
def Part.settle (nullable : Bool) (p : Part Value) : Part Value :=
  let p : Part Value := ⟨p.result.map (·.map (Report.settle nullable .null)), p.noted⟩
  Report.settle nullable (.done (.ofValue .null)) p

/-- A leaf as the client is shown it. -/
def showLeaf (s : TypeSystem) (type : String) (v : Value) : Except Fault Value :=
  match s.body? type with
  | some (.scalar kind) => kind.shown v
  | some (.enumeration values) => nameOfValue type values v
  | _ => .error (notThere type)

/-- What is known to be null fails. -/
def checkNull (path : Path) (x : Fetch (Report Value)) : Part Value :=
  match x with
  | .done ⟨.ok .null, noted⟩ =>
    ⟨.error ⟨.wrongKind "Cannot return null for non-nullable field", path⟩, noted⟩
  | x => .ofValue x

/-- The items of a list. -/
def itemsOf : Item → Except Fault (List Item)
  | .list items => .ok items
  | .value (.list vs) | .value (.tuple vs) => .ok (vs.map .ofValue)
  | _ => .error (.graph "Expected Iterable")

/-- Parts of a list side by side, each at its index. -/
def showItems (nullable : Bool) (part : Item → Path → Part Value) (path : Path) :
    Nat → List Item → Report (List (Fetch (Report Value)))
  | _, [] => pure []
  | i, item :: items => do
    let x ← Part.settle nullable (part item (path ++ [.index i]))
    let xs ← showItems nullable part path (i + 1) items
    pure (x :: xs)

/-- What a field of a type finds, as the client is shown it; `fields` shows objects. -/
def showItem (s : TypeSystem) (fields : Item → Path → Part Value) :
    TypeRef → Item → Path → Part Value
  | .nonNull t, item, path => (showItem s fields t item path).bind (checkNull path)
  | _, .null, _ => Part.known .null
  | .list t, item, path =>
    (Report.ofExcept path (itemsOf item)).bind fun items =>
      (showItems (!t.isNonNull) (showItem s fields t) path 0 items).bind fun parts =>
        .ofValue ((Fetch.together parts).map fun r => r.bind fun vs => .ofValue (.list vs))
  | .named type, item, path =>
    match s.body? type, item with
    | some (.object _), item => fields item path
    | _, .value v => (Report.ofExcept path (showLeaf s type v)).bind Part.known
    | _, _ => .failed (notThere type) path

/-! ## Fields -/

/-- What becomes of the rows of a relation. -/
def relatedItem (env : Environment) (r : Related) (rows : List Record) : Except Fault Item :=
  if r.load.many then
    .connection <$> Window.paginate env.schema.codec r.target.keyColumns r.target.keyPaths rows
      r.request
  else .ok (.ofRow? rows.head?)

/-- Something shown when it is there. -/
def afterwards (part : Part Value) : Fetch (Report Value) :=
  match part.result with
  | .error e => .done ⟨.error e, part.noted⟩
  | .ok x => x.map fun r => ⟨r.result, part.noted ++ r.noted⟩

/-- The field of a relation: its rows are loaded and then shown. -/
def showRelated (env : Environment) (r : RelationField) (target : Projection) (row : Record)
    (arguments : Arguments) (path : Path) (part : Loaded → Item → Part Value) (l : Loaded) :
    Fetch (Report Value) :=
  match related env r target row arguments with
  | .error f => .done (.failed f path)
  | .ok r =>
    let shown (l : Loaded) (rows : Except Fault (List Record)) : Fetch (Report Value) :=
      match rows.bind (relatedItem env r) with
      | .error f => .done (.failed f path)
      | .ok item => afterwards (part l item)
    if r.load.key.hasNull then shown l (.ok [])
    else (Fetch.load l r.load).bind fun (rows, l) => shown l rows

/-- A field under its name in the answer. -/
def underKey (key : String) (x : Fetch (Report Value)) : Fetch (Report (String × Value)) :=
  x.map fun r => r.bind fun v => .ofValue (key, v)

/-- An object of its fields, or the refusal to tell them. -/
def showObject (refusal : Option Fault) (path : Path)
    (fields : Report (List (Fetch (Report (String × Value))))) : Part Value :=
  match refusal with
  | some f => .failed f path
  | none =>
    fields.bind fun parts =>
      .ofValue ((Fetch.together parts).map fun r => r.bind fun fs => .ofValue (.object fs))

mutual

/-- The answer to a field of an object, `l` being loaded by then. -/
def showField (env : Environment) : Planned → String → Item → Path → Loaded → Part Value
  | ⟨key, field, arguments, written, refusal, selections⟩, typeName, parent, path, l =>
    let path := path ++ [.key key]
    let whole (l : Loaded) (item : Item) : Part Value :=
      showItem env.schema.types (fun item path => showObject refusal path
        (showFields env selections field.type.base item path l)) field.type item path
    Part.settle (!field.type.isNonNull)
      (match arguments, field.source, parent with
        | .error f, _, _ => .failed f path
        | .ok values, .relation r target, .row row =>
          (Report.ofExcept path (env.schema.projection target)).bind fun t =>
            .ofValue (showRelated (env.enter typeName field.name path) r t row ⟨values, written⟩
              path whole l)
        | .ok _, _, parent =>
          (Report.ofExcept path (itemOf (env.enter typeName field.name path) typeName field
            parent)).bind (whole l))
termination_by structural p => p

/-- The answers to fields of an object, each under its name. -/
def showFields (env : Environment) :
    List Planned → String → Item → Path → Loaded → Report (List (Fetch (Report (String × Value))))
  | [], _, _, _, _ => .ofValue []
  | p :: ps, typeName, parent, path, l =>
    (showField env p typeName parent path l).bind fun x =>
      (showFields env ps typeName parent path l).bind fun xs =>
        .ofValue (underKey p.key x :: xs)
termination_by structural ps => ps

end

/-- The answer to a field that found something already. -/
def showFound (env : Environment) (p : Planned) (item : Item) (path : Path) (l : Loaded) :
    Part Value :=
  showItem env.schema.types (fun item path => showObject p.refusal path
    (showFields env p.selections p.field.type.base item path l)) p.field.type item path

end TableGraph.Answer
