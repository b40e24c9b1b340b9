import TableGraph.Graph.Document
import TableGraph.Graph.Token
import TableGraph.Projection

/-!
# Types of the query language

Scalars, enumerations, input objects and objects by name.  A field of an object tells where its
value comes from; a field of an input object only its type.

Main definitions: `TypeSystem`, `TypeSystem.fieldOf?` for the fields of an object, and
`TypeSystem.check`, which finds the fault of types that do not fit together.  The values of an
enumeration get names in the configured casing, which must be names of the query language and must
differ.
-/

namespace TableGraph.Graph

/-- How the value of a field comes about. -/
inductive Source
  | typeName
  | column (f : ColumnField)
  | relation (r : RelationField) (target : String)
  /-- The page of rows that lists an entity. -/
  | connection (p : Projection)
  /-- The row of a key. -/
  | byKey (p : Projection)
  | createOne (p : Projection)
  | createBatch (p : Projection)
  | update (p : Projection)
  | delete (p : Projection)
  | edges
  | nodes
  | pageInfo
  | pageCount
  | edgeCursor
  | edgeNode
  | hasPrevious
  | hasNext
  | startCursor
  | endCursor
  | pages
  | current
  | offset
  | total

/-- An argument of a field or a field of an input object. -/
structure InputField where
  name : String
  type : TypeRef

/-- A field of an object. -/
structure OutputField where
  name : String
  arguments : List InputField
  type : TypeRef
  source : Source

/-- The scalars. -/
inductive ScalarKind
  | int
  | float
  | string
  | boolean
  | bigInteger
  /-- A scalar that lets every value through. -/
  | custom
  deriving DecidableEq, Repr

/-- What a type consists of. -/
inductive TypeBody
  | scalar (kind : ScalarKind)
  /-- The values of an enumeration by their names. -/
  | enumeration (values : List (String × Value))
  | input (fields : List InputField)
  | object (fields : List OutputField)

/-- A type with its name. -/
structure NamedType where
  name : String
  body : TypeBody

/-- The types of a schema, in order. -/
structure TypeSystem where
  types : List NamedType
  /-- The fields of the root of queries. -/
  query : List OutputField
  /-- The fields of the root of mutations, if there are any. -/
  mutation : Option (List OutputField)

/-- The name of the root of queries. -/
def queryName : String := "Query"

/-- The name of the root of mutations. -/
def mutationName : String := "Mutation"

/-- The scalars that need no definition. -/
def builtinScalars : List (String × ScalarKind) :=
  [("String", .string), ("Int", .int), ("Float", .float), ("Boolean", .boolean)]

/-- Names that no other type may have. -/
def reservedNames : List String :=
  ["String", "Int", "Float", "Boolean", "ID", "__Schema", "__Directive", "__DirectiveLocation",
    "__Type", "__Field", "__InputValue", "__EnumValue", "__TypeKind"]

/-- A letter or an underscore, then letters, digits and underscores. -/
def isName (s : String) : Bool :=
  match s.toList with
  | [] => false
  | c :: cs => Token.isNameStart c && cs.all Token.isNamePart

/-- Names with two underscores in front are kept for the language itself. -/
def isOwnName (s : String) : Bool := "__".isPrefixOf s

/-- A name a new type can have. -/
def checkTypeName (name : String) : Except Fault Unit :=
  if reservedNames.contains name then .error (.wrongKind s!"Redefinition of reserved type '{name}'")
  else if isName name then .ok ()
  else .error (.graph s!"'{name}' is not a name")

namespace TypeSystem

/-- What a name stands for. -/
def body? (s : TypeSystem) (name : String) : Option TypeBody :=
  match builtinScalars.lookup name with
  | some kind => some (.scalar kind)
  | none =>
    if name = queryName then some (.object s.query)
    else if name = mutationName then s.mutation.map .object
    else (s.types.find? fun t => t.name = name).map (·.body)

/-- The fields of an object type. -/
def objectFields? (s : TypeSystem) (name : String) : Option (List OutputField) :=
  match s.body? name with
  | some (.object fields) => some fields
  | _ => none

/-- The fields of an input type. -/
def inputFields? (s : TypeSystem) (name : String) : Option (List InputField) :=
  match s.body? name with
  | some (.input fields) => some fields
  | _ => none

/-- The field every object has, which tells its type. -/
def typeNameField : OutputField := ⟨"__typename", [], .nonNull (.named "String"), .typeName⟩

/-- The field of an object type. -/
def fieldOf? (s : TypeSystem) (type name : String) : Option OutputField :=
  match s.objectFields? type with
  | none => none
  | some fields =>
    if name = typeNameField.name then some typeNameField
    else fields.find? fun f => f.name = name

/-- The name stands for a type that clients can send values of. -/
def isInput (s : TypeSystem) (name : String) : Bool :=
  match s.body? name with
  | none | some (.object _) => false
  | _ => true

/-- The name stands for a type that clients can be shown values of. -/
def isOutput (s : TypeSystem) (name : String) : Bool :=
  match s.body? name with
  | none | some (.input _) => false
  | _ => true

/-! ## Checks -/

/-- The fault of types that do not make a schema. -/
def invalid (detail : String) : Fault := .config ("Invalid GraphQL schema: " ++ detail)

/-- The type of a field exists and can be shown; one that an override names is of the schema. -/
def resolves (s : TypeSystem) (f : OutputField) : Bool :=
  s.isOutput f.type.base &&
    match f.source with
    | .column c => (c.override.bind (·.typeName)).all fun name => s.types.any (·.name = name)
    | _ => true

/-- The types of the fields exist and can be shown or sent, and their names are names. -/
def checkFields (s : TypeSystem) (t : NamedType) : Except Fault Unit :=
  let fields : List (String × Bool) := match t.body with
    | .object fields => fields.map fun f => (f.name, s.resolves f)
    | .input fields => fields.map fun f => (f.name, s.isInput f.type.base)
    | _ => []
  if !fields.all (·.2) then .error (invalid s!"fields of {t.name} cannot be resolved")
  else
    match fields.find? fun f => !isName f.1 with
    | some (name, _) => .error (.graph s!"'{name}' is not a name")
    | none => .ok ()

/-- The type has members, and its name is not kept for the language. -/
def isSound (t : NamedType) : Bool :=
  !isOwnName t.name &&
    match t.body with
    | .object fields => !fields.isEmpty && fields.all (!isOwnName ·.name)
    | .input fields => !fields.isEmpty && fields.all (!isOwnName ·.name)
    | .enumeration values => !values.isEmpty && values.all (!isOwnName ·.1)
    | .scalar _ => true

/-- The types, the roots being the last. -/
def allTypes (s : TypeSystem) : List NamedType :=
  s.types ++ [⟨queryName, .object s.query⟩] ++
    (match s.mutation with
      | some fields => [⟨mutationName, .object fields⟩]
      | none => [])

/-- The types fit together. -/
def check (s : TypeSystem) : Except Fault Unit := do
  s.allTypes.forM (checkFields s)
  if ¬(s.allTypes.map (·.name)).Nodup then
    .error (invalid "types are not uniquely named")
  else if !s.allTypes.all isSound then .error (invalid "a type is not sound")
  else .ok ()

end TypeSystem

/-! ## The types of enumerations -/

/-- Words that no value of an enumeration may have as its name. -/
def reservedValues : List String := ["true", "false", "null"]

/-- Values of an enumeration with their names, some names being taken. -/
def namedValues (context : Context) (enumeration : String) :
    List String → List String → Except Fault (List (String × Value))
  | _, [] => .ok []
  | taken, raw :: rest =>
    let name := context.variantCase.apply raw
    if !isName name || reservedValues.contains name then
      .error (.config (s!"Enum '{enumeration}': variant '{raw}' maps to invalid name '{name}'"))
    else if taken.contains name then
      .error (.config (s!"Enum '{enumeration}': variants collide on name '{name}'"))
    else do
      let values ← namedValues context enumeration (name :: taken) rest
      .ok ((name, .text raw) :: values)

/-- The type of an enumeration. -/
def enumerationType (context : Context) (e : Enumeration) : Except Fault NamedType := do
  let values ← namedValues context e.name [] e.values
  let name := context.enumTypeName e.name
  checkTypeName name
  .ok ⟨name, .enumeration values⟩

end TableGraph.Graph
