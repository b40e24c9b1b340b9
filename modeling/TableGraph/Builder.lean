import TableGraph.Codec
import TableGraph.Graph.EntityTypes
import TableGraph.Graph.TypeSystem
import TableGraph.Schema.SqlType
import TableGraph.Schema.Validation

/-!
# Building a schema

A builder collects entities, enumerations and scalars and is then sealed into a schema that requests
can be run against.  A registration that fails, and sealing that fails, leaves the builder as it
was; after it is sealed nothing more can be registered.
-/

namespace TableGraph

open TableGraph.Graph

/-- A schema that is ready to be run. -/
structure SealedSchema where
  context : Context
  projections : List Projection
  codec : Codec
  types : TypeSystem

namespace SealedSchema

/-- The projection of an entity, or the fault of one that is not registered. -/
def projection (s : SealedSchema) (name : String) : Except Fault Projection :=
  match s.projections.find? fun p => p.name = name with
  | some p => .ok p
  | none => .error (.config s!"Entity '{name}' is not registered")

end SealedSchema

/-- What is registered so far. -/
structure Builder where
  context : Context
  entities : List Entity
  /-- The entities that can be changed, in the order of their registration. -/
  mutable : List String
  enumerations : List Enumeration
  scalars : List String
  isSealed : Bool

namespace Builder

/-- Nothing is registered yet. -/
def empty (context : Context) : Builder := ⟨context, [], [], [], [], false⟩

/-- The builder still takes registrations. -/
def checkOpen (b : Builder) : Except Fault Unit :=
  if b.isSealed then .error (.config "Builder is sealed") else .ok ()

/-- An entity of this name is registered. -/
def hasEntity (b : Builder) (name : String) : Bool := b.entities.any fun e => e.name = name

/-- Registers an entity. -/
def registerEntity (b : Builder) (e : Entity) : Except Fault Builder := do
  b.checkOpen
  if b.hasEntity e.name then .error (.duplicateEntity e.name)
  else .ok { b with entities := b.entities ++ [e] }

/-- Lets the entity of a name be changed. -/
def registerMutations (b : Builder) (name : String) : Except Fault Builder := do
  b.checkOpen
  if !b.hasEntity name then
    .error (.config s!"Entity '{name}' must be registered before its mutations")
  else if b.mutable.contains name then .error (.duplicateEntity name)
  else .ok { b with mutable := b.mutable ++ [name] }

/-- Registers an enumeration. -/
def registerEnumeration (b : Builder) (e : Enumeration) : Except Fault Builder := do
  b.checkOpen
  if b.enumerations.any fun f => f.name = e.name then
    .error (.config s!"Enumeration '{e.name}' is already registered")
  else .ok { b with enumerations := b.enumerations ++ [e] }

/-- Registers a scalar of a name that a type can have. -/
def registerScalar (b : Builder) (name : String) : Except Fault Builder := do
  b.checkOpen
  if b.scalars.contains name then .error (.config s!"Type '{name}' is already registered")
  else .ok { b with scalars := b.scalars ++ [name] }

/-- One registration. -/
inductive Registration
  | entity (e : Entity)
  | mutations (name : String)
  | enumeration (e : Enumeration)
  | scalar (name : String)

/-- Registers one thing. -/
def register (b : Builder) : Registration → Except Fault Builder
  | .entity e => b.registerEntity e
  | .mutations name => b.registerMutations name
  | .enumeration e => b.registerEnumeration e
  | .scalar name => b.registerScalar name

/-- The registrations a schema consists of. -/
def registrations (s : Schema) (mutations : Bool) : List Registration :=
  s.enumerations.map .enumeration ++
    s.entities.flatMap fun e =>
      if mutations then [.entity e, .mutations e.name] else [.entity e]

/-- Registers one thing after another up to the first failure, keeping what came before it. -/
def registerAll (b : Builder) : List Registration → Builder × Except Fault Unit
  | [] => (b, .ok ())
  | r :: rs =>
    match b.register r with
    | .ok b' => b'.registerAll rs
    | .error e => (b, .error e)

/-- Registers every enumeration and entity of a schema. -/
def registerSchema (b : Builder) (s : Schema) (mutations : Bool) : Builder × Except Fault Unit :=
  b.registerAll (registrations s mutations)

/-! ## Sealing -/

/-- The projection of an entity that can be kept as a table. -/
def project (context : Context) (e : Entity) : Except Fault Projection := do
  SqlType.checkTable e
  Projection.make context e

/-- One more type, whose name must be new. -/
def addType (types : List NamedType) (t : NamedType) : Except Fault (List NamedType) :=
  if types.any fun u => u.name = t.name then
    .error (.config s!"GraphQL type name '{t.name}' is generated twice")
  else .ok (types ++ [t])

/-- The type and the filter of an enumeration. -/
def addEnumeration (context : Context) (types : List NamedType) (e : Enumeration) :
    Except Fault (List NamedType) := do
  let t ← enumerationType context e
  let types ← addType types t
  addType types (enumerationFilterType t.name)

/-- The types of an entity. -/
def addEntity (b : Builder) (projections : List Projection) (types : List NamedType)
    (p : Projection) : Except Fault (List NamedType) := do
  checkTypeName p.typeName
  let types ← (objectTypes b.context projections p).foldlM addType types
  let types ← addType types (entityFilterType p)
  let types ← addType types (entityOrderType p)
  if b.mutable.contains p.name then
    let types ← addType types (entityInsertType b.context p)
    addType types (entityUpdateType b.context p)
  else .ok types

/-- All types but the roots. -/
def buildTypes (b : Builder) (projections : List Projection) : Except Fault (List NamedType) := do
  let types ← (b.scalars.map fun name => (⟨name, .scalar .custom⟩ : NamedType)).foldlM addType []
  let types ← b.enumerations.foldlM (addEnumeration b.context) types
  let types ← sharedTypes.foldlM addType types
  projections.foldlM (b.addEntity projections) types

/-- The root of queries: the fields of all entities, later ones in place of earlier ones. -/
def queryRoot (context : Context) (projections : List Projection) : List OutputField :=
  (projections.flatMap (queryFields context)).foldl setOutput []

/-- The root of mutations, if any entity can be changed. -/
def mutationRoot (mutable : List String) (projections : List Projection) :
    Option (List OutputField) :=
  if mutable.isEmpty then none
  else
    let changed := mutable.filterMap fun name => projections.find? fun p => p.name = name
    some ((changed.flatMap mutationFields).foldl setOutput [])

/-- The schema of what is registered. -/
def build (b : Builder) : Except Fault SealedSchema := do
  b.checkOpen
  if b.entities.isEmpty then .error (.config "No entities registered")
  else
    match Validation.validate b.entities b.enumerations with
    | [] => do
      let projections ← b.entities.mapM (project b.context)
      let types ← b.buildTypes projections
      let system : TypeSystem :=
        ⟨types, queryRoot b.context projections, mutationRoot b.mutable projections⟩
      system.check
      .ok ⟨b.context, projections, ⟨b.enumerations, b.context.rfc3339⟩, system⟩
    | issues =>
      .error (.config ("Invalid schema:\n" ++ "\n".intercalate (issues.map (·.text))))

/-- Seals the builder. -/
def close (b : Builder) : Builder × Except Fault SealedSchema :=
  match b.build with
  | .ok s => ({ b with isSealed := true }, .ok s)
  | .error e => (b, .error e)

end Builder

end TableGraph
