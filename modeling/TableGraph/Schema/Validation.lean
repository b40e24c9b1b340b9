import TableGraph.Schema.Entity

/-!
# Checks of a metamodel

`validate` lists what does not fit together in a set of entities: columns of unknown enumerations,
relations to unknown entities or over unknown columns, and junctions that do not line up with the
relation they carry.
-/

namespace TableGraph

/-- What can be wrong with a column or a relation. -/
inductive Problem
  | unknownEnumeration (name : String)
  | duplicateRelation
  | unknownTarget (name : String)
  | unknownSourceColumn (name : String)
  | unknownTargetColumn (entity name : String)
  | unknownJunction (name : String)
  | junctionSourceMismatch
  | junctionTargetMismatch
  | unknownJunctionColumn (table name : String)
  deriving DecidableEq, Repr

/-- The wording of a problem. -/
def Problem.message : Problem → String
  | unknownEnumeration name => s!"Unknown enumeration '{name}'"
  | duplicateRelation => "Duplicate relation name"
  | unknownTarget name => s!"Unknown relation target '{name}'"
  | unknownSourceColumn name => s!"Unknown source column '{name}'"
  | unknownTargetColumn entity name => s!"Unknown target column '{entity}.{name}'"
  | unknownJunction name => s!"Unknown junction table '{name}'"
  | junctionSourceMismatch => "Junction source columns do not match relation"
  | junctionTargetMismatch => "Junction target columns do not match relation"
  | unknownJunctionColumn table name => s!"Unknown junction column '{table}.{name}'"

/-- A problem, and the entity and the column or relation that has it. -/
structure Issue where
  entity : String
  member : String
  problem : Problem
  deriving DecidableEq, Repr

/-- The place in brackets, then the wording. -/
def Issue.text (i : Issue) : String :=
  let parts := [i.entity, i.member].filter (!·.isEmpty)
  let place := if parts.isEmpty then "global" else ".".intercalate parts
  "[" ++ place ++ "] " ++ i.problem.message

namespace Validation

/-- The entity of a name. -/
def find? (entities : List Entity) (name : String) : Option Entity :=
  entities.find? fun e => e.name = name

/-- The problem of a column's enumeration. -/
def columnProblems (enumerations : List Enumeration) (c : Column) : List Problem :=
  match c.type.enumerationName? with
  | some name =>
    if enumerations.any fun e => e.name = name then [] else [.unknownEnumeration name]
  | none => []

/-- The problems of a relation's junction. -/
def junctionProblems (entities : List Entity) (r : Relation) (j : Junction) : List Problem :=
  match find? entities j.table with
  | none => [.unknownJunction j.table]
  | some table =>
    (if j.fromColumns.length = r.fromColumns.length then [] else [.junctionSourceMismatch]) ++
    (if j.toColumns.length = r.toColumns.length then [] else [.junctionTargetMismatch]) ++
    ((j.fromColumns ++ j.toColumns).filter (!table.hasColumn ·)).map
      (.unknownJunctionColumn j.table)

/-- The problems of a relation's target and columns. -/
def relationProblems (entities : List Entity) (source : Entity) (r : Relation) : List Problem :=
  match find? entities r.target with
  | none => [.unknownTarget r.target]
  | some target =>
    (r.fromColumns.filter (!source.hasColumn ·)).map .unknownSourceColumn ++
    (r.toColumns.filter (!target.hasColumn ·)).map (.unknownTargetColumn r.target) ++
    (match r.kind, r.junction with
      | .manyToMany, some j => junctionProblems entities r j
      | _, _ => [])

/-- The issues of relations, some names having been seen before. -/
def relationIssues (entities : List Entity) (source : Entity) :
    List String → List Relation → List Issue
  | _, [] => []
  | seen, r :: rs =>
    let repeated := if seen.contains r.name then [Problem.duplicateRelation] else []
    (repeated ++ relationProblems entities source r).map (Issue.mk source.name r.name) ++
      relationIssues entities source (r.name :: seen) rs

/-- The issues of one entity. -/
def entityIssues (entities : List Entity) (enumerations : List Enumeration) (e : Entity) :
    List Issue :=
  (e.columns.flatMap fun c =>
    (columnProblems enumerations c).map (Issue.mk e.name c.name)) ++
  relationIssues entities e [] e.allRelations

/-- Everything that does not fit together. -/
def validate (entities : List Entity) (enumerations : List Enumeration) : List Issue :=
  entities.flatMap (entityIssues entities enumerations)

end Validation

end TableGraph
