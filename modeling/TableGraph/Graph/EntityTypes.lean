import TableGraph.Graph.TypeSystem

/-!
# The types of entities

The types that all schemas share, and for every entity its objects, its inputs and its fields of the
roots.
-/

namespace TableGraph.Graph

/-- The type of the directions of an order. -/
def orderByName : String := "OrderByEnum"

/-- The type of page requests. -/
def paginationName : String := "PaginationInput"

/-- The type of the flags of a page. -/
def pageInfoName : String := "PageInfo"

/-- The type of the arithmetic of a page. -/
def pageCountName : String := "PaginationInfo"

/-- The scalar that stands for a basic kind. -/
def scalarName : BasicKind → String
  | .bool => "Boolean"
  | .integer kind => if kind.isWide then "BigInt" else "Int"
  | .float | .double => "Float"
  | _ => "String"

/-- The type that stands for a column type, null included. -/
def columnTypeRef (context : Context) : ColumnType → TypeRef
  | .basic kind _ => .named (scalarName kind)
  | .enumeration name => .named (context.enumTypeName name)
  | .custom _ => .named "String"
  | .array inner => .list (columnTypeRef context inner)

/-- The type of a field, null included; an override names it. -/
def fieldTypeRef (context : Context) (f : ColumnField) : TypeRef :=
  match f.override.bind (·.typeName) with
  | some name => .named name
  | none => columnTypeRef context f.column.type

/-- The type without null unless it is wanted. -/
def maybeNonNull (nullable : Bool) (t : TypeRef) : TypeRef := if nullable then t else .nonNull t

/-! ## Shared types -/

/-- The fields of a filter: an operator each. -/
def operatorFields (base : TypeRef) (operators : List Operator) : List InputField :=
  operators.map fun o => ⟨o.name, if o.takesList then .list (.nonNull base) else base⟩

/-- The scalar of the operands of a family. -/
def familyScalar : FilterFamily → String
  | .string | .text | .identity => "String"
  | .integer => "Int"
  | .bigInteger => "BigInt"
  | .float => "Float"
  | .boolean => "Boolean"

/-- The input type of a family. -/
def familyType (f : FilterFamily) : NamedType :=
  ⟨f.typeName, .input (operatorFields (.named (familyScalar f)) f.operators)⟩

/-- The filter of an enumeration type. -/
def enumerationFilterType (enumType : String) : NamedType :=
  ⟨enumType ++ "FilterInput", .input (operatorFields (.named enumType) Operator.ofEnumeration)⟩

/-- A scalar that cannot be null. -/
def required (name : String) : TypeRef := .nonNull (.named name)

/-- The types of page requests. -/
def paginationTypes : List NamedType :=
  [⟨"CursorInput", .input [⟨"cursor", .named "String"⟩, ⟨"limit", required "Int"⟩]⟩,
    ⟨"PageInput", .input [⟨"page", required "Int"⟩, ⟨"limit", required "Int"⟩]⟩,
    ⟨"OffsetInput", .input [⟨"offset", required "Int"⟩, ⟨"limit", required "Int"⟩]⟩,
    ⟨paginationName, .input [⟨"cursor", .named "CursorInput"⟩, ⟨"page", .named "PageInput"⟩,
      ⟨"offset", .named "OffsetInput"⟩]⟩]

/-- A field without arguments. -/
def plainField (name : String) (type : TypeRef) (source : Source) : OutputField :=
  ⟨name, [], type, source⟩

/-- The types of what is known about a page. -/
def pageTypes : List NamedType :=
  [⟨pageInfoName, .object [
      plainField "hasPreviousPage" (required "Boolean") .hasPrevious,
      plainField "hasNextPage" (required "Boolean") .hasNext,
      plainField "startCursor" (.named "String") .startCursor,
      plainField "endCursor" (.named "String") .endCursor]⟩,
    ⟨pageCountName, .object [
      plainField "pages" (required "Int") .pages,
      plainField "current" (required "Int") .current,
      plainField "offset" (required "Int") .offset,
      plainField "total" (required "Int") .total]⟩]

/-- The directions of an order. -/
def orderByType : NamedType :=
  ⟨orderByName, .enumeration [("Asc", .text "Asc"), ("Desc", .text "Desc")]⟩

/-- The types every schema has. -/
def sharedTypes : List NamedType :=
  [⟨"BigInt", .scalar .bigInteger⟩] ++ FilterFamily.all.map familyType ++ [orderByType] ++
    paginationTypes ++ pageTypes

/-! ## Types of an entity -/

/-- The arguments of a field that lists an entity. -/
def connectionArguments (p : Projection) : List InputField :=
  [⟨"filters", .named p.filterTypeName⟩, ⟨"orderBy", .named p.orderTypeName⟩,
    ⟨"pagination", .named paginationName⟩]

/-- The field of a column. -/
def columnOutput (context : Context) (f : ColumnField) : OutputField :=
  plainField f.name (maybeNonNull f.column.nullable (fieldTypeRef context f)) (.column f)

/-- The field of a relation to an entity. -/
def relationOutput (r : RelationField) (target : Projection) : OutputField :=
  let source := Source.relation r target.name
  if r.isToMany then
    ⟨r.name, connectionArguments target, required target.connectionTypeName, source⟩
  else
    let always := r.relation.kind = .belongsTo ∧ r.relation.optional = false
    plainField r.name (maybeNonNull (¬always) (.named target.typeName)) source

/-- The fields of the relations whose target is known. -/
def relationOutputs (projections : List Projection) (p : Projection) : List OutputField :=
  p.relations.filterMap fun r =>
    (projections.find? fun t => t.name = r.relation.target).map (relationOutput r)

/-- The objects of an entity: the row with its relations, the row alone, and the page. -/
def objectTypes (context : Context) (projections : List Projection) (p : Projection) :
    List NamedType :=
  let columns := p.fields.map (columnOutput context)
  let row := required p.typeName
  [⟨p.typeName, .object (columns ++ relationOutputs projections p)⟩,
    ⟨p.basicTypeName, .object columns⟩,
    ⟨p.edgeTypeName, .object [
      plainField "cursor" (required "String") .edgeCursor,
      plainField "node" row .edgeNode]⟩,
    ⟨p.connectionTypeName, .object [
      plainField "edges" (.nonNull (.list (required p.edgeTypeName))) .edges,
      plainField "nodes" (.nonNull (.list row)) .nodes,
      plainField "pageInfo" (required pageInfoName) .pageInfo,
      plainField "paginationInfo" (.named pageCountName) .pageCount]⟩]

/-- A field put behind others, or in place of the one of its name. -/
def setInput (f : InputField) (fields : List InputField) : List InputField :=
  if fields.any fun g => g.name = f.name then
    fields.map fun g => if g.name = f.name then f else g
  else fields ++ [f]

/-- The filter of an entity: its columns, `and` and `or`. -/
def entityFilterType (p : Projection) : NamedType :=
  let columns := p.fields.filterMap fun f =>
    f.filter.map fun filter => (⟨f.name, .named filter.typeName⟩ : InputField)
  let self : TypeRef := .list (required p.filterTypeName)
  ⟨p.filterTypeName, .input (setInput ⟨"or", self⟩ (setInput ⟨"and", self⟩ columns))⟩

/-- The order of an entity: its columns with directions. -/
def entityOrderType (p : Projection) : NamedType :=
  ⟨p.orderTypeName, .input (p.orderFields.map fun f => ⟨f.name, .named orderByName⟩)⟩

/-- A new row: columns without null are required unless the database supplies them. -/
def entityInsertType (context : Context) (p : Projection) : NamedType :=
  ⟨p.insertTypeName, .input (p.fields.map fun f =>
    let mayMiss := f.column.nullable || f.column.autoIncrement || f.column.hasDefault
    ⟨f.name, maybeNonNull mayMiss (fieldTypeRef context f)⟩)⟩

/-- Changes of rows: every column may be left out. -/
def entityUpdateType (context : Context) (p : Projection) : NamedType :=
  ⟨p.updateTypeName, .input (p.fields.map fun f => ⟨f.name, fieldTypeRef context f⟩)⟩

/-! ## Fields of the roots -/

/-- A field put behind others, or in place of the one of its name. -/
def setOutput (fields : List OutputField) (f : OutputField) : List OutputField :=
  if fields.any fun g => g.name = f.name then
    fields.map fun g => if g.name = f.name then f else g
  else fields ++ [f]

/-- The fields of the key columns, if clients see all of them. -/
def keyFields? (p : Projection) : Option (List ColumnField) :=
  p.entity.primaryKey.mapM p.fieldForColumn?

/-- The fields of the root that read an entity. -/
def queryFields (context : Context) (p : Projection) : List OutputField :=
  let list : OutputField :=
    ⟨p.queryField, connectionArguments p, required p.connectionTypeName, .connection p⟩
  match keyFields? p with
  | none => [list]
  | some fields =>
    if (fields.map (·.name)).Nodup then
      let arguments := fields.map fun f =>
        (⟨f.name, .nonNull (columnTypeRef context f.column.type)⟩ : InputField)
      [list, ⟨p.queryField ++ "ByPk", arguments, .named p.typeName, .byKey p⟩]
    else [list]

/-- The fields of the root that change an entity. -/
def mutationFields (p : Projection) : List OutputField :=
  let row := required p.basicTypeName
  let new := required p.insertTypeName
  let filter : InputField := ⟨"filter", .named p.filterTypeName⟩
  [⟨p.queryField ++ "CreateOne", [⟨"data", new⟩], row, .createOne p⟩,
    ⟨p.queryField ++ "CreateBatch", [⟨"data", .nonNull (.list new)⟩], .nonNull (.list row),
      .createBatch p⟩,
    ⟨p.queryField ++ "Update", [⟨"data", required p.updateTypeName⟩, filter],
      .nonNull (.list row), .update p⟩,
    ⟨p.queryField ++ "Delete", [filter], required "Int", .delete p⟩]

end TableGraph.Graph
