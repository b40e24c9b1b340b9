import TableGraph.Proofs.Roots
import TableGraph.Proofs.Sealing.Check

/-!
# The fields of a schema

The types of an entity refer to the types of its columns, to those of the entities it is related to,
and to types that all schemas share.  All of these are there, so the types fit together wherever
names are names and every entity has a column to order by.  Main statement:
`fits_entityTypes_iff`.
-/

namespace TableGraph.Builder

open TableGraph.Graph Text TypeSystem

variable {b : Builder} {projections : List Projection} {enumerations : List NamedType}
  {s : TypeSystem} {p : Projection} {t : NamedType} {name : String}

/-! ## Types that are there -/

/-- The types of a builder, all of them, with different names, and a root of mutations. -/
structure Collected (b : Builder) (projections : List Projection) (enumerations : List NamedType)
    (s : TypeSystem) : Prop where
  types : s.types = b.typesOf enumerations projections
  made : b.enumerations.mapM (enumerationType b.context) = .ok enumerations
  distinct : (s.allTypes.map (·.name)).Nodup
  root : s.mutation.isSome

namespace Collected

variable (h : b.Collected projections enumerations s)
include h

theorem mem_shared (ht : t ∈ sharedTypes) : t ∈ s.types := by
  rw [h.types]
  exact List.mem_append_left _ (List.mem_append_right _ ht)

theorem mem_own (hp : p ∈ projections) (ht : t ∈ b.entityTypes projections p) : t ∈ s.types := by
  rw [h.types]
  exact List.mem_append_right _ (List.mem_flatMap.2 ⟨p, hp, ht⟩)

/-- An enumeration has a type, and that has a type of filters. -/
theorem exists_enumeration {e : Enumeration} (he : e ∈ b.enumerations) :
    ∃ t ∈ s.types, enumerationFilterType t.name ∈ s.types ∧
      t.name = b.context.enumTypeName e.name ∧ ∃ values, t.body = .enumeration values := by
  obtain ⟨t, ht, hmade⟩ := exists_of_mem_mapM h.made he
  obtain ⟨hname, values, hbody, -⟩ := enumerationType_eq_ok hmade
  have both : ∀ u ∈ withFilter t, u ∈ s.types := by
    intro u hu
    rw [h.types]
    refine List.mem_append_left _ (List.mem_append_left _ (List.mem_append_right _ ?_))
    exact List.mem_flatMap.2 ⟨t, ht, hu⟩
  exact ⟨t, both t List.mem_cons_self, both _ (List.mem_cons_of_mem _ List.mem_cons_self), hname,
    values, hbody⟩

/-- A scalar or an enumeration can be sent and shown. -/
theorem leaf_of_mem (ht : t ∈ s.types) (hinput : ∀ fields, t.body ≠ .input fields)
    (hobject : ∀ fields, t.body ≠ .object fields) :
    s.isInput t.name = true ∧ s.isOutput t.name = true :=
  ⟨isInput_of_mem h.distinct h.root ht hobject, isOutput_of_mem h.distinct h.root ht hinput⟩

omit h in
theorem leaf_builtin (hname : ∃ scalar ∈ builtinScalars, scalar.1 = name) :
    s.isInput name = true ∧ s.isOutput name = true := by
  obtain ⟨scalar, hscalar, rfl⟩ := hname
  revert scalar
  unfold builtinScalars
  simp only [List.forall_mem_cons]
  exact ⟨⟨rfl, rfl⟩, ⟨rfl, rfl⟩, ⟨rfl, rfl⟩, ⟨rfl, rfl⟩, nofun⟩

theorem leaf_bigInteger : s.isInput "BigInt" = true ∧ s.isOutput "BigInt" = true :=
  h.leaf_of_mem (t := ⟨"BigInt", .scalar .bigInteger⟩) (h.mem_shared List.mem_cons_self) nofun nofun

theorem leaf_enumeration {e : Enumeration} (he : e ∈ b.enumerations) :
    s.isInput (b.context.enumTypeName e.name) = true ∧
      s.isOutput (b.context.enumTypeName e.name) = true := by
  obtain ⟨t, ht, -, hname, values, hbody⟩ := h.exists_enumeration he
  rw [← hname]
  exact h.leaf_of_mem ht (by simp [hbody]) (by simp [hbody])

theorem leaf_scalarName (kind : BasicKind) :
    s.isInput (scalarName kind) = true ∧ s.isOutput (scalarName kind) = true := by
  unfold scalarName
  split
  case h_2 =>
    split_ifs
    · exact h.leaf_bigInteger
    · exact leaf_builtin (by decide)
  all_goals exact leaf_builtin (by decide)

/-- The type that stands for a column type can be sent and shown. -/
theorem leaf_columnTypeRef {type : ColumnType} (known : ∀ name, type.enumerationName? = some name →
      ∃ e ∈ b.enumerations, e.name = name) :
    s.isInput (columnTypeRef b.context type).base = true ∧
      s.isOutput (columnTypeRef b.context type).base = true := by
  induction type with
  | basic kind => exact h.leaf_scalarName kind
  | enumeration name =>
    obtain ⟨e, he, rfl⟩ := known name rfl
    exact h.leaf_enumeration he
  | custom => exact leaf_builtin ⟨("String", .string), by decide, rfl⟩
  | array inner ih => exact ih known

end Collected

/-! ## Types of an entity -/

/-- What the query language can show: names are names, the types of columns are known, and some
column is seen. -/
structure Presentable (b : Builder) (p : Projection) : Prop where
  typeName : StartsWithLetter p.typeName
  queryField : IsPlain p.queryField ∧ StartsWithLetter p.queryField
  seen : p.fields ≠ []
  fields : ∀ f ∈ p.fields, IsPlain f.name
  relations : ∀ r ∈ p.relations, IsPlain r.name
  overrides : ∀ f ∈ p.fields, f.override = none
  known : ∀ f ∈ p.fields, ∀ name, f.column.type.enumerationName? = some name →
    ∃ e ∈ b.enumerations, e.name = name
  filters : ∀ f ∈ p.fields, ∀ name typeName, f.filter = some (.enumeration name typeName) →
    ∃ e ∈ b.enumerations, typeName = b.context.enumTypeName e.name

theorem base_maybeNonNull (nullable : Bool) (type : TypeRef) :
    (maybeNonNull nullable type).base = type.base := by
  unfold maybeNonNull
  split_ifs <;> rfl

/-- The value is that of a column. -/
def isColumn : Source → Bool
  | .column _ => true
  | _ => false

/-- The names of fields that every entity has. -/
theorem isPlain_fixed : ∀ name ∈ ["cursor", "node", "edges", "nodes", "pageInfo", "paginationInfo",
    "and", "or"], IsPlain name := by
  decide +kernel

namespace Collected

variable (h : b.Collected projections enumerations s)
include h

/-- The objects of an entity can be shown. -/
theorem isOutput_object (hp : p ∈ projections) :
    s.isOutput p.typeName = true ∧ s.isOutput p.basicTypeName = true ∧
      s.isOutput p.edgeTypeName = true ∧ s.isOutput p.connectionTypeName = true := by
  have shown : ∀ t ∈ objectTypes b.context projections p, s.isOutput t.name = true := by
    intro t ht
    refine isOutput_of_mem h.distinct h.root (h.mem_own hp ?_) ?_
    · exact List.mem_append_left _ (List.mem_append_left _ ht)
    · unfold objectTypes at ht
      simp only [List.mem_cons, List.not_mem_nil, or_false] at ht
      rcases ht with rfl | rfl | rfl | rfl <;> exact nofun
  unfold objectTypes at shown
  simp only [List.forall_mem_cons] at shown
  exact ⟨shown.1, shown.2.1, shown.2.2.1, shown.2.2.2.1⟩

theorem isOutput_page : s.isOutput pageInfoName = true ∧ s.isOutput pageCountName = true := by
  have shown : ∀ t ∈ pageTypes, s.isOutput t.name = true := by
    intro t ht
    refine isOutput_of_mem h.distinct h.root (h.mem_shared (List.mem_append_right _ ht)) ?_
    unfold pageTypes at ht
    simp only [List.mem_cons, List.not_mem_nil, or_false] at ht
    rcases ht with rfl | rfl <;> exact nofun
  unfold pageTypes at shown
  simp only [List.forall_mem_cons] at shown
  exact ⟨shown.1, shown.2.1⟩

theorem isInput_filter (hp : p ∈ projections) : s.isInput p.filterTypeName = true := by
  refine isInput_of_mem h.distinct h.root (t := entityFilterType p) (h.mem_own hp ?_) nofun
  exact List.mem_append_left _ (List.mem_append_right _ List.mem_cons_self)

theorem isInput_orderBy : s.isInput orderByName = true := by
  refine isInput_of_mem h.distinct h.root (t := orderByType) (h.mem_shared ?_) nofun
  unfold sharedTypes
  simp

/-- The filter of a field can be sent. -/
theorem isInput_columnFilter {filter : ColumnFilter} (known : ∀ name typeName,
      filter = .enumeration name typeName →
      ∃ e ∈ b.enumerations, typeName = b.context.enumTypeName e.name) :
    s.isInput filter.typeName = true := by
  cases filter with
  | family f =>
    refine isInput_of_mem h.distinct h.root (t := familyType f) (h.mem_shared ?_) ?_
    · cases f <;> simp [sharedTypes, FilterFamily.all]
    · rintro _ ⟨⟩
  | enumeration name typeName =>
    obtain ⟨e, he, rfl⟩ := known name typeName rfl
    obtain ⟨t, -, ht, hname, -⟩ := h.exists_enumeration he
    rw [← hname]
    refine isInput_of_mem h.distinct h.root ht ?_
    rintro _ ⟨⟩

section Own

variable (own : b.Presentable p)
include own

theorem leaf_fieldTypeRef {f : ColumnField} (hf : f ∈ p.fields) :
    s.isInput (fieldTypeRef b.context f).base = true ∧
      s.isOutput (fieldTypeRef b.context f).base = true := by
  unfold fieldTypeRef
  rw [own.overrides f hf]
  exact h.leaf_columnTypeRef (own.known f hf)

theorem fits_columnOutput {f : ColumnField} (hf : f ∈ p.fields) :
    IsPlain (columnOutput b.context f).name ∧ s.resolves (columnOutput b.context f) = true := by
  refine ⟨own.fields f hf, ?_⟩
  unfold resolves columnOutput plainField
  dsimp only
  rw [base_maybeNonNull, (h.leaf_fieldTypeRef own hf).2, own.overrides f hf]
  rfl

theorem fits_relationOutput {r : RelationField} (hr : r ∈ p.relations) {target : Projection}
    (htarget : target ∈ projections) :
    IsPlain (relationOutput r target).name ∧ s.resolves (relationOutput r target) = true := by
  obtain ⟨row, -, -, page⟩ := h.isOutput_object htarget
  unfold relationOutput
  dsimp only
  split_ifs
  · refine ⟨own.relations r hr, ?_⟩
    unfold resolves
    exact Bool.and_eq_true_iff.2 ⟨page, rfl⟩
  · refine ⟨own.relations r hr, ?_⟩
    unfold resolves plainField
    dsimp only
    rw [base_maybeNonNull]
    exact Bool.and_eq_true_iff.2 ⟨row, rfl⟩

omit h own in
/-- Fields that are no columns are only asked for the names of their types. -/
theorem fits_plainField {label : String} {type : TypeRef} {source : Source} (plain : IsPlain label)
    (hname : s.isOutput name = true) (hbase : type.base = name)
    (hsource : isColumn source = false) :
    IsPlain (plainField label type source).name ∧
      s.resolves (plainField label type source) = true := by
  refine ⟨plain, ?_⟩
  unfold resolves plainField
  dsimp only
  rw [hbase, hname, Bool.true_and]
  cases source <;> first | rfl | cases hsource

/-- The objects of an entity fit. -/
theorem fits_objectTypes (hp : p ∈ projections) :
    ∀ t ∈ objectTypes b.context projections p, s.Fits t := by
  obtain ⟨row, -, edge, page⟩ := h.isOutput_object hp
  obtain ⟨info, count⟩ := h.isOutput_page
  have columns : ∀ f ∈ p.fields.map (columnOutput b.context), IsPlain f.name ∧ s.resolves f = true :=
    List.forall_mem_map.2 fun f hf => h.fits_columnOutput own hf
  have some : p.fields.map (columnOutput b.context) ≠ [] :=
    fun none => own.seen (List.map_eq_nil_iff.1 none)
  have text : s.isOutput "String" = true :=
    (leaf_builtin ⟨("String", .string), by decide, rfl⟩).2
  unfold objectTypes
  simp only [List.forall_mem_cons]
  refine ⟨⟨notOwn_of_letter own.typeName, ?_⟩,
    ⟨notOwn_of_letter (own.typeName.append "Basic"), some, columns⟩,
    ⟨notOwn_of_letter (own.typeName.append "Edge"), nofun, ?_⟩,
    ⟨notOwn_of_letter (own.typeName.append "Connection"), nofun, ?_⟩, nofun⟩
  · refine ⟨fun none => some (List.append_eq_nil_iff.1 none).1, fun f hf => ?_⟩
    rcases List.mem_append.1 hf with hf | hf
    · exact columns f hf
    · obtain ⟨r, hr, hf⟩ := List.mem_filterMap.1 hf
      obtain ⟨target, htarget, rfl⟩ := Option.map_eq_some_iff.1 hf
      exact h.fits_relationOutput own hr (List.mem_of_find?_eq_some htarget)
  · simp only [List.forall_mem_cons]
    exact ⟨fits_plainField (isPlain_fixed "cursor" (by simp)) text rfl rfl,
      fits_plainField (isPlain_fixed "node" (by simp)) row rfl rfl, List.forall_mem_nil _⟩
  · simp only [List.forall_mem_cons]
    exact ⟨fits_plainField (isPlain_fixed "edges" (by simp)) edge rfl rfl,
      fits_plainField (isPlain_fixed "nodes" (by simp)) row rfl rfl,
      fits_plainField (isPlain_fixed "pageInfo" (by simp)) info rfl rfl,
      fits_plainField (isPlain_fixed "paginationInfo" (by simp)) count rfl rfl,
      List.forall_mem_nil _⟩

omit h own in
theorem setInput_ne_nil (f : InputField) (fields : List InputField) : setInput f fields ≠ [] := by
  unfold setInput
  split
  next there =>
    obtain ⟨g, hg, -⟩ := List.any_eq_true.1 there
    exact List.ne_nil_of_mem (List.mem_map_of_mem hg)
  next => exact List.append_ne_nil_of_right_ne_nil _ (List.cons_ne_nil f [])

/-- The filter of an entity fits. -/
theorem fits_filterType (hp : p ∈ projections) : s.Fits (entityFilterType p) := by
  obtain ⟨-, -, -, -, -, -, hand, hor, -⟩ := by simpa only [List.forall_mem_cons] using isPlain_fixed
  refine ⟨notOwn_of_letter (own.typeName.append "FilterInput"), setInput_ne_nil _ _, fun f hf => ?_⟩
  have trees := h.isInput_filter hp
  rcases mem_setInput hf with rfl | hf
  · exact ⟨hor, trees⟩
  · rcases mem_setInput hf with rfl | hf
    · exact ⟨hand, trees⟩
    · obtain ⟨f, hmem, hf⟩ := List.mem_filterMap.1 hf
      obtain ⟨filter, hfilter, rfl⟩ := Option.map_eq_some_iff.1 hf
      refine ⟨own.fields f hmem, h.isInput_columnFilter fun name typeName hkind => ?_⟩
      exact own.filters f hmem name typeName (hkind ▸ hfilter)

/-- The order of an entity fits exactly if there is a column to order by. -/
theorem fits_orderType_iff : s.Fits (entityOrderType p) ↔ p.orderFields ≠ [] := by
  constructor
  · exact fun fits none => fits.body.1 (List.map_eq_nil_iff.2 none)
  · refine fun some => ⟨notOwn_of_letter (own.typeName.append "OrderInput"),
      fun none => some (List.map_eq_nil_iff.1 none), List.forall_mem_map.2 fun f hf => ?_⟩
    exact ⟨own.fields f (List.mem_of_mem_filter hf), h.isInput_orderBy⟩

theorem fits_insertType : s.Fits (entityInsertType b.context p) := by
  refine ⟨notOwn_of_letter (own.typeName.append "InsertInput"),
    fun none => own.seen (List.map_eq_nil_iff.1 none), List.forall_mem_map.2 fun f hf => ?_⟩
  refine ⟨own.fields f hf, ?_⟩
  dsimp only
  rw [base_maybeNonNull]
  exact (h.leaf_fieldTypeRef own hf).1

theorem fits_updateType : s.Fits (entityUpdateType b.context p) := by
  refine ⟨notOwn_of_letter (own.typeName.append "UpdateInput"),
    fun none => own.seen (List.map_eq_nil_iff.1 none), List.forall_mem_map.2 fun f hf => ?_⟩
  exact ⟨own.fields f hf, (h.leaf_fieldTypeRef own hf).1⟩

/-- The types of an entity fit exactly if there is a column to order by. -/
theorem fits_entityTypes_iff (hp : p ∈ projections) :
    (∀ t ∈ b.entityTypes projections p, s.Fits t) ↔ p.orderFields ≠ [] := by
  have objects := h.fits_objectTypes own hp
  unfold entityTypes
  simp only [List.forall_mem_append, List.forall_mem_cons]
  constructor
  · rintro ⟨⟨-, -, order, -⟩, -⟩
    exact (h.fits_orderType_iff own).1 order
  · refine fun some => ⟨⟨objects, h.fits_filterType own hp, (h.fits_orderType_iff own).2 some,
      List.forall_mem_nil _⟩, ?_⟩
    split_ifs
    · simp only [List.forall_mem_cons]
      exact ⟨h.fits_insertType own, h.fits_updateType own, List.forall_mem_nil _⟩
    · exact List.forall_mem_nil _

end Own

/-! ## Shared types -/

omit h in
theorem isPlain_operator (o : Operator) : IsPlain o.name := by
  revert o
  have all : ∀ o ∈ Operator.all, IsPlain o.name := by decide +kernel
  exact fun o => all o (by cases o <;> decide)

omit h in
theorem fits_operatorFields {base : String} (hbase : s.isInput base = true)
    {operators : List Operator} (some : operators ≠ []) :
    s.FitsBody (.input (operatorFields (.named base) operators)) := by
  refine ⟨fun none => some (List.map_eq_nil_iff.1 none), List.forall_mem_map.2 fun o _ => ?_⟩
  refine ⟨isPlain_operator o, ?_⟩
  dsimp only
  split_ifs <;> exact hbase

theorem fits_familyType (f : FilterFamily) : s.Fits (familyType f) := by
  have scalar : s.isInput (familyScalar f) = true := by
    cases f
    case bigInteger => exact h.leaf_bigInteger.1
    all_goals exact (leaf_builtin (by decide)).1
  have some : f.operators ≠ [] := by cases f <;> decide
  refine ⟨?_, fits_operatorFields scalar some⟩
  cases f <;> decide +kernel

omit h in
theorem fits_inputField {label base : String} {type : TypeRef} (plain : IsPlain label)
    (hbase : s.isInput base = true) (htype : type.base = base) :
    IsPlain (⟨label, type⟩ : InputField).name ∧
      s.isInput (⟨label, type⟩ : InputField).type.base = true :=
  ⟨plain, htype ▸ hbase⟩

omit h in
/-- The names of fields of requests for pages and of what is known about pages. -/
theorem isPlain_page : ∀ name ∈ ["cursor", "limit", "page", "offset", "hasPreviousPage",
    "hasNextPage", "startCursor", "endCursor", "pages", "current", "total"], IsPlain name := by
  decide +kernel

theorem fits_paginationTypes : ∀ t ∈ paginationTypes, s.Fits t := by
  obtain ⟨cursor, limit, page, offset, -⟩ := by
    simpa only [List.forall_mem_cons] using isPlain_page
  have text : s.isInput "String" = true := (leaf_builtin ⟨("String", .string), by decide, rfl⟩).1
  have number : s.isInput "Int" = true := (leaf_builtin ⟨("Int", .int), by decide, rfl⟩).1
  have sent : ∀ t ∈ paginationTypes, (∀ fields, t.body ≠ .object fields) →
      s.isInput t.name = true := by
    refine fun t ht => isInput_of_mem h.distinct h.root (h.mem_shared ?_)
    exact List.mem_append_left _ (List.mem_append_right _ ht)
  have notOwn : ∀ t ∈ paginationTypes, isOwnName t.name = false := by decide +kernel
  unfold paginationTypes at sent notOwn ⊢
  simp only [List.forall_mem_cons] at sent notOwn ⊢
  obtain ⟨byCursor, byPage, byOffset, -⟩ := sent
  obtain ⟨own₁, own₂, own₃, own₄, -⟩ := notOwn
  refine ⟨⟨own₁, nofun, ?_⟩, ⟨own₂, nofun, ?_⟩, ⟨own₃, nofun, ?_⟩, ⟨own₄, nofun, ?_⟩,
    List.forall_mem_nil _⟩ <;> simp only [List.forall_mem_cons]
  · exact ⟨fits_inputField cursor text rfl, fits_inputField limit number rfl, List.forall_mem_nil _⟩
  · exact ⟨fits_inputField page number rfl, fits_inputField limit number rfl, List.forall_mem_nil _⟩
  · exact ⟨fits_inputField offset number rfl, fits_inputField limit number rfl,
      List.forall_mem_nil _⟩
  · exact ⟨fits_inputField cursor (byCursor nofun) rfl, fits_inputField page (byPage nofun) rfl,
      fits_inputField offset (byOffset nofun) rfl, List.forall_mem_nil _⟩

omit h in
theorem fits_pageTypes : ∀ t ∈ pageTypes, s.Fits t := by
  obtain ⟨-, -, -, offset, previous, next, first, last, pages, current, total, -⟩ := by
    simpa only [List.forall_mem_cons] using isPlain_page
  have text : s.isOutput "String" = true := (leaf_builtin ⟨("String", .string), by decide, rfl⟩).2
  have number : s.isOutput "Int" = true := (leaf_builtin ⟨("Int", .int), by decide, rfl⟩).2
  have flag : s.isOutput "Boolean" = true := (leaf_builtin ⟨("Boolean", .boolean), by decide, rfl⟩).2
  have notOwn : ∀ t ∈ pageTypes, isOwnName t.name = false := by decide +kernel
  unfold pageTypes at notOwn ⊢
  simp only [List.forall_mem_cons] at notOwn ⊢
  obtain ⟨own₁, own₂, -⟩ := notOwn
  refine ⟨⟨own₁, nofun, ?_⟩, ⟨own₂, nofun, ?_⟩, List.forall_mem_nil _⟩ <;>
    simp only [List.forall_mem_cons]
  · exact ⟨fits_plainField previous flag rfl rfl, fits_plainField next flag rfl rfl,
      fits_plainField first text rfl rfl, fits_plainField last text rfl rfl, List.forall_mem_nil _⟩
  · exact ⟨fits_plainField pages number rfl rfl, fits_plainField current number rfl rfl,
      fits_plainField offset number rfl rfl, fits_plainField total number rfl rfl,
      List.forall_mem_nil _⟩

/-- The types that all schemas share fit. -/
theorem fits_sharedTypes : ∀ t ∈ sharedTypes, s.Fits t := by
  have big : s.Fits ⟨"BigInt", .scalar .bigInteger⟩ := ⟨by decide +kernel, trivial⟩
  have directions : s.Fits orderByType :=
    ⟨by decide +kernel, List.cons_ne_nil _ _, by decide +kernel⟩
  unfold sharedTypes
  simp only [List.forall_mem_append, List.forall_mem_singleton, List.forall_mem_map]
  exact ⟨⟨⟨⟨big, fun f _ => h.fits_familyType f⟩, directions⟩, h.fits_paginationTypes⟩,
    fits_pageTypes⟩

end Collected

end TableGraph.Builder
