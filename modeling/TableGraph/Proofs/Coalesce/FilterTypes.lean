import TableGraph.Builder
import TableGraph.Graph.InputValue
import TableGraph.Proofs.EntityTable
import TableGraph.Proofs.Outcome

/-!
# The types of filters

A schema that is built has a type of filters for every entity, every family of operators and every
enumeration, under the name that fields refer to it by.  Main statements:
`Builder.inputFields?_filter` for entities and `Builder.operands_of_filter` for the fields of a
filter.
-/

namespace TableGraph

open TableGraph.Graph

/-! ## Types by name -/

namespace Graph.TypeSystem

variable {s : TypeSystem} {t : NamedType}

theorem check_eq_ok : s.check = .ok () → (s.allTypes.map (·.name)).Nodup := by
  intro h
  unfold check at h
  obtain ⟨_, -, h⟩ := bind_eq_ok.1 h
  split_ifs at h with distinct
  exact distinct

/-- Of types with different names, each is found by its name, unless the language or a root has the
name. -/
theorem body?_of_distinct (distinct : (s.allTypes.map (·.name)).Nodup) (ht : t ∈ s.types)
    (hbuiltin : ∀ scalar ∈ builtinScalars, t.name ≠ scalar.1) (hroot : t.name ≠ mutationName) :
    s.body? t.name = some t.body := by
  unfold allTypes at distinct
  rw [List.map_append, List.map_append] at distinct
  have types := (List.nodup_append.1 (List.nodup_append.1 distinct).1)
  have hquery : t.name ≠ queryName := fun h =>
    types.2.2 t.name (List.mem_map_of_mem ht) queryName List.mem_cons_self h
  have unknown : builtinScalars.lookup t.name = none :=
    List.lookup_eq_none_iff.2 fun p hp => by simpa using hbuiltin p hp
  unfold body?
  rw [unknown]
  dsimp only
  rw [if_neg hquery, if_neg hroot, find?_name types.1 ht]
  rfl

theorem body?_of_mem (hs : s.check = .ok ()) (ht : t ∈ s.types)
    (hbuiltin : ∀ scalar ∈ builtinScalars, t.name ≠ scalar.1) (hroot : t.name ≠ mutationName) :
    s.body? t.name = some t.body := body?_of_distinct (check_eq_ok hs) ht hbuiltin hroot

/-- A type is found by its name if that ends in a word none of the language's own names ends in. -/
theorem body?_of_suffix (hs : s.check = .ok ()) (ht : t ∈ s.types) (x word : String)
    (hname : t.name = x ++ word)
    (hword : ∀ name ∈ mutationName :: builtinScalars.map (·.1), ¬word.toList <:+ name.toList) :
    s.body? t.name = some t.body := by
  have other : ∀ name ∈ mutationName :: builtinScalars.map (·.1), t.name ≠ name := by
    intro name hmem h
    refine hword name hmem ?_
    rw [← h, hname, String.toList_append]
    exact List.suffix_append _ _
  refine body?_of_mem hs ht (fun scalar hmem => other _ ?_) (other _ List.mem_cons_self)
  exact List.mem_cons_of_mem _ (List.mem_map_of_mem hmem)

end Graph.TypeSystem

/-- The type of the operands of a filter. -/
def ColumnFilter.operandName : ColumnFilter → String
  | family f => familyScalar f
  | enumeration _ typeName => typeName

/-! ## Collecting types -/

section Steps

variable {ε α σ : Type} {f : σ → α → Except ε σ} {s s' : σ} {xs : List α}

/-- What every step keeps is kept by all. -/
theorem foldlM_preserves {P : σ → Prop} (step : ∀ s x s', f s x = .ok s' → P s → P s') (hs : P s)
    (h : xs.foldlM f s = .ok s') : P s' := by
  induction xs generalizing s with
  | nil =>
    cases h
    exact hs
  | cons x xs ih =>
    rw [List.foldlM_cons] at h
    obtain ⟨s₁, hx, h⟩ := bind_eq_ok.1 h
    exact ih (step s x s₁ hx hs) h

/-- What every step does for its item, and every other keeps, is done for all items. -/
theorem foldlM_forall {Q : α → σ → Prop} (own : ∀ s x s', f s x = .ok s' → Q x s')
    (kept : ∀ s x s' y, f s x = .ok s' → Q y s → Q y s') (h : xs.foldlM f s = .ok s') :
    ∀ x ∈ xs, Q x s' := by
  induction xs generalizing s with
  | nil => exact nofun
  | cons x xs ih =>
    rw [List.foldlM_cons] at h
    obtain ⟨s₁, hx, h⟩ := bind_eq_ok.1 h
    rw [List.forall_mem_cons]
    exact ⟨foldlM_preserves (P := Q x) (fun s y s' hy => kept s y s' x hy) (own s x s₁ hx) h, ih h⟩

end Steps

namespace Builder

variable {b : Builder} {types types' : List NamedType} {t : NamedType}

theorem addType_eq_ok (h : addType types t = .ok types') : types' = types ++ [t] := by
  unfold addType at h
  split_ifs at h
  cases h
  rfl

theorem mem_addType (h : addType types t = .ok types') : t ∈ types' := by
  rw [addType_eq_ok h]
  exact List.mem_append_right _ List.mem_cons_self

theorem subset_addType (h : addType types t = .ok types') : types ⊆ types' := by
  rw [addType_eq_ok h]
  exact List.subset_append_left _ _

theorem subset_foldlM {α : Type} {f : List NamedType → α → Except Fault (List NamedType)}
    (step : ∀ types x types', f types x = .ok types' → types ⊆ types') {xs : List α}
    (h : xs.foldlM f types = .ok types') : types ⊆ types' :=
  foldlM_preserves (P := (types ⊆ ·))
    (fun _ _ _ hstep hsub => List.Subset.trans hsub (step _ _ _ hstep)) (List.Subset.refl _) h

/-- The type of the enumeration and the type of its filter are there. -/
def HasEnumeration (context : Context) (e : Enumeration) (types : List NamedType) : Prop :=
  ∃ t, enumerationType context e = .ok t ∧ t ∈ types ∧ enumerationFilterType t.name ∈ types

theorem addEnumeration_eq_ok {context : Context} {e : Enumeration}
    (h : addEnumeration context types e = .ok types') :
    types ⊆ types' ∧ HasEnumeration context e types' := by
  unfold addEnumeration at h
  obtain ⟨t, ht, h⟩ := bind_eq_ok.1 h
  obtain ⟨types₁, h₁, h⟩ := bind_eq_ok.1 h
  exact ⟨List.Subset.trans (subset_addType h₁) (subset_addType h), t, ht,
    subset_addType h (mem_addType h₁), mem_addType h⟩

theorem addEntity_eq_ok {projections : List Projection} {p : Projection}
    (h : b.addEntity projections types p = .ok types') :
    types ⊆ types' ∧ entityFilterType p ∈ types' := by
  unfold addEntity at h
  obtain ⟨_, -, h⟩ := bind_eq_ok.1 h
  obtain ⟨types₁, h₁, h⟩ := bind_eq_ok.1 h
  obtain ⟨types₂, h₂, h⟩ := bind_eq_ok.1 h
  obtain ⟨types₃, h₃, h⟩ := bind_eq_ok.1 h
  have before : types ⊆ types₂ := List.Subset.trans (subset_foldlM (fun _ _ _ => subset_addType) h₁)
    (subset_addType h₂)
  have behind : types₂ ⊆ types' := by
    refine List.Subset.trans (subset_addType h₃) ?_
    split_ifs at h with changed
    · obtain ⟨types₄, h₄, h⟩ := bind_eq_ok.1 h
      exact List.Subset.trans (subset_addType h₄) (subset_addType h)
    · cases h
      exact List.Subset.refl _
  exact ⟨List.Subset.trans before behind, behind (mem_addType h₂)⟩

theorem buildTypes_eq_ok {projections : List Projection}
    (h : b.buildTypes projections = .ok types) :
    (∀ e ∈ b.enumerations, HasEnumeration b.context e types) ∧ (∀ t ∈ sharedTypes, t ∈ types) ∧
      ∀ p ∈ projections, entityFilterType p ∈ types := by
  unfold buildTypes at h
  obtain ⟨types₁, -, h⟩ := bind_eq_ok.1 h
  obtain ⟨types₂, h₂, h⟩ := bind_eq_ok.1 h
  obtain ⟨types₃, h₃, h⟩ := bind_eq_ok.1 h
  have shared := subset_foldlM (fun _ _ _ => subset_addType) h₃
  have entities := subset_foldlM (fun _ _ _ h => (addEntity_eq_ok h).1) h
  refine ⟨fun e he => ?_, fun t ht => entities ?_, ?_⟩
  · obtain ⟨t, ht, hmem, hfilter⟩ := foldlM_forall (Q := HasEnumeration b.context)
      (fun _ _ _ h => (addEnumeration_eq_ok h).2)
      (fun _ _ _ _ h ⟨t, ht, hmem, hfilter⟩ =>
        ⟨t, ht, (addEnumeration_eq_ok h).1 hmem, (addEnumeration_eq_ok h).1 hfilter⟩) h₂ e he
    exact ⟨t, ht, entities (shared hmem), entities (shared hfilter)⟩
  · exact foldlM_forall (Q := fun t types => t ∈ types) (fun _ _ _ => mem_addType)
      (fun _ _ _ _ h ht => subset_addType h ht) h₃ t ht
  · exact foldlM_forall (Q := fun p types => entityFilterType p ∈ types)
      (fun _ _ _ h => (addEntity_eq_ok h).2) (fun _ _ _ _ h hp => (addEntity_eq_ok h).1 hp) h

/-! ## The types of a schema -/

variable {schema : SealedSchema}

theorem build_eq_ok (h : b.build = .ok schema) :
    schema.codec = ⟨b.enumerations, b.context.rfc3339⟩ ∧
      Validation.validate b.entities b.enumerations = [] ∧
      b.entities.mapM (project b.context) = .ok schema.projections ∧
      b.buildTypes schema.projections = .ok schema.types.types ∧ schema.types.check = .ok () := by
  unfold build at h
  obtain ⟨_, -, h⟩ := bind_eq_ok.1 h
  split_ifs at h
  split at h
  next valid =>
    obtain ⟨projections, hprojections, h⟩ := bind_eq_ok.1 h
    obtain ⟨types, htypes, h⟩ := bind_eq_ok.1 h
    obtain ⟨_, hcheck, h⟩ := bind_eq_ok.1 h
    cases h
    exact ⟨rfl, valid, hprojections, htypes, hcheck⟩
  next => cases h

/-- The configuration of a schema, and the fields of its roots. -/
theorem roots_of_build (h : b.build = .ok schema) : schema.context = b.context ∧
    schema.types.query = queryRoot b.context schema.projections ∧
    schema.types.mutation = mutationRoot b.mutable schema.projections := by
  unfold build at h
  obtain ⟨_, -, h⟩ := bind_eq_ok.1 h
  split_ifs at h
  split at h
  next =>
    obtain ⟨projections, -, h⟩ := bind_eq_ok.1 h
    obtain ⟨types, -, h⟩ := bind_eq_ok.1 h
    obtain ⟨_, -, h⟩ := bind_eq_ok.1 h
    cases h
    exact ⟨rfl, rfl, rfl⟩
  next => cases h

/-- The fields of the filters of an entity. -/
def filterInputs (p : Projection) : List InputField :=
  let self : TypeRef := .list (required p.filterTypeName)
  setInput ⟨"or", self⟩ (setInput ⟨"and", self⟩ (p.fields.filterMap fun f =>
    f.filter.map fun filter => (⟨f.name, .named filter.typeName⟩ : InputField)))

variable {p : Projection}

theorem inputFields?_eq {s : TypeSystem} {name : String} {fields : List InputField}
    (h : s.body? name = some (.input fields)) : s.inputFields? name = some fields := by
  unfold TypeSystem.inputFields?
  rw [h]

/-- The type of the filters of an entity is found by its name. -/
theorem inputFields?_filter (built : b.build = .ok schema) (hp : p ∈ schema.projections) :
    schema.types.inputFields? p.filterTypeName = some (filterInputs p) := by
  obtain ⟨-, -, -, htypes, hcheck⟩ := build_eq_ok built
  exact inputFields?_eq (TypeSystem.body?_of_suffix hcheck ((buildTypes_eq_ok htypes).2.2 p hp)
    p.typeName "FilterInput" rfl (by decide))

/-- The scalar of the operands of a family. -/
def familyKind : FilterFamily → ScalarKind
  | .string | .text | .identity => .string
  | .integer => .int
  | .bigInteger => .bigInteger
  | .float => .float
  | .boolean => .boolean

theorem familyKind_ne_custom (f : FilterFamily) : familyKind f ≠ .custom := by
  cases f <;> nofun

theorem familyKind_ne_float {f : FilterFamily} (h : f ≠ .float) : familyKind f ≠ .float := by
  cases f <;> first | exact absurd rfl h | nofun

theorem inputFields?_family (built : b.build = .ok schema) (f : FilterFamily) :
    schema.types.inputFields? f.typeName =
      some (operatorFields (.named (familyScalar f)) f.operators) := by
  obtain ⟨-, -, -, htypes, hcheck⟩ := build_eq_ok built
  have shared : familyType f ∈ sharedTypes := by
    cases f <;> simp [sharedTypes, FilterFamily.all]
  exact inputFields?_eq (TypeSystem.body?_of_suffix hcheck ((buildTypes_eq_ok htypes).2.1 _ shared)
    f.name "FilterInput" rfl (by decide))

theorem body?_familyScalar (built : b.build = .ok schema) (f : FilterFamily) :
    schema.types.body? (familyScalar f) = some (.scalar (familyKind f)) := by
  obtain ⟨-, -, -, htypes, hcheck⟩ := build_eq_ok built
  have big : (⟨"BigInt", .scalar .bigInteger⟩ : NamedType) ∈ schema.types.types :=
    (buildTypes_eq_ok htypes).2.1 _ List.mem_cons_self
  cases f
  case bigInteger => exact TypeSystem.body?_of_mem hcheck big (by decide) (by decide)
  all_goals rfl

/-! ### Enumerations -/

theorem namedValues_eq_ok {context : Context} {enumeration : String} {taken raws : List String}
    {values : List (String × Value)} (h : namedValues context enumeration taken raws = .ok values) :
    ∀ value ∈ values, ∃ raw, value.2 = .text raw := by
  induction raws generalizing taken values with
  | nil =>
    cases h
    exact nofun
  | cons raw raws ih =>
    unfold namedValues at h
    dsimp only at h
    split_ifs at h
    obtain ⟨rest, hrest, h⟩ := bind_eq_ok.1 h
    cases h
    exact List.forall_mem_cons.2 ⟨⟨raw, rfl⟩, ih hrest⟩

theorem enumerationType_eq_ok {context : Context} {e : Enumeration}
    (h : enumerationType context e = .ok t) : t.name = context.enumTypeName e.name ∧
      ∃ values, t.body = .enumeration values ∧ ∀ value ∈ values, ∃ raw, value.2 = .text raw := by
  unfold enumerationType at h
  obtain ⟨values, hvalues, h⟩ := bind_eq_ok.1 h
  obtain ⟨_, -, h⟩ := bind_eq_ok.1 h
  cases h
  exact ⟨rfl, values, rfl, namedValues_eq_ok hvalues⟩

theorem columnField_eq_ok {context : Context} {typeName : String} {c : Column} {f : ColumnField}
    (h : Projection.columnField context typeName c = .ok f) : f.column = c ∧
      f.override = context.columnOverrides.lookup f.path ∧
      Projection.columnFilter context c f.path = .ok f.filter := by
  unfold Projection.columnField at h
  obtain ⟨filter, hfilter, h⟩ := bind_eq_ok.1 h
  cases h
  exact ⟨rfl, rfl, hfilter⟩

/-- A field has the filter of an enumeration because its column is of that enumeration. -/
theorem column_of_filter {context : Context} {typeName : String} {c : Column} {f : ColumnField}
    {name enumType : String} (h : Projection.columnField context typeName c = .ok f)
    (hf : f.filter = some (.enumeration name enumType)) :
    c.type = .enumeration name ∧ enumType = context.enumTypeName name := by
  have hfilter := (columnField_eq_ok h).2.2
  rw [hf] at hfilter
  unfold Projection.columnFilter at hfilter
  split at hfilter
  · split at hfilter
    · cases hfilter
    · obtain ⟨_, -, hfilter⟩ := bind_eq_ok.1 hfilter
      cases hfilter
  · split at hfilter
    · next htype =>
      cases hfilter
      exact ⟨htype, rfl⟩
    · cases hkind : FilterFamily.ofColumnType? c.type <;> simp_all

/-- Unless a family is forced, a column has that of its type. -/
theorem family_of_columnFilter {context : Context} (h : context.filterOverrides = []) {c : Column}
    {path : String} {family : FilterFamily}
    (hfilter : Projection.columnFilter context c path = .ok (some (.family family))) :
    FilterFamily.ofColumnType? c.type = some family := by
  unfold Projection.columnFilter at hfilter
  rw [h] at hfilter
  cases htype : c.type with
  | enumeration name =>
    rw [htype] at hfilter
    cases hfilter
  | _ =>
    rw [htype] at hfilter
    obtain ⟨f, hf, hfamily⟩ := Option.map_eq_some_iff.1 (Except.ok.inj hfilter)
    cases hfamily
    exact hf

/-- Unless a family is forced, operands are of the type of the column. -/
theorem columnTypeRef_of_columnFilter {context : Context} {c : Column} {path : String}
    (h : context.filterOverrides.lookup path = none) {filter : ColumnFilter}
    (hfilter : Projection.columnFilter context c path = .ok (some filter)) :
    columnTypeRef context c.type = .named filter.operandName := by
  unfold Projection.columnFilter at hfilter
  rw [h] at hfilter
  cases htype : c.type with
  | enumeration name =>
    rw [htype] at hfilter
    cases hfilter
    rfl
  | basic kind label =>
    rw [htype] at hfilter
    obtain ⟨family, hfamily, rfl⟩ := Option.map_eq_some_iff.1 (Except.ok.inj hfilter)
    unfold FilterFamily.ofColumnType? at hfamily
    unfold columnTypeRef scalarName ColumnFilter.operandName
    cases kind with
    | integer k =>
      dsimp only at hfamily ⊢
      split_ifs at hfamily ⊢ <;> cases hfamily <;> rfl
    | _ => cases hfamily <;> rfl
  | _ =>
    rw [htype] at hfilter
    cases hfilter

/-- The fields of an entity are those of its columns. -/
theorem exists_column (built : b.build = .ok schema) (hp : p ∈ schema.projections)
    {f : ColumnField} (hf : f ∈ p.fields) : p.entity ∈ b.entities ∧ ∃ c ∈ p.entity.columns,
      Projection.columnField b.context (b.context.typeName p.entity.name) c = .ok f := by
  obtain ⟨-, -, hprojections, -⟩ := build_eq_ok built
  obtain ⟨e, he, hproject⟩ := mem_of_mapM hprojections hp
  unfold project at hproject
  obtain ⟨_, -, hmake⟩ := bind_eq_ok.1 hproject
  unfold Projection.make at hmake
  obtain ⟨fields, hfields, hmake⟩ := bind_eq_ok.1 hmake
  dsimp only at hmake
  split at hmake
  · cases hmake
    obtain ⟨c, hc, hfield⟩ := mem_of_mapM hfields hf
    exact ⟨he, c, List.mem_of_mem_filter hc, hfield⟩
  · cases hmake

/-- Columns of enumerations are of enumerations that are registered. -/
theorem exists_enumeration (built : b.build = .ok schema) {e : Entity} (he : e ∈ b.entities)
    {c : Column} (hc : c ∈ e.columns) {name : String} (htype : c.type = .enumeration name) :
    ∃ enumeration ∈ b.enumerations, enumeration.name = name := by
  obtain ⟨-, valid, -⟩ := build_eq_ok built
  have issues := List.flatMap_eq_nil_iff.1 valid e he
  unfold Validation.entityIssues at issues
  have problems := List.flatMap_eq_nil_iff.1 (List.append_eq_nil_iff.1 issues).1 c hc
  rw [List.map_eq_nil_iff, Validation.columnProblems, htype] at problems
  dsimp only [ColumnType.enumerationName?] at problems
  split_ifs at problems with known
  simpa using known

/-- The operands of the filter of a field are of the scalar of a family, or they are texts. -/
theorem operands_of_filter (built : b.build = .ok schema) (hp : p ∈ schema.projections)
    {f : ColumnField} (hf : f ∈ p.fields) {filter : ColumnFilter}
    (hfilter : f.filter = some filter) : schema.types.inputFields? filter.typeName =
        some (operatorFields (.named filter.operandName) filter.operators) ∧
      ((∃ family, filter = .family family ∧
          schema.types.body? filter.operandName = some (.scalar (familyKind family))) ∨
        ∃ values, schema.types.body? filter.operandName = some (.enumeration values) ∧
          ∀ value ∈ values, ∃ raw, value.2 = .text raw) := by
  cases filter with
  | family family =>
    exact ⟨inputFields?_family built family, .inl ⟨family, rfl, body?_familyScalar built family⟩⟩
  | enumeration name enumType =>
    obtain ⟨-, -, -, htypes, hcheck⟩ := build_eq_ok built
    obtain ⟨he, c, hc, hfield⟩ := exists_column built hp hf
    obtain ⟨htype, rfl⟩ := column_of_filter hfield hfilter
    obtain ⟨enumeration, hmem, rfl⟩ := exists_enumeration built he hc htype
    obtain ⟨t, ht, htmem, hfiltermem⟩ := (buildTypes_eq_ok htypes).1 enumeration hmem
    obtain ⟨hname, values, hbody, htexts⟩ := enumerationType_eq_ok ht
    have filterType := TypeSystem.body?_of_suffix hcheck hfiltermem t.name "FilterInput" rfl
      (by decide)
    have enumeration := TypeSystem.body?_of_suffix hcheck htmem _ "Enum" hname (by decide)
    rw [hname] at filterType enumeration
    exact ⟨inputFields?_eq filterType, .inr ⟨values, enumeration.trans (congrArg some hbody),
      htexts⟩⟩

end Builder

/-! ## Projections -/

/-- An entity is projected if the names of its fields differ. -/
theorem Projection.make_eq {context : Context} {entity : Entity} {typeName : String}
    {fields : List ColumnField} (htype : context.typeName entity.name = typeName)
    (hfields : entity.visibleColumns.mapM (columnField context typeName) = .ok fields)
    (distinct : repeated (fields.map (·.name) ++
      (entity.allRelations.map (relationField context typeName)).map (·.name)) = []) :
    make context entity = .ok ⟨entity, typeName, context.fieldName typeName, fields,
      entity.allRelations.map (relationField context typeName)⟩ := by
  unfold make
  dsimp only
  rw [htype, hfields]
  dsimp only [bind, Except.bind]
  rw [distinct]

/-! ## Fields of filters -/

section Fields

variable {p : Projection} {name : String}

theorem find?_replace (f : InputField) (fields : List InputField) (name : String) :
    ((fields.map fun g => if g.name = f.name then f else g).find? fun g => g.name = name) =
      if name = f.name then (fields.find? fun g => g.name = name).map fun _ => f
      else fields.find? fun g => g.name = name := by
  induction fields with
  | nil => split_ifs <;> rfl
  | cons g fields ih =>
    rw [List.map_cons, List.find?_cons, List.find?_cons, ih]
    by_cases hname : name = f.name
    · subst hname
      by_cases hg : g.name = f.name <;> simp [hg]
    · by_cases hg : g.name = f.name
      · simp [hg, hname, Ne.symm hname]
      · simp [hg, hname]

theorem typeOf?_setInput (f : InputField) (fields : List InputField) (name : String) :
    typeOf? (setInput f fields) name =
      if name = f.name then some f.type else typeOf? fields name := by
  unfold typeOf? setInput
  split
  next there =>
    obtain ⟨g, hg, hname⟩ := List.any_eq_true.1 there
    rw [find?_replace]
    split_ifs with h
    · subst h
      cases hfind : fields.find? (fun g => g.name = f.name) with
      | none => exact absurd hname (List.find?_eq_none.1 hfind g hg)
      | some g => rfl
    · rfl
  next missing =>
    rw [List.find?_append]
    split_ifs with h
    · subst h
      have none : fields.find? (fun g => g.name = f.name) = none := by simpa using missing
      simp [none]
    · simp [Ne.symm h]

/-- The fields of a filter of an entity: trees under `and` and `or`, and the columns. -/
theorem typeOf?_filterInputs (p : Projection) (name : String) :
    typeOf? (Builder.filterInputs p) name =
      if name = "and" ∨ name = "or" then some (.list (required p.filterTypeName))
      else (p.filterFields.find? fun f => f.name = name).bind fun f =>
        f.filter.map fun filter => .named filter.typeName := by
  have columns : ∀ fields : List ColumnField,
      typeOf? (fields.filterMap fun f => f.filter.map fun filter =>
        (⟨f.name, .named filter.typeName⟩ : InputField)) name =
      ((fields.filter (·.filter.isSome)).find? fun f => f.name = name).bind fun f =>
        f.filter.map fun filter => .named filter.typeName := by
    intro fields
    induction fields with
    | nil => rfl
    | cons f fields ih =>
      unfold typeOf? at ih ⊢
      cases hf : f.filter with
      | none =>
        rw [List.filterMap_cons_none (by rw [hf]; rfl), List.filter_cons_of_neg (by simp [hf]), ih]
      | some filter =>
        rw [List.filterMap_cons_some (by rw [hf]; rfl), List.filter_cons_of_pos (by simp [hf]),
          List.find?_cons, List.find?_cons]
        by_cases hname : f.name = name
        · simp [hname, hf]
        · simp only [hname, decide_false]
          exact ih
  unfold Builder.filterInputs
  rw [typeOf?_setInput, typeOf?_setInput]
  by_cases hand : name = "and"
  · simp [hand]
  · by_cases hor : name = "or"
    · simp [hor]
    · simp only [hand, hor, if_false, or_self]
      exact columns p.fields

theorem mem_setInput {f g : InputField} {fields : List InputField} (h : g ∈ setInput f fields) :
    g = f ∨ g ∈ fields := by
  unfold setInput at h
  split at h
  · obtain ⟨g', hg', rfl⟩ := List.mem_map.1 h
    split_ifs
    · exact .inl rfl
    · exact .inr hg'
  · exact (List.mem_append.1 h).symm.imp_left List.mem_singleton.1

/-- All fields can be left out. -/
theorem hasRequired_of_nullable {types : List InputField}
    (h : ∀ f ∈ types, f.type.isNonNull = false) (names : List String) :
    hasRequired types names := by
  refine List.all_eq_true.2 fun f hf => ?_
  rw [h f hf]
  rfl

/-- Of an object with such fields, those that are there are put in their order. -/
theorem arrange_eq {fields : List (String × Value)} {types : List InputField}
    (h : ∀ f ∈ types, f.type.isNonNull = false) : arrange fields types =
      some (types.filterMap fun f => (fields.lookup f.name).map fun v => (f.name, v)) := by
  induction types with
  | nil => rfl
  | cons f types ih =>
    rw [List.forall_mem_cons] at h
    unfold arrange
    rw [ih h.2, h.1]
    cases found : fields.lookup f.name with
    | none => rw [List.filterMap_cons_none (by rw [found]; rfl)]; rfl
    | some v => rw [List.filterMap_cons_some (by rw [found]; rfl)]; rfl

theorem nullable_filterInputs (p : Projection) :
    ∀ f ∈ Builder.filterInputs p, f.type.isNonNull = false := by
  intro f hf
  rcases mem_setInput hf with rfl | hf
  · rfl
  · rcases mem_setInput hf with rfl | hf
    · rfl
    · obtain ⟨g, -, hg⟩ := List.mem_filterMap.1 hf
      obtain ⟨filter, -, rfl⟩ := Option.map_eq_some_iff.1 hg
      rfl

theorem hasRequired_filterInputs (p : Projection) (names : List String) :
    hasRequired (Builder.filterInputs p) names :=
  hasRequired_of_nullable (nullable_filterInputs p) names

theorem nullable_operatorFields (base : String) (operators : List Operator) :
    ∀ f ∈ operatorFields (.named base) operators, f.type.isNonNull = false := by
  intro f hf
  obtain ⟨o, -, rfl⟩ := List.mem_map.1 hf
  dsimp only
  split_ifs <;> rfl

theorem hasRequired_operatorFields (base : String) (operators : List Operator)
    (names : List String) : hasRequired (operatorFields (.named base) operators) names :=
  hasRequired_of_nullable (nullable_operatorFields base operators) names

theorem typeOf?_operatorFields {base : TypeRef} {operators : List Operator} {t : TypeRef}
    (h : typeOf? (operatorFields base operators) name = some t) :
    ∃ o ∈ operators, o.name = name ∧ t = if o.takesList then .list (.nonNull base) else base := by
  unfold typeOf? at h
  rw [Option.map_eq_some_iff] at h
  obtain ⟨f, hfind, rfl⟩ := h
  obtain ⟨o, ho, rfl⟩ := List.mem_map.1 (List.mem_of_find?_eq_some hfind)
  exact ⟨o, ho, by simpa using List.find?_some hfind, rfl⟩

theorem Operator.eq_of_name {o o' : Operator} (h : o'.name = o.name) : o' = o := by
  have found := Operator.ofName?_name o'
  rw [h, Operator.ofName?_name] at found
  exact (Option.some.inj found).symm

/-- Every operator is a field. -/
theorem typeOf?_operator (base : TypeRef) {operators : List Operator} {o : Operator}
    (ho : o ∈ operators) : typeOf? (operatorFields base operators) o.name =
      some (if o.takesList then .list (.nonNull base) else base) := by
  cases htype : typeOf? (operatorFields base operators) o.name with
  | none =>
    have missing := List.find?_eq_none.1 (Option.map_eq_none_iff.1 htype)
    exact absurd (decide_eq_true rfl) (missing _ (List.mem_map_of_mem ho))
  | some t =>
    obtain ⟨o', -, hname, rfl⟩ := typeOf?_operatorFields htype
    rw [Operator.eq_of_name hname]

end Fields

end TableGraph
