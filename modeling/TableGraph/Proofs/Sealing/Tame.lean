import TableGraph.Proofs.Sealing.Strays

/-!
# Builders whose names are names

Where every name that is given to a builder is a name of the query language once it is cased, every
table can be kept and every forced family is one, sealing fails with faults of the configuration
only.  Main statement: `isConfig_of_tame`.
-/

namespace TableGraph.Builder

open TableGraph.Graph TypeSystem

variable {b : Builder} {projections : List Projection} {p : Projection} {t : NamedType}
  {name word : String} {fault : Fault}

/-- What keeps a builder from failing with other faults than those of the configuration. -/
structure Tame (b : Builder) : Prop where
  columns : ∀ e ∈ b.entities, ∀ c ∈ e.columns, ¬Entity.IsNested c.type ∧ c.name ≠ ""
  families : ∀ e ∈ b.entities, ∀ c ∈ e.visibleColumns, ∀ family,
    ¬Entity.ForcesUnknown b.context e c family
  enumerations : ∀ e ∈ b.enumerations, b.context.enumTypeName e.name ∉ reservedNames ∧
    isName (b.context.enumTypeName e.name) = true
  entities : ∀ e ∈ b.entities, b.context.typeName e.name ∉ reservedNames ∧
    isName (b.context.typeName e.name) = true
  lists : ∀ e ∈ b.entities, isName (b.context.fieldName (b.context.typeName e.name)) = true
  fields : ∀ e ∈ b.entities, ∀ c ∈ e.visibleColumns, isName (b.context.fieldName c.name) = true
  relations : ∀ e ∈ b.entities, ∀ r ∈ e.allRelations, isName (b.context.fieldName r.name) = true

/-- The names of an entity are names of the query language. -/
structure Worded (p : Projection) : Prop where
  list : isName p.queryField = true
  fields : ∀ f ∈ p.fields, isName f.name = true
  relations : ∀ r ∈ p.relations, isName r.name = true

/-- The names of the fields of a type are names. -/
def HasNames (t : NamedType) : Prop := ∀ name ∈ memberNames t, isName name = true

theorem isName_append (h : isName name = true) (parts : word.toList.all Token.isNamePart = true) :
    isName (name ++ word) = true := by
  unfold isName at h ⊢
  rw [String.toList_append]
  cases hname : name.toList with
  | nil =>
    rw [hname] at h
    cases h
  | cons c cs =>
    rw [hname] at h
    obtain ⟨start, rest⟩ := Bool.and_eq_true_iff.1 h
    refine Bool.and_eq_true_iff.2 ⟨start, ?_⟩
    show (cs ++ word.toList).all Token.isNamePart = true
    rw [List.all_append, rest, parts]
    rfl

theorem not_refused (h : name ∉ reservedNames ∧ isName name = true) : ¬Refused name fault := by
  rintro (mem | ⟨_, unnamed⟩)
  · exact h.1 mem
  · rw [h.2] at unnamed
    cases unnamed

theorem hasNames_object {fields : List OutputField} (h : ∀ f ∈ fields, isName f.name = true) :
    HasNames ⟨name, .object fields⟩ := List.forall_mem_map.2 h

theorem hasNames_input {fields : List InputField} (h : ∀ f ∈ fields, isName f.name = true) :
    HasNames ⟨name, .input fields⟩ := List.forall_mem_map.2 h

/-! ## Shared types -/

theorem hasNames_shared : ∀ t ∈ sharedTypes, HasNames t := by
  unfold HasNames
  decide +kernel

theorem hasNames_filter (enumType : String) : HasNames (enumerationFilterType enumType) :=
  hasNames_input (List.forall_mem_map.2 fun o _ => (Collected.isPlain_operator o).isName)

/-! ## Types of an entity -/

namespace Worded

variable (h : Worded p)
include h

theorem hasNames_columns (context : Context) :
    ∀ f ∈ p.fields.map (columnOutput context), isName f.name = true :=
  List.forall_mem_map.2 h.fields

theorem hasNames_objects {context : Context} : ∀ t ∈ objectTypes context projections p,
    HasNames t := by
  have columns := h.hasNames_columns context
  have relations : ∀ f ∈ relationOutputs projections p, isName f.name = true := by
    intro f hf
    obtain ⟨r, hr, hf⟩ := List.mem_filterMap.1 hf
    obtain ⟨target, -, rfl⟩ := Option.map_eq_some_iff.1 hf
    have named := h.relations r hr
    unfold relationOutput
    dsimp only
    split_ifs <;> exact named
  unfold objectTypes
  simp only [List.forall_mem_cons]
  refine ⟨hasNames_object (List.forall_mem_append.2 ⟨columns, relations⟩), hasNames_object columns,
    ?_, ?_, List.forall_mem_nil _⟩
  · show ∀ name ∈ ["cursor", "node"], isName name = true
    decide +kernel
  · show ∀ name ∈ ["edges", "nodes", "pageInfo", "paginationInfo"], isName name = true
    decide +kernel

theorem hasNames_filterType : HasNames (entityFilterType p) := by
  refine hasNames_input fun f hf => ?_
  rcases mem_setInput hf with rfl | hf
  · exact (isPlain_fixed "or" (by simp)).isName
  rcases mem_setInput hf with rfl | hf
  · exact (isPlain_fixed "and" (by simp)).isName
  obtain ⟨f, hmem, hf⟩ := List.mem_filterMap.1 hf
  obtain ⟨filter, -, rfl⟩ := Option.map_eq_some_iff.1 hf
  exact h.fields f hmem

theorem hasNames_entity : ∀ t ∈ b.entityTypes projections p, HasNames t := by
  have order : HasNames (entityOrderType p) := hasNames_input <|
    List.forall_mem_map.2 fun f hf => h.fields f (List.mem_of_mem_filter hf)
  have insert : HasNames (entityInsertType b.context p) :=
    hasNames_input (List.forall_mem_map.2 h.fields)
  have update : HasNames (entityUpdateType b.context p) :=
    hasNames_input (List.forall_mem_map.2 h.fields)
  unfold entityTypes
  rw [List.forall_mem_append, List.forall_mem_append]
  refine ⟨⟨h.hasNames_objects, ?_⟩, ?_⟩
  · simp only [List.forall_mem_cons]
    exact ⟨h.hasNames_filterType, order, List.forall_mem_nil _⟩
  · split_ifs
    · simp only [List.forall_mem_cons]
      exact ⟨insert, update, List.forall_mem_nil _⟩
    · exact List.forall_mem_nil _

theorem isName_queryField {context : Context} {f : OutputField} (hf : f ∈ queryFields context p) :
    isName f.name = true := by
  have list := h.list
  unfold queryFields at hf
  dsimp only at hf
  split at hf
  next =>
    rw [List.mem_singleton.1 hf]
    exact list
  next =>
    split_ifs at hf
    · rcases List.mem_cons.1 hf with rfl | hf
      · exact list
      · rw [List.mem_singleton.1 hf]
        exact isName_append list (by decide)
    · rw [List.mem_singleton.1 hf]
      exact list

theorem isName_mutationField {f : OutputField} (hf : f ∈ mutationFields p) :
    isName f.name = true := by
  unfold mutationFields at hf
  simp only [List.mem_cons, List.not_mem_nil, or_false] at hf
  rcases hf with rfl | rfl | rfl | rfl
  all_goals exact isName_append h.list (by decide)

end Worded

/-! ## All types -/

/-- If the names of the entities are names, so are those of all fields of all types. -/
theorem hasNames_system {enumerations : List NamedType}
    (worded : ∀ p ∈ projections, Worded p)
    (made : b.enumerations.mapM (enumerationType b.context) = .ok enumerations) :
    ∀ t ∈ (b.system projections (b.typesOf enumerations projections)).allTypes, HasNames t := by
  have scalars : ∀ t ∈ b.scalars.map (fun name => (⟨name, .scalar .custom⟩ : NamedType)),
      HasNames t := List.forall_mem_map.2 fun _ _ => List.forall_mem_nil _
  have leaves : ∀ t ∈ enumerations.flatMap withFilter, HasNames t := by
    rw [List.forall_mem_flatMap]
    intro t ht
    obtain ⟨e, -, hmade⟩ := mem_of_mapM made ht
    obtain ⟨-, -, rfl⟩ := enumerationType_iff.1 hmade
    exact List.forall_mem_cons.2 ⟨List.forall_mem_nil _,
      List.forall_mem_singleton.2 (hasNames_filter _)⟩
  have entities : ∀ t ∈ projections.flatMap (b.entityTypes projections), HasNames t := by
    rw [List.forall_mem_flatMap]
    exact fun p hp => (worded p hp).hasNames_entity
  have query : HasNames ⟨queryName, .object (queryRoot b.context projections)⟩ := by
    refine hasNames_object fun f hf => ?_
    have own := (mem_foldl_setOutput hf).resolve_left List.not_mem_nil
    obtain ⟨p, hp, hf⟩ := List.mem_flatMap.1 own
    exact (worded p hp).isName_queryField hf
  have mutation : ∀ fields, mutationRoot b.mutable projections = some fields →
      HasNames ⟨mutationName, .object fields⟩ := by
    intro fields hfields
    unfold mutationRoot at hfields
    split_ifs at hfields
    cases hfields
    refine hasNames_object fun f hf => ?_
    have own := (mem_foldl_setOutput hf).resolve_left List.not_mem_nil
    obtain ⟨p, hp, hf⟩ := List.mem_flatMap.1 own
    obtain ⟨name, -, hfind⟩ := List.mem_filterMap.1 hp
    exact (worded p (List.mem_of_find?_eq_some hfind)).isName_mutationField hf
  unfold allTypes system typesOf
  simp only [List.forall_mem_append, List.forall_mem_singleton]
  refine ⟨⟨⟨⟨⟨scalars, leaves⟩, hasNames_shared⟩, entities⟩, query⟩, ?_⟩
  split
  next fields hfields => exact List.forall_mem_singleton.2 (mutation fields hfields)
  next => exact List.forall_mem_nil _

theorem Tame.worded (tame : b.Tame) {e : Entity} (he : e ∈ b.entities)
    (shows : Projection.Shows b.context e p) : Worded p where
  list := by
    rw [shows.queryField, shows.typeName]
    exact tame.lists e he
  fields f hf := by
    obtain ⟨visible, hname⟩ := shows.column_of_mem hf
    rw [hname]
    exact tame.fields e he f.column visible
  relations := by
    rw [shows.relations]
    exact List.forall_mem_map.2 (tame.relations e he)

/-- A tame builder that cannot be sealed has a fault in its configuration. -/
theorem isConfig_of_tame (tame : b.Tame) (fails : b.close.2 = .error fault) :
    fault.isConfig = true := by
  have projects : ∀ {projections}, b.entities.mapM (project b.context) = .ok projections →
      ∀ p ∈ projections, Worded p ∧ p.typeName ∉ reservedNames ∧ isName p.typeName = true := by
    intro projections projected p hp
    obtain ⟨e, he, made⟩ := mem_of_mapM projected hp
    have shows := shows_of_project made
    refine ⟨tame.worded he shows, ?_⟩
    rw [shows.typeName]
    exact tame.entities e he
  by_contra stray
  have strays := (close_strays_iff b fault).1 ⟨fails, Bool.eq_false_iff.2 stray⟩
  cases strays with
  | entity valid split before strays =>
    have he := split ▸ List.mem_append_right _ List.mem_cons_self
    cases strays with
    | nested mem nested => exact (tame.columns _ he _ mem).1 nested
    | nameless flat mem unnamed => exact (tame.columns _ he _ mem).2 unnamed
    | family kept visible known unknown =>
      exact tame.families _ he _ (visible ▸ List.mem_append_right _ List.mem_cons_self) _ unknown
  | types valid projected strays =>
    cases strays with
    | enumeration split before distinct variants refused =>
      have he := split ▸ List.mem_append_right _ List.mem_cons_self
      exact not_refused (tame.enumerations _ he) refused
    | entity enumerations split before distinct refused =>
      have hp := split ▸ List.mem_append_right _ List.mem_cons_self
      exact not_refused (projects projected _ hp).2 refused
  | field valid projected collected split before resolved unnamed =>
    obtain ⟨enumerations, made, -, rfl, -⟩ := buildTypes_iff.1 collected
    obtain ⟨names, more, hnames, -, unnamed⟩ := unnamed
    have ht := split ▸ List.mem_append_right _ List.mem_cons_self
    have named := hasNames_system (fun p hp => (projects projected p hp).1) made _ ht _
      (hnames ▸ List.mem_append_right _ List.mem_cons_self)
    rw [unnamed] at named
    cases named

end TableGraph.Builder
