import TableGraph.Proofs.Relations
import TableGraph.Proofs.Sealing.Roots

/-!
# Entities that pass

When the checks of a metamodel find nothing, and when an entity has a projection, for entities whose
relations lead to columns that are there.  Main statements: `validate_eq_nil_iff`,
`exists_project_iff` and `presentable`.
-/

namespace TableGraph

open TableGraph.Graph Text

/-! ## Relations -/

/-- The relation leads from an entity to another without a junction, between columns that both
have. -/
structure Relation.Joins (r : Relation) (e target : Entity) : Prop where
  direct : r.kind ≠ .manyToMany
  leads : target.name = r.target
  sources : ∀ c ∈ r.fromColumns, e.hasColumn c = true
  targets : ∀ c ∈ r.toColumns, target.hasColumn c = true

/-- A companion leads back. -/
theorem Relation.Joins.companion {r : Relation} {e : Entity} (h : r.Joins e e) :
    r.companion.Joins e e := ⟨nofun, h.leads, h.targets, h.sources⟩

namespace Validation

variable {entities : List Entity} {enumerations : List Enumeration} {e target : Entity}
  {r : Relation} {c : Column}

theorem relationProblems_of_joins (distinct : (entities.map (·.name)).Nodup)
    (htarget : target ∈ entities) (h : r.Joins e target) : relationProblems entities e r = [] := by
  have found : find? entities r.target = some target := by
    unfold find?
    rw [← h.leads]
    exact find?_name distinct htarget
  have nothing : ∀ {u : Entity} {columns : List String} (problem : String → Problem),
      (∀ c ∈ columns, u.hasColumn c = true) →
      (columns.filter (!u.hasColumn ·)).map problem = [] := by
    intro u columns problem known
    rw [List.map_eq_nil_iff, List.filter_eq_nil_iff]
    exact fun c hc => by simp [known c hc]
  unfold relationProblems
  rw [found]
  dsimp only
  rw [nothing _ h.sources, nothing _ h.targets]
  split
  next hkind _ => exact absurd hkind h.direct
  next => rfl

/-- Relations without problems of their own have none exactly if their names differ. -/
theorem relationIssues_eq_nil_iff {rs : List Relation}
    (h : ∀ r ∈ rs, relationProblems entities e r = []) (seen : List String) :
    relationIssues entities e seen rs = [] ↔
      (rs.map (·.name)).Nodup ∧ ∀ r ∈ rs, r.name ∉ seen := by
  induction rs generalizing seen with
  | nil => exact iff_of_true rfl ⟨List.nodup_nil, List.forall_mem_nil _⟩
  | cons r rs ih =>
    unfold relationIssues
    dsimp only
    rw [h r List.mem_cons_self, List.append_nil, List.append_eq_nil_iff, List.map_eq_nil_iff,
      ih fun r' hr' => h r' (List.mem_cons_of_mem r hr'), List.map_cons, List.nodup_cons,
      List.forall_mem_cons]
    have own : (if seen.contains r.name then [Problem.duplicateRelation] else []) = [] ↔
        r.name ∉ seen := by
      rw [← List.contains_iff_mem]
      split_ifs with known
      · exact iff_of_false (by simp) (not_not.2 known)
      · exact iff_of_true rfl known
    rw [own]
    simp only [List.mem_cons, not_or, forall_and, List.mem_map, not_exists, not_and]
    constructor
    · rintro ⟨new, distinct, apart, rest⟩
      exact ⟨⟨fun r' hr' => apart r' hr', distinct⟩, new, rest⟩
    · rintro ⟨⟨apart, distinct⟩, new, rest⟩
      exact ⟨new, distinct, fun r' hr' => apart r' hr', rest⟩

theorem columnProblems_eq_nil_iff : columnProblems enumerations c = [] ↔
    ∀ name, c.type.enumerationName? = some name → name ∈ enumerations.map (·.name) := by
  unfold columnProblems
  cases c.type.enumerationName? with
  | none => exact iff_of_true rfl (by rintro _ ⟨⟩)
  | some name =>
    dsimp only
    have known : (enumerations.any fun e => e.name = name) = true ↔
        name ∈ enumerations.map (·.name) := by
      simp only [List.any_eq_true, decide_eq_true_eq, List.mem_map]
    split_ifs with h
    · exact iff_of_true rfl fun _ hname => Option.some.inj hname ▸ known.1 h
    · exact iff_of_false (by simp) fun all => h (known.2 (all name rfl))

/-- The checks find nothing exactly if enumerations are known and the relations of an entity have
different names. -/
theorem validate_eq_nil_iff
    (h : ∀ e ∈ entities, ∀ r ∈ e.allRelations, relationProblems entities e r = []) :
    validate entities enumerations = [] ↔ ∀ e ∈ entities,
      (∀ c ∈ e.columns, ∀ name, c.type.enumerationName? = some name →
        name ∈ enumerations.map (·.name)) ∧ (e.allRelations.map (·.name)).Nodup := by
  unfold validate
  rw [List.flatMap_eq_nil_iff]
  refine forall₂_congr fun e he => ?_
  unfold entityIssues
  rw [List.append_eq_nil_iff, List.flatMap_eq_nil_iff, relationIssues_eq_nil_iff (h e he)]
  simp only [List.map_eq_nil_iff, columnProblems_eq_nil_iff, List.not_mem_nil, not_false_eq_true,
    implies_true, and_true]

end Validation

/-! ## Projections -/

/-- Without a configuration fields are named in camel case. -/
theorem Context.fieldName_default (name : String) :
    ({} : Context).fieldName name = camelCase name := rfl

namespace Projection

variable {context : Context} {e : Entity} {p : Projection} {fields : List ColumnField}

theorem repeated_eq_nil_iff {names : List String} : repeated names = [] ↔ names.Nodup := by
  refine ⟨nodup_of_repeated, fun distinct => ?_⟩
  have none : (names.filter fun n => 1 < names.count n) = [] := by
    refine List.filter_eq_nil_iff.2 fun n _ => ?_
    have once := List.nodup_iff_count_le_one.1 distinct n
    exact fun twice => absurd (of_decide_eq_true twice) (Nat.not_lt.2 once)
  unfold repeated
  rw [none, List.eraseDups_nil, List.mergeSort_nil]

theorem names_of_columnFields {typeName : String} {cs : List Column}
    (h : cs.mapM (columnField context typeName) = .ok fields) :
    fields.map (·.name) = cs.map fun c => context.fieldName c.name := by
  refine map_eq_of_forall₂ ((mapM_eq_ok.1 h).flip.imp fun f c hf => ?_)
  obtain ⟨filter, -, hf⟩ := bind_eq_ok.1 hf
  cases hf
  rfl

theorem relationField_name {typeName : String} (r : Relation) :
    (relationField context typeName r).name = context.fieldName r.name := rfl

/-- The names of the fields of an entity: those of its columns and of its relations, cased. -/
def fieldNames (e : Entity) : List String :=
  e.columns.map (fun c => camelCase c.name) ++ e.allRelations.map fun r => camelCase r.name

theorem fieldNames_eq {e : Entity} {typeName : String} :
    (e.columns.map fun c => ({} : Context).fieldName c.name) ++
      (e.allRelations.map (relationField {} typeName)).map (·.name) = fieldNames e := by
  unfold fieldNames
  simp only [List.map_map, Function.comp_def, relationField_name, Context.fieldName_default]

end Projection

/-- The columns of the entity can be kept, and clients see all of them. -/
structure Entity.Open (e : Entity) : Prop where
  named : ∀ c ∈ e.columns, StartsWithLetter c.name
  seen : ∀ c ∈ e.columns, c.ignored = false
  kept : ∀ c ∈ e.columns, SqlType.checkKept c.type = .ok ()

namespace Entity.Open

variable {e : Entity} {p : Projection} (h : e.Open)
include h

theorem visibleColumns_eq : e.visibleColumns = e.columns :=
  List.filter_eq_self.2 fun c hc => by simp [h.seen c hc]

theorem checkTable_eq : SqlType.checkTable e = .ok () := by
  unfold SqlType.checkTable
  refine bind_eq_ok.2 ⟨(), forM_eq_ok.2 h.kept, if_neg fun nameless => ?_⟩
  obtain ⟨c, hc, hempty⟩ := List.any_eq_true.1 nameless
  obtain ⟨d, ds, hname, -⟩ := h.named c hc
  rw [String.isEmpty_iff.1 hempty] at hname
  cases hname

/-- The fields of a projection have the names of columns and relations, cased. -/
theorem names_eq (shows : Projection.Shows {} e p) :
    p.fields.map (·.name) ++ p.relations.map (·.name) = Projection.fieldNames e := by
  rw [Projection.names_of_columnFields shows.fields, h.visibleColumns_eq, shows.relations]
  exact Projection.fieldNames_eq

/-- Without a configuration an entity is projected exactly if the names of its fields differ. -/
theorem exists_project_iff :
    (∃ p, Builder.project {} e = .ok p) ↔ (Projection.fieldNames e).Nodup := by
  constructor
  · rintro ⟨p, hp⟩
    have shows := Builder.shows_of_project hp
    rw [← h.names_eq shows]
    exact shows.distinct
  · intro distinct
    have filters : ∀ c path, ∃ filter, Projection.columnFilter {} c path = .ok filter := by
      intro c path
      unfold Projection.columnFilter
      dsimp only [List.lookup_nil]
      split <;> exact ⟨_, rfl⟩
    have exists_field : ∀ c ∈ e.visibleColumns,
        ∃ f, Projection.columnField {} (pascalCase e.name) c = .ok f := by
      intro c _
      obtain ⟨filter, hfilter⟩ := filters c (pascalCase e.name ++ "." ++ camelCase c.name)
      exact ⟨_, bind_eq_ok.2 ⟨filter, hfilter, rfl⟩⟩
    obtain ⟨fields, hfields⟩ := mapM_of_forall exists_field
    have names : fields.map (·.name) ++ (e.allRelations.map
        (Projection.relationField {} (pascalCase e.name))).map (·.name) =
        Projection.fieldNames e := by
      rw [Projection.names_of_columnFields hfields, h.visibleColumns_eq]
      exact Projection.fieldNames_eq
    unfold Builder.project
    rw [h.checkTable_eq]
    exact ⟨_, Projection.make_eq rfl hfields (Projection.repeated_eq_nil_iff.2 (names ▸ distinct))⟩

end Entity.Open

/-! ## What can be shown -/

/-- An entity with names that start with letters can be shown. -/
theorem Entity.Open.presentable {b : Builder} (hcontext : b.context = {}) {e : Entity}
    (h : e.Open) (named : StartsWithLetter e.name)
    (relations : ∀ r ∈ e.relations, StartsWithLetter r.name)
    (known : ∀ c ∈ e.columns, ∀ name, c.type.enumerationName? = some name →
      name ∈ b.enumerations.map (·.name))
    {p : Projection} (shows : Projection.Shows {} e p) : b.Presentable p := by
  have exists_enumeration : ∀ c ∈ e.columns, ∀ name, c.type.enumerationName? = some name →
      ∃ enumeration ∈ b.enumerations, enumeration.name = name :=
    fun c hc name hname => List.mem_map.1 (known c hc name hname)
  have field_of_mem : ∀ f ∈ p.fields, Projection.columnField {} p.typeName f.column = .ok f := by
    intro f hf
    obtain ⟨c, -, hfield⟩ := mem_of_mapM shows.fields hf
    rwa [(Builder.columnField_eq_ok hfield).1]
  have typeName : StartsWithLetter p.typeName := by
    rw [shows.typeName]
    exact named.pascalCase
  constructor
  case typeName => exact typeName
  case queryField =>
    rw [shows.queryField, Context.fieldName_default]
    exact ⟨isPlain_camelCase typeName, typeName.camelCase⟩
  case seen =>
    obtain ⟨k, hk⟩ := List.exists_mem_of_length_pos e.keyArity.1
    obtain ⟨c, hc, -⟩ := List.mem_map.1 (e.keyKnown k hk)
    obtain ⟨f, hf, -⟩ := shows.exists_field (h.visibleColumns_eq ▸ hc)
    exact List.ne_nil_of_mem hf
  case fields =>
    intro f hf
    rw [(shows.column_of_mem hf).2, Context.fieldName_default]
    exact isPlain_camelCase (h.named _ (shows.mem_columns hf))
  case relations =>
    intro r hr
    rw [shows.relations] at hr
    obtain ⟨relation, hrelation, rfl⟩ := List.mem_map.1 hr
    rw [Projection.relationField_name, Context.fieldName_default]
    refine isPlain_camelCase ?_
    rcases List.mem_append.1 hrelation with hrelation | hrelation
    · exact relations relation hrelation
    · obtain ⟨forth, hforth, rfl⟩ := List.mem_map.1 hrelation
      exact (relations forth (List.mem_of_mem_filter hforth)).append _
  case overrides => exact fun f hf => (Builder.columnField_eq_ok (field_of_mem f hf)).2.1
  case known =>
    exact fun f hf => exists_enumeration f.column (shows.mem_columns hf)
  case filters =>
    intro f hf name typeName hfilter
    obtain ⟨htype, rfl⟩ := Builder.column_of_filter (field_of_mem f hf) hfilter
    obtain ⟨enumeration, hmem, rfl⟩ := exists_enumeration f.column (shows.mem_columns hf) name
      (by rw [htype]; rfl)
    exact ⟨enumeration, hmem, by rw [hcontext]⟩

/-- A projection has a field to order by exactly if its entity has a column to order by. -/
theorem Entity.Open.orderFields_ne_nil_iff {e : Entity} (h : e.Open) {p : Projection}
    (shows : Projection.Shows {} e p) :
    p.orderFields ≠ [] ↔ ∃ c ∈ e.columns, c.type.isOrderable = true := by
  constructor
  · intro some
    obtain ⟨f, hf⟩ := List.exists_mem_of_ne_nil _ some
    obtain ⟨hmem, ordered⟩ := List.mem_filter.1 hf
    exact ⟨f.column, shows.mem_columns hmem, ordered⟩
  · rintro ⟨c, hc, ordered⟩
    obtain ⟨f, hf, rfl⟩ := shows.exists_field (h.visibleColumns_eq ▸ hc)
    exact List.ne_nil_of_mem (List.mem_filter.2 ⟨hf, ordered⟩)

end TableGraph
