import TableGraph.Proofs.Coalesce.Sound
import TableGraph.Proofs.Filter.Columns
import TableGraph.Proofs.Orders
import TableGraph.Proofs.Registered
import TableGraph.Sample.Registered

/-!
# Relations that find what they name

A relation names an entity, columns on both sides and maybe a junction with its columns.  Whether
they are there is checked when a schema is built, and looked up again with every load.  The check of
junctions is made for the kind of relation that must have one; loads take the way through a junction
wherever there is one.

Main statement: `resolvesRelations_iff`.  Loads for relations never look up a name in vain, exactly
if the junctions of the other kinds of relations would pass what is checked of the names that loads
use.
-/

namespace TableGraph

open Answer

namespace Fault

/-- The name of an entity or of a column is looked up in vain. -/
def isLookup : Fault → Bool
  | config _ | absent _ => true
  | _ => false

theorem not_isLookup_of_isDatabase {f : Fault} (h : f.isDatabase) : f.isLookup = false := by
  cases f <;> first | rfl | cases h

end Fault

/-! ## Tables -/

namespace Table

variable {enumerations : List Enumeration} {e : Entity} {t : Table}

/-- A table has the columns of its entity. -/
theorem Keeps.exists_typeOf_iff (h : t.Keeps enumerations e) {column : String} :
    (∃ type, t.typeOf column = .ok type) ↔ e.hasColumn column = true := by
  constructor
  · rintro ⟨type, htype⟩
    unfold Table.typeOf at htype
    split at htype
    next c hfind =>
      have hc := List.mem_of_find?_eq_some hfind
      rw [h.columns] at hc
      obtain ⟨d, hd, rfl⟩ := List.mem_map.1 hc
      have hname : (keptColumn enumerations d).name = column := by simpa using List.find?_some hfind
      exact hname ▸ Entity.hasColumn_of_mem hd
    next => cases htype
  · intro hcolumn
    obtain ⟨c, hc, hname⟩ := List.any_eq_true.1 hcolumn
    obtain rfl : c.name = column := by simpa using hname
    exact ⟨_, h.typeOf hc⟩

theorem failsWith_lookup (t : Table) (column : String) :
    FailsWith (·.isLookup) (t.typeOf column) := by
  unfold typeOf
  split
  · exact failsWith_ok _
  · exact failsWith_error rfl

theorem failsWith_bindKeys (types : List SqlType) (keys : List (List Value)) :
    FailsWith (·.isDatabase) (bindKeys types keys) := by
  unfold bindKeys
  split
  · exact failsWith_ok _
  · refine failsWith_mapM fun key _ => failsWith_mapM fun x _ => ?_
    obtain ⟨⟨type, type'⟩, v⟩ := x
    cases v with
    | null => exact failsWith_ok _
    | _ => exact (type'.failsWith_bind _).map _

/-- Conditions over columns of the table fail in the database only. -/
theorem failsWith_bind_over {columns : String → Prop}
    (hcolumns : ∀ c, columns c → ∃ type, t.typeOf c = .ok type) {p : Predicate Value}
    (h : p.Over columns) : FailsWith (·.isDatabase) (t.bind p) := by
  refine h.failsWith_mapM fun c hc q => ?_
  obtain ⟨type, htype⟩ := hcolumns c hc
  rw [htype]
  exact q.failsWith_bind type

theorem failsWith_keyed {columns : List String}
    (hcolumns : ∀ c ∈ columns, ∃ type, t.typeOf c = .ok type) (keys : List (List Value)) :
    FailsWith (·.isDatabase) (t.keyed columns keys) := by
  obtain ⟨types, htypes⟩ := mapM_of_forall hcolumns
  unfold keyed
  rw [htypes]
  exact (failsWith_bindKeys types keys).bind fun _ _ => failsWith_ok _

end Table

/-! ## Loads -/

namespace Load

variable {s : Store} {g : Group} {j : Junction} {t u : Table}

theorem forall_mem_zip_right {α β : Type} {P : β → Prop} {as : List α} {bs : List β} :
    (∀ x ∈ as.zip bs, P x.2) ↔ ∀ b ∈ bs.take as.length, P b := by
  induction as generalizing bs with
  | nil => simp
  | cons a as ih => cases bs <;> simp [← ih]

/-- A statement through a junction looks up two entities, the columns of the junction, and those of
the target that they are joined to. -/
theorem joined_eq_ok (ht : s.registered g.target = .ok t) (hu : s.registered j.table = .ok u) :
    joined s g j = .ok () ↔ (∀ c ∈ j.fromColumns, ∃ type, u.typeOf c = .ok type) ∧
      (∀ x ∈ g.columns.zip j.toColumns, ∃ type, t.typeOf x.1 = .ok type) ∧
      ∀ c ∈ j.toColumns.take g.columns.length, ∃ type, u.typeOf c = .ok type := by
  have known : ∀ {t : Table} {c : String},
      discard (t.typeOf c) = (.ok () : Except Fault Unit) ↔ ∃ type, t.typeOf c = .ok type := by
    intro t c
    cases t.typeOf c <;> simp [discard, Functor.discard, Functor.mapConst, Except.map]
  have both : ∀ {x y : Except Fault Unit}, (x >>= fun _ => y) = .ok () ↔
      x = .ok () ∧ y = .ok () := by
    intro x y
    cases x <;> simp [bind, Except.bind]
  unfold joined
  rw [ht, hu, ← forall_mem_zip_right]
  show (j.fromColumns.forM (fun c => discard (u.typeOf c)) >>= fun _ =>
    (g.columns.zip j.toColumns).forM fun x => discard (t.typeOf x.1) >>= fun _ =>
      discard (u.typeOf x.2)) = .ok () ↔ _
  simp only [both, forM_eq_ok, known, forall_and]

theorem failsWith_joined (s : Store) (g : Group) (j : Junction) :
    FailsWith (·.isLookup) (joined s g j) := by
  have known : ∀ (t : Table) (c : String), FailsWith (·.isLookup)
      (discard (t.typeOf c) : Except Fault Unit) := fun t c => (t.failsWith_lookup c).map _
  refine (s.failsWith_registered fun _ => rfl).bind fun t _ =>
    (s.failsWith_registered fun _ => rfl).bind fun u _ => ?_
  refine (failsWith_forM fun c _ => known u c).bind fun _ _ => failsWith_forM fun x _ => ?_
  exact (known t x.1).bind fun _ _ => known u x.2

/-- The entities and columns that a group names are there. -/
structure Known (s : Store) (g : Group) (t : Table) : Prop where
  target : s.registered g.target = .ok t
  columns : ∀ c ∈ g.columns, ∃ type, t.typeOf c = .ok type
  condition : (g.condition.getD .always).Over fun c => ∃ type, t.typeOf c = .ok type
  joined : ∀ j, g.junction = some j → joined s g j = .ok ()

namespace Known

variable (h : Known s g t)
include h

theorem failsWith_table : FailsWith (·.isDatabase) (s.table g.target) :=
  s.failsWith_table (h.target ▸ failsWith_ok t) fun _ => rfl

theorem eq_of_table {t' : Table} (ht' : s.table g.target = .ok t') : t = t' :=
  Except.ok.inj (h.target.symm.trans (Store.registered_of_table ht'))

theorem failsWith_direct (values : List (List Value)) :
    FailsWith (·.isDatabase) (direct s g (g.condition.getD .always) values) := by
  refine h.failsWith_table.bind fun t' ht' => ?_
  obtain rfl := h.eq_of_table ht'
  refine (Table.failsWith_bind_over (fun _ hc => hc) h.condition).bind fun holds _ => ?_
  refine (Table.failsWith_keyed h.columns values).bind fun rows _ => ?_
  exact failsWith_mapM fun r _ =>
    (Table.failsWith_readColumns r t.columns).bind fun _ _ => failsWith_ok _

theorem failsWith_connected (hj : g.junction = some j) (values : List (List Value)) :
    FailsWith (·.isDatabase) (connected s g j (g.condition.getD .always) values) := by
  have joined := h.joined j hj
  obtain ⟨u, hu⟩ : ∃ u, s.registered j.table = .ok u := by
    obtain ⟨_, -, hrest⟩ := bind_eq_ok.1 joined
    obtain ⟨u, hu, -⟩ := bind_eq_ok.1 hrest
    exact ⟨u, hu⟩
  unfold connected
  rw [joined]
  refine h.failsWith_table.bind fun t' ht' => ?_
  obtain rfl := h.eq_of_table ht'
  refine (s.failsWith_table (hu ▸ failsWith_ok u) fun _ => rfl).bind fun u' hu' => ?_
  obtain rfl : u = u' := Except.ok.inj (hu.symm.trans (Store.registered_of_table hu'))
  refine (Table.failsWith_bind_over (fun _ hc => hc) h.condition).bind fun holds _ => ?_
  refine (Table.failsWith_keyed ((joined_eq_ok h.target hu).1 joined).1 values).bind
    fun links _ => failsWith_mapM fun x _ => ?_
  exact (Table.failsWith_readColumns x.1 t.columns).bind fun _ _ =>
    (Table.failsWith_readColumns x.2 _).bind fun _ _ => failsWith_ok _

/-- Rows are collected for a group unless the database fails. -/
theorem failsWith_collect (keys : List LoadKey) :
    FailsWith (·.isDatabase) (collect s g keys) := by
  unfold collect
  split
  · exact failsWith_ok _
  · split
    · exact h.failsWith_direct _
    · rename_i hj
      exact h.failsWith_connected hj _

end Known

variable {P : Fault → Prop} {keys : List LoadKey} {f : Fault}

/-- A batch fails as one of its groups does. -/
theorem failsWith_many (h : ∀ g ∈ groups keys,
    FailsWith P (collect s g (keys.filter fun k => g.same k.group))) (n : Nat) :
    FailsWith P ((many s keys).run n) := by
  have each : ∀ gs : List Group,
      (∀ g ∈ gs, FailsWith P (collect s g (keys.filter fun k => g.same k.group))) → ∀ n,
      FailsWith P ((allGroups s keys gs).run n) := by
    intro gs hgs
    induction gs with
    | nil => exact fun n => failsWith_ok _
    | cons g gs ih =>
      intro n
      refine failsWith_run_bind ?_ fun _ m _ => failsWith_run_map _ (ih (fun g' hg' =>
        hgs g' (List.mem_cons_of_mem g hg')) m)
      rw [run_group]
      exact (hgs g List.mem_cons_self).map _
  exact failsWith_run_bind (each _ h n) fun _ _ _ => failsWith_ok _

/-- A key without null whose statement goes through a junction looks up what that names. -/
theorem run_many_of_joined {k : LoadKey} (hself : k.group.same k.group) (hnull : k.hasNull = false)
    (hj : k.group.junction = some j) (h : joined s k.group j = .error f) (n : Nat) :
    (many s [k]).run n = .error f := by
  have wanted : wanted [k] = [k] := by simp [wanted, hnull]
  have fails : collect s k.group [k] = .error f := by
    unfold collect
    rw [wanted, hj]
    show (joined s k.group j >>= fun _ => _) = _
    rw [h]
    rfl
  have group : (group s k.group [k]).run n = .error f := by
    rw [run_group, fails]
    rfl
  have alone : [k].filter (fun l => k.group.same l.group) = [k] := by simp [hself]
  unfold many groups allGroups
  rw [alone]
  exact Counted.run_bind_of_error (Counted.run_bind_of_error group)

end Load

/-! ## Stores of a schema -/

/-- The store has a table for every entity of the schema, whatever rows are in it and whether it can
be reached or not. -/
def Store.Serves (s : Store) (schema : SealedSchema) : Prop :=
  List.Forall₂ (fun p t => t.name = p.name ∧ t.Keeps schema.codec.enumerations p.entity)
    schema.projections s.tables

namespace Store

variable {s : Store} {schema : SealedSchema}

theorem Serves.exists_projection (h : s.Serves schema) {name : String} {t : Table}
    (ht : s.registered name = .ok t) :
    ∃ p ∈ schema.projections, p.name = name ∧ t.Keeps schema.codec.enumerations p.entity := by
  have hfind := registered_eq_ok.1 ht
  obtain ⟨p, hp, hname, hkeeps⟩ :=
    exists_of_forall₂ h.flip (List.mem_of_find?_eq_some hfind)
  have named : t.name = name := by simpa using List.find?_some hfind
  exact ⟨p, hp, hname.symm.trans named, hkeeps⟩

theorem Serves.exists_table (h : s.Serves schema)
    (distinct : (schema.projections.map (·.name)).Nodup) {p : Projection}
    (hp : p ∈ schema.projections) :
    ∃ t, s.registered p.name = .ok t ∧ t.Keeps schema.codec.enumerations p.entity := by
  obtain ⟨u, hu, hname, -⟩ := exists_of_forall₂ h hp
  obtain ⟨t, ht⟩ : ∃ t, s.tables.find? (fun t => t.name = p.name) = some t :=
    Option.isSome_iff_exists.1 (List.find?_isSome.2 ⟨u, hu, by simpa using hname⟩)
  have found := registered_eq_ok.2 ht
  obtain ⟨p', hp', hname', hkeeps⟩ := h.exists_projection found
  obtain rfl : p' = p := List.inj_on_of_nodup_map distinct hp' hp hname'
  exact ⟨t, found, hkeeps⟩

theorem serves_ofEntities (schema : SealedSchema) (returning isDown : Bool) :
    (ofEntities schema.codec.enumerations (schema.projections.map (·.entity)) returning
      isDown).Serves schema := by
  unfold Serves ofEntities
  rw [List.map_map, List.forall₂_map_right_iff, List.forall₂_same]
  exact fun p _ => ⟨rfl, Table.keeps_ofEntity _ p.entity []⟩

end Store

/-! ## What is checked of relations -/

namespace Validation

variable {entities : List Entity} {enumerations : List Enumeration} {e : Entity} {r : Relation}

theorem mem_of_find? {name : String} (h : find? entities name = some e) :
    e ∈ entities ∧ e.name = name :=
  ⟨List.mem_of_find?_eq_some h, by simpa using List.find?_some h⟩

theorem relationProblems_eq_nil (h : validate entities enumerations = []) (he : e ∈ entities)
    (hr : r ∈ e.allRelations) : relationProblems entities e r = [] := by
  have issues : relationIssues entities e [] e.allRelations = [] :=
    (List.append_eq_nil_iff.1 (List.flatMap_eq_nil_iff.1 h e he)).2
  generalize e.allRelations = rs at issues hr
  generalize ([] : List String) = seen at issues
  induction rs generalizing seen with
  | nil => cases hr
  | cons r' rs ih =>
    obtain ⟨own, rest⟩ := List.append_eq_nil_iff.1 issues
    rcases List.mem_cons.1 hr with rfl | hr
    · exact (List.append_eq_nil_iff.1 (List.map_eq_nil_iff.1 own)).2
    · exact ih hr _ rest

/-- A filter for what is missing finds nothing. -/
theorem forall_of_filter_eq_nil {columns : List String} {problem : String → Problem}
    (h : (columns.filter (!e.hasColumn ·)).map problem = []) :
    ∀ c ∈ columns, e.hasColumn c = true := by
  simpa [List.filter_eq_nil_iff] using h

/-- A relation without problems leads to an entity, between columns that are there. -/
theorem exists_target (h : relationProblems entities e r = []) :
    ∃ target ∈ entities, target.name = r.target ∧
      (∀ c ∈ r.fromColumns, e.hasColumn c = true) ∧
      (∀ c ∈ r.toColumns, target.hasColumn c = true) ∧
      ∀ j, r.kind = .manyToMany → r.junction = some j → junctionProblems entities r j = [] := by
  unfold relationProblems at h
  split at h
  next => cases h
  next target hfind =>
    obtain ⟨hmem, hname⟩ := mem_of_find? hfind
    obtain ⟨hcolumns, hjunction⟩ := List.append_eq_nil_iff.1 h
    obtain ⟨hfrom, hto⟩ := List.append_eq_nil_iff.1 hcolumns
    refine ⟨target, hmem, hname, forall_of_filter_eq_nil hfrom, forall_of_filter_eq_nil hto,
      fun j hkind hj => ?_⟩
    rw [hkind, hj] at hjunction
    exact hjunction

end Validation

/-! ## Relations of a schema -/

/-- The junction of a relation is an entity, with the columns that match the source and one for each
column of the target. -/
def Builder.Joins (b : Builder) (r : Relation) (j : Junction) : Prop :=
  ∃ u ∈ b.entities, u.name = j.table ∧ (∀ c ∈ j.fromColumns, u.hasColumn c = true) ∧
    ∀ c ∈ j.toColumns.take r.toColumns.length, u.hasColumn c = true

instance (b : Builder) (r : Relation) (j : Junction) : Decidable (b.Joins r j) := by
  unfold Builder.Joins
  infer_instance

namespace SealedSchema

/--
A load for a relation of the schema, whatever row it is for and whatever the client's filter is.
Order and row scope are over columns of the entity that the relation leads to.
-/
inductive LoadsRelated (schema : SealedSchema) (l : Load) : Prop
  | intro (r : RelationField) (target : Projection) (row : Record) (filter : Value)
    (orders : List Order) (scope : Option (Predicate Value)) (leads : schema.Leads r target)
    (ordered : ∀ o ∈ orders, target.entity.hasColumn o.column = true)
    (within : ∀ p, scope = some p → p.Over fun c => target.entity.hasColumn c = true)
    (loads : relatedLoad schema.codec r target row filter orders scope = .ok l)

/-- Relations find what they name. -/
structure ResolvesRelations (schema : SealedSchema) : Prop where
  /-- The entity that a relation leads to is there. -/
  targets : ∀ p ∈ schema.projections, ∀ r ∈ p.relations, ∃ target, schema.Leads r target
  /-- The columns that a relation starts from are there. -/
  sources : ∀ p ∈ schema.projections, ∀ r ∈ p.relations, ∀ c ∈ r.relation.fromColumns,
    p.entity.hasColumn c = true
  /-- Loads that are made together look up no name in vain, whatever the store holds. -/
  loads : ∀ s : Store, s.Serves schema → ∀ ls : List Load, (∀ l ∈ ls, schema.LoadsRelated l) →
    ∀ n, ∀ x ∈ (Fetch.loadTogether s n ls).1, FailsWith (fun f => f.isLookup = false) x.2

end SealedSchema

section Checked

variable {context : Context} {b : Builder} {schema : SealedSchema} {p target : Projection}
  {r : RelationField}

theorem Validation.joins_of_junctionProblems {rel : Relation} {j : Junction}
    (h : junctionProblems b.entities rel j = []) : b.Joins rel j := by
  unfold junctionProblems at h
  split at h
  next => cases h
  next u hfind =>
    obtain ⟨hmem, hname⟩ := mem_of_find? hfind
    have known := forall_of_filter_eq_nil (List.append_eq_nil_iff.1 h).2
    rw [List.forall_mem_append] at known
    exact ⟨u, hmem, hname, known.1, fun c hc => known.2 c (List.mem_of_mem_take hc)⟩

/-- What is checked of a relation when the schema is built. -/
theorem exists_leads (built : b.build = .ok schema) (registered : b.Registered)
    (hp : p ∈ schema.projections) (hr : r ∈ p.relations) : ∃ target, schema.Leads r target ∧
      (∀ c ∈ r.relation.fromColumns, p.entity.hasColumn c = true) ∧
      (∀ c ∈ r.relation.toColumns, target.entity.hasColumn c = true) ∧
      ∀ j, r.relation.kind = .manyToMany → r.relation.junction = some j →
        b.Joins r.relation j := by
  obtain ⟨he, shows⟩ := Builder.shows_entity built hp
  have hmade := hr
  rw [shows.relations] at hmade
  obtain ⟨rel, hrel, rfl⟩ := List.mem_map.1 hmade
  have valid := (Builder.build_eq_ok built).2.1
  obtain ⟨e, he', hname, hfrom, hto, hjunction⟩ :=
    Validation.exists_target (Validation.relationProblems_eq_nil valid he hrel)
  obtain ⟨target, htarget, hshows⟩ := Builder.exists_shows built he'
  have found : schema.projection rel.target = .ok target := by
    have hfind := find?_name (registered.projections built) htarget
    have named : target.name = rel.target := by
      rw [← hname, ← hshows.entity]
      rfl
    unfold SealedSchema.projection
    rw [← named, hfind]
  refine ⟨target, ⟨⟨p, hp, hr⟩, found⟩, hfrom, ?_, fun j hkind hj =>
    Validation.joins_of_junctionProblems (hjunction j hkind hj)⟩
  rw [hshows.entity]
  exact hto

variable {s : Store} {j : Junction} {l : Load}

/-- A statement through a junction that is there finds what it names. -/
theorem joined_of_joins (built : b.build = .ok schema) (registered : b.Registered)
    (serves : s.Serves schema) (htarget : target ∈ schema.projections) {g : Group}
    (hname : g.target = target.name) (hcolumns : g.columns = r.relation.toColumns)
    (hto : ∀ c ∈ r.relation.toColumns, target.entity.hasColumn c = true)
    (hjoins : b.Joins r.relation j) : Load.joined s g j = .ok () := by
  obtain ⟨e, he, hej, hfrom, hused⟩ := hjoins
  obtain ⟨p, hp, shows⟩ := Builder.exists_shows built he
  have distinct := registered.projections built
  obtain ⟨t, ht, hkeeps⟩ := serves.exists_table distinct htarget
  obtain ⟨u, hu, hkeeps'⟩ := serves.exists_table distinct hp
  have table : p.name = j.table := by
    rw [← hej, ← shows.entity]
    rfl
  rw [shows.entity] at hkeeps'
  refine (Load.joined_eq_ok (hname ▸ ht) (table ▸ hu)).2 ⟨fun c hc => ?_, fun x hx => ?_, ?_⟩
  · exact hkeeps'.exists_typeOf_iff.2 (hfrom c hc)
  · rw [hcolumns] at hx
    exact hkeeps.exists_typeOf_iff.2 (hto x.1 (List.of_mem_zip hx).1)
  · rw [hcolumns]
    exact fun c hc => hkeeps'.exists_typeOf_iff.2 (hused c hc)

/-- The condition of a load is over columns of the entity that is loaded. -/
theorem over_relatedCondition {codec : Codec} {filter : Value}
    {scope condition : Option (Predicate Value)} {columns : String → Prop}
    (hfields : ∀ f ∈ target.fields, columns f.column.name)
    (hscope : ∀ p, scope = some p → p.Over columns)
    (h : relatedCondition codec target filter scope = .ok condition) :
    (condition.getD .always).Over columns := by
  by_cases hnull : filter = .null
  · subst hnull
    cases h
    exact Predicate.over_getD hscope
  · obtain ⟨c, hc, rfl⟩ := (relatedCondition_eq_ok hnull).1 h
    exact Predicate.over_andAlso (Filter.over_of_compile hfields hc) hscope

theorem known_of_loadsRelated (built : b.build = .ok schema) (registered : b.Registered)
    (joins : ∀ e ∈ b.entities, ∀ r ∈ e.allRelations, r.kind ≠ .manyToMany →
      ∀ j, r.junction = some j → b.Joins r j)
    (serves : s.Serves schema) (h : schema.LoadsRelated l) :
    ∃ t, Load.Known s l.key.group t := by
  obtain ⟨r, target, row, filter, orders, scope, leads, -, within, loads⟩ := h
  obtain ⟨condition, hcondition, rfl⟩ := relatedLoad_eq_ok.1 loads
  obtain ⟨p, hp, hr⟩ := leads.1
  obtain ⟨target', leads', -, hto, hjoins⟩ := exists_leads built registered hp hr
  obtain rfl : target' = target := Except.ok.inj (leads'.2.symm.trans leads.2)
  obtain ⟨t, ht, hkeeps⟩ := serves.exists_table (registered.projections built) leads.mem
  have shows := (Builder.shows_entity built leads.mem).2
  refine ⟨t, ht, fun c hc => hkeeps.exists_typeOf_iff.2 (hto c hc), ?_, fun j hj => ?_⟩
  · refine over_relatedCondition (fun f hf => ⟨_, hkeeps.typeOf (shows.mem_columns hf)⟩)
      (fun q hq => ?_) hcondition
    exact (within q hq).imp fun c hc => hkeeps.exists_typeOf_iff.2 hc
  · refine joined_of_joins built registered serves leads.mem rfl rfl hto ?_
    by_cases hkind : r.relation.kind = .manyToMany
    · exact hjoins j hkind hj
    · obtain ⟨he, hshows⟩ := Builder.shows_entity built hp
      rw [hshows.relations] at hr
      obtain ⟨rel, hrel, rfl⟩ := List.mem_map.1 hr
      exact joins p.entity he rel hrel hkind j hj

theorem resolves_of_joins (built : b.build = .ok schema) (registered : b.Registered)
    (joins : ∀ e ∈ b.entities, ∀ r ∈ e.allRelations, r.kind ≠ .manyToMany →
      ∀ j, r.junction = some j → b.Joins r j) : schema.ResolvesRelations where
  targets := fun p hp r hr => (exists_leads built registered hp hr).imp fun _ h => h.1
  sources := by
    intro p hp r hr
    obtain ⟨-, -, hfrom, -⟩ := exists_leads built registered hp hr
    exact hfrom
  loads := by
    intro s serves ls hls n
    have known : ∀ g ∈ Load.groups (ls.map (·.key)), FailsWith (fun f => f.isLookup = false)
        (Load.collect s g ((ls.map (·.key)).filter fun k => g.same k.group)) := by
      intro g hg
      obtain ⟨k, hk, rfl⟩ := Load.mem_groups hg
      obtain ⟨l, hl, rfl⟩ := List.mem_map.1 hk
      obtain ⟨t, hknown⟩ := known_of_loadsRelated built registered joins serves (hls l hl)
      exact (hknown.failsWith_collect _).imp fun _ => Fault.not_isLookup_of_isDatabase
    have batch := Load.failsWith_many known n
    unfold Fetch.loadTogether
    split
    next rows m hrun =>
      intro x hx
      obtain ⟨row, -, hrow⟩ := List.mem_map.1 (List.of_mem_zip hx).2
      rw [← hrow]
      exact failsWith_ok row
    next f hrun =>
      intro x hx
      obtain ⟨l, -, rfl⟩ := List.mem_map.1 hx
      exact failsWith_error (batch f hrun)

/-- A row with one value in some columns. -/
def Record.constant (columns : List String) (v : Value) : Record := columns.map fun c => (c, v)

theorem Record.get_constant {columns : List String} {v : Value} {c : String} (hc : c ∈ columns) :
    (Record.constant columns v).get c = v := by
  unfold Record.get Record.constant
  induction columns with
  | nil => cases hc
  | cons d columns ih =>
    rw [List.map_cons, List.lookup_cons]
    by_cases h : c = d
    · simp [h]
    · rw [beq_false_of_ne h]
      exact ih ((List.mem_cons.1 hc).resolve_left h)

/-- A load of a relation through a junction looks up what that names. -/
theorem joined_of_resolves (resolves : schema.ResolvesRelations) (serves : s.Serves schema)
    (leads : schema.Leads r target) (hj : r.relation.junction = some j) :
    Load.joined s (relatedGroup r target .null [] none none) j = .ok () := by
  let row := Record.constant r.relation.fromColumns (.int 0)
  let l : Load := ⟨r.isToMany, ⟨r.relation.fromColumns.map row.get,
    relatedGroup r target .null [] none none⟩⟩
  have related : schema.LoadsRelated l :=
    .intro r target row .null [] none leads nofun nofun
      (relatedLoad_eq_ok.2 ⟨none, relatedCondition_null, rfl⟩)
  have hnull : l.key.hasNull = false := by
    show (r.relation.fromColumns.map row.get).any (·.isNull) = false
    rw [List.any_map, List.any_eq_false]
    intro c hc
    show ¬(row.get c).isNull = true
    rw [Record.get_constant hc]
    exact nofun
  have same : l.key.group.same l.key.group := Group.same_iff.2 ⟨rfl, rfl, rfl, rfl, rfl, rfl⟩
  cases hjoined : Load.joined s (relatedGroup r target .null [] none none) j with
  | ok => rfl
  | error f =>
    have batch : (Load.many s ([l].map (·.key))).run 0 = .error f :=
      Load.run_many_of_joined same hnull hj hjoined 0
    have loaded : (l, .error f) ∈ (Fetch.loadTogether s 0 [l]).1 := by
      unfold Fetch.loadTogether
      rw [batch]
      exact List.mem_singleton_self _
    have found : f.isLookup = false :=
      resolves.loads s serves [l] (List.forall_mem_singleton.2 related) 0 _ loaded f rfl
    have lookup : f.isLookup = true := Load.failsWith_joined s _ j f hjoined
    rw [found] at lookup
    cases lookup

theorem joins_of_resolves (built : b.build = .ok schema) (resolves : schema.ResolvesRelations) :
    ∀ e ∈ b.entities, ∀ rel ∈ e.allRelations, ∀ j, rel.junction = some j → b.Joins rel j := by
  intro e he rel hrel j hj
  obtain ⟨p, hp, shows⟩ := Builder.exists_shows built he
  have hr : Projection.relationField b.context p.typeName rel ∈ p.relations := by
    rw [shows.relations]
    exact List.mem_map_of_mem hrel
  obtain ⟨target, leads⟩ := resolves.targets p hp _ hr
  have serves := Store.serves_ofEntities schema true false
  have joined := joined_of_resolves resolves serves leads hj
  obtain ⟨t, ht, hrest⟩ := bind_eq_ok.1 joined
  obtain ⟨u, hu, -⟩ := bind_eq_ok.1 hrest
  obtain ⟨hfrom, -, hused⟩ := (Load.joined_eq_ok ht hu).1 joined
  obtain ⟨p', hp', hname, hkeeps⟩ := serves.exists_projection hu
  exact ⟨p'.entity, (Builder.shows_entity built hp').1, hname,
    fun c hc => hkeeps.exists_typeOf_iff.1 (hfrom c hc),
    fun c hc => hkeeps.exists_typeOf_iff.1 (hused c hc)⟩

/-- What the field of a relation loads is a load for it, provided that the row scope is over columns
of the entity. -/
theorem loadsRelated_of_related {env : Environment} (built : b.build = .ok env.schema)
    (leads : env.schema.Leads r target) {row : Record} {a : Arguments} {rel : Related}
    (within : ∀ p, env.scope target .read = .ok (some p) →
      p.Over fun c => target.entity.hasColumn c = true)
    (h : related env r target row a = .ok rel) : env.schema.LoadsRelated rel.load := by
  have shows := (Builder.shows_entity built leads.mem).2
  have ordered : ∀ {orders : List Order} {v : Value} {written : Option (List String)},
      Order.ofValue target v written = .ok orders →
      ∀ o ∈ orders, target.entity.hasColumn o.column = true := by
    intro orders v written horders o ho
    obtain ⟨f, hf, hname, -⟩ := Order.field_of_ofValue horders o ho
    exact hname ▸ Entity.hasColumn_of_mem (shows.mem_columns hf)
  obtain ⟨scope, hscope, asked⟩ := asked_of_related h
  have within : ∀ p, scope = some p → p.Over fun c => target.entity.hasColumn c = true :=
    fun p hp => within p (hp ▸ hscope)
  cases asked with
  | one _ loads => exact .intro r target row .null [] scope leads nofun within loads
  | page _ _ horders loads =>
    refine .intro r target row _ _ scope leads (fun o ho => ?_) within loads
    split_ifs at ho
    · rcases Order.mem_withKey o ho with ho | ho
      · exact ordered horders o ho
      · obtain ⟨c, hc, hname, -⟩ := Entity.exists_keyColumn ho
        exact hname ▸ Entity.hasColumn_of_mem hc
    · exact ordered horders o ho

/--
Relations find what they name, exactly if the junctions of relations that need not have one are
entities with the columns that are used of them.
-/
theorem resolvesRelations_iff (reached : b.Reached context) (built : b.build = .ok schema) :
    schema.ResolvesRelations ↔ ∀ e ∈ b.entities, ∀ rel ∈ e.allRelations,
      rel.kind ≠ .manyToMany → ∀ j, rel.junction = some j → b.Joins rel j :=
  ⟨fun resolves e he rel hrel _ => joins_of_resolves built resolves e he rel hrel,
    resolves_of_joins built reached.registered⟩

end Checked

section Shelves

open Sample.Shelves

theorem reached_shelves (j : Junction) : (builder j).Reached {} := .registerAll .empty _

theorem mem_relations_shelves (j : Junction) :
    (∃ e ∈ (builder j).entities, books j ∈ e.allRelations) ∧
      ∀ e ∈ (builder j).entities, ∀ rel ∈ e.allRelations, rel = books j := by
  have entities : (builder j).entities = [shelf j, book, place] := by with_unfolding_all rfl
  rw [entities]
  refine ⟨⟨shelf j, List.mem_cons_self, List.mem_singleton_self _⟩, ?_⟩
  rw [List.forall_mem_cons, List.forall_mem_cons, List.forall_mem_singleton]
  exact ⟨fun rel hrel => List.mem_singleton.1 hrel, nofun, nofun⟩

theorem resolvesRelations_iff_place :
    ∃ schema, (builder ⟨"place", ["shelf_id"], ["book_id"]⟩).build = .ok schema ∧
      schema.ResolvesRelations := by
  obtain ⟨schema, built⟩ := exists_of_isOk isOk_build_place
  refine ⟨schema, built, (resolvesRelations_iff (reached_shelves _) built).2 ?_⟩
  intro e he rel hrel _ j hj
  obtain rfl := (mem_relations_shelves _).2 e he rel hrel
  cases hj
  decide +kernel

/-- The books of a shelf are not resolved by way of a junction that is not there. -/
theorem not_resolves_shelves {j : Junction} (hj : ¬(builder j).Joins (books j) j)
    (ok : (builder j).build.isOk) :
    ∃ schema, (builder j).build = .ok schema ∧ ¬schema.ResolvesRelations := by
  obtain ⟨schema, built⟩ := exists_of_isOk ok
  obtain ⟨e, he, hrel⟩ := (mem_relations_shelves j).1
  exact ⟨schema, built, fun resolves => hj (joins_of_resolves built resolves e he _ hrel j rfl)⟩

/--
A junction that is no table, and one without a column that is used of it, are accepted when the
schema is built.
-/
theorem junctions_unresolved :
    (∃ schema, (builder ⟨"nowhere", ["shelf_id"], ["book_id"]⟩).build = .ok schema ∧
      ¬schema.ResolvesRelations) ∧
    ∃ schema, (builder ⟨"place", ["shelf_id"], ["isbn"]⟩).build = .ok schema ∧
      ¬schema.ResolvesRelations :=
  ⟨not_resolves_shelves (by decide +kernel) (by decide +kernel),
    not_resolves_shelves (by decide +kernel) (by decide +kernel)⟩

end Shelves

end TableGraph
