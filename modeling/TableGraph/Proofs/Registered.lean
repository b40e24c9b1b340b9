import TableGraph.Proofs.Coalesce.FilterTypes

/-!
# Registered entities

What registrations keep: entities have different names, and only registered entities can be
changed, each of them once.  A schema that is built has a projection of every entity, in the same
order, whose fields have different names.
-/

namespace TableGraph

/-! ## Projections -/

namespace Projection

variable {context : Context} {e : Entity} {p : Projection}

theorem nodup_of_repeated {names : List String} (h : repeated names = []) : names.Nodup := by
  refine List.nodup_iff_count_le_one.2 fun name => Nat.not_lt.1 fun twice => ?_
  have known : name ∈ names := List.count_pos_iff.1 (Nat.zero_lt_of_lt twice)
  have found : name ∈ repeated names := by
    unfold repeated
    rw [List.mem_mergeSort, List.mem_eraseDups, List.mem_filter]
    exact ⟨known, decide_eq_true twice⟩
  rw [h] at found
  cases found

/-- What a projection has in common with its entity. -/
structure Shows (context : Context) (e : Entity) (p : Projection) : Prop where
  entity : p.entity = e
  typeName : p.typeName = context.typeName e.name
  queryField : p.queryField = context.fieldName p.typeName
  fields : e.visibleColumns.mapM (columnField context p.typeName) = .ok p.fields
  relations : p.relations = e.allRelations.map (relationField context p.typeName)
  distinct : (p.fields.map (·.name) ++ p.relations.map (·.name)).Nodup

/-- Every field is that of a visible column and has the name of the column, cased. -/
theorem Shows.column_of_mem (h : Shows context e p) {f : ColumnField} (hf : f ∈ p.fields) :
    f.column ∈ e.visibleColumns ∧ f.name = context.fieldName f.column.name := by
  obtain ⟨c, hc, hfield⟩ := mem_of_mapM h.fields hf
  obtain ⟨filter, -, hfield⟩ := bind_eq_ok.1 hfield
  cases hfield
  exact ⟨hc, rfl⟩

theorem Shows.mem_columns (h : Shows context e p) {f : ColumnField} (hf : f ∈ p.fields) :
    f.column ∈ e.columns := List.mem_of_mem_filter (h.column_of_mem hf).1

/-- Every visible column has a field. -/
theorem Shows.exists_field (h : Shows context e p) {c : Column} (hc : c ∈ e.visibleColumns) :
    ∃ f ∈ p.fields, f.column = c := by
  obtain ⟨f, hf, hfield⟩ := exists_of_mem_mapM h.fields hc
  obtain ⟨filter, -, hfield⟩ := bind_eq_ok.1 hfield
  cases hfield
  exact ⟨_, hf, rfl⟩

/-- A column has a field that is found by its name if and only if it is visible. -/
theorem Shows.fieldForColumn?_eq_some (h : Shows context e p) {c : Column} (hc : c ∈ e.columns) :
    (∃ f, p.fieldForColumn? c.name = some f) ↔ c.ignored = false := by
  constructor
  · rintro ⟨f, hf⟩
    have visible := List.mem_filter.1 (h.column_of_mem (List.mem_of_find?_eq_some hf)).1
    have named : f.column.name = c.name := by simpa using List.find?_some hf
    have own : f.column = c := List.inj_on_of_nodup_map e.distinct visible.1 hc named
    rw [← own]
    simpa using visible.2
  · intro visible
    obtain ⟨f, hf, hcolumn⟩ := h.exists_field (List.mem_filter.2 ⟨hc, by simp [visible]⟩)
    exact Option.isSome_iff_exists.1 (List.find?_isSome.2 ⟨f, hf, by simp [hcolumn]⟩)

/-- Fields are told apart by their names. -/
theorem Shows.eq_of_name (h : Shows context e p) {f g : ColumnField} (hf : f ∈ p.fields)
    (hg : g ∈ p.fields) (hname : f.name = g.name) : f = g :=
  List.inj_on_of_nodup_map (List.nodup_append.1 h.distinct).1 hf hg hname

theorem Shows.field_eq_ok (h : Shows context e p) {f : ColumnField} (hf : f ∈ p.fields) :
    p.field f.name = .ok f := by
  unfold Projection.field
  rw [find?_name (List.nodup_append.1 h.distinct).1 hf]

theorem shows_of_make (h : make context e = .ok p) : Shows context e p := by
  obtain ⟨fields, hfields, h⟩ := bind_eq_ok.1 h
  dsimp only at h
  split at h
  next distinct =>
    cases h
    exact ⟨rfl, rfl, rfl, hfields, rfl, nodup_of_repeated distinct⟩
  next => cases h

end Projection

/-- The table of an entity, without rows. -/
def SealedSchema.table (schema : SealedSchema) (p : Projection) : Table :=
  .ofEntity schema.codec.enumerations p.entity

namespace Builder

variable {context : Context} {b b' : Builder} {schema : SealedSchema}

/-! ## Registrations -/

/-- What a builder can be after some registrations. -/
inductive Reached (context : Context) : Builder → Prop
  | empty : Reached context (.empty context)
  | register {b b' : Builder} {r : Registration} (before : Reached context b)
      (done : b.register r = .ok b') : Reached context b'

/-- Entities have different names, and those that can be changed are among them, each once. -/
structure Registered (b : Builder) : Prop where
  entities : (b.entities.map (·.name)).Nodup
  mutable : b.mutable.Nodup
  known : ∀ name ∈ b.mutable, name ∈ b.entities.map (·.name)

theorem hasEntity_iff {name : String} : b.hasEntity name = true ↔
    name ∈ b.entities.map (·.name) := by
  unfold hasEntity
  simp only [List.any_eq_true, decide_eq_true_eq, List.mem_map]

/-- A registration keeps the names different. -/
theorem Registered.register (h : b.Registered) {r : Registration}
    (done : b.register r = .ok b') : b'.Registered := by
  cases r with
  | entity e =>
    obtain ⟨_, -, done⟩ := bind_eq_ok.1 (show (b.checkOpen >>= fun _ => _) = _ from done)
    split_ifs at done with hname
    cases done
    have new : e.name ∉ b.entities.map (·.name) := fun hmem => hname (hasEntity_iff.2 hmem)
    refine ⟨?_, h.mutable, fun name hmem => ?_⟩
    · rw [List.map_append]
      exact h.entities.append (List.nodup_singleton e.name) (List.disjoint_singleton.2 new)
    · rw [List.map_append]
      exact List.mem_append_left _ (h.known name hmem)
  | mutations name =>
    obtain ⟨_, -, done⟩ := bind_eq_ok.1 (show (b.checkOpen >>= fun _ => _) = _ from done)
    split_ifs at done with hname hnew
    cases done
    have known : name ∈ b.entities.map (·.name) := hasEntity_iff.1 (by simpa using hname)
    refine ⟨h.entities, ?_, fun other hmem => ?_⟩
    · exact h.mutable.append (List.nodup_singleton name)
        (List.disjoint_singleton.2 fun hmem => hnew (List.contains_iff_mem.2 hmem))
    · rcases List.mem_append.1 hmem with hmem | hmem
      · exact h.known other hmem
      · rwa [List.mem_singleton.1 hmem]
  | enumeration e =>
    obtain ⟨_, -, done⟩ := bind_eq_ok.1 (show (b.checkOpen >>= fun _ => _) = _ from done)
    split_ifs at done
    cases done
    exact ⟨h.entities, h.mutable, h.known⟩
  | scalar name =>
    obtain ⟨_, -, done⟩ := bind_eq_ok.1 (show (b.checkOpen >>= fun _ => _) = _ from done)
    split_ifs at done
    cases done
    exact ⟨h.entities, h.mutable, h.known⟩

/-- Whatever is registered, entities have different names. -/
theorem Reached.registered (h : Reached context b) : b.Registered := by
  induction h with
  | empty => exact ⟨.nil, .nil, nofun⟩
  | register _ done ih => exact ih.register done

/-- Registrations one after another reach what they leave, also if one of them fails. -/
theorem Reached.registerAll (h : Reached context b) (rs : List Registration) :
    Reached context (b.registerAll rs).1 := by
  induction rs generalizing b with
  | nil => exact h
  | cons r rs ih =>
    unfold Builder.registerAll
    split
    · rename_i done
      exact ih (h.register done)
    · exact h

/-! ## Projections of the entities -/

theorem project_eq {e : Entity} {p : Projection} (kept : SqlType.checkTable e = .ok ())
    (h : Projection.make context e = .ok p) : project context e = .ok p := by
  unfold project
  rw [kept]
  exact h

theorem shows_of_project {e : Entity} {p : Projection} (h : project context e = .ok p) :
    Projection.Shows context e p := by
  obtain ⟨_, -, hmake⟩ := bind_eq_ok.1 h
  exact Projection.shows_of_make hmake

theorem names_of_build (built : b.build = .ok schema) :
    schema.projections.map (·.name) = b.entities.map (·.name) := by
  obtain ⟨-, -, projections, -⟩ := build_eq_ok built
  refine map_eq_of_forall₂ ((mapM_eq_ok.1 projections).flip.imp fun p e h => ?_)
  exact congrArg (·.name) (shows_of_project h).entity

/-- The projection of an entity. -/
theorem exists_shows (built : b.build = .ok schema) {e : Entity} (he : e ∈ b.entities) :
    ∃ p ∈ schema.projections, Projection.Shows b.context e p := by
  obtain ⟨-, -, projections, -⟩ := build_eq_ok built
  obtain ⟨p, hp, h⟩ := exists_of_mem_mapM projections he
  exact ⟨p, hp, shows_of_project h⟩

/-- The entity of a projection. -/
theorem shows_entity (built : b.build = .ok schema) {p : Projection}
    (hp : p ∈ schema.projections) :
    p.entity ∈ b.entities ∧ Projection.Shows b.context p.entity p := by
  obtain ⟨-, -, projections, -⟩ := build_eq_ok built
  obtain ⟨e, he, h⟩ := mem_of_mapM projections hp
  have shows := shows_of_project h
  rw [shows.entity]
  exact ⟨he, shows⟩

/-- The projections have different names. -/
theorem Registered.projections (h : b.Registered) (built : b.build = .ok schema) :
    (schema.projections.map (·.name)).Nodup := by
  rw [names_of_build built]
  exact h.entities

end Builder

end TableGraph
