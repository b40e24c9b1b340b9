import TableGraph.Proofs.Lifecycle
import TableGraph.Proofs.Sealing.Validity

/-!
# Schemas that can be closed

A schema whose names start with letters and whose relations lead to columns that are there is
registered in a new builder, and what is left to keep the builder from being closed is told apart:
names of fields or of types that clash, enumerations that are not known or have no name of a type,
and entities without a column to order by.  Main statement: `closes_iff`.
-/

namespace TableGraph

open TableGraph.Graph Text

/-- What the steps of building give is put together. -/
theorem Builder.exists_build {b : Builder} {projections : List Projection}
    {system : TypeSystem} (opened : b.isSealed = false) (inhabited : b.entities ≠ [])
    (valid : Validation.validate b.entities b.enumerations = [])
    (projected : b.entities.mapM (project b.context) = .ok projections)
    (collected : b.buildTypes projections = .ok system.types)
    (query : system.query = queryRoot b.context projections)
    (mutation : system.mutation = mutationRoot b.mutable projections)
    (checked : system.check = .ok ()) : ∃ sealed, b.build = .ok sealed := by
  have unsealed : b.checkOpen = .ok () := if_neg (by simp [opened])
  have same : (⟨system.types, queryRoot b.context projections,
      mutationRoot b.mutable projections⟩ : TypeSystem) = system := by
    rw [← query, ← mutation]
  refine ⟨⟨b.context, projections, ⟨b.enumerations, b.context.rfc3339⟩, system⟩, ?_⟩
  refine bind_eq_ok.2 ⟨(), unsealed, ?_⟩
  rw [if_neg (by simpa using inhabited), valid]
  refine bind_eq_ok.2 ⟨projections, projected, bind_eq_ok.2 ⟨system.types, collected, ?_⟩⟩
  dsimp only
  rw [same]
  exact bind_eq_ok.2 ⟨(), checked, rfl⟩

namespace Schema

variable {s : Schema}

/-- The names of the types of an enumeration: its own and that of its filters. -/
def enumerationTypeNames (e : Enumeration) : List String :=
  [pascalCase e.name ++ "Enum", pascalCase e.name ++ "Enum" ++ "FilterInput"]

/-- What the names of the types of an entity end in. -/
def entitySuffixes : List String :=
  ["", "Basic", "Edge", "Connection", "FilterInput", "OrderInput", "InsertInput", "UpdateInput"]

/-- The names of the types of an entity that can be changed. -/
def entityTypeNames (e : Entity) : List String := entitySuffixes.map (pascalCase e.name ++ ·)

/-- The names of all types of a schema whose entities can be changed. -/
def typeNames (s : Schema) : List String :=
  s.enumerations.flatMap enumerationTypeNames ++ sharedTypes.map (·.name) ++
    s.entities.flatMap entityTypeNames ++ [queryName, mutationName]

/-- There are entities, all names start with letters, variants have names that differ, and relations
lead to columns that are there. -/
structure Plain (s : Schema) : Prop where
  inhabited : s.entities ≠ []
  entities : (s.entities.map (·.name)).Nodup
  enumerations : (s.enumerations.map (·.name)).Nodup
  variants : ∀ e ∈ s.enumerations, (e.values.map upperCamel).Nodup ∧
    ∀ v ∈ e.values, isName (upperCamel v) = true
  named : ∀ e ∈ s.entities, StartsWithLetter e.name ∧ ∀ r ∈ e.relations, StartsWithLetter r.name
  columns : ∀ e ∈ s.entities, e.Open
  joins : ∀ e ∈ s.entities, ∀ r ∈ e.relations, ∃ target ∈ s.entities, r.Joins e target

/-- The enumerations of columns and of the items of columns are known. -/
def Knows (s : Schema) : Prop :=
  ∀ e ∈ s.entities, ∀ c ∈ e.columns, ∀ name, c.type.enumerationName? = some name →
    name ∈ s.enumerations.map (·.name)

/-- Nothing keeps the schema from being closed. -/
structure Seals (s : Schema) : Prop where
  /-- The fields of an entity, for its columns and for its relations, have different names. -/
  fields : ∀ e ∈ s.entities, (Projection.fieldNames e).Nodup
  /-- All types have different names. -/
  types : s.typeNames.Nodup
  /-- No entity has a type of a name that is kept for the language. -/
  entities : ∀ e ∈ s.entities, pascalCase e.name ∉ reservedNames
  /-- Every enumeration has a type whose name is a name. -/
  enumerations : ∀ e ∈ s.enumerations, isName (pascalCase e.name ++ "Enum") = true
  known : s.Knows
  /-- Every entity has a column to order by. -/
  ordered : ∀ e ∈ s.entities, ∃ c ∈ e.columns, c.type.isOrderable = true

instance (s : Schema) : Decidable s.Knows :=
  inferInstanceAs (Decidable (∀ e ∈ s.entities, ∀ c ∈ e.columns,
    ∀ name ∈ c.type.enumerationName?, name ∈ s.enumerations.map (·.name)))

instance (s : Schema) : Decidable s.Seals :=
  decidable_of_iff ((∀ e ∈ s.entities, (Projection.fieldNames e).Nodup) ∧ s.typeNames.Nodup ∧
      (∀ e ∈ s.entities, pascalCase e.name ∉ reservedNames) ∧
      (∀ e ∈ s.enumerations, isName (pascalCase e.name ++ "Enum") = true) ∧ s.Knows ∧
      ∀ e ∈ s.entities, ∃ c ∈ e.columns, c.type.isOrderable = true)
    ⟨fun ⟨fields, types, entities, enumerations, known, ordered⟩ =>
      ⟨fields, types, entities, enumerations, known, ordered⟩,
      fun h => ⟨h.fields, h.types, h.entities, h.enumerations, h.known, h.ordered⟩⟩

/-! ## Registration -/

/-- Of things with different names, one is named unlike those before it. -/
theorem name_not_mem {α : Type} {name : α → String} {done rest : List α} {x : α}
    (h : ((done ++ x :: rest).map name).Nodup) : name x ∉ done.map name := by
  rw [List.map_append, List.map_cons] at h
  exact fun old => (List.nodup_append.1 h).2.2 (name x) old (name x) List.mem_cons_self rfl

/-- A schema whose names differ is registered in a new builder. -/
theorem registerSchema_eq (entities : (s.entities.map (·.name)).Nodup)
    (enumerations : (s.enumerations.map (·.name)).Nodup) (mutations : Bool) :
    (Builder.empty {}).registerSchema s mutations =
      ((Builder.empty {}).withParts mutations s.enumerations s.entities, .ok ()) := by
  have distinct : (Builder.empty {}).Distinct := ⟨⟨.nil, .nil, nofun⟩, .nil, .nil⟩
  rcases Builder.registerSchema_gives distinct s mutations with done | ⟨fault, b, -, stops⟩
  · exact done
  · cases stops with
    | enumeration split fails =>
      rw [split] at enumerations
      refine absurd fails ?_
      unfold Builder.registerEnumeration
      rw [show Builder.checkOpen _ = .ok () from rfl]
      refine (ne_of_eq_of_ne (if_neg fun known => ?_) nofun)
      obtain ⟨old, hold, hname⟩ := List.any_eq_true.1 known
      exact name_not_mem enumerations (List.mem_map.2 ⟨old, hold, of_decide_eq_true hname⟩)
    | entity split fails =>
      rw [split] at entities
      refine absurd fails ?_
      unfold Builder.registerEntity
      rw [show Builder.checkOpen _ = .ok () from rfl]
      refine (ne_of_eq_of_ne (if_neg fun known => ?_) nofun)
      exact name_not_mem entities (Builder.hasEntity_iff.1 known)

/-! ## Names of types -/

/-- The types of an entity have the names that are made of the name of the entity. -/
theorem names_entityTypes {b : Builder} {e : Entity} {p : Projection}
    {projections : List Projection} (shows : Projection.Shows {} e p) (mutable : e.name ∈ b.mutable) :
    (b.entityTypes projections p).map (·.name) = entityTypeNames e := by
  have changed : b.mutable.contains p.name = true := by
    rw [List.contains_iff_mem]
    unfold Projection.name
    rwa [shows.entity]
  unfold Builder.entityTypes
  rw [if_pos changed]
  show [p.typeName, p.typeName ++ "Basic", p.typeName ++ "Edge", p.typeName ++ "Connection",
    p.typeName ++ "FilterInput", p.typeName ++ "OrderInput", p.typeName ++ "InsertInput",
    p.typeName ++ "UpdateInput"] = _
  rw [shows.typeName]
  unfold entityTypeNames entitySuffixes
  simp only [List.map_cons, List.map_nil, String.append_empty]
  rfl

theorem names_withFilter {e : Enumeration} {t : NamedType} (h : enumerationType {} e = .ok t) :
    (Builder.withFilter t).map (·.name) = enumerationTypeNames e := by
  obtain ⟨-, -, rfl⟩ := Builder.enumerationType_iff.1 h
  rfl

/-- The types that are collected, and the roots, have the names of the types of the schema. -/
theorem names_typesOf {b : Builder} {projections : List Projection} {enumerations : List NamedType}
    (hscalars : b.scalars = [])
    (made : s.enumerations.mapM (enumerationType {}) = .ok enumerations)
    (shows : List.Forall₂ (Projection.Shows {}) s.entities projections)
    (mutable : ∀ e ∈ s.entities, e.name ∈ b.mutable) :
    (b.typesOf enumerations projections).map (·.name) ++ [queryName, mutationName] =
      s.typeNames := by
  have kinds : (enumerations.flatMap Builder.withFilter).map (·.name) =
      s.enumerations.flatMap enumerationTypeNames := by
    rw [List.map_flatMap]
    exact (flatMap_eq_of_forall₂ ((mapM_eq_ok.1 made).imp fun e t h =>
      (names_withFilter h).symm)).symm
  have rows : (projections.flatMap (b.entityTypes projections)).map (·.name) =
      s.entities.flatMap entityTypeNames := by
    rw [List.map_flatMap]
    refine (flatMap_eq_of_forall₂ (forall₂_imp_mem shows fun e he p _ h => ?_)).symm
    exact (names_entityTypes h (mutable e he)).symm
  unfold Builder.typesOf typeNames
  rw [hscalars, List.map_append, List.map_append, List.map_append, kinds, rows]
  rfl

theorem names_allTypes {system : TypeSystem} (root : system.mutation.isSome) :
    system.allTypes.map (·.name) = system.types.map (·.name) ++ [queryName, mutationName] := by
  obtain ⟨fields, hfields⟩ := Option.isSome_iff_exists.1 root
  unfold TypeSystem.allTypes
  rw [hfields, List.map_append, List.map_append, List.append_assoc]
  rfl

/-! ## Closing -/

/-- The builder that a schema is registered in, which was new. -/
def registered (s : Schema) : Builder :=
  (Builder.empty {}).withParts true s.enumerations s.entities

namespace Plain

variable (plain : s.Plain)
include plain

/-- Relations and their companions have no problems. -/
theorem relationProblems_eq_nil : ∀ e ∈ s.entities, ∀ r ∈ e.allRelations,
    Validation.relationProblems s.entities e r = [] := by
  intro e he r hr
  rcases List.mem_append.1 hr with hr | hr
  · obtain ⟨target, htarget, joins⟩ := plain.joins e he r hr
    exact Validation.relationProblems_of_joins plain.entities htarget joins
  · obtain ⟨forth, hforth, rfl⟩ := List.mem_map.1 hr
    obtain ⟨hforth, back⟩ := List.mem_filter.1 hforth
    obtain ⟨target, htarget, joins⟩ := plain.joins e he forth hforth
    have leads : forth.target = e.name := by
      unfold Entity.hasCompanion at back
      rw [Bool.and_eq_true, decide_eq_true_iff] at back
      exact back.1
    obtain rfl : target = e :=
      List.inj_on_of_nodup_map plain.entities htarget he (joins.leads.trans leads)
    exact Validation.relationProblems_of_joins plain.entities htarget joins.companion

theorem exists_changed {projections : List Projection}
    (shows : List.Forall₂ (Projection.Shows {}) s.entities projections) :
    ∃ p ∈ projections, p.name ∈ s.registered.mutable := by
  obtain ⟨e, he⟩ := List.exists_mem_of_ne_nil _ plain.inhabited
  obtain ⟨p, hp, own⟩ := exists_of_forall₂ shows he
  refine ⟨p, hp, List.mem_map.2 ⟨e, he, ?_⟩⟩
  rw [← own.entity]
  rfl

theorem isSome_mutationRoot (projections : List Projection) :
    (Builder.mutationRoot s.registered.mutable projections).isSome := by
  have some : s.registered.mutable ≠ [] := fun none => plain.inhabited (List.map_eq_nil_iff.1 none)
  unfold Builder.mutationRoot
  rw [if_neg (by simpa using some)]
  rfl

theorem presentable {projections : List Projection}
    (shows : List.Forall₂ (Projection.Shows {}) s.entities projections)
    (known : s.Knows) : ∀ p ∈ projections, s.registered.Presentable p := by
  intro p hp
  obtain ⟨e, he, own⟩ := exists_of_forall₂ shows.flip hp
  obtain ⟨named, relations⟩ := plain.named e he
  exact (plain.columns e he).presentable rfl named relations (known e he) own

/-- The types of the schema fit exactly if every entity has a column to order by. -/
theorem forall_fits_iff {projections : List Projection} {enumerations : List NamedType}
    {system : TypeSystem} (collected : s.registered.Collected projections enumerations system)
    (shows : List.Forall₂ (Projection.Shows {}) s.entities projections)
    (known : s.Knows)
    (query : system.query = Builder.queryRoot {} projections)
    (mutation : system.mutation = Builder.mutationRoot s.registered.mutable projections) :
    (∀ t ∈ system.allTypes, system.Fits t) ↔
      ∀ e ∈ s.entities, ∃ c ∈ e.columns, c.type.isOrderable = true := by
  rw [collected.forall_fits_iff (plain.presentable shows known) rfl rfl
    (plain.exists_changed shows) query mutation]
  constructor
  · intro ordered e he
    obtain ⟨p, hp, own⟩ := exists_of_forall₂ shows he
    exact ((plain.columns e he).orderFields_ne_nil_iff own).1 (ordered p hp)
  · intro ordered p hp
    obtain ⟨e, he, own⟩ := exists_of_forall₂ shows.flip hp
    exact ((plain.columns e he).orderFields_ne_nil_iff own).2 (ordered e he)

/-- What is built has nothing that keeps it from being closed. -/
theorem seals_of_build {sealed : SealedSchema} (built : s.registered.build = .ok sealed) :
    s.Seals := by
  obtain ⟨-, valid, projected, types, checked⟩ := Builder.build_eq_ok built
  obtain ⟨-, query, mutation⟩ := Builder.roots_of_build built
  obtain ⟨enumerations, made, typeNames, htypes, -⟩ := Builder.buildTypes_iff.1 types
  obtain ⟨distinct, fits⟩ := TypeSystem.check_iff.1 checked
  have shows : List.Forall₂ (Projection.Shows {}) s.entities sealed.projections :=
    (mapM_eq_ok.1 projected).imp fun _ _ => Builder.shows_of_project
  have known := (Validation.validate_eq_nil_iff plain.relationProblems_eq_nil).1 valid
  have root : sealed.types.mutation.isSome := by
    rw [mutation]
    exact plain.isSome_mutationRoot _
  have collected : s.registered.Collected sealed.projections enumerations sealed.types :=
    ⟨htypes, made, distinct, root⟩
  constructor
  case fields =>
    intro e he
    obtain ⟨p, -, hp⟩ := exists_of_mem_mapM projected he
    exact (plain.columns e he).exists_project_iff.1 ⟨p, hp⟩
  case types =>
    rw [names_allTypes root, htypes, names_typesOf rfl made shows fun e he =>
      List.mem_map_of_mem he] at distinct
    exact distinct
  case entities =>
    intro e he
    obtain ⟨p, hp, own⟩ := exists_of_forall₂ shows he
    have name := (Builder.checkTypeName_iff.1 (typeNames p hp)).1
    rwa [own.typeName] at name
  case enumerations =>
    intro e he
    obtain ⟨t, -, hmade⟩ := exists_of_mem_mapM made he
    exact (Builder.checkTypeName_iff.1 (Builder.enumerationType_iff.1 hmade).2.1).2
  case known => exact fun e he => (known e he).1
  case ordered =>
    exact (plain.forall_fits_iff collected shows (fun e he => (known e he).1) query mutation).1 fits

omit plain in
/-- An enumeration has a type if its variants have names and the type has one. -/
theorem exists_enumerationType {e : Enumeration} (distinct : (e.values.map upperCamel).Nodup)
    (names : ∀ v ∈ e.values, isName (upperCamel v) = true)
    (name : isName (pascalCase e.name ++ "Enum") = true) :
    ∃ t, enumerationType {} e = .ok t := by
  have capitals : ∀ v, upperCamel v ∉ reservedValues := by
    intro v hv
    have small : ∀ word ∈ reservedValues, word.toList.any Char.isLower = true := by decide
    obtain ⟨c, hc, lower⟩ := List.any_eq_true.1 (small _ hv)
    rw [isLower_upperCamel hc] at lower
    cases lower
  have free : pascalCase e.name ++ "Enum" ∉ reservedNames := by
    intro reserved
    have other : ∀ word ∈ reservedNames, ¬"Enum".toList <:+ word.toList := by decide
    refine other _ reserved ?_
    rw [String.toList_append]
    exact List.suffix_append _ _
  exact ⟨_, Builder.enumerationType_iff.2 ⟨⟨fun v hv => ⟨names v hv, capitals v⟩, distinct⟩,
    Builder.checkTypeName_iff.2 ⟨free, name⟩, rfl⟩⟩

/-- A schema that nothing keeps from being closed is built. -/
theorem exists_build_of_seals (seals : s.Seals) : ∃ sealed, s.registered.build = .ok sealed := by
  have valid : Validation.validate s.registered.entities s.registered.enumerations = [] := by
    refine (Validation.validate_eq_nil_iff plain.relationProblems_eq_nil).2 fun e he => ?_
    refine ⟨seals.known e he, List.Nodup.of_map camelCase ?_⟩
    simpa only [List.map_map, Function.comp_def] using (List.nodup_append.1 (seals.fields e he)).2.1
  have exists_projection : ∀ e ∈ s.entities, ∃ p, Builder.project {} e = .ok p :=
    fun e he => (plain.columns e he).exists_project_iff.2 (seals.fields e he)
  obtain ⟨projections, projected⟩ := mapM_of_forall exists_projection
  have shows : List.Forall₂ (Projection.Shows {}) s.entities projections :=
    (mapM_eq_ok.1 projected).imp fun _ _ => Builder.shows_of_project
  have exists_type : ∀ e ∈ s.enumerations, ∃ t, enumerationType {} e = .ok t := fun e he =>
    exists_enumerationType (plain.variants e he).1 (plain.variants e he).2 (seals.enumerations e he)
  obtain ⟨enumerations, made⟩ := mapM_of_forall exists_type
  have names := names_typesOf (b := s.registered) rfl made shows fun e he => List.mem_map_of_mem he
  have typeNames : ∀ p ∈ projections, checkTypeName p.typeName = .ok () := by
    intro p hp
    obtain ⟨e, he, own⟩ := exists_of_forall₂ shows.flip hp
    rw [own.typeName]
    exact Builder.checkTypeName_iff.2 ⟨seals.entities e he,
      (isPlain_pascalCase (plain.named e he).1).isName⟩
  have types : s.registered.buildTypes projections =
      .ok (s.registered.typesOf enumerations projections) := by
    refine Builder.buildTypes_iff.2 ⟨enumerations, made, typeNames, rfl, ?_⟩
    have distinct := seals.types
    rw [← names] at distinct
    exact (List.nodup_append.1 distinct).1
  let system : TypeSystem := ⟨s.registered.typesOf enumerations projections,
    Builder.queryRoot {} projections, Builder.mutationRoot s.registered.mutable projections⟩
  have root : system.mutation.isSome := plain.isSome_mutationRoot projections
  have distinct : (system.allTypes.map (·.name)).Nodup := by
    rw [names_allTypes root, names]
    exact seals.types
  have checked : system.check = .ok () := by
    refine TypeSystem.check_iff.2 ⟨distinct, ?_⟩
    exact (plain.forall_fits_iff ⟨rfl, made, distinct, root⟩ shows seals.known rfl rfl).2
      seals.ordered
  exact Builder.exists_build rfl plain.inhabited valid projected types rfl rfl checked

/-- A schema is registered in a new builder, and that is closed exactly if nothing keeps it from
being closed. -/
theorem closes_iff : (∃ sealed, ((Builder.empty {}).registerSchema s true).1.close.2 = .ok sealed) ↔
    s.Seals := by
  rw [registerSchema_eq plain.entities plain.enumerations]
  have closed : s.registered.close.2 = s.registered.build := by
    unfold Builder.close
    cases s.registered.build <;> rfl
  show (∃ sealed, s.registered.close.2 = .ok sealed) ↔ _
  rw [closed]
  exact ⟨fun ⟨_, built⟩ => plain.seals_of_build built, plain.exists_build_of_seals⟩

end Plain

end Schema

end TableGraph
