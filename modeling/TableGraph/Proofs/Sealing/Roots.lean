import TableGraph.Proofs.Sealing.Fields

/-!
# The roots and the enumerations of a schema

What is left of the types of a schema beside those of entities.  Main statement: `forall_fits_iff`.
All types fit together exactly if every entity has a column to order by.
-/

namespace TableGraph.Builder

open TableGraph.Graph Text TypeSystem

variable {b : Builder} {projections : List Projection} {enumerations : List NamedType}
  {s : TypeSystem} {p : Projection} {t : NamedType}

/-! ## Enumerations -/

/-- The values of an enumeration have names exactly if the cased values are names that differ. -/
theorem namedValues_iff {context : Context} {enumeration : String} {taken raws : List String}
    {values : List (String × Value)} :
    namedValues context enumeration taken raws = .ok values ↔
      (∀ raw ∈ raws, isName (context.variantCase.apply raw) = true ∧
        context.variantCase.apply raw ∉ reservedValues ++ taken) ∧
      (raws.map context.variantCase.apply).Nodup ∧
      values = raws.map fun raw => (context.variantCase.apply raw, .text raw) := by
  induction raws generalizing taken values with
  | nil =>
    constructor
    · intro h
      cases h
      exact ⟨List.forall_mem_nil _, List.nodup_nil, rfl⟩
    · rintro ⟨-, -, rfl⟩
      rfl
  | cons raw raws ih =>
    unfold namedValues
    dsimp only
    rw [List.forall_mem_cons, List.map_cons, List.nodup_cons]
    split_ifs with invalid known
    · refine iff_of_false (by rintro ⟨⟩) ?_
      rintro ⟨⟨⟨named, free⟩, -⟩, -⟩
      rcases Bool.or_eq_true_iff.1 invalid with unnamed | reserved
      · rw [named] at unnamed
        cases unnamed
      · exact free (List.mem_append_left _ (List.contains_iff_mem.1 reserved))
    · refine iff_of_false (by rintro ⟨⟩) ?_
      rintro ⟨⟨⟨-, free⟩, -⟩, -⟩
      exact free (List.mem_append_right _ (List.contains_iff_mem.1 known))
    · simp only [Bool.or_eq_true, Bool.not_eq_true', not_or, Bool.not_eq_false,
        List.contains_iff_mem] at invalid known
      have own : isName (context.variantCase.apply raw) = true ∧
          context.variantCase.apply raw ∉ reservedValues ++ taken :=
        ⟨invalid.1, fun h => (List.mem_append.1 h).elim invalid.2 known⟩
      rw [bind_eq_ok]
      simp only [ih, List.mem_append, List.mem_cons, not_or]
      constructor
      · rintro ⟨_, ⟨rest, distinct, rfl⟩, h⟩
        cases h
        refine ⟨⟨by simpa using own, fun other hother => ?_⟩, ⟨fun again => ?_, distinct⟩, rfl⟩
        · obtain ⟨named, reserved, -, free⟩ := rest other hother
          exact ⟨named, reserved, free⟩
        · obtain ⟨other, hother, same⟩ := List.mem_map.1 again
          exact (rest other hother).2.2.1 same
      · rintro ⟨⟨-, rest⟩, ⟨fresh, distinct⟩, rfl⟩
        refine ⟨_, ⟨fun other hother => ?_, distinct, rfl⟩, rfl⟩
        obtain ⟨named, reserved, free⟩ := rest other hother
        exact ⟨named, reserved, fun same => fresh (same ▸ List.mem_map_of_mem hother), free⟩

/-- An enumeration has a type exactly if the values have names and the type has one. -/
theorem enumerationType_iff {context : Context} {e : Enumeration} :
    enumerationType context e = .ok t ↔
      ((∀ raw ∈ e.values, isName (context.variantCase.apply raw) = true ∧
        context.variantCase.apply raw ∉ reservedValues) ∧
      (e.values.map context.variantCase.apply).Nodup) ∧
      checkTypeName (context.enumTypeName e.name) = .ok () ∧
      t = ⟨context.enumTypeName e.name,
        .enumeration (e.values.map fun raw => (context.variantCase.apply raw, .text raw))⟩ := by
  unfold enumerationType
  simp only [bind_eq_ok, namedValues_iff, List.append_nil]
  constructor
  · rintro ⟨_, ⟨names, distinct, rfl⟩, _, hname, h⟩
    cases h
    exact ⟨⟨names, distinct⟩, hname, rfl⟩
  · rintro ⟨⟨names, distinct⟩, hname, rfl⟩
    exact ⟨_, ⟨names, distinct, rfl⟩, (), hname, rfl⟩

theorem checkTypeName_iff {name : String} :
    checkTypeName name = .ok () ↔ name ∉ reservedNames ∧ isName name = true := by
  unfold checkTypeName
  rw [← List.contains_iff_mem]
  split_ifs with reserved named
  · exact iff_of_false nofun fun h => h.1 reserved
  · exact iff_of_true rfl ⟨reserved, named⟩
  · exact iff_of_false nofun fun h => named h.2

namespace Collected

variable (h : b.Collected projections enumerations s)
include h

/-- The types of enumerations fit, and those of their filters. -/
theorem fits_enumerations (hcontext : b.context = {}) :
    ∀ t ∈ enumerations, s.Fits t ∧ s.Fits (enumerationFilterType t.name) := by
  intro t ht
  obtain ⟨e, he, hmade⟩ := mem_of_mapM h.made ht
  have sent := (h.leaf_enumeration he).1
  rw [hcontext] at hmade sent
  obtain ⟨-, -, rfl⟩ := enumerationType_iff.1 hmade
  have ends : ∀ word ∈ ["Enum", "FilterInput"], word.toList.all isWordChar = true := by decide
  have words : ∀ c ∈ (Context.enumTypeName {} e.name).toList, isWordChar c = true := by
    intro c hc
    unfold Context.enumTypeName at hc
    rw [String.toList_append] at hc
    rcases List.mem_append.1 hc with hc | hc
    · exact isWordChar_pascalCase hc
    · exact List.all_eq_true.1 (ends "Enum" (by simp)) c hc
  refine ⟨⟨notOwn_of_words words, fun none => e.nonempty (List.map_eq_nil_iff.1 none),
    List.forall_mem_map.2 fun raw _ => notOwn_of_words fun c hc => isWordChar_upperCamel hc⟩,
    notOwn_of_words fun c hc => ?_, fits_operatorFields sent (by decide)⟩
  rw [enumerationFilterType, String.toList_append] at hc
  rcases List.mem_append.1 hc with hc | hc
  · exact words c hc
  · exact List.all_eq_true.1 (ends "FilterInput" (by simp)) c hc

end Collected

/-! ## Roots -/

theorem setOutput_ne_nil (fields : List OutputField) (f : OutputField) :
    setOutput fields f ≠ [] := by
  unfold setOutput
  split
  next there =>
    obtain ⟨g, hg, -⟩ := List.any_eq_true.1 there
    exact List.ne_nil_of_mem (List.mem_map_of_mem hg)
  next => exact List.append_ne_nil_of_right_ne_nil _ (List.cons_ne_nil f [])

theorem foldl_setOutput_ne_nil {fields : List OutputField} (h : fields ≠ []) :
    fields.foldl setOutput [] ≠ [] := by
  have kept : ∀ (fields kept : List OutputField), kept ≠ [] → fields.foldl setOutput kept ≠ [] := by
    intro fields
    induction fields with
    | nil => exact fun _ some => some
    | cons f fields ih => exact fun kept _ => ih _ (setOutput_ne_nil kept f)
  cases fields with
  | nil => exact absurd rfl h
  | cons f fields => exact kept fields _ (setOutput_ne_nil [] f)

theorem notOwn_roots : isOwnName queryName = false ∧ isOwnName mutationName = false := by
  decide +kernel

namespace Collected

variable (h : b.Collected projections enumerations s)
  (presentable : ∀ p ∈ projections, b.Presentable p)
include h presentable

theorem fits_queryField (hp : p ∈ projections) {f : OutputField}
    (hf : f ∈ queryFields b.context p) : IsPlain f.name ∧ s.resolves f = true := by
  obtain ⟨row, -, -, page⟩ := h.isOutput_object hp
  obtain ⟨plain, start⟩ := (presentable p hp).queryField
  have list : IsPlain p.queryField ∧ s.resolves ⟨p.queryField, connectionArguments p,
      required p.connectionTypeName, .connection p⟩ = true :=
    ⟨plain, Bool.and_eq_true_iff.2 ⟨page, rfl⟩⟩
  unfold queryFields at hf
  cases hkey : keyFields? p with
  | none =>
    rw [hkey] at hf
    rw [List.mem_singleton.1 hf]
    exact list
  | some fields =>
    rw [hkey] at hf
    dsimp only at hf
    split_ifs at hf
    · rcases List.mem_cons.1 hf with rfl | hf
      · exact list
      · rw [List.mem_singleton.1 hf]
        exact ⟨plain.append start (by decide), Bool.and_eq_true_iff.2 ⟨row, rfl⟩⟩
    · rw [List.mem_singleton.1 hf]
      exact list

theorem fits_mutationField (hp : p ∈ projections) {f : OutputField} (hf : f ∈ mutationFields p) :
    IsPlain f.name ∧ s.resolves f = true := by
  obtain ⟨-, basic, -, -⟩ := h.isOutput_object hp
  obtain ⟨plain, start⟩ := (presentable p hp).queryField
  have number : s.isOutput "Int" = true := (leaf_builtin ⟨("Int", .int), by decide, rfl⟩).2
  unfold mutationFields at hf
  simp only [List.mem_cons, List.not_mem_nil, or_false] at hf
  rcases hf with rfl | rfl | rfl | rfl
  · exact ⟨plain.append start (by decide), Bool.and_eq_true_iff.2 ⟨basic, rfl⟩⟩
  · exact ⟨plain.append start (by decide), Bool.and_eq_true_iff.2 ⟨basic, rfl⟩⟩
  · exact ⟨plain.append start (by decide), Bool.and_eq_true_iff.2 ⟨basic, rfl⟩⟩
  · exact ⟨plain.append start (by decide), Bool.and_eq_true_iff.2 ⟨number, rfl⟩⟩

theorem fits_queryRoot (some : projections ≠ []) :
    s.Fits ⟨queryName, .object (queryRoot b.context projections)⟩ := by
  refine ⟨notOwn_roots.1, foldl_setOutput_ne_nil fun none => ?_, fun f hf => ?_⟩
  · obtain ⟨p, hp⟩ := List.exists_mem_of_ne_nil _ some
    obtain ⟨f, hf, -⟩ := @exists_list b.context p
    rw [List.flatMap_eq_nil_iff.1 none p hp] at hf
    cases hf
  · have own := (mem_foldl_setOutput hf).resolve_left List.not_mem_nil
    obtain ⟨p, hp, hf⟩ := List.mem_flatMap.1 own
    exact h.fits_queryField presentable hp hf

theorem fits_mutationRoot {fields : List OutputField}
    (changed : ∃ p ∈ projections, p.name ∈ b.mutable)
    (hfields : mutationRoot b.mutable projections = some fields) :
    s.Fits ⟨mutationName, .object fields⟩ := by
  obtain ⟨p, hp, hmutable⟩ := changed
  unfold mutationRoot at hfields
  rw [if_neg (by simpa using List.ne_nil_of_mem hmutable)] at hfields
  cases hfields
  refine ⟨notOwn_roots.2, foldl_setOutput_ne_nil fun none => ?_, fun f hf => ?_⟩
  · cases hfind : projections.find? fun q => q.name = p.name with
    | none => exact absurd (decide_eq_true rfl) (List.find?_eq_none.1 hfind p hp)
    | some q => cases List.flatMap_eq_nil_iff.1 none q (List.mem_filterMap.2 ⟨_, hmutable, hfind⟩)
  · have own := (mem_foldl_setOutput hf).resolve_left List.not_mem_nil
    obtain ⟨q, hq, hf⟩ := List.mem_flatMap.1 own
    obtain ⟨name, -, hfind⟩ := List.mem_filterMap.1 hq
    exact h.fits_mutationField presentable (List.mem_of_find?_eq_some hfind) hf

/-- All types fit exactly if every entity has a column to order by. -/
theorem forall_fits_iff (hcontext : b.context = {}) (hscalars : b.scalars = [])
    (changed : ∃ p ∈ projections, p.name ∈ b.mutable)
    (query : s.query = queryRoot b.context projections)
    (mutation : s.mutation = mutationRoot b.mutable projections) :
    (∀ t ∈ s.allTypes, s.Fits t) ↔ ∀ p ∈ projections, p.orderFields ≠ [] := by
  have entities : (∀ t ∈ projections.flatMap (b.entityTypes projections), s.Fits t) ↔
      ∀ p ∈ projections, p.orderFields ≠ [] := by
    rw [List.forall_mem_flatMap]
    exact forall₂_congr fun p hp => h.fits_entityTypes_iff (presentable p hp) hp
  have enumerations : ∀ t ∈ enumerations.flatMap withFilter, s.Fits t := by
    rw [List.forall_mem_flatMap]
    intro t ht
    obtain ⟨own, filter⟩ := h.fits_enumerations hcontext t ht
    exact List.forall_mem_cons.2 ⟨own, List.forall_mem_singleton.2 filter⟩
  have known : projections ≠ [] := fun none => by
    obtain ⟨p, hp, -⟩ := changed
    rw [none] at hp
    cases hp
  obtain ⟨fields, hfields⟩ := Option.isSome_iff_exists.1 h.root
  have changes := h.fits_mutationRoot presentable changed (mutation ▸ hfields)
  unfold allTypes
  rw [h.types, hfields, query]
  unfold typesOf
  simp only [List.forall_mem_append, List.forall_mem_singleton, entities, hscalars, List.map_nil]
  constructor
  · exact fun all => all.1.1.2
  · exact fun ordered => ⟨⟨⟨⟨⟨List.forall_mem_nil _, enumerations⟩, h.fits_sharedTypes⟩, ordered⟩,
      h.fits_queryRoot presentable known⟩, changes⟩

end Collected

end TableGraph.Builder
