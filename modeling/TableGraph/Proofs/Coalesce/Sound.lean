import TableGraph.Answer.Related
import TableGraph.Proofs.Coalesce.Filters
import TableGraph.Proofs.Coalesce.Scopes
import TableGraph.Proofs.Registered
import TableGraph.Proofs.Scope.Answer
import TableGraph.Sample.Registered

/-!
# Loads of one group

Keys of one group are loaded together, under the condition that came with the first of them.  That
is sound if loads of one group have conditions that match the same rows.  The group knows filter
and row scope by their fingerprints alone, which do not tell numbers of one size apart.

Main statement: `coalescing_sound_iff`.  Loads of one group match the same rows in every table,
exactly if single operators of float filters and single comparisons of row scopes do: whatever the
trees are that filters and row scopes are put together to, their fingerprints lose nothing else.
-/

namespace TableGraph

open TableGraph.Graph Answer

/-! ## Loads for relations -/

namespace SealedSchema

/-- The relation is one of the schema and leads to the entity. -/
def Leads (schema : SealedSchema) (r : RelationField) (target : Projection) : Prop :=
  (∃ p ∈ schema.projections, r ∈ p.relations) ∧
    schema.projection r.relation.target = .ok target

/--
A load for a relation to an entity, under a filter of its type and a row scope that compares columns
with values that may be bound.  Relations to single rows take no filter.
-/
inductive LoadsFor (schema : SealedSchema) (Bound : Value → Prop) (target : Projection)
    (l : Load) : Prop
  | intro (r : RelationField) (row : Record) (filter : Value) (orders : List Order)
    (scope : Option (Predicate Value)) (leads : schema.Leads r target)
    (conforms : Conforms schema.types filter (.named target.filterTypeName))
    (single : r.isToMany = false → filter = .null)
    (binds : ∀ p, scope = some p → p.Binds Bound target.name)
    (loads : relatedLoad schema.codec r target row filter orders scope = .ok l)

/-- Loads of one group match the same rows in every table. -/
def CoalescesSoundly (schema : SealedSchema) (Bound : Value → Prop) : Prop :=
  ∀ target target' l l', schema.LoadsFor Bound target l → schema.LoadsFor Bound target' l' →
    l.key.group.same l'.key.group →
    (schema.table target).Agree (l.key.group.condition.getD .always)
      (l'.key.group.condition.getD .always)

/-- Filters of one fingerprint that ask one operator of one float filter match the same rows. -/
def TellsFloats (schema : SealedSchema) : Prop :=
  ∀ r target, schema.Leads r target → r.isToMany = true →
    ∀ f, Filter.IsFilterField target f → f.filter = some (.family .float) →
      ∀ operator x y p q,
        Conforms schema.types (Filter.single f.name operator x) (.named target.filterTypeName) →
        Conforms schema.types (Filter.single f.name operator y) (.named target.filterTypeName) →
        x.freeze.same y.freeze →
        Filter.compile schema.codec target (Filter.single f.name operator x) = .ok p →
        Filter.compile schema.codec target (Filter.single f.name operator y) = .ok q →
        (schema.table target).Agree p q

/-- Comparisons of one fingerprint with values that may be bound match the same rows. -/
def TellsScopes (schema : SealedSchema) (Bound : Value → Prop) : Prop :=
  ∀ r target, schema.Leads r target → ∀ column s t,
    Predicate.OnePrint Bound target.name column s t →
      (schema.table target).Agree (.test column s) (.test column t)

end SealedSchema

variable {b : Builder} {schema : SealedSchema} {Bound : Value → Prop} {r : RelationField}
  {target : Projection}

namespace SealedSchema

theorem Leads.mem (h : schema.Leads r target) : target ∈ schema.projections :=
  mem_of_projection h.2

/-- An entity that a relation leads to is told by its name. -/
theorem Leads.eq_of_name {r' : RelationField} {target' : Projection} (h : schema.Leads r target)
    (h' : schema.Leads r' target') (name : target.name = target'.name) : target = target' := by
  have found := h.2
  rw [← name_of_projection h.2, name,
    name_of_projection h'.2, h'.2] at found
  exact (Except.ok.inj found).symm

end SealedSchema

/-- What the field of a relation loads, if the client's filter is of its type. -/
theorem loadsFor_of_related {env : Environment} {row : Record} {a : Arguments}
    (leads : env.schema.Leads r target)
    (conforms : Conforms env.schema.types (a.get "filters") (.named target.filterTypeName))
    (binds : ∀ p, env.scope target .read = .ok (some p) → p.Binds Bound target.name)
    {rel : Related} (h : related env r target row a = .ok rel) :
    env.schema.LoadsFor Bound target rel.load := by
  have effective : Conforms env.schema.types (filterOf a) (.named target.filterTypeName) := by
    unfold filterOf
    dsimp only
    split_ifs
    · exact conforms
    · rfl
  obtain ⟨scope, hscope, asked⟩ := asked_of_related h
  have bound : ∀ p, scope = some p → p.Binds Bound target.name := fun p hp =>
    binds p (hp ▸ hscope)
  cases asked with
  | one _ loads => exact .intro r row .null [] scope leads rfl (fun _ => rfl) bound loads
  | page many _ _ loads =>
    exact .intro r row _ _ scope leads effective (fun single => absurd many (by simp [single]))
      bound loads

/-! ## Filters -/

/-- Operators agree if their operands are told apart. -/
theorem operatorsAgree_of_exact {codec : Codec} {t : Table} {f : ColumnField}
    {filter : ColumnFilter} {s : TypeSystem} {base : String} (hleaf : s.inputFields? base = none)
    (exact : Exact (HasLeaf s base)) : Filter.OperatorsAgree codec t f filter
      (Filter.Sendable s (operatorFields (.named base) filter.operators)) := by
  rintro name v v' o u u' ⟨type, htype, hv⟩ ⟨_, htype', hv'⟩ same - hu hu'
  rw [htype] at htype'
  cases htype'
  obtain ⟨o, -, -, rfl⟩ := typeOf?_operatorFields htype
  obtain rfl := exact_operand hleaf exact o v v' hv hv' same
  rw [hu] at hu'
  cases hu'
  exact .refl t _

/-- Operators of all fields agree if those of float filters do. -/
theorem fieldsAgree (built : b.build = .ok schema) (leads : schema.Leads r target) {t : Table}
    (floats : ∀ f, Filter.IsFilterField target f → f.filter = some (.family .float) →
      Filter.OperatorsAgree schema.codec t f (.family .float) (Filter.Sendable schema.types
        (operatorFields (.named (familyScalar .float)) FilterFamily.float.operators))) :
    Filter.FieldsAgree schema.types schema.codec target t where
  input := Builder.inputFields?_filter built leads.mem
  fields := by
    intro f hf filter hfilter
    have hmem : f ∈ target.fields := List.mem_of_mem_filter (List.mem_of_find?_eq_some hf.2.2)
    obtain ⟨htypes, operand⟩ := Builder.operands_of_filter built leads.mem hmem hfilter
    rcases operand with ⟨family, rfl, hbody⟩ | ⟨values, hbody, htexts⟩
    · by_cases hfloat : family = .float
      · subst hfloat
        exact ⟨_, Builder.inputFields?_family built .float, floats f hf hfilter⟩
      · exact ⟨_, htypes, operatorsAgree_of_exact (inputFields?_eq_none hbody nofun)
          (exact_hasLeaf_scalar hbody (Builder.familyKind_ne_float hfloat)
            (Builder.familyKind_ne_custom family))⟩
    · exact ⟨_, htypes, operatorsAgree_of_exact (inputFields?_eq_none hbody nofun)
        (exact_hasLeaf_enumeration hbody htexts)⟩

theorem SealedSchema.TellsFloats.fieldsAgree (floats : schema.TellsFloats)
    (built : b.build = .ok schema) (leads : schema.Leads r target) (many : r.isToMany = true) :
    Filter.FieldsAgree schema.types schema.codec target (schema.table target) := by
  refine TableGraph.fieldsAgree built leads fun f hf hfilter => ?_
  have htypes := Builder.inputFields?_family built .float
  intro name v v' o u u' hv hv' same ho hu hu'
  refine floats r target leads many f hf hfilter name v v' _ _
    (Filter.conforms_filter built leads.mem hf hfilter htypes hv)
    (Filter.conforms_filter built leads.mem hf hfilter htypes hv') same ?_ ?_
  · rw [Filter.compile_single hf hfilter ho, hu]
    rfl
  · rw [Filter.compile_single hf hfilter ho, hu']
    rfl

/-! ## Loads -/

/-- Row scopes of one fingerprint are alike, or there are none. -/
theorem scopes_alike {table : String} {t : Table} {scope scope' : Option (Predicate Value)}
    (tells : ∀ column u v, Predicate.OnePrint Bound table column u v →
      t.Agree (.test column u) (.test column v))
    (hp : ∀ p, scope = some p → p.Binds Bound table)
    (hp' : ∀ p, scope' = some p → p.Binds Bound table)
    (same : (Scope.fingerprint table scope).same (Scope.fingerprint table scope')) :
    Option.Rel (Predicate.Alike (fun column u v => t.Agree (.test column u) (.test column v)) Eq)
      scope scope' := by
  cases scope with
  | none =>
    cases scope' with
    | none => exact .none
    | some q => cases same
  | some p =>
    cases scope' with
    | none => cases same
    | some q =>
      exact .some (((hp p rfl).onePrint (hp' q rfl) same).imp (fun h => tells _ _ _ h) id)

/-- Conditions that are alike, each with the row scope it comes with, agree. -/
theorem agree_andAlso {t : Table} {c c' : Predicate Value} {scope scope' : Option (Predicate Value)}
    (h : Predicate.Alike (fun column u v => t.Agree (.test column u) (.test column v)) Eq c c')
    (hscope : Option.Rel (Predicate.Alike
      (fun column u v => t.Agree (.test column u) (.test column v)) Eq) scope scope') :
    t.Agree (c.andAlso scope) (c'.andAlso scope') := by
  cases hscope with
  | none => exact h.agree
  | some halike => exact (h.andAlso halike).agree

theorem agree_getD {t : Table} {scope scope' : Option (Predicate Value)}
    (h : Option.Rel (Predicate.Alike
      (fun column u v => t.Agree (.test column u) (.test column v)) Eq) scope scope') :
    t.Agree (scope.getD .always) (scope'.getD .always) := by
  cases h with
  | none => exact .refl t _
  | some halike => exact halike.agree

/-- A filter makes a load of every relation to several rows. -/
theorem loadsFor_filter (leads : schema.Leads r target) (many : r.isToMany = true) {filter : Value}
    (hfilter : filter ≠ .null)
    (conforms : Conforms schema.types filter (.named target.filterTypeName))
    {c : Predicate Value} (hc : Filter.compile schema.codec target filter = .ok c) :
    schema.LoadsFor Bound target ⟨r.isToMany, ⟨r.relation.fromColumns.map (Record.get []),
      relatedGroup r target filter [] none (some c)⟩⟩ := by
  refine .intro r [] filter [] none leads conforms (fun single => ?_) nofun
    (relatedLoad_eq_ok.2 ⟨_, (relatedCondition_eq_ok hfilter).2 ⟨c, hc, rfl⟩, rfl⟩)
  rw [many] at single
  cases single

/-- A row scope makes a load of every relation. -/
theorem loadsFor_scope (leads : schema.Leads r target) {p : Predicate Value}
    (binds : p.Binds Bound target.name) :
    schema.LoadsFor Bound target ⟨r.isToMany, ⟨r.relation.fromColumns.map (Record.get []),
      relatedGroup r target .null [] (some p) (some p)⟩⟩ := by
  refine .intro r [] .null [] (some p) leads rfl (fun _ => rfl) (fun q hq => ?_)
    (relatedLoad_eq_ok.2 ⟨_, relatedCondition_null, rfl⟩)
  cases hq
  exact binds

namespace SealedSchema

theorem CoalescesSoundly.tellsFloats (sound : schema.CoalescesSoundly Bound) :
    schema.TellsFloats := by
  intro r target leads many f hf hfilter operator x y p q hx hy same hp hq
  exact sound target target _ _
    (loadsFor_filter leads many (Filter.single_ne_null f.name operator x) hx hp)
    (loadsFor_filter leads many (Filter.single_ne_null f.name operator y) hy hq)
    (Group.same_iff.2 ⟨rfl, rfl, rfl, Filter.freeze_single_same same, rfl, rfl⟩)

theorem CoalescesSoundly.tellsScopes (sound : schema.CoalescesSoundly Bound) :
    schema.TellsScopes Bound := by
  rintro r target leads column s t ⟨hs, ht, same⟩
  exact sound target target _ _ (loadsFor_scope leads (Predicate.binds_test hs))
    (loadsFor_scope leads (Predicate.binds_test ht))
    (Group.same_iff.2 ⟨rfl, rfl, rfl, rfl, same, rfl⟩)

/-- Filters and row scopes of one fingerprint are read side by side, down to single tests. -/
theorem coalescesSoundly_of_tells (built : b.build = .ok schema) (floats : schema.TellsFloats)
    (scopes : schema.TellsScopes Bound) : schema.CoalescesSoundly Bound := by
  rintro target target' l l'
    ⟨r, row, filter, orders, scope, leads, conforms, single, binds, loads⟩
    ⟨r', row', filter', orders', scope', leads', conforms', single', binds', loads'⟩ same
  obtain ⟨condition, hcondition, rfl⟩ := relatedLoad_eq_ok.1 loads
  obtain ⟨condition', hcondition', rfl⟩ := relatedLoad_eq_ok.1 loads'
  obtain ⟨hname, -, -, hfilters, hscopes, -⟩ := Group.same_iff.1 same
  obtain rfl := leads.eq_of_name leads' hname
  have hscope := scopes_alike (scopes r target leads) binds binds' hscopes
  by_cases hnull : filter = .null
  · subst hnull
    obtain rfl := eq_null_of_same hfilters
    cases hcondition
    cases hcondition'
    exact agree_getD hscope
  · have hnull' : filter' ≠ .null := by
      rintro rfl
      exact hnull (eq_null_of_same_null hfilters)
    obtain ⟨c, hc, rfl⟩ := (relatedCondition_eq_ok hnull).1 hcondition
    obtain ⟨c', hc', rfl⟩ := (relatedCondition_eq_ok hnull').1 hcondition'
    have many : r.isToMany = true := Bool.of_not_eq_false fun h => hnull (single h)
    exact agree_andAlso (Filter.compile_alike (floats.fieldsAgree built leads many) conforms
      conforms' hfilters hc hc') hscope

end SealedSchema

/--
Loads of one group match the same rows in every table, exactly if single operators of float filters
and single comparisons of row scopes do.
-/
theorem coalescing_sound_iff (built : b.build = .ok schema) (Bound : Value → Prop) :
    schema.CoalescesSoundly Bound ↔ schema.TellsFloats ∧ schema.TellsScopes Bound :=
  ⟨fun sound => ⟨sound.tellsFloats, sound.tellsScopes⟩,
    fun ⟨floats, scopes⟩ => SealedSchema.coalescesSoundly_of_tells built floats scopes⟩

/-! ## Zeros with different signs -/

section Zeros

open Sample Marks

theorem exists_marks : ∃ schema, builder.build = .ok schema :=
  exists_of_isOk (by decide +kernel)

theorem coalescing_sound_iff_marks : ∃ schema, builder.build = .ok schema ∧
    (schema.CoalescesSoundly (fun _ => True) ↔
      schema.TellsFloats ∧ schema.TellsScopes fun _ => True) := by
  obtain ⟨schema, built⟩ := exists_marks
  exact ⟨schema, built, coalescing_sound_iff built _⟩

theorem ofName_float : FilterFamily.ofName "Float" = .ok .float := by
  have found : (FilterFamily.all.find? fun f => f.name.toLower = "Float".toLower) =
      some .float := by
    decide +kernel
  unfold FilterFamily.ofName
  rw [found]

theorem names_marks : context.typeName "note" = "Note" ∧ context.typeName "shop" = "Shop" ∧
    context.fieldName "Note" = "note" ∧ context.fieldName "Shop" = "shop" ∧
    context.fieldName "id" = "id" ∧ context.fieldName "shop_id" = "shopId" ∧
    context.fieldName "mark" = "mark" ∧ context.fieldName "notes" = "notes" := by
  decide +kernel

theorem make_note : Projection.make context noteEntity = .ok note := by
  obtain ⟨type, -, query, -, id, shopId, mark, -⟩ := names_marks
  have fields : noteEntity.visibleColumns.mapM (Projection.columnField context "Note") =
      .ok note.fields := by
    refine mapM_eq_ok.2 (.cons ?_ (.cons ?_ (.cons ?_ .nil)))
    · unfold Projection.columnField
      simp only [column, id]
      rfl
    · unfold Projection.columnField
      simp only [column, shopId]
      rfl
    · unfold Projection.columnField Projection.columnFilter
      simp only [column, mark]
      show (FilterFamily.ofName "Float" >>= _) >>= _ = _
      rw [ofName_float]
      rfl
  rw [Projection.make_eq type fields (by decide +kernel), query]
  rfl

theorem make_shop : Projection.make context shopEntity = .ok shop := by
  obtain ⟨-, type, -, query, id, -, -, notes⟩ := names_marks
  have fields : shopEntity.visibleColumns.mapM (Projection.columnField context "Shop") =
      .ok shop.fields := by
    refine mapM_eq_ok.2 (.cons ?_ .nil)
    unfold Projection.columnField
    simp only [column, id]
    rfl
  have relations : shopEntity.allRelations.map (Projection.relationField context "Shop") =
      [notesField] := by
    show [Projection.relationField context "Shop" Marks.notes] = _
    unfold Projection.relationField
    rw [show Marks.notes.name = "notes" from rfl, notes]
    rfl
  rw [Projection.make_eq type fields (by decide +kernel), query, relations]
  rfl

variable {schema : SealedSchema}

theorem marks_eq (built : builder.build = .ok schema) :
    schema.codec = ⟨[], false⟩ ∧ schema.projections = [shop, note] := by
  obtain ⟨codec, -, projections, -, -⟩ := Builder.build_eq_ok built
  refine ⟨codec, ?_⟩
  have both : builder.entities.mapM (Builder.project builder.context) = .ok [shop, note] :=
    mapM_eq_ok.2 (.cons (Builder.project_eq rfl make_shop)
      (.cons (Builder.project_eq rfl make_note) .nil))
  rw [both] at projections
  exact (Except.ok.inj projections).symm

theorem leads_notes (built : builder.build = .ok schema) : schema.Leads notesField note := by
  obtain ⟨-, projections⟩ := marks_eq built
  unfold SealedSchema.Leads SealedSchema.projection
  rw [projections]
  exact ⟨⟨shop, List.mem_cons_self, List.mem_cons_self⟩, rfl⟩

/-- The zeros are shown with their signs. -/
theorem compile_zero (negative : Bool) : Filter.compile ⟨[], false⟩ note
    (Filter.single "mark" "eq" (zero negative)) =
      .ok (.test "mark" (.compare .eq (.text (if negative then "-0.0" else "0.0")))) := by
  have own : Filter.IsFilterField note mark := ⟨by decide, by decide, rfl⟩
  have operator : Filter.operatorOf mark (.family .float) "eq" = .ok .eq := rfl
  refine (Filter.compile_single own rfl operator (zero negative)).trans ?_
  have shown : (zero negative).shown = if negative then "-0.0" else "0.0" := by
    cases negative <;> decide +kernel
  show Except.ok (Predicate.test "mark" (Test.equals false (.text (zero negative).shown))) = _
  rw [shown]
  rfl

theorem conforms_zero (built : builder.build = .ok schema) (negative : Bool) :
    Conforms schema.types (Filter.single "mark" "eq" (zero negative))
      (.named note.filterTypeName) := by
  have own : Filter.IsFilterField note mark := ⟨by decide, by decide, rfl⟩
  have operand : Conforms schema.types (zero negative) (.named "Float") :=
    (hasLeaf_scalar_iff (Builder.body?_familyScalar built .float)).2 (.inr ⟨zero negative, rfl⟩)
  exact Filter.conforms_filter built (leads_notes built).mem own rfl
    (Builder.inputFields?_family built .float) ⟨_, rfl, operand⟩

/-- Zeros with different signs are of one group, but a text that is one of them is not the other. -/
theorem zeros_coalesced : ∃ schema, builder.build = .ok schema ∧
    ¬schema.CoalescesSoundly fun _ => False := by
  obtain ⟨schema, built⟩ := exists_marks
  refine ⟨schema, built, fun sound => ?_⟩
  obtain ⟨codec, -⟩ := marks_eq built
  have load := fun negative => @loadsFor_filter schema (fun _ => False) notesField note
    (leads_notes built) rfl _ (Filter.single_ne_null "mark" "eq" (zero negative))
    (conforms_zero built negative) _ (codec ▸ compile_zero negative)
  have agree := sound _ _ _ _ (load false) (load true) (Group.same_iff.2
    ⟨rfl, rfl, rfl, Filter.freeze_single_same (by decide +kernel), rfl, rfl⟩) [marked "0.0"]
  unfold SealedSchema.table at agree
  rw [codec] at agree
  exact absurd (congrArg (fun found => found.toOption.map List.length) agree) (by decide +kernel)

end Zeros

end TableGraph
