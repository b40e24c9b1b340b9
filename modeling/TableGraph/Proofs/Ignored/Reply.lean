import TableGraph.Answer.Request
import TableGraph.Proofs.Ignored.Answer
import TableGraph.Proofs.Plans
import TableGraph.Sample.Filtered

/-!
# Replies and columns that clients do not see

A column that is ignored, and that neither a key nor a relation nor a row scope has, is fetched with
every row and shown to nobody.  Two states of a store that differ in its values get the same reply to
every query, `reply_of_unused`, provided that rows can be read back in both states or in none: a
value that cannot be read back makes the whole statement fail, also in a column that is not shown.
-/

namespace TableGraph

open TableGraph.Graph

variable {spot : Spot}

/-! ## States that differ in one column -/

/-- Two states of a table that differ in the cells of one column at most. -/
structure Table.DiffersIn (spot : Spot) (t t' : Table) : Prop where
  name : t'.name = t.name
  columns : t'.columns = t.columns
  key : t'.key = t.key
  rows : List.Forall₂ (Row.Alike spot t.name) t.rows t'.rows

namespace Store

/-- Two states of a store that differ in the cells of one column at most. -/
structure DiffersIn (spot : Spot) (s s' : Store) : Prop where
  returning : s'.returning = s.returning
  isDown : s'.isDown = s.isDown
  missing : s'.missing = s.missing
  tables : List.Forall₂ (Table.DiffersIn spot) s.tables s'.tables

/-- Every row can be read back in both states or in none. -/
def ReadableAlike (s s' : Store) : Prop :=
  List.Forall₂ (fun t t' : Table => List.Forall₂ (fun r r' =>
    (t.read r).isOk = (t'.read r').isOk) t.rows t'.rows) s.tables s'.tables

end Store

/-! ## Schemas that hide a column -/

namespace SealedSchema

variable {schema : SealedSchema} {name : String}

/-- What can be shown of a schema: fields of other columns, and relations that match other ones. -/
structure Hides (schema : SealedSchema) (spot : Spot) : Prop where
  fields : ∀ p ∈ schema.projections, ∀ f ∈ p.fields, spot.Clear p.name f.column.name
  relations : ∀ p ∈ schema.projections, ∀ r ∈ p.relations, r.relation.Clear spot p.name

/-- The fields of an entity hide a column that the schema hides. -/
theorem Hides.clear (hides : schema.Hides spot) (h : schema.Owns name f) : f.Clear spot name := by
  obtain ⟨fname, arguments, type, source⟩ := f
  cases source with
  | column c =>
    obtain ⟨p, hp, rfl, hc⟩ := h
    exact hides.fields p hp c hc
  | relation r target =>
    obtain ⟨htarget, p, hp, rfl, hr⟩ := h
    exact ⟨htarget, hides.relations p hp r hr⟩
  | _ => trivial

end SealedSchema

namespace Builder

variable {b : Builder} {schema : SealedSchema}

/-- Clients do not see the column, and no key and no relation has it. -/
structure Unused (b : Builder) (spot : Spot) : Prop where
  ignored : ∀ e ∈ b.entities, ∀ c ∈ e.columns, e.name = spot.entity → c.name = spot.column →
    c.ignored = true
  keys : ∀ e ∈ b.entities, ∀ k ∈ e.primaryKey, spot.Clear e.name k
  relations : ∀ e ∈ b.entities, ∀ r ∈ e.relations, r.Clear spot e.name

/-- A relation matches other columns, and so does the one that walks it backwards. -/
theorem Unused.allRelations (unused : b.Unused spot) {e : Entity} (he : e ∈ b.entities)
    {r : Relation} (hr : r ∈ e.allRelations) : r.Clear spot e.name := by
  rcases List.mem_append.1 hr with hr | hr
  · exact unused.relations e he r hr
  · obtain ⟨forth, hforth, rfl⟩ := List.mem_map.1 hr
    obtain ⟨hforth, back⟩ := List.mem_filter.1 hforth
    have leads : forth.target = e.name := by
      unfold Entity.hasCompanion at back
      rw [Bool.and_eq_true, decide_eq_true_iff] at back
      exact back.1
    obtain ⟨sources, targets, -⟩ := unused.relations e he forth hforth
    exact ⟨leads ▸ targets, leads ▸ sources, nofun⟩

/-- What is built shows no unused column. -/
theorem Unused.hides (unused : b.Unused spot) (built : b.build = .ok schema) :
    schema.Hides spot where
  fields := by
    intro p hp f hf hname hcolumn
    obtain ⟨he, shows⟩ := shows_entity built hp
    have visible := (List.mem_filter.1 (shows.column_of_mem hf).1).2
    rw [unused.ignored p.entity he f.column (shows.mem_columns hf) hname hcolumn] at visible
    cases visible
  relations := by
    intro p hp r hr
    obtain ⟨he, shows⟩ := shows_entity built hp
    rw [shows.relations] at hr
    obtain ⟨relation, hrelation, rfl⟩ := List.mem_map.1 hr
    exact unused.allRelations he hrelation

theorem Unused.alike (unused : b.Unused spot) (built : b.build = .ok schema) {s s' : Store}
    (serves : s.Serves schema) (differ : s.DiffersIn spot s') (readable : s.ReadableAlike s') :
    s.Alike spot s' := by
  obtain ⟨returning, isDown, missing, tables⟩ := differ
  refine ⟨returning, isDown, missing, ?_⟩
  have keys : ∀ t ∈ s.tables, ∀ k ∈ t.key, spot.Clear t.name k := by
    intro t ht k hk
    obtain ⟨p, hp, hname, keeps⟩ := exists_of_forall₂ serves.flip ht
    rw [hname]
    exact unused.keys p.entity (shows_entity built hp).1 k (keeps.mem_key.1 hk)
  refine forall₂_imp_mem (forall₂_and tables readable) fun t ht t' _ ⟨differ, readable⟩ => ?_
  refine ⟨differ.name, differ.columns, differ.key, keys t ht, ?_⟩
  rw [Table.read_congr differ.columns] at readable
  exact forall₂_and differ.rows readable

end Builder

/-! ## Plans -/

namespace Answer

variable {b : Builder} {schema : SealedSchema} {env : Environment} {s s' : Store}

mutual

theorem clear_iff_along (p : Planned) (rows : Option String) : Planned.Clear spot p rows ↔
    Planned.Along (fun rows f => ∀ name, rows = some name → f.Clear spot name) p rows := by
  obtain ⟨key, field, arguments, written, refusal, selections⟩ := p
  exact and_congr_right' (allClear_iff_along selections _)
termination_by structural p

theorem allClear_iff_along (ps : List Planned) (rows : Option String) :
    Planned.AllClear spot ps rows ↔
      Planned.AllAlong (fun rows f => ∀ name, rows = some name → f.Clear spot name) ps rows := by
  cases ps with
  | nil => exact iff_of_true trivial trivial
  | cons p ps => exact and_congr (clear_iff_along p rows) (allClear_iff_along ps rows)
termination_by structural ps

end

/-- Below the root of queries, nothing shows the column. -/
theorem clear_below_root (built : b.build = .ok schema) (hides : schema.Hides spot)
    {bindings : Variables} {depth : Nat} {selections : List Selection} {ps : List Planned}
    (h : planFields schema.types bindings depth queryName selections = .ok ps) :
    ∀ p ∈ ps, IsRoot schema p.field ∧ Planned.AllClear spot p.selections (rootRows p.field) := by
  intro p hp
  obtain ⟨root, along⟩ := along_below_root
    (F := fun rows f => ∀ name, rows = some name → f.Clear spot name) built (fun _ => nofun)
    (fun _ _ owns _ same => Option.some.inj same ▸ hides.clear owns) h p hp
  exact ⟨root, (allClear_iff_along _ _).2 along⟩

/-! ## Readings -/

theorem mem_fields_of_field {p : Projection} {name : String} {f : ColumnField}
    (h : p.field name = .ok f) : f ∈ p.fields := by
  unfold Projection.field at h
  split at h
  next hfind =>
    cases h
    exact List.mem_of_find?_eq_some hfind
  next => cases h

variable (henv : env.Clear spot) (stores : s.Alike spot s')
include henv stores

theorem ofPage_alike {p : Projection} (hp : p ∈ env.schema.projections) {a : Arguments}
    {r : Reading} (h : Reading.ofPage env p a = .ok r) :
    Counted.Both (Item.Alike spot (some p.name)) (r.run env.schema.codec s)
      (r.run env.schema.codec s') := by
  obtain ⟨_, -, h⟩ := bind_eq_ok.1 h
  obtain ⟨request, -, h⟩ := bind_eq_ok.1 h
  obtain ⟨orders, horders, h⟩ := bind_eq_ok.1 h
  obtain ⟨scope, hscope, h⟩ := bind_eq_ok.1 h
  obtain ⟨condition, hcondition, h⟩ := bind_eq_ok.1 h
  cases h
  have fields := henv.fields p hp
  have covered := Predicate.over_andAlso (Filter.over_of_compile fields hcondition)
    fun q hq => henv.scopes env (.refl env) p hp q (hq ▸ hscope)
  have clear : spot.ClearOrders p.name orders := by
    intro o ho
    obtain ⟨f, hf, hname, -⟩ := Order.field_of_ofValue horders o ho
    exact hname ▸ fields f hf
  exact (Query.connection_alike stores (henv.keys p hp) covered clear request).map
    fun c c' alike => .connection rfl alike

theorem ofKey_alike {p : Projection} (hp : p ∈ env.schema.projections) {a : Arguments}
    {r : Reading} (h : Reading.ofKey env p a = .ok r) :
    Counted.Both (Item.Alike spot (some p.name)) (r.run env.schema.codec s)
      (r.run env.schema.codec s') := by
  obtain ⟨_, -, h⟩ := bind_eq_ok.1 h
  obtain ⟨key, hkey, h⟩ := bind_eq_ok.1 h
  obtain ⟨scope, hscope, h⟩ := bind_eq_ok.1 h
  cases h
  have given : ∀ x ∈ key, spot.Clear p.name x.1 := by
    intro x hx
    obtain ⟨argument, -, hargument⟩ := mem_of_mapM hkey hx
    obtain ⟨f, hf, hargument⟩ := bind_eq_ok.1 hargument
    obtain ⟨v, -, hargument⟩ := bind_eq_ok.1 hargument
    cases hargument
    exact henv.fields p hp f (mem_fields_of_field hf)
  have covered : ∀ q, scope = some q → q.Over (spot.Clear p.name) :=
    fun q hq => henv.scopes env (.refl env) p hp q (hq ▸ hscope)
  exact (Query.byKey_alike stores given covered).map fun found found' alike => Item.alike_ofRow? alike

/-- What a field of the root reads is alike in both states. -/
theorem ofField_alike {f : OutputField} (hf : IsRoot env.schema f) {a : Arguments} {r : Reading}
    (h : Reading.ofField env f a = .ok r) :
    Counted.Both (Item.Alike spot (rootRows f)) (r.run env.schema.codec s)
      (r.run env.schema.codec s') := by
  unfold Reading.ofField at h
  unfold rootRows
  cases hf with
  | typeName =>
    cases h
    exact .pure (.value _)
  | page known source =>
    rw [source] at h ⊢
    exact ofPage_alike henv stores known h
  | row known source =>
    rw [source] at h ⊢
    exact ofKey_alike henv stores known h

/-! ## Roots -/

theorem showRoot_alike (p : Planned) {rows : Option String}
    (hp : Planned.AllClear spot p.selections rows) {found found' : Counted Item}
    (h : Counted.Both (Item.Alike spot rows) found found') {l l' : Loaded} (hl : l.Alike spot l')
    (n : Nat) : (showRoot env s p found l n).1 = (showRoot env s' p found' l' n).1 ∧
      (showRoot env s p found l n).2.1.Alike spot (showRoot env s' p found' l' n).2.1 ∧
      (showRoot env s p found l n).2.2 = (showRoot env s' p found' l' n).2.2 := by
  have run := h n
  unfold showRoot
  generalize found.run n = x, found'.run n = x' at run
  cases run with
  | error f => exact ⟨rfl, hl, rfl⟩
  | @ok a a' related =>
    obtain ⟨item, m⟩ := a
    obtain ⟨item', m'⟩ := a'
    obtain ⟨alike, same⟩ := related
    dsimp only at alike same
    subst same
    obtain ⟨report, loaded, count⟩ := Fetch.run_alike stores
      (afterwards_alike (showFound_alike henv p hp alike (rootPath p) hl)) hl m
    dsimp only
    rw [report]
    exact ⟨rfl, loaded, count⟩

/-- What is read for the field is alike in both states, and nothing below it shows the column. -/
def Prepared.Alike (spot : Spot) (codec : Codec) (s s' : Store) (q : Prepared) : Prop :=
  ∃ rows, Planned.AllClear spot q.planned.selections rows ∧ ∀ r, q.reading = some r →
    Counted.Both (Item.Alike spot rows) (r.run codec s) (r.run codec s')

/-- The fields of the root are answered alike, one after another. -/
theorem readRoots_alike {qs : List Prepared}
    (hqs : ∀ q ∈ qs, q.Alike spot env.schema.codec s s') {l l' : Loaded} (hl : l.Alike spot l')
    (n : Nat) : (readRoots env s qs l n).1 = (readRoots env s' qs l' n).1 ∧
      (readRoots env s qs l n).2.2 = (readRoots env s' qs l' n).2.2 := by
  induction qs generalizing l l' n with
  | nil => exact ⟨rfl, rfl⟩
  | cons q qs ih =>
    obtain ⟨rows, clear, alike⟩ := hqs q List.mem_cons_self
    have rest := fun {l l' : Loaded} => @ih (fun q hq => hqs q (List.mem_cons_of_mem _ hq)) l l'
    unfold readRoots
    cases hreading : q.reading with
    | none =>
      obtain ⟨report, count⟩ := rest hl n
      dsimp only [Report.ofValue]
      rw [report]
      exact ⟨rfl, count⟩
    | some r =>
      obtain ⟨own, loaded, count⟩ := showRoot_alike henv stores q.planned clear
        (alike r hreading) hl n
      dsimp only
      rw [own]
      split
      · exact ⟨rfl, count⟩
      · obtain ⟨report, count'⟩ := rest loaded _
        rw [← count, report]
        exact ⟨rfl, count'⟩

/-- A query is answered alike in both states, with as many statements. -/
theorem answerQuery_alike {fields : List Planned}
    (hfields : ∀ p ∈ fields, IsRoot env.schema p.field ∧
      Planned.AllClear spot p.selections (rootRows p.field)) :
    answerQuery env s fields = answerQuery env s' fields := by
  rw [answerQuery_eq, answerQuery_eq]
  split
  next => rfl
  next qs hqs =>
    have prepared : ∀ q ∈ qs, q.Alike spot env.schema.codec s s' := by
      intro q hq
      obtain ⟨known, reads⟩ := mem_prepareRoots hqs hq
      obtain ⟨root, clear⟩ := hfields q.planned known
      refine ⟨_, clear, fun r hr => ?_⟩
      obtain ⟨a, env', entered, ha⟩ := reads r hr
      rw [← entered.schema_eq] at root ⊢
      exact ofField_alike (henv.enter entered) stores root ha
    obtain ⟨report, count⟩ := readRoots_alike henv stores prepared
      (List.Forall₂.nil : Loaded.Alike spot [] []) 0
    rw [report, count]

end Answer

/-! ## Replies -/

namespace Answer

/-- The operation that is meant, if there is one, is a query. -/
def Request.IsQuery (r : Request) : Prop :=
  ∀ d, Document.ofText r.document = .ok d → ∀ o, d.operation? r.operation = some o →
    o.kind = .query

variable {b : Builder} {schema : SealedSchema} {s s' : Store}

/--
Two states of a store that differ in the values of a column that is not used get the same reply to a
query, provided that each row can be read back in both states or in none.
-/
theorem reply_of_unused (built : b.build = .ok schema) (unused : b.Unused spot)
    (serves : s.Serves schema) (differ : s.DiffersIn spot s') (readable : s.ReadableAlike s')
    {r : Request} (query : r.IsQuery)
    (scopes : ∀ call : FieldCall, call.extra = r.extra → call.bindings = r.bindings →
      ∀ p ∈ schema.projections, ∀ q, Environment.scope ⟨schema, call⟩ p .read = .ok (some q) →
        q.Over (spot.Clear p.name)) :
    (reply schema s r).1 = (reply schema s' r).1 := by
  have hides := unused.hides built
  have henv : Environment.Clear spot ⟨schema, { extra := r.extra, bindings := r.bindings }⟩ := by
    refine ⟨hides.fields, fun p hp => ?_, ?_⟩
    · exact unused.keys p.entity (Builder.shows_entity built hp).1
    · rintro _ ⟨typeName, field, path, rfl⟩
      exact scopes _ rfl rfl
  have stores := unused.alike built serves differ readable
  unfold reply
  cases hdocument : Document.ofText r.document with
  | error f => rfl
  | ok d =>
    dsimp only
    split_ifs
    · rfl
    cases hplan : d.plan? schema.types r.operation r.bindings with
    | none => rfl
    | some plan =>
      obtain ⟨o, ho, hplan⟩ := Option.bind_eq_some_iff.1 hplan
      obtain ⟨used, -, hplan⟩ := Option.bind_eq_some_iff.1 hplan
      obtain ⟨fields, hfields, hplan⟩ := Option.bind_eq_some_iff.1 hplan
      cases hplan
      have kind := query d hdocument o ho
      have root : o.root = queryName := by
        unfold OperationDefinition.root
        rw [kind]
      rw [root] at hfields
      have same := answerQuery_alike henv stores
        (clear_below_root built hides (eq_ok_of_toOption hfields))
      unfold runPlan
      rw [kind]
      dsimp only
      rw [same]

section Moods

open Sample.Moods

theorem ofText_request : Document.ofText request.document = .ok document := by
  with_unfolding_all rfl

theorem isQuery_request : request.IsQuery := by
  intro d hd o ho
  rw [ofText_request] at hd
  cases hd
  cases ho
  rfl

theorem unused_moods : builder.Unused ⟨"item", "mood"⟩ where
  ignored := by
    show ∀ e ∈ [entity], _
    rw [List.forall_mem_singleton]
    decide
  keys := by
    show ∀ e ∈ [entity], ∀ k ∈ e.primaryKey, _ → _
    rw [List.forall_mem_singleton]
    decide
  relations := by
    show ∀ e ∈ [entity], ∀ r ∈ e.relations, _
    rw [List.forall_mem_singleton]
    exact nofun

theorem differsIn_moods (mood mood' : String) :
    (store mood).DiffersIn ⟨"item", "mood"⟩ (store mood') := by
  refine ⟨rfl, rfl, rfl, .cons ⟨rfl, rfl, rfl, .cons (fun column clear => ?_) .nil⟩ .nil⟩
  have other : (column == "mood") = false := beq_false_of_ne (clear rfl)
  simp only [Row.get, List.lookup_cons, other]

theorem serves_moods (built : builder.build = .ok schema) (mood : String) :
    (store mood).Serves schema := by
  obtain ⟨codec, -, projections, -⟩ := Builder.build_eq_ok built
  obtain ⟨p, _, hp, hnil, hprojections⟩ := List.forall₂_cons_left_iff.1 (mapM_eq_ok.1 projections)
  have shows := Builder.shows_of_project hp
  cases hnil
  unfold Store.Serves
  rw [hprojections, codec]
  refine .cons ⟨congrArg (·.name) shows.entity.symm, ?_⟩ .nil
  rw [shows.entity]
  exact Table.keeps_ofEntity [moods] entity _

theorem scopes_moods (built : builder.build = .ok schema) (call : FieldCall) :
    ∀ p ∈ schema.projections, ∀ q, Environment.scope ⟨schema, call⟩ p .read = .ok (some q) →
      q.Over (Spot.Clear ⟨"item", "mood"⟩ p.name) := by
  intro p _ q hq
  obtain ⟨hcontext, -⟩ := Builder.roots_of_build built
  unfold Environment.scope at hq
  rw [hcontext] at hq
  cases hq

theorem exists_moods : ∃ schema, builder.build = .ok schema :=
  exists_of_isOk (by decide +kernel)

/-- Nobody is told whether an item is happy or sad. -/
theorem reply_of_unused_moods : ∃ schema, builder.build = .ok schema ∧
    (reply schema (store "happy") request).1 = (reply schema (store "sad") request).1 := by
  obtain ⟨schema, built⟩ := exists_moods
  exact ⟨schema, built, reply_of_unused built unused_moods (serves_moods built _)
    (differsIn_moods _ _) (.cons (.cons (by decide +kernel) .nil) .nil) isQuery_request
    fun call _ _ => scopes_moods built call⟩

/-- A mood that is none makes the reply empty. -/
theorem isEmpty_moods (built : builder.build = .ok schema) :
    isEmpty (reply schema (store "happy") request).1 = false ∧
      isEmpty (reply schema (store "angry") request).1 = true := by
  have evaluated : ∀ mood empty, (do
      let s ← builder.build.toOption
      some (isEmpty (reply s (store mood) request).1)) = some empty →
      isEmpty (reply schema (store mood) request).1 = empty := by
    intro mood empty h
    rw [built] at h
    exact Option.some.inj h
  have given : request.bindings = [] ∧ request.operation = none := ⟨rfl, rfl⟩
  have plain : Selection.spreadsOfAll operation.selections = [] := rfl
  refine ⟨evaluated _ _ ?_, evaluated _ _ ?_⟩ <;>
  · unfold reply
    simp only [ofText_request, document, Document.isValid_one, Document.plan?_one plain,
      Document.operationFits, Document.expanded_one plain, given]
    decide +kernel

/--
A mood that the enumeration does not have is told from one that it has, although clients see no
moods and nothing else uses them.
-/
theorem unreadable_mood_revealed : ∃ schema, builder.build = .ok schema ∧
    builder.Unused ⟨"item", "mood"⟩ ∧ (store "happy").Serves schema ∧
    (store "angry").Serves schema ∧ (store "happy").DiffersIn ⟨"item", "mood"⟩ (store "angry") ∧
    request.IsQuery ∧ schema.context.scopes = [] ∧
    (reply schema (store "happy") request).1 ≠ (reply schema (store "angry") request).1 := by
  obtain ⟨schema, built⟩ := exists_moods
  obtain ⟨shown, empty⟩ := isEmpty_moods built
  obtain ⟨hcontext, -⟩ := Builder.roots_of_build built
  refine ⟨schema, built, unused_moods, serves_moods built _, serves_moods built _,
    differsIn_moods _ _, isQuery_request, hcontext ▸ rfl, fun same => ?_⟩
  rw [same, empty] at shown
  cases shown

end Moods

end Answer

end TableGraph
