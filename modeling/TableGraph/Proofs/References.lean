import TableGraph.Answer.Request
import TableGraph.Proofs.Load.Plain
import TableGraph.Proofs.Plans
import TableGraph.Proofs.Scope.Kept
import TableGraph.Sample.Registered

/-!
# Required references

The field of a relation to a single row must not be null if the relation belongs to its target and
is not optional.  That is settled by the relation alone; the row is looked up later, with the rows
of other keys and under the row scope of the target.

Main statement: `required_null_iff`.  In a store that keeps its references, such a field is null,
and so fails, exactly for the rows whose reference the row scope hides, if row scopes that are
written alike are one; `hidden_clerk_fails` is a request that gets no data at all for that.  What is
loaded for single rows while a query is answered is right at any time (`finds_readRoots`), because
batches find a row for a key exactly if there is one (`rowsOf_eq_nil_iff`) and keys that are the
same find rows both or neither (`finds_iff_of_same`).
-/

namespace TableGraph

open TableGraph.Graph

/-! ## Keys that are found -/

namespace Load

variable {s : Store} {g : Group} {k k' : LoadKey} {keys : List LoadKey} {t u : Table}

/-- Some row that holds the key leads to a row of the group. -/
def Finds (s : Store) (k : LoadKey) : Prop :=
  ∃ t u, s.table k.group.target = .ok t ∧ s.table k.group.holder = .ok u ∧
    ∃ l ∈ u.rows, Leads k.group t (t.Accepts (k.group.condition.getD .always)) l ∧
      u.Accepts (isKey k.group.keyColumns k.values) l

theorem finds_iff_of_tables (ht : s.table k.group.target = .ok t)
    (hu : s.table k.group.holder = .ok u) : Finds s k ↔
      ∃ l ∈ u.rows, Leads k.group t (t.Accepts (k.group.condition.getD .always)) l ∧
        u.Accepts (isKey k.group.keyColumns k.values) l := by
  constructor
  · rintro ⟨t', u', ht', hu', h⟩
    rw [ht] at ht'
    rw [hu] at hu'
    cases ht'
    cases hu'
    exact h
  · exact fun h => ⟨t, u, ht, hu, h⟩

theorem eq_of_holder (ht : s.table g.target = .ok t) (hu : s.table g.holder = .ok u)
    (hg : g.junction = none) : u = t := by
  rw [(holder_direct hg).1, ht] at hu
  exact (Except.ok.inj hu).symm

/-- A batch finds nothing for a key that it tells the rows of, exactly if there is nothing. -/
theorem rowsOf_eq_nil_iff {found : List (Group × List Found)}
    (collected : Collected s keys (groups keys) found) (htells : Tells s keys k) (hk : k ∈ keys)
    (hself : k.group.same k.group) (hnull : k.hasNull = false)
    (hequal : ∀ k' ∈ keys, k'.group.same k.group → k'.group = k.group)
    (hread : ∀ t ∈ s.tables, ∀ r ∈ t.rows, ∃ record, t.read r = .ok record) :
    rowsOf found k = [] ↔ ¬ Finds s k := by
  obtain ⟨g, hg⟩ := exists_group hself hk
  obtain ⟨rows, hrows, hrowsOf⟩ := rowsOf_eq collected hg
  have fellow := mem_fellows hg hk
  rw [← fellows_eq hg] at hrows
  -- the group that the key is loaded with is its own, condition included
  obtain rfl : g = k.group := by
    obtain ⟨k', hk', rfl⟩ := mem_groups (List.mem_of_find?_eq_some hg)
    exact hequal k' hk' (same_of_find? hg)
  have hne : (wanted (fellows keys k)).map (·.values) ≠ [] := fun h => by
    rw [wanted_eq_nil.1 (List.map_eq_nil_iff.1 h) k fellow] at hnull
    cases hnull
  obtain ⟨t, u, accepts, p, ht, hu, hbind, hp, hjoined⟩ := exists_of_collect hrows hne
  have readable : ∀ {name} {t : Table}, s.table name = .ok t →
      ∀ r ∈ t.rows, ∃ record, t.read r = .ok record := fun h =>
    hread _ (List.mem_of_find?_eq_some (Store.table_eq_ok.1 h).2)
  rw [collect_eq ht hu hbind (readable ht) (readable hu) rfl hne rfl hjoined hp] at hrows
  cases hrows
  obtain ⟨_, hkeyed, htold⟩ := htells hne t u ht hu
  rw [Table.keyed_eq, hp] at hkeyed
  cases hkeyed
  rw [hrowsOf, handed_eq, List.map_eq_nil_iff, ← not_iff_not, not_not, ← ne_eq,
    pairs_ne_nil_iff (eq_of_holder ht hu), finds_iff_of_tables ht hu]
  refine exists_congr fun l => and_congr_right fun hl => ?_
  rw [leads_iff hbind]
  refine and_congr_right fun hleads => ?_
  have told := htold l hl ((leads_iff hbind).2 hleads)
  rw [List.mem_filter, and_iff_right hl, and_iff_right hnull] at told
  rw [Bool.and_eq_true]
  exact told

/-! ## One key as another -/

/-- A cell equals what a value is bound to exactly if the comparison with the value accepts it. -/
theorem compared_iff {column : String} {type : SqlType} {v : Value} {c : Cell} {l : Row}
    (htype : u.typeOf column = .ok type) (hc : type.bindOperand v = .ok c) :
    ((l.get column).isNull = false ∧
      (l.get column).order (c.operand (.ofType type)) = .eq) ↔
      u.Accepts (.test column (.compare .eq v)) l := by
  have bound : (Test.compare .eq v).bind type = .ok (.compare .eq (c.operand (.ofType type))) := by
    unfold Test.bind
    dsimp only
    rw [hc]
    rfl
  rw [Table.accepts_test]
  constructor
  · rintro ⟨hnull, heq⟩
    exact ⟨type, _, htype, bound, Test.compared_eq_true.2
      ⟨hnull, Cell.isNull_of_order heq ▸ hnull, beq_iff_eq.2 heq⟩⟩
  · rintro ⟨_, _, htype', hbind, hholds⟩
    cases htype.symm.trans htype'
    cases bound.symm.trans hbind
    obtain ⟨hnull, -, heq⟩ := Test.compared_eq_true.1 hholds
    exact ⟨hnull, beq_iff_eq.1 heq⟩

/-- The test for a single key is the condition that columns have its values. -/
theorem keyTest_singleton {columns : List String} {values : List Value} {p : Row → Bool}
    (hp : u.keyTest columns [values] = .ok p) (hnull : values.any (·.isNull) = false) {l : Row} :
    p l ↔ u.Accepts (isKey columns values) l := by
  obtain ⟨types, htypes, htest⟩ := bind_eq_ok.1 hp
  obtain ⟨cells, hcells, htest⟩ := bind_eq_ok.1 htest
  cases htest
  obtain ⟨key, _, hkey, hrest, rfl⟩ := List.forall₂_cons_left_iff.1 (mapM_eq_ok.1 hcells)
  cases hrest
  dsimp only
  rw [List.any_cons, List.any_nil, Bool.or_false]
  unfold isKey Table.sameCells
  rw [Table.accepts_allOf]
  replace htypes := mapM_eq_ok.1 htypes
  clear hcells hp htest
  induction htypes generalizing values key with
  | nil => exact iff_of_true rfl nofun
  | @cons c type columns types htype _ ih =>
    cases values with
    | nil =>
      cases hkey
      exact iff_of_true rfl nofun
    | cons v values =>
      rw [List.any_cons, Bool.or_eq_false_iff] at hnull
      obtain ⟨cell, rest, hcell, hrest, rfl⟩ := List.forall₂_cons_left_iff.1 (mapM_eq_ok.1 hkey)
      rw [List.map_cons, List.zip_cons_cons, List.zip_cons_cons, List.map_cons,
        List.forall_mem_cons, List.all_cons, Bool.and_eq_true]
      refine and_congr ?_ (ih hnull.2 rest (mapM_eq_ok.2 hrest))
      have operand : ∃ c', type.bindOperand v = .ok c' ∧ cell = c'.operand (.ofType type) := by
        cases v with
        | null => cases hnull.1
        | _ =>
          obtain ⟨c', hc', rfl⟩ := map_eq_ok.1 hcell
          exact ⟨c', hc', rfl⟩
      obtain ⟨c', hc', rfl⟩ := operand
      dsimp only
      rw [Bool.and_eq_true, Bool.not_eq_true', beq_iff_eq]
      exact compared_iff htype hc'

/-- Of two keys that are the same, a batch wants the first. -/
theorem wanted_pair (hsame : sameKey k'.identity k.identity) (hnull : k.hasNull = false) :
    wanted [k', k] = [k'] := by
  have hnull' : k'.hasNull = false := (any_isNull_of_sameKey hsame).trans hnull
  have single : wanted [k] = [k] := by
    rw [wanted_cons, if_neg (Bool.eq_false_iff.1 hnull)]
    rfl
  rw [wanted_cons, if_neg (Bool.eq_false_iff.1 hnull'), single,
    List.filter_cons_of_neg (by rw [hsame]; exact Bool.false_ne_true)]
  rfl

/-- Keys that are the same find rows both or neither, if a batch of both tells their rows. -/
theorem finds_iff_of_same (htells : ∀ l ∈ [k', k], Tells s [k', k] l)
    (hgroup : k'.group = k.group) (hself : k.group.same k.group)
    (hsame : sameKey k'.identity k.identity) (hnull : k.hasNull = false) :
    Finds s k' ↔ Finds s k := by
  -- the batch of both keys asks for the values of the first alone
  have hnull' : k'.hasNull = false := (any_isNull_of_sameKey hsame).trans hnull
  have hg : (groups [k', k]).find? (·.same k.group) = some k.group := by
    rw [← hgroup]
    exact List.find?_cons_of_pos (hgroup ▸ hself)
  have whole : [k', k].filter (fun l => k.group.same l.group) = [k', k] := by
    rw [List.filter_eq_self, List.forall_mem_cons, List.forall_mem_singleton, hgroup]
    exact ⟨hself, hself⟩
  have values : ∀ l, l.group = k.group →
      (wanted (fellows [k', k] l)).map (·.values) = [k'.values] := by
    intro l hl
    rw [← hl] at hg whole
    rw [fellows_eq hg, whole, wanted_pair hsame hnull]
    rfl
  obtain ⟨told', told⟩ := List.forall_mem_cons.1 htells
  rw [List.forall_mem_singleton] at told
  unfold Tells at told told'
  rw [values k rfl] at told
  rw [values k' hgroup, hgroup] at told'
  unfold Finds
  rw [hgroup]
  refine exists₂_congr fun t u => and_congr_right fun ht => and_congr_right fun hu =>
    exists_congr fun l => and_congr_right fun hl => and_congr_right fun hleads => ?_
  obtain ⟨rows, hrows, told⟩ := told (List.cons_ne_nil _ _) t u ht hu
  obtain ⟨rows', hrows', told'⟩ := told' (List.cons_ne_nil _ _) t u ht hu
  rw [hrows] at hrows'
  cases hrows'
  rw [Table.keyed_eq] at hrows
  obtain ⟨p, hp, rfl⟩ := map_eq_ok.1 hrows
  have found := keyTest_singleton hp hnull' (l := l)
  have told := told l hl hleads
  have told' := told' l hl hleads
  rw [List.mem_filter, and_iff_right hl, found] at told told'
  -- being the same part of a key is transitive, but need not be symmetric
  constructor
  · intro h
    exact (told.1 ⟨h, sameKey_trans (told'.2 ⟨hnull', h⟩).2 hsame⟩).2
  · intro h
    exact (told.2 ⟨hnull, h⟩).1

end Load

/-! ## References -/

/-- The relation leads from each row to one of the target. -/
def RelationField.Required (r : RelationField) : Prop :=
  r.relation.kind = .belongsTo ∧ r.relation.optional = false

namespace Store

variable {s : Store} {name : String} {r : RelationField} {target : Projection} {row : Record}
  {scope : Option (Predicate Value)}

theorem Shows.stored (h : s.Shows name scope row) : s.Shows name none row := by
  obtain ⟨t, ht, l, hl, hread, -⟩ := h
  exact ⟨t, ht, l, hl, hread, nofun⟩

/-- The row refers to a row of the target that the scope lets through. -/
def Refers (s : Store) (r : RelationField) (target : Projection) (scope : Option (Predicate Value))
    (row : Record) : Prop :=
  Load.Finds s ⟨r.relation.fromColumns.map row.get, relatedGroup r target .null [] scope scope⟩

/-- Without a junction, the row that is referred to has the values in its own columns. -/
theorem refers_iff (direct : r.relation.junction = none) : s.Refers r target scope row ↔
    ∃ t, s.table target.name = .ok t ∧ ∃ l ∈ t.rows, t.Within scope l ∧
      t.Accepts (Load.isKey r.relation.toColumns (r.relation.fromColumns.map row.get)) l := by
  obtain ⟨hholder, hcolumns⟩ :=
    Load.holder_direct (g := relatedGroup r target .null [] scope scope) direct
  have leads : ∀ t l, Load.Leads (relatedGroup r target .null [] scope scope) t
      (t.Accepts (scope.getD .always)) l ↔ t.Within scope l := by
    intro t l
    unfold Load.Leads relatedGroup
    rw [direct]
    cases scope with
    | none => exact iff_of_true ⟨_, rfl, rfl⟩ nofun
    | some c => exact ⟨fun h _ same => Option.some.inj same ▸ h, fun h => h c rfl⟩
  unfold Refers Load.Finds
  dsimp only
  rw [hholder, hcolumns]
  constructor
  · rintro ⟨t, u, ht, hu, l, hl, hleads, hkey⟩
    rw [ht] at hu
    cases hu
    exact ⟨t, ht, l, hl, (leads t l).1 hleads, hkey⟩
  · rintro ⟨t, ht, l, hl, hwithin, hkey⟩
    exact ⟨t, t, ht, ht, l, hl, (leads t l).2 hwithin, hkey⟩

/-- Every row refers to one of the target by each relation that is required. -/
structure KeepsReferences (s : Store) (schema : SealedSchema) : Prop where
  notNull : ∀ p ∈ schema.projections, ∀ r ∈ p.relations, r.Required →
    ∀ row, s.Shows p.name none row → (r.relation.fromColumns.map row.get).any (·.isNull) = false
  refers : ∀ p ∈ schema.projections, ∀ r ∈ p.relations, r.Required →
    ∀ target, schema.projection r.relation.target = .ok target →
      ∀ row, s.Shows p.name none row → s.Refers r target none row

end Store

theorem isNonNull_relationOutput {r : RelationField} {target : Projection}
    (single : r.isToMany = false) : (relationOutput r target).type.isNonNull ↔ r.Required := by
  unfold relationOutput RelationField.Required plainField maybeNonNull
  rw [if_neg (Bool.eq_false_iff.1 single)]
  dsimp only
  by_cases h : r.relation.kind = .belongsTo ∧ r.relation.optional = false
  · simp [h, TypeRef.isNonNull]
  · simp [h, TypeRef.isNonNull]

namespace Answer

variable {env : Environment} {s : Store} {r : RelationField} {target : Projection} {row : Record}
  {a : Arguments} {rel : Related}

/-- What the field of a relation to a single row loads. -/
theorem related_single (single : r.isToMany = false) (h : related env r target row a = .ok rel) :
    ∃ scope, env.scope target .read = .ok scope ∧
      rel.load = ⟨false, ⟨r.relation.fromColumns.map row.get,
        relatedGroup r target .null [] scope scope⟩⟩ := by
  obtain ⟨scope, hscope, asked⟩ := asked_of_related h
  cases asked with
  | page many => exact absurd single (Bool.not_eq_false _ ▸ many)
  | one _ loads =>
    obtain ⟨_, hcondition, rfl⟩ := relatedLoad_eq_ok.1 loads
    cases hcondition
    rw [single]
    exact ⟨scope, hscope, rfl⟩

/-- For fields of a request, row scopes of an entity that are written alike are one condition. -/
def Environment.TellsApart (env : Environment) (p : Projection) : Prop :=
  ∀ env₁ env₂ scope₁ scope₂, env.Enters env₁ → env.Enters env₂ →
    env₁.scope p .read = .ok scope₁ → env₂.scope p .read = .ok scope₂ →
    Scope.WrittenAlike p.name scope₁ scope₂ → scope₁ = scope₂

/-- The load is that of a relation to a single row, for a row of the store. -/
inductive LoadsOne (env : Environment) (s : Store) : Load → Prop
  | intro {p : Projection} {r : RelationField} {target : Projection} {row : Record}
    {env' : Environment} {scope : Option (Predicate Value)} (known : p ∈ env.schema.projections)
    (own : r ∈ p.relations) (single : r.isToMany = false)
    (leads : env.schema.projection r.relation.target = .ok target) (entered : env.Enters env')
    (seen : env'.scope target .read = .ok scope) (stored : s.Shows p.name none row)
    (notNull : (r.relation.fromColumns.map row.get).any (·.isNull) = false) :
    LoadsOne env s ⟨false, ⟨r.relation.fromColumns.map row.get,
      relatedGroup r target .null [] scope scope⟩⟩

/-- Batches of loads of single rows tell the rows of each key. -/
def TellsRows (env : Environment) (s : Store) : Prop :=
  ∀ loads : List Load, (∀ l ∈ loads, LoadsOne env s l) →
    ∀ l ∈ loads, TableGraph.Load.Tells s (loads.map (·.key)) l.key

/-- Keys and rows of plain values are told. -/
theorem tellsRows_of_plain
    (readable : ∀ t ∈ s.tables, ∀ r ∈ t.rows, ∃ record, t.read r = .ok record)
    (plain : ∀ l, LoadsOne env s l → ∀ u, s.table l.key.group.holder = .ok u →
      TableGraph.Load.PlainKey u l.key.group.keyColumns l.key.values ∧
        ∀ row ∈ u.rows, TableGraph.Load.PlainRow u l.key.group.keyColumns row) :
    TellsRows env s := by
  intro loads one l hl
  refine TableGraph.Load.tells_of_plain readable (List.forall_mem_map.2 fun l hl u hu => ?_) l.key
    (List.mem_map_of_mem hl)
  obtain ⟨key, rows⟩ := plain l (one l hl) u hu
  exact ⟨fun _ => key, rows⟩

theorem LoadsOne.hasNull {l : Load} (h : LoadsOne env s l) : l.key.hasNull = false := by
  obtain ⟨-, -, -, -, -, -, -, notNull⟩ := h
  exact notNull

/-- Loads of single rows in one group share the row scope as well. -/
theorem LoadsOne.group_eq (apart : ∀ p ∈ env.schema.projections, env.TellsApart p) {l l' : Load}
    (h : LoadsOne env s l) (h' : LoadsOne env s l') (same : l.key.group.same l'.key.group) :
    l.key.group = l'.key.group := by
  obtain @⟨p, r, target, row, env₁, scope, -, -, -, leads, entered, seen, -, -⟩ := h
  obtain @⟨p', r', target', row', env₂, scope', -, -, -, leads', entered', seen', -, -⟩ := h'
  obtain ⟨name, columns, junction, -, scopes, -⟩ := Group.same_iff.1 same
  dsimp only [relatedGroup] at name columns junction scopes ⊢
  rw [← name_of_projection leads, name, name_of_projection leads', leads'] at leads
  cases leads
  obtain rfl := apart _ (mem_of_projection leads') _ _ _ _ entered entered' seen seen'
    (Scope.fingerprint_same_iff.1 scopes)
  rw [columns, junction]

/-! ## Loads that were made -/

/-- Loads of single rows found one exactly if there is one. -/
def Loaded.Finds (env : Environment) (s : Store) (l : Loaded) : Prop :=
  ∀ r rows, (r, .ok rows) ∈ l → r.many = false → LoadsOne env s r ∧
    (r.key.group.same r.key.group → (rows = [] ↔ ¬ TableGraph.Load.Finds s r.key))

theorem Loaded.Finds.append {l l' : Loaded} (h : l.Finds env s) (h' : l'.Finds env s) :
    Loaded.Finds env s (l ++ l') := by
  intro r rows hr
  rcases List.mem_append.1 hr with hr | hr
  · exact h r rows hr
  · exact h' r rows hr

section Loads

variable (apart : ∀ p ∈ env.schema.projections, env.TellsApart p) (tells : TellsRows env s)
  (readable : ∀ t ∈ s.tables, ∀ r ∈ t.rows, ∃ record, t.read r = .ok record)
include apart tells readable

theorem finds_loadTogether {loads : List Load} {n : Nat} (one : ∀ r ∈ loads, LoadsOne env s r) :
    Loaded.Finds env s (Fetch.loadTogether s n loads).1 := by
  intro r rows h _
  obtain ⟨hr, found, hfound, rfl⟩ := mem_loadTogether h
  refine ⟨one r hr, fun hself => TableGraph.Load.rowsOf_eq_nil_iff hfound (tells loads one r hr)
    (List.mem_map_of_mem hr) hself (one r hr).hasNull (fun k hk same => ?_) readable⟩
  obtain ⟨r', hr', rfl⟩ := List.mem_map.1 hk
  exact (one r' hr').group_eq apart (one r hr) same

/-- Making more loads finds rows where there are some. -/
theorem finds_makeLoads {l : Loaded} {n : Nat} {loads : List Load} (h : l.Finds env s)
    (one : ∀ r ∈ loads, r.many = false → LoadsOne env s r) :
    Loaded.Finds env s (Fetch.makeLoads s l n loads).1 := by
  unfold Fetch.makeLoads
  refine (h.append (finds_loadTogether apart tells readable fun r hr => ?_)).append
    fun r rows hr many => ?_
  · obtain ⟨hr, many⟩ := List.mem_filter.1 hr
    exact one r (subset_missing l loads hr) (Bool.not_eq_true' _ ▸ many)
  · have several := (List.mem_filter.1 (mem_loadTogether hr).1).2
    rw [many] at several
    cases several

omit readable in
theorem finds_find {l : Loaded} (h : l.Finds env s) {r : Load} (one : LoadsOne env s r)
    {rows : List Record} (hr : l.find? r = some (.ok rows)) :
    rows = [] ↔ ¬ TableGraph.Load.Finds s r.key := by
  unfold Loaded.find? at hr
  obtain ⟨⟨r', _⟩, hfind, rfl⟩ := Option.map_eq_some_iff.1 hr
  have same : r'.same r := by simpa using List.find?_some hfind
  unfold Load.same LoadKey.same at same
  simp only [Bool.and_eq_true, beq_iff_eq] at same
  obtain ⟨many, key, group⟩ := same
  have single : r'.many = false := by
    rw [many]
    cases one
    rfl
  obtain ⟨one', found⟩ := h r' rows (List.mem_of_find?_eq_some hfind) single
  have equal := one'.group_eq apart one group
  rw [equal] at group
  have both : ∀ x ∈ [r', r], LoadsOne env s x :=
    List.forall_mem_cons.2 ⟨one', List.forall_mem_singleton.2 one⟩
  have told := List.forall_mem_map.2 (tells _ both)
  rw [found (equal ▸ group),
    TableGraph.Load.finds_iff_of_same told equal group key one.hasNull]

end Loads

/-! ## Queries -/

/-- The row is one of the entity that is shown with it. -/
def Stored (s : Store) (rows : Option String) (row : Record) : Prop :=
  ∃ name, rows = some name ∧ s.Shows name none row

/-- The field is one of the entity whose rows are shown with it. -/
def OwnField (schema : SealedSchema) (rows : Option String) (f : OutputField) : Prop :=
  ∀ name, rows = some name → schema.Owns name f

/-- Relations of entities ask for single rows of the store, and find rows of their targets. -/
theorem follows_stored {I : Loaded → Prop} (within : ∀ l, I l → l.Within env s) : Follows env I
    (fun r => Scoped env r.key ∧ (r.many = false → LoadsOne env s r)) (OwnField env.schema)
    (Stored s) where
  asks entered own source ht stored h notNull := by
    obtain ⟨name, rfl, stored⟩ := stored
    have owns := own name rfl
    unfold SealedSchema.Owns at owns
    rw [source] at owns
    obtain ⟨rfl, p, hp, rfl, hr⟩ := owns
    refine ⟨(scoped_of_related entered ht h).2.1, fun many => ?_⟩
    obtain ⟨_, -, asked⟩ := asked_of_related h
    rw [asked.many] at many
    obtain ⟨scope, hscope, hload⟩ := related_single many h
    rw [hload] at notNull ⊢
    exact .intro hp hr many ht entered hscope stored notNull
  finds entered own source ht stored h l found hl hfind row hrow := by
    obtain ⟨name, rfl, -⟩ := stored
    have target := (scoped_of_related entered ht h).1
    rw [name_of_projection ht] at target
    refine ⟨_, ?_, target ▸ (within_find (within l hl) hfind).stored row hrow⟩
    unfold OutputField.below
    rw [source]
    rfl

/-- What a field of the root finds are rows of its entity. -/
theorem holds_ofField {f : OutputField} (root : IsRoot env.schema f) {reading : Reading}
    (h : Reading.ofField env f a = .ok reading) {n m : Nat} {item : Item}
    (hrun : (reading.run env.schema.codec s).run n = .ok (item, m)) :
    item.Holds (Stored s (rootRows f)) := by
  unfold Reading.ofField at h
  unfold rootRows
  cases root with
  | typeName =>
    cases h
    obtain ⟨rfl, -⟩ := Counted.run_pure_eq_ok.1 hrun
    exact .value _
  | page known source =>
    rw [source] at h ⊢
    obtain ⟨scope, c, -, rfl, shown, -⟩ := within_of_page h hrun
    exact .connection fun r hr => ⟨_, rfl, (shown r hr).stored⟩
  | row known source =>
    rw [source] at h ⊢
    obtain ⟨scope, -, within⟩ := within_of_key h hrun
    cases item with
    | null => exact .null
    | row r => exact .row ⟨_, rfl, within.stored⟩
    | connection c => exact .connection fun r hr => ⟨_, rfl, (within.1 r hr).stored⟩
    | _ => cases within

/-- A field that must not be null fails if it finds nothing. -/
theorem showItem_null {types : TypeSystem} {fields : Item → Path → Part Value} {type : TypeRef}
    (nonNull : type.isNonNull) (path : Path) : (showItem types fields type .null path).result =
      .error ⟨.wrongKind "Cannot return null for non-nullable field", path⟩ := by
  induction type with
  | named | list => cases nonNull
  | nonNull t ih =>
    cases t with
    | named | list => rfl
    | nonNull t =>
      unfold showItem Report.bind
      rw [ih rfl]

section Requests

variable {b : Builder} (built : b.build = .ok env.schema)
  (apart : ∀ p ∈ env.schema.projections, env.TellsApart p) (tells : TellsRows env s)
  (readable : ∀ t ∈ s.tables, ∀ r ∈ t.rows, ∃ record, t.read r = .ok record)
  {bindings : Variables} {depth : Nat} {selections : List Selection} {fields : List Planned}
  (planned : planFields env.schema.types bindings depth queryName selections = .ok fields)
  {qs : List Prepared} (prepared : (prepareRoots env fields).result = .ok qs)
include built apart tells readable planned prepared

/-- Whatever is loaded for a query, loads of single rows find them. -/
theorem finds_readRoots (n : Nat) : Loaded.Finds env s (readRoots env s qs [] n).2.1 := by
  refine (upholds_readRoots (s := s) (I := fun l => l.Within env s ∧ l.Finds env s)
    (follows_stored fun l hl => hl.1) (fun l n loads hl asked => ?_) (fun q hq => ?_)
    ⟨within_nil, nofun⟩ n).2
  · exact ⟨within_makeLoads hl.1 fun r hr => (asked r hr).1,
      finds_makeLoads apart tells readable hl.2 fun r hr => (asked r hr).2⟩
  · obtain ⟨known, reads⟩ := mem_prepareRoots prepared hq
    obtain ⟨root, along⟩ := along_below_root (F := OwnField env.schema) built (fun _ => nofun)
      (fun _ _ owns _ same => Option.some.inj same ▸ owns) planned q.planned known
    refine ⟨_, along, fun r hr n item m hrun => ?_⟩
    obtain ⟨a, env', entered, ha⟩ := reads r hr
    rw [← entered.schema_eq] at root hrun
    exact holds_ofField root ha hrun

/--
Of rows that refer to others by a relation that must not be null, the relation is null, and so
fails, exactly for those whose reference is outside the row scope of the target.
-/
theorem required_null_iff (keeps : s.KeepsReferences env.schema) {l : Loaded} {n : Nat}
    (during : l <+: (readRoots env s qs [] n).2.1) {p : Projection}
    (known : p ∈ env.schema.projections) (own : r ∈ p.relations) (single : r.isToMany = false)
    (leads : env.schema.projection r.relation.target = .ok target)
    (nonNull : (relationOutput r target).type.isNonNull) (stored : s.Shows p.name none row)
    {env' : Environment} (entered : env.Enters env')
    (asked : related env' r target row a = .ok rel) :
    ∃ scope, env'.scope target .read = .ok scope ∧ rel.load.key.hasNull = false ∧
      s.Refers r target none row ∧ ∀ rows item, l.find? rel.load = some (.ok rows) →
        relatedItem env' rel rows = .ok item →
          (item = .null ↔ ¬ s.Refers r target scope row) ∧
            (item = .null → ∀ fields path, (showItem env.schema.types fields
              (relationOutput r target).type item path).result =
                .error ⟨.wrongKind "Cannot return null for non-nullable field", path⟩) := by
  have required := (isNonNull_relationOutput single).1 nonNull
  have notNull := keeps.notNull p known r own required row stored
  obtain ⟨scope, hscope, hload⟩ := related_single single asked
  have one : LoadsOne env s rel.load := by
    rw [hload]
    exact .intro known own single leads entered hscope stored notNull
  refine ⟨scope, hscope, one.hasNull, keeps.refers p known r own required target leads row stored,
    fun rows item hfind hitem => ⟨?_, ?_⟩⟩
  · have finds : l.Finds env s := fun r rows hr =>
      finds_readRoots built apart tells readable planned prepared n r rows (during.subset hr)
    have found := finds_find apart tells finds one hfind
    have key : s.Refers r target scope row ↔ TableGraph.Load.Finds s rel.load.key := by
      rw [hload]
      rfl
    unfold relatedItem at hitem
    rw [hload, if_neg Bool.false_ne_true] at hitem
    cases hitem
    rw [key, ← found]
    cases rows with
    | nil => exact iff_of_true rfl rfl
    | cons => exact iff_of_false nofun nofun
  · rintro rfl fields path
    exact showItem_null nonNull path

end Requests

/-! ## Hidden clerks -/

section Sales

open Sample Sales

/-- The request for all sales with their clerks. -/
def salesRequest : Request :=
  ⟨"\x7b sale \x7b nodes \x7b id clerk \x7b id \x7d \x7d \x7d \x7d", [], none, []⟩

/-- What the request selects. -/
def salesSelections : List Selection :=
  [.field none "sale" [] [] [.field none "nodes" [] []
    [.field none "id" [] [] [], .field none "clerk" [] [] [.field none "id" [] [] []]]]]

/-- The sale of the store, as it is read. -/
def saleBy (n : Int) : Record := [("id", .int n), ("clerk_id", .int n)]

variable {schema : SealedSchema} {p : Projection} {r : RelationField} {target : Projection}
  {scope : Option (Predicate Value)} {n : Int}

theorem exists_sales : ∃ schema, builder.build = .ok schema := exists_of_isOk (by decide +kernel)

theorem readable_sales (n : Int) :
    ∀ t ∈ (store n).tables, ∀ r ∈ t.rows, ∃ record, t.read r = .ok record := by
  show ∀ t ∈ [sales n, clerks], _
  rw [List.forall_mem_cons, List.forall_mem_singleton]
  refine ⟨List.forall_mem_singleton.2 ⟨_, rfl⟩, ?_⟩
  show ∀ r ∈ [_, _], _
  rw [List.forall_mem_cons, List.forall_mem_singleton]
  exact ⟨⟨_, rfl⟩, _, rfl⟩

/-- Clerks of sales are all that is related. -/
theorem relation_sales (built : builder.build = .ok schema) (hp : p ∈ schema.projections)
    (hr : r ∈ p.relations) : p.name = "sale" ∧ r.relation = clerk := by
  obtain ⟨he, shows⟩ := Builder.shows_entity built hp
  rw [shows.relations] at hr
  obtain ⟨relation, hrelation, rfl⟩ := List.mem_map.1 hr
  rcases List.mem_cons.1 he with he | he
  · rw [he] at hrelation
    rw [List.mem_singleton.1 hrelation]
    exact ⟨congrArg (·.name) he, rfl⟩
  · rw [List.mem_singleton.1 he] at hrelation
    cases hrelation

theorem name_clerk (leads : schema.projection r.relation.target = .ok target)
    (hr : r.relation = clerk) : target.name = "clerk" := by
  rw [name_of_projection leads, hr]
  rfl

theorem shows_sales {row : Record} : (store n).Shows "sale" scope row ↔ row = saleBy n ∧
    (sales n).Within scope [("id", .int n), ("clerk_id", .int n)] := by
  constructor
  · rintro ⟨t, ht, r, hr, hread, within⟩
    cases ht
    rw [List.mem_singleton.1 hr] at hread within
    cases hread
    exact ⟨rfl, within⟩
  · rintro ⟨rfl, within⟩
    exact ⟨_, rfl, _, List.mem_cons_self, rfl, within⟩

theorem plainKey_clerks (hn : Cell.holds n) : TableGraph.Load.PlainKey clerks ["id"] [.int n] :=
  .cons ⟨.integer, rfl, .whole rfl hn⟩ .nil

theorem plainRow_clerks : ∀ l ∈ clerks.rows, TableGraph.Load.PlainRow clerks ["id"] l := by
  intro l hl c hc
  rw [List.mem_singleton.1 hc]
  rcases List.mem_cons.1 hl with rfl | hl
  · exact ⟨.integer, rfl, .inr ⟨.int 1, .whole rfl rfl, rfl⟩⟩
  · rw [List.mem_singleton.1 hl]
    exact ⟨.integer, rfl, .inr ⟨.int 2, .whole rfl rfl, rfl⟩⟩

/-- The sale refers to the clerk of its number. -/
theorem refers_sales (hr : r.relation = clerk) (name : target.name = "clerk")
    (hn : Cell.holds n) : (store n).Refers r target scope (saleBy n) ↔
      ∃ l ∈ clerks.rows, clerks.Within scope l ∧ l.get "id" = .int n := by
  have direct : r.relation.junction = none := by rw [hr]; rfl
  rw [Store.refers_iff direct, name, hr]
  have key : ∀ l ∈ clerks.rows, clerks.Accepts (TableGraph.Load.isKey clerk.toColumns
      (clerk.fromColumns.map (saleBy n).get)) l ↔ l.get "id" = .int n := by
    intro l hl
    refine ((plainKey_clerks hn).accepts_iff (plainRow_clerks l hl)).trans ?_
    unfold TableGraph.Load.Has
    rw [List.forall₂_cons, and_iff_left .nil]
    rfl
  constructor
  · rintro ⟨t, ht, l, hl, within, accepts⟩
    cases ht
    exact ⟨l, hl, within, (key l hl).1 accepts⟩
  · rintro ⟨l, hl, within, id⟩
    exact ⟨clerks, rfl, l, hl, within, (key l hl).2 id⟩

theorem keepsReferences_sales (built : builder.build = .ok schema) (hn : n = 1 ∨ n = 2) :
    (store n).KeepsReferences schema where
  notNull := by
    intro p hp r hr _ row stored
    obtain ⟨name, relation⟩ := relation_sales built hp hr
    rw [name] at stored
    rw [relation, (shows_sales.1 stored).1]
    rfl
  refers := by
    intro p hp r hr _ target leads row stored
    obtain ⟨name, relation⟩ := relation_sales built hp hr
    rw [name] at stored
    rw [(shows_sales.1 stored).1]
    rcases hn with rfl | rfl
    · exact (refers_sales relation (name_clerk leads relation) rfl).2
        ⟨_, List.mem_cons_self, nofun, rfl⟩
    · exact (refers_sales relation (name_clerk leads relation) rfl).2
        ⟨_, List.mem_cons_of_mem _ List.mem_cons_self, nofun, rfl⟩

theorem tells_sales (built : builder.build = .ok schema) (hn : Cell.holds n) :
    TellsRows ⟨schema, {}⟩ (store n) := by
  refine tellsRows_of_plain (readable_sales n) fun l one u hu => ?_
  obtain @⟨p, r, target, row, _, scope, known, own, -, leads, -, -, stored, -⟩ := one
  obtain ⟨name, relation⟩ := relation_sales built known own
  rw [name] at stored
  have direct : (relatedGroup r target .null [] scope scope).junction = none := by
    unfold relatedGroup
    rw [relation]
    rfl
  obtain ⟨holder, columns⟩ := TableGraph.Load.holder_direct direct
  dsimp only at hu ⊢
  rw [holder] at hu
  rw [columns]
  dsimp only [relatedGroup] at hu ⊢
  rw [name_clerk leads relation] at hu
  cases hu
  rw [relation, (shows_sales.1 stored).1]
  exact ⟨plainKey_clerks hn, plainRow_clerks⟩

/-- What the request has loaded for the clerk of the sale in the end. -/
def clerksLoaded (schema : SealedSchema) (n : Int) : Option (List Record) := do
  let p ← schema.projections.find? fun p => p.name = "sale"
  let r ← p.relations.head?
  let target ← (schema.projection r.relation.target).toOption
  let rel ← (related ⟨schema, {}⟩ r target (saleBy n) ⟨[], none⟩).toOption
  let fields ← (planFields schema.types ⟨[], []⟩ (Selection.nestingOfAll salesSelections) queryName
    salesSelections).toOption
  let qs ← (prepareRoots ⟨schema, {}⟩ fields).result.toOption
  let rows ← (readRoots ⟨schema, {}⟩ (store n) qs [] 0).2.1.find? rel.load
  rows.toOption

theorem isSome_clerksLoaded (built : builder.build = .ok schema) (hn : n = 1 ∨ n = 2) :
    ∃ rows, clerksLoaded schema n = some rows := by
  have evaluated : ∀ n : Int, (builder.build.toOption.bind fun s => clerksLoaded s n).isSome →
      (clerksLoaded schema n).isSome := by
    intro n h
    rw [built] at h
    exact h
  rcases hn with rfl | rfl <;>
  · exact Option.isSome_iff_exists.1 (evaluated _ (by decide +kernel))

/-- The row scope is that of the type of the entity. -/
theorem scope_sales (built : builder.build = .ok schema) (hp : p ∈ schema.projections)
    (call : FieldCall) : Environment.scope ⟨schema, call⟩ p .read =
      Scope.condition context.scopes (context.typeName p.name) p.entity call .read := by
  obtain ⟨-, shows⟩ := Builder.shows_entity built hp
  obtain ⟨hcontext, -⟩ := Builder.roots_of_build built
  unfold Environment.scope
  rw [hcontext, shows.typeName]
  rfl

/-- Every field gets one row scope of an entity. -/
theorem tellsApart_sales (built : builder.build = .ok schema) :
    ∀ p ∈ schema.projections, Environment.TellsApart ⟨schema, {}⟩ p := by
  intro p hp env₁ env₂ scope₁ scope₂ entered₁ entered₂ hscope₁ hscope₂ _
  obtain ⟨_, call₁⟩ := env₁
  obtain ⟨_, call₂⟩ := env₂
  obtain rfl := entered₁.schema_eq
  obtain rfl := entered₂.schema_eq
  rw [scope_sales built hp] at hscope₁ hscope₂
  have constant : Scope.condition context.scopes (context.typeName p.name) p.entity call₁ .read =
      Scope.condition context.scopes (context.typeName p.name) p.entity call₂ .read := by
    unfold Scope.condition context
    generalize Context.typeName _ _ = type
    rw [List.lookup_cons, List.lookup_nil]
    cases type == "Clerk" <;> rfl
  exact Except.ok.inj (hscope₁.symm.trans (constant.trans hscope₂))

theorem typeName_sales : context.typeName "sale" = "Sale" ∧ context.typeName "clerk" = "Clerk" := by
  decide +kernel

/-- The sale refers to a clerk that the scope lets through in the first shop alone. -/
theorem refers_ofFirstShop (hr : r.relation = clerk) (name : target.name = "clerk")
    (hn : n = 1 ∨ n = 2) : (store n).Refers r target (some ofFirstShop) (saleBy n) ↔ n = 1 := by
  have within : ∀ l ∈ clerks.rows, clerks.Within (some ofFirstShop) l → l.get "shop" = .int 1 := by
    intro l hl h
    obtain ⟨type, q, htype, hq, hholds⟩ := Table.accepts_test.1 (h ofFirstShop rfl)
    cases htype
    cases hq
    rcases List.mem_cons.1 hl with rfl | hl
    · rfl
    · rw [List.mem_singleton.1 hl] at hholds
      cases hholds
  rw [refers_sales hr name (by rcases hn with rfl | rfl <;> rfl)]
  constructor
  · rintro ⟨l, hl, hwithin, id⟩
    have shop := within l hl hwithin
    rcases List.mem_cons.1 hl with rfl | hl
    · cases id
      rfl
    · rw [List.mem_singleton.1 hl] at shop
      cases shop
  · rintro rfl
    refine ⟨_, List.mem_cons_self, fun q hq => ?_, rfl⟩
    cases hq
    exact Table.accepts_test.2 ⟨_, _, rfl, rfl, rfl⟩

/-- The clerk of the second shop is null, the one of the first is not. -/
theorem required_null_iff_sales : ∃ schema, builder.build = .ok schema ∧ ∀ n, n = 1 ∨ n = 2 →
    ∃ r target rel fields qs rows item,
      related ⟨schema, {}⟩ r target (saleBy n) ⟨[], none⟩ = .ok rel ∧
      (prepareRoots ⟨schema, {}⟩ fields).result = .ok qs ∧
      (readRoots ⟨schema, {}⟩ (store n) qs [] 0).2.1.find? rel.load = some (.ok rows) ∧
      relatedItem ⟨schema, {}⟩ rel rows = .ok item ∧ (item = .null ↔ n = 2) := by
  obtain ⟨schema, built⟩ := exists_sales
  refine ⟨schema, built, fun n hn => ?_⟩
  have held : Cell.holds n := by rcases hn with rfl | rfl <;> rfl
  obtain ⟨rows, h⟩ := isSome_clerksLoaded built hn
  obtain ⟨p, hp, h⟩ := Option.bind_eq_some_iff.1 h
  obtain ⟨r, hr, h⟩ := Option.bind_eq_some_iff.1 h
  obtain ⟨target, leads, h⟩ := Option.bind_eq_some_iff.1 h
  obtain ⟨rel, asked, h⟩ := Option.bind_eq_some_iff.1 h
  obtain ⟨fields, planned, h⟩ := Option.bind_eq_some_iff.1 h
  obtain ⟨qs, prepared, h⟩ := Option.bind_eq_some_iff.1 h
  obtain ⟨found, hfind, h⟩ := Option.bind_eq_some_iff.1 h
  replace leads := eq_ok_of_toOption leads
  replace asked := eq_ok_of_toOption asked
  replace prepared := eq_ok_of_toOption prepared
  rw [eq_ok_of_toOption h] at hfind
  have known := List.mem_of_find?_eq_some hp
  have own := List.mem_of_mem_head? hr
  obtain ⟨name, relation⟩ := relation_sales built known own
  have single : r.isToMany = false := by
    unfold RelationField.isToMany
    rw [relation]
    rfl
  have nonNull : (relationOutput r target).type.isNonNull := by
    rw [isNonNull_relationOutput single]
    unfold RelationField.Required
    rw [relation]
    exact ⟨rfl, rfl⟩
  obtain ⟨scope, hscope, -, -, decides⟩ := required_null_iff built (tellsApart_sales built)
    (tells_sales built held) (readable_sales n) (eq_ok_of_toOption planned) prepared
    (keepsReferences_sales built hn) (List.prefix_refl _) known own single leads nonNull
    (name ▸ shows_sales.2 ⟨rfl, nofun⟩) (.refl _) asked
  have clerkName := name_clerk leads relation
  rw [scope_sales built (mem_of_projection leads), clerkName, typeName_sales.2] at hscope
  cases hscope
  have item : relatedItem ⟨schema, {}⟩ rel rows = .ok (.ofRow? rows.head?) := by
    obtain ⟨_, -, hload⟩ := related_single single asked
    unfold relatedItem
    rw [hload, if_neg Bool.false_ne_true]
  refine ⟨r, target, rel, fields, qs, rows, _, asked, prepared, hfind, item, ?_⟩
  rw [(decides rows _ hfind item).1, refers_ofFirstShop relation clerkName hn]
  omega

/-- There is no data, because the part at the path must not be null and is. -/
def isViolated (path : Path) : Reply → Bool
  | .answered .null [⟨.wrongKind detail, place⟩] _ _ =>
    detail == "Cannot return null for non-nullable field" && place == path
  | _ => false

/-- The operation of the request. -/
def salesOperation : OperationDefinition := ⟨.query, none, [], [], salesSelections⟩

theorem ofText_salesRequest :
    Document.ofText salesRequest.document = .ok [.operation salesOperation] := by
  with_unfolding_all rfl

/-- A sale in plain view, whose clerk exists and is hidden, makes the whole reply fail. -/
theorem hidden_clerk_fails : ∃ schema, builder.build = .ok schema ∧
    schema.context.entityGuards = [] ∧ schema.context.fieldGuards = [] ∧
    schema.context.columnOverrides = [] ∧ schema.context.filterOverrides = [] ∧
    (store 2).KeepsReferences schema ∧
    (∀ p ∈ schema.projections, p.name = "sale" →
      ∀ call, Environment.scope ⟨schema, call⟩ p .read = .ok none) ∧
    isViolated [.key "sale", .key "nodes", .index 0, .key "clerk"]
      (reply schema (store 2) salesRequest).1 := by
  obtain ⟨schema, built⟩ := exists_sales
  obtain ⟨hcontext, -⟩ := Builder.roots_of_build built
  refine ⟨schema, built, hcontext ▸ rfl, hcontext ▸ rfl, hcontext ▸ rfl, hcontext ▸ rfl,
    keepsReferences_sales built (.inr rfl), fun p hp name call => ?_, ?_⟩
  · rw [scope_sales built hp, name, typeName_sales.1]
    rfl
  · have evaluated : ∀ path, (do
        let s ← builder.build.toOption
        some (isViolated path (reply s (store 2) salesRequest).1)) = some true →
        isViolated path (reply schema (store 2) salesRequest).1 := by
      intro path h
      rw [built] at h
      exact Option.some.inj h
    have given : salesRequest.bindings = [] ∧ salesRequest.operation = none := ⟨rfl, rfl⟩
    have plain : Selection.spreadsOfAll salesOperation.selections = [] := rfl
    refine evaluated _ ?_
    unfold reply
    simp only [ofText_salesRequest, Document.isValid_one, Document.plan?_one plain,
      Document.operationFits, Document.expanded_one plain, given]
    decide +kernel

end Sales

end Answer

end TableGraph
