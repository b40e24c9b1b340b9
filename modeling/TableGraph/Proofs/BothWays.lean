import TableGraph.Proofs.Discovered.Correspondence
import TableGraph.Proofs.Load.Plain
import TableGraph.Proofs.Plans

/-!
# Relations both ways

A relation that belongs to its target, and the one that leads back over the same columns.  Each
field loads by the values that are read of a row; they are bound again to be compared with the cells
of the other table.  The two fields agree exactly if what is read of rows keeps them together
(`agrees_iff`), as it does with plain keys.  A decimal number is read with ten places and may be
bound to another cell than it was read of.

Main statement: `both_ways`.
-/

namespace TableGraph

open TableGraph.Graph

/-! ## Cells that are the same -/

namespace Table

/-- The rows differ in some of the columns, or are null there. -/
def UniqueIn (t : Table) (columns : List String) : Prop :=
  t.rows.Pairwise fun a b => ¬sameCells (columns.map a.get) (columns.map b.get) = true

theorem sameCells_of_forall {a b : Row} {columns : List String}
    (h : ∀ c ∈ columns, (a.get c).isNull = false ∧ (a.get c).order (b.get c) = .eq) :
    sameCells (columns.map a.get) (columns.map b.get) = true := by
  unfold sameCells
  rw [List.zip_map', List.all_map, List.all_eq_true]
  intro c hc
  obtain ⟨notNull, same⟩ := h c hc
  simp [notNull, same]

theorem notNull_of_sameCells {as bs : List Cell} (length : as.length = bs.length)
    (h : sameCells as bs = true) : ∀ b ∈ bs, b.isNull = false := by
  unfold sameCells at h
  rw [List.all_eq_true] at h
  intro b hb
  obtain ⟨a, hab⟩ : ∃ a, (a, b) ∈ as.zip bs := by
    rw [← List.map_snd_zip (le_of_eq length.symm), List.mem_map] at hb
    obtain ⟨⟨a, _⟩, hmem, rfl⟩ := hb
    exact ⟨a, hmem⟩
  obtain ⟨notNull, same⟩ := Bool.and_eq_true_iff.1 (h _ hab)
  rw [← Cell.isNull_of_order (beq_iff_eq.1 same)]
  exact Bool.not_eq_true' _ ▸ notNull

end Table

/-! ## Rows that a key finds -/

theorem Store.keeping_all (s : Store) : s.keeping (fun _ _ => true) = s := by
  have same : (fun t : Table => t.keeping fun _ => true) = id := by
    funext t
    unfold Table.keeping
    rw [List.filter_true]
    rfl
  unfold Store.keeping
  rw [same, List.map_id]

namespace Load

variable {s : Store} {t : Table} {k : LoadKey} {keys : List LoadKey}

/-- The rows of a table that a key finds, in the order of its group. -/
def foundRows (t : Table) (k : LoadKey) : List Row :=
  t.sorted k.group.orders (t.rows.filter (finds t k))

theorem mem_foundRows {l : Row} : l ∈ foundRows t k ↔ l ∈ t.rows ∧ finds t k l := by
  unfold foundRows
  rw [(t.sorted_perm _ _).mem_iff, List.mem_filter]

/-- The key asks for rows of the table, by columns that take its values, and for nothing else. -/
structure Asks (s : Store) (k : LoadKey) (t : Table) : Prop where
  target : s.table k.group.target = .ok t
  direct : k.group.junction = none
  unconditional : k.group.condition = none
  bound : k.hasNull = false → ∃ p, t.bind (isKey k.group.columns k.values) = .ok p

theorem Asks.alone_eq (asks : Asks s k t) (self : k.group.same k.group)
    (readable : ∀ r ∈ t.rows, ∃ record, t.read r = .ok record) :
    alone s k = .ok ((foundRows t k).map t.record) := by
  obtain ⟨hholder, hcolumns⟩ := holder_direct asks.direct
  have posed : Posed s [k] k t t .always := by
    refine ⟨asks.target, hholder ▸ asks.target, ?_, fun g hg => ?_, readable, readable, ?_, ?_⟩
    · rw [asks.unconditional]
      rfl
    · have first : (groups [k]).find? (·.same k.group) = some k.group :=
        List.find?_cons_of_pos self
      cases hg.symm.trans first
      rw [asks.unconditional]
      exact ⟨.always, rfl, fun _ _ => rfl⟩
    · rw [hcolumns]
      exact asks.bound
    · intro j hj
      cases asks.direct.symm.trans hj
  rw [posed.alone_eq_pairs]
  unfold pairs foundRows
  rw [asks.direct, List.map_map]
  rfl

/-- A batch of keys of one group that tells the rows of each gives each the rows that it finds. -/
theorem run_of_asks (asks : ∀ k ∈ keys, Asks s k t) {g : Group} (one : ∀ k ∈ keys, k.group = g)
    (self : g.same g)
    (readable : ∀ t ∈ s.tables, ∀ r ∈ t.rows, ∃ record, t.read r = .ok record)
    (tells : ∀ k ∈ keys, Tells s keys k) (n : Nat) :
    (many s keys).run n =
        .ok (keys.map fun k => (foundRows t k).map t.record, n + sent keys) ∧
      (Load.one s keys).run n =
        .ok (keys.map fun k => ((foundRows t k).map t.record).head?, n + sent keys) := by
  have selves : ∀ k ∈ keys, k.group.same k.group := fun k hk => by rwa [one k hk]
  have alone_eq : ∀ k ∈ keys, alone s k = .ok ((foundRows t k).map t.record) := fun k hk =>
    (asks k hk).alone_eq (selves k hk)
      (readable t (List.mem_of_find?_eq_some (Store.table_eq_ok.1 (asks k hk).target).2))
  have parts := (separately_iff_tells selves
    (fun k hk j hj => nomatch (asks k hk).direct.symm.trans hj)
    (fun k hk l hl _ t _ => by rw [one k hk, one l hl]) readable
    fun k hk => ⟨_, alone_eq k hk⟩).2 tells fun _ _ => true
  rw [Store.keeping_all] at parts
  obtain ⟨rows, each, run⟩ := parts
  cases (mapM_eq_map alone_eq).symm.trans each
  refine ⟨(run n).1, (run n).2.trans ?_⟩
  rw [List.map_map]
  rfl

/-! ### Plain values -/

section Plain

variable {u : Table} {a b : String} {sources targets : List String} {c l : Row} {record : Record}

/-- The columns keep the same values as they are. -/
def Kin (t u : Table) (a b : String) : Prop :=
  ∃ type type', t.typeOf a = .ok type ∧ u.typeOf b = .ok type' ∧ ∀ v, type.Plain v ↔ type'.Plain v

theorem Kin.symm (h : Kin t u a b) : Kin u t b a := by
  obtain ⟨type, type', ha, hb, same⟩ := h
  exact ⟨type', type, hb, ha, fun v => (same v).symm⟩

/-- The values of a plain row are null where the row is, and a plain key for columns of the same
kind otherwise. -/
theorem plainKey_of_row (kin : List.Forall₂ (Kin t u) sources targets)
    (row : PlainRow t sources c) (read : t.read c = .ok record) :
    ((sources.map record.get).any (·.isNull) = false ↔
      ∀ x ∈ sources.map c.get, x.isNull = false) ∧
    ((sources.map record.get).any (·.isNull) = false →
      PlainKey u targets (sources.map record.get) ∧
        (sources.map record.get).map Value.cell = sources.map c.get) := by
  induction kin with
  | nil => exact ⟨iff_of_true rfl nofun, fun _ => ⟨.nil, rfl⟩⟩
  | @cons a b sources targets hab _ ih =>
    obtain ⟨type, type', ha, hb, same⟩ := hab
    obtain ⟨null, key⟩ := ih fun a ha => row a (List.mem_cons_of_mem _ ha)
    obtain ⟨_, ha', cell⟩ := row a List.mem_cons_self
    cases ha.symm.trans ha'
    have value := Table.read_of_typeOf read ha
    simp only [List.map_cons, List.any_cons, List.forall_mem_cons, Bool.or_eq_false_iff]
    rcases cell with isNull | ⟨v, plain, cell⟩
    · -- what is read of null is null
      have cell : c.get a = .null := by
        cases h : c.get a <;> rw [h] at isNull <;> first | rfl | cases isNull
      rw [cell] at value ⊢
      have null : record.get a = .null := by
        cases type <;> exact (Except.ok.inj value).symm
      rw [null]
      exact ⟨iff_of_false (fun h => nomatch h.1) (fun h => nomatch h.1), fun h => nomatch h.1⟩
    · rw [cell] at value ⊢
      rw [plain.eq_of_read value, plain.notNull.1, plain.notNull.2, null]
      refine ⟨Iff.rfl, fun h => ?_⟩
      obtain ⟨rest, cells⟩ := key (null.2 h.2)
      exact ⟨.cons ⟨type', hb, (same v).1 plain⟩ rest, congrArg _ cells⟩

theorem has_iff {values : List Value} :
    Has l targets values ↔ targets.map l.get = values.map Value.cell := by
  unfold Has
  rw [← List.forall₂_eq_eq_eq, List.forall₂_map_left_iff, List.forall₂_map_right_iff]

theorem PlainKey.exists_bind {values : List Value} (h : PlainKey u targets values) :
    ∃ p, u.bind (isKey targets values) = .ok p := by
  have tests : ∃ qs, ((targets.zip values).map fun x =>
      Predicate.test x.1 (.compare .eq x.2)).mapM u.bind = .ok qs := by
    refine mapM_of_forall fun q hq => ?_
    obtain ⟨⟨c, v⟩, hcv, rfl⟩ := List.mem_map.1 hq
    obtain ⟨type, htype, plain⟩ := (List.forall₂_iff_zip.1 h).2 hcv
    exact ⟨_, map_eq_ok.2 ⟨_, bind_eq_ok.2 ⟨type, htype, plain.bind_compare .eq⟩, rfl⟩⟩
  obtain ⟨qs, hqs⟩ := tests
  exact ⟨_, Predicate.mapM_allOf hqs⟩

end Plain

end Load

/-! ## Relations and the ways back -/

namespace Relation

variable {r r' : Relation}

/-- A relation that belongs to its target, and the one that leads back: the companion of a relation
of an entity to itself, or the one that is discovered against the same foreign key. -/
inductive WaysBack : Relation → Relation → Prop
  | companion {r : Relation} (belongs : r.kind = .belongsTo) (direct : r.junction = none) :
      WaysBack r r.companion
  | discovered {t : DeclaredTable} {k : ForeignKey} {r r' : Relation}
      (along : Discovery.Along t k r) (against : Discovery.Against t k r') : WaysBack r r'

/-- The relations lead over the same columns, one from the sources of the other to its targets. -/
structure Swapped (r r' : Relation) : Prop where
  direct : r.junction = none
  direct' : r'.junction = none
  sources : r'.fromColumns = r.toColumns
  targets : r'.toColumns = r.fromColumns

theorem WaysBack.swapped (h : WaysBack r r') : r.kind = .belongsTo ∧ Swapped r r' := by
  cases h with
  | companion belongs direct => exact ⟨belongs, direct, rfl, rfl, rfl⟩
  | discovered along against =>
    exact ⟨along.kind, along.direct, against.direct, against.sources.trans along.targets.symm,
      against.targets.trans along.sources.symm⟩

/-- The cells of a row are those of the target, and none of them is null. -/
def Matches (r : Relation) (c p : Row) : Prop :=
  Table.sameCells (r.toColumns.map p.get) (r.fromColumns.map c.get) = true

/-- The values that are read of a row, bound to the columns of the target, are those of its row. -/
def Points (r : Relation) (t u : Table) (c p : Row) : Prop :=
  (r.fromColumns.map (t.record c).get).any (·.isNull) = false ∧
    u.Accepts (Load.isKey r.toColumns (r.fromColumns.map (t.record c).get)) p

/-- The columns on both sides keep the same values as they are, and hold nothing else. -/
structure PlainSides (r : Relation) (t u : Table) : Prop where
  kin : List.Forall₂ (Load.Kin t u) r.fromColumns r.toColumns
  rows : ∀ c ∈ t.rows, Load.PlainRow t r.fromColumns c
  rows' : ∀ p ∈ u.rows, Load.PlainRow u r.toColumns p

variable {t u : Table} {c p : Row}

theorem Swapped.plainSides (h : Swapped r r') (plain : r.PlainSides t u) : r'.PlainSides u t where
  kin := by
    rw [h.sources, h.targets]
    exact plain.kin.flip.imp fun _ _ => Load.Kin.symm
  rows := h.sources ▸ plain.rows'
  rows' := h.targets ▸ plain.rows

/-- Plain rows match if their cells are equal and not null. -/
theorem PlainSides.matches_iff (plain : r.PlainSides t u) (hc : c ∈ t.rows) (hp : p ∈ u.rows)
    (read : ∃ record, t.read c = .ok record) : r.Matches c p ↔
      (∀ x ∈ r.fromColumns.map c.get, x.isNull = false) ∧
        r.toColumns.map p.get = r.fromColumns.map c.get := by
  obtain ⟨null, key⟩ := Load.plainKey_of_row plain.kin (plain.rows c hc) (Table.read_eq read)
  have length : (r.toColumns.map p.get).length = (r.fromColumns.map c.get).length := by
    rw [List.length_map, List.length_map, r.paired]
  unfold Matches
  refine ⟨fun same => ?_, fun ⟨notNull, same⟩ => ?_⟩
  · have notNull := Table.notNull_of_sameCells length same
    obtain ⟨plainKey, cells⟩ := key (null.2 notNull)
    rw [← cells, plainKey.sameCells_iff (plain.rows' p hp), Load.has_iff, cells] at same
    exact ⟨notNull, same⟩
  · obtain ⟨plainKey, cells⟩ := key (null.2 notNull)
    rwa [← cells, plainKey.sameCells_iff (plain.rows' p hp), Load.has_iff, cells]

/-- So do the values that are read of them point to each other. -/
theorem PlainSides.points_iff (plain : r.PlainSides t u) (hc : c ∈ t.rows) (hp : p ∈ u.rows)
    (read : ∃ record, t.read c = .ok record) : r.Points t u c p ↔
      (∀ x ∈ r.fromColumns.map c.get, x.isNull = false) ∧
        r.toColumns.map p.get = r.fromColumns.map c.get := by
  obtain ⟨null, key⟩ := Load.plainKey_of_row plain.kin (plain.rows c hc) (Table.read_eq read)
  unfold Points
  rw [← null]
  refine and_congr_right fun notNull => ?_
  obtain ⟨plainKey, cells⟩ := key notNull
  rw [plainKey.accepts_iff (plain.rows' p hp), Load.has_iff, cells]

end Relation

namespace Answer

variable {env : Environment} {s : Store} {r there back : RelationField}
  {target child parent : Projection} {a a' : Arguments} {orders : List Order} {t u : Table}

/-! ## What a field shows -/

/-- The key that the field of a relation loads by, without a filter and a row scope. -/
def relatedKey (r : RelationField) (target : Projection) (orders : List Order) (row : Record) :
    LoadKey :=
  ⟨r.relation.fromColumns.map row.get, relatedGroup r target .null orders none none⟩

/-- Nothing stands between the field of a relation and the rows of its target, wherever in a request
the field is: no guard, no row scope, no filter and no limit. -/
structure Unhindered (env : Environment) (r : RelationField) (target : Projection) (a : Arguments)
    (orders : List Order) : Prop where
  entity : ∀ env', env.Enters env' → env'.checkEntity target.typeName .read = .ok ()
  field : ∀ env', env.Enters env' → env'.checkField r.path .read = .ok ()
  scope : ∀ env', env.Enters env' → env'.scope target .read = .ok none
  filter : r.isToMany = true → filterOf a = .null
  whole : r.isToMany = true →
    PageRequest.ofValue env.schema.context (a.get "pagination") = .ok .all
  ordered : if r.isToMany then Order.ofValue target (a.get "orderBy") a.written = .ok orders
    else orders = []

theorem Unhindered.related_eq (h : Unhindered env r target a orders) {env' : Environment}
    (entered : env.Enters env') (row : Record) : related env' r target row a =
      .ok ⟨⟨r.isToMany, relatedKey r target orders row⟩, target, .all⟩ := by
  have load : ∀ orders, relatedLoad env.schema.codec r target row .null orders none =
      .ok ⟨r.isToMany, relatedKey r target orders row⟩ :=
    fun _ => relatedLoad_eq_ok.2 ⟨none, rfl, rfl⟩
  have ordered := h.ordered
  unfold related
  rw [h.entity env' entered, h.field env' entered, h.scope env' entered, entered.schema_eq]
  by_cases many : r.isToMany = true
  · rw [if_pos many] at ordered
    refine (if_pos many).trans (bind_eq_ok.2 ⟨_, h.whole many, bind_eq_ok.2 ⟨_, ordered, ?_⟩⟩)
    rw [h.filter many]
    exact bind_eq_ok.2 ⟨_, load orders, rfl⟩
  · rw [if_neg many] at ordered
    subst ordered
    refine (if_neg many).trans ?_
    exact bind_eq_ok.2 ⟨_, load [], rfl⟩

/-- The rows of the target that the field shows for a row: all that its key finds, or the first. -/
def shown (r : RelationField) (target : Projection) (orders : List Order) (t u : Table) (l : Row) :
    List Row :=
  let rows := TableGraph.Load.foundRows u (relatedKey r target orders (t.record l))
  if r.isToMany then rows else rows.take 1

/-- Whatever rows of a table have the field answered together, it loads what is shown for each. -/
def Gives (env : Environment) (s : Store) (r : RelationField) (target : Projection) (a : Arguments)
    (orders : List Order) (t u : Table) : Prop :=
  ∀ rows ⊆ t.rows, ∀ answering : Row → Environment, (∀ l, env.Enters (answering l)) →
    ∃ rels, rows.mapM (fun l => related (answering l) r target (t.record l) a) = .ok rels ∧
    ∀ n, ∃ m, if r.isToMany then
        (TableGraph.Load.many s (rels.map (·.load.key))).run n =
          .ok (rows.map fun l => (shown r target orders t u l).map u.record, m)
      else
        (TableGraph.Load.one s (rels.map (·.load.key))).run n =
          .ok (rows.map fun l => ((shown r target orders t u l).map u.record).head?, m)

/-- The columns of the target take the values of the rows, and batches tell the rows of each key. -/
structure Told (s : Store) (r : RelationField) (target : Projection) (orders : List Order)
    (t u : Table) : Prop where
  bound : ∀ l ∈ t.rows, (relatedKey r target orders (t.record l)).hasNull = false →
    ∃ p, u.bind (TableGraph.Load.isKey r.relation.toColumns
      (relatedKey r target orders (t.record l)).values) = .ok p
  tells : ∀ rows ⊆ t.rows, ∀ l ∈ rows,
    TableGraph.Load.Tells s (rows.map fun l => relatedKey r target orders (t.record l))
      (relatedKey r target orders (t.record l))

theorem gives_of_told (unhindered : Unhindered env r target a orders)
    (direct : r.relation.junction = none) (table : s.table target.name = .ok u)
    (readable : ∀ t ∈ s.tables, ∀ r ∈ t.rows, ∃ record, t.read r = .ok record)
    (told : Told s r target orders t u) : Gives env s r target a orders t u := by
  intro rows hrows answering entered
  generalize hkeys : (rows.map fun l => relatedKey r target orders (t.record l)) = keys
  have asks : ∀ k ∈ keys, TableGraph.Load.Asks s k u := by
    intro k hk
    obtain ⟨l, hl, rfl⟩ := List.mem_map.1 (hkeys ▸ hk)
    exact ⟨table, direct, rfl, told.bound l (hrows hl)⟩
  have one : ∀ k ∈ keys, k.group = relatedGroup r target .null orders none none := by
    intro k hk
    obtain ⟨l, -, rfl⟩ := List.mem_map.1 (hkeys ▸ hk)
    rfl
  have self : (relatedGroup r target .null orders none none).same
      (relatedGroup r target .null orders none none) :=
    Group.same_iff.2 ⟨rfl, rfl, rfl, rfl, rfl, rfl⟩
  have tells : ∀ k ∈ keys, TableGraph.Load.Tells s keys k := by
    intro k hk
    obtain ⟨l, hl, rfl⟩ := List.mem_map.1 (hkeys ▸ hk)
    exact hkeys ▸ told.tells rows hrows l hl
  have loads : (rows.map fun l => (⟨⟨r.isToMany, relatedKey r target orders (t.record l)⟩, target,
      .all⟩ : Related)).map (·.load.key) = keys := List.map_map.trans hkeys
  refine ⟨_, mapM_eq_map fun l _ => unhindered.related_eq (entered l) (t.record l), fun n =>
    ⟨n + TableGraph.Load.sent keys, ?_⟩⟩
  obtain ⟨all, first⟩ := TableGraph.Load.run_of_asks asks one self readable tells n
  rw [loads]
  unfold shown
  split_ifs with many
  · rw [all, ← hkeys, List.map_map]
    rfl
  · rw [first, ← hkeys, List.map_map]
    refine congrArg (fun rows => Except.ok (rows, _)) (List.map_congr_left fun l _ => ?_)
    rw [List.map_take, List.head?_take, if_neg Nat.one_ne_zero]
    rfl

/-! ## Agreement -/

/-- The field points to a row exactly if the key of the other row finds it. -/
theorem points_iff (target : Projection) (orders : List Order)
    (direct : r.relation.junction = none) {c p : Row} : r.relation.Points t u c p ↔
      TableGraph.Load.finds u (relatedKey r target orders (t.record c)) p := by
  rw [TableGraph.Load.finds_iff]
  have columns := (TableGraph.Load.holder_direct
    (g := (relatedKey r target orders (t.record c)).group) direct).2
  rw [columns]
  rfl

/-- Columns that are unique let a key find one row at most. -/
theorem length_foundRows_le_one (target : Projection) (orders : List Order)
    (direct : r.relation.junction = none) (unique : u.UniqueIn r.relation.toColumns) (c : Row) :
    (TableGraph.Load.foundRows u (relatedKey r target orders (t.record c))).length ≤ 1 := by
  unfold TableGraph.Load.foundRows
  rw [(u.sorted_perm _ _).length_eq]
  refine length_filter_le_one unique fun p p' hp hp' => not_not.2 ?_
  have points := (points_iff target orders direct).2 hp
  have points' := (points_iff target orders direct).2 hp'
  exact Table.sameCells_of_forall (TableGraph.Load.same_of_isKey
    ((List.length_map _).trans r.relation.paired) points.2 points'.2)

/-- Where one row at most is found, the first of them is all. -/
theorem shown_eq (direct : r.relation.junction = none)
    (unique : r.isToMany = false → u.UniqueIn r.relation.toColumns) (c : Row) :
    shown r target orders t u c =
      TableGraph.Load.foundRows u (relatedKey r target orders (t.record c)) := by
  unfold shown
  split_ifs with many
  · rfl
  · exact List.take_of_length_le
      (length_foundRows_le_one target orders direct (unique (Bool.eq_false_iff.2 many)) c)

/-- A relation that belongs to its target and its way back, as fields that nothing stands in the way
of, in a state in which the columns that are referred to are unique. -/
structure BothWays (env : Environment) (s : Store) (there back : RelationField)
    (child parent : Projection) (a a' : Arguments) (orders : List Order) (t u : Table) : Prop where
  reverse : there.relation.WaysBack back.relation
  own : there ∈ child.relations
  own' : back ∈ parent.relations
  leads : env.schema.projection there.relation.target = .ok parent
  leads' : env.schema.projection back.relation.target = .ok child
  unhindered : Unhindered env there parent a []
  unhindered' : Unhindered env back child a' orders
  table : s.table child.name = .ok t
  table' : s.table parent.name = .ok u
  readable : ∀ t ∈ s.tables, ∀ r ∈ t.rows, ∃ record, t.read r = .ok record
  unique : u.UniqueIn there.relation.toColumns
  /-- A way back to one row leads over columns that are unique as well. -/
  single : back.isToMany = false → t.UniqueIn there.relation.fromColumns

/-- The rows that one field lists are those that the other one shows the row for, and a row that
matches another one is listed for that one only. -/
structure Agrees (r : Relation) (t u : Table) (shows lists : Row → List Row) : Prop where
  both : ∀ c ∈ t.rows, ∀ p ∈ u.rows, c ∈ lists p ↔ shows c = [p]
  parent : ∀ c ∈ t.rows, ∀ p ∈ u.rows, r.Matches c p → ∀ p' ∈ u.rows, c ∈ lists p' ↔ p' = p

/-- What is read of rows keeps them together: the values of a row point to the row that it matches,
and the values of two rows point to each other or neither does. -/
structure KeepsPairs (r r' : Relation) (t u : Table) : Prop where
  kept : ∀ c ∈ t.rows, ∀ p ∈ u.rows, r.Matches c p → r.Points t u c p
  alike : ∀ c ∈ t.rows, ∀ p ∈ u.rows, r.Points t u c p ↔ r'.Points u t p c

namespace BothWays

variable (two : BothWays env s there back child parent a a' orders t u)
include two

theorem reads : ∀ c ∈ t.rows, ∃ record, t.read c = .ok record :=
  two.readable t (List.mem_of_find?_eq_some (Store.table_eq_ok.1 two.table).2)

theorem reads' : ∀ p ∈ u.rows, ∃ record, u.read p = .ok record :=
  two.readable u (List.mem_of_find?_eq_some (Store.table_eq_ok.1 two.table').2)

theorem mem_shown_iff {c p : Row} (hp : p ∈ u.rows) :
    shown there parent [] t u c = [p] ↔ there.relation.Points t u c p := by
  have swapped := two.reverse.swapped.2
  have one := @length_foundRows_le_one there t u parent [] swapped.direct two.unique c
  have found : p ∈ TableGraph.Load.foundRows u (relatedKey there parent [] (t.record c)) ↔
      there.relation.Points t u c p := by
    rw [TableGraph.Load.mem_foundRows, and_iff_right hp, points_iff parent [] swapped.direct]
  rw [shown_eq swapped.direct fun _ => two.unique, ← found]
  generalize TableGraph.Load.foundRows u (relatedKey there parent [] (t.record c)) = rows at one ⊢
  constructor
  · rintro rfl
    exact List.mem_singleton_self p
  · intro mem
    match rows, one with
    | [p'], _ => rw [List.mem_singleton.1 mem]

theorem mem_listed_iff {c p : Row} (hc : c ∈ t.rows) :
    c ∈ shown back child orders u t p ↔ back.relation.Points u t p c := by
  have swapped := two.reverse.swapped.2
  rw [shown_eq swapped.direct' fun single => swapped.targets ▸ two.single single,
    TableGraph.Load.mem_foundRows, and_iff_right hc,
    points_iff child orders swapped.direct']

/-- No row has values that point to two rows. -/
theorem points_unique {c p p' : Row} (hp : p ∈ u.rows) (hp' : p' ∈ u.rows)
    (points : there.relation.Points t u c p) (points' : there.relation.Points t u c p') :
    p' = p := by
  have shows := (two.mem_shown_iff hp).2 points
  rw [(two.mem_shown_iff hp').2 points'] at shows
  exact List.singleton_inj.1 shows

/-- The two fields agree exactly if what is read of rows keeps them together. -/
theorem agrees_iff : Agrees there.relation t u (shown there parent [] t u)
    (shown back child orders u t) ↔ KeepsPairs there.relation back.relation t u := by
  constructor
  · intro agrees
    have alike : ∀ c ∈ t.rows, ∀ p ∈ u.rows,
        there.relation.Points t u c p ↔ back.relation.Points u t p c := fun c hc p hp => by
      rw [← two.mem_shown_iff hp, ← two.mem_listed_iff hc, agrees.both c hc p hp]
    refine ⟨fun c hc p hp same => ?_, alike⟩
    rw [alike c hc p hp, ← two.mem_listed_iff hc]
    exact (agrees.parent c hc p hp same p hp).2 rfl
  · intro keeps
    refine ⟨fun c hc p hp => ?_, fun c hc p hp same p' hp' => ?_⟩
    · rw [two.mem_shown_iff hp, two.mem_listed_iff hc, keeps.alike c hc p hp]
    · have points := keeps.kept c hc p hp same
      rw [two.mem_listed_iff hc, ← keeps.alike c hc p' hp']
      constructor
      · exact two.points_unique hp hp' points
      · rintro rfl
        exact points

/-- Plain rows are kept together. -/
theorem keepsPairs_of_plain (plain : there.relation.PlainSides t u) :
    KeepsPairs there.relation back.relation t u := by
  have swapped := two.reverse.swapped.2
  refine ⟨fun c hc p hp same => ?_, fun c hc p hp => ?_⟩
  · exact (plain.points_iff hc hp (two.reads c hc)).2
      ((plain.matches_iff hc hp (two.reads c hc)).1 same)
  · rw [plain.points_iff hc hp (two.reads c hc),
      (swapped.plainSides plain).points_iff hp hc (two.reads' p hp), swapped.sources,
      swapped.targets]
    constructor <;> rintro ⟨notNull, same⟩
    · exact ⟨same ▸ notNull, same.symm⟩
    · exact ⟨same ▸ notNull, same.symm⟩

end BothWays

/-- Batches tell the rows of plain keys. -/
theorem told_of_plain (direct : r.relation.junction = none) (table : s.table target.name = .ok u)
    (readable : ∀ t ∈ s.tables, ∀ r ∈ t.rows, ∃ record, t.read r = .ok record)
    (reads : ∀ l ∈ t.rows, ∃ record, t.read l = .ok record)
    (plain : r.relation.PlainSides t u) : Told s r target orders t u := by
  obtain ⟨holder, columns⟩ := TableGraph.Load.holder_direct
    (g := relatedGroup r target .null orders none none) direct
  have key : ∀ l ∈ t.rows, (relatedKey r target orders (t.record l)).hasNull = false →
      TableGraph.Load.PlainKey u r.relation.toColumns
        (relatedKey r target orders (t.record l)).values := fun l hl notNull =>
    ((TableGraph.Load.plainKey_of_row plain.kin (plain.rows l hl)
      (Table.read_eq (reads l hl))).2 notNull).1
  refine ⟨fun l hl notNull => (key l hl notNull).exists_bind, fun rows hrows l hl => ?_⟩
  refine TableGraph.Load.tells_of_plain readable (fun k hk v hv => ?_) _ (List.mem_map_of_mem hl)
  obtain ⟨l, hl, rfl⟩ := List.mem_map.1 hk
  have own : v = u := by
    change s.table (relatedGroup r target .null orders none none).holder = .ok v at hv
    rw [holder] at hv
    exact Except.ok.inj (hv.symm.trans table)
  subst own
  refine ⟨fun notNull => ?_, fun p hp => ?_⟩
  · exact columns.symm ▸ key l (hrows hl) notNull
  · exact columns.symm ▸ plain.rows' p hp

/-- Each of the two fields gives rows what is shown for them, as far as batches tell; they agree
exactly if what is read of rows keeps them together; and plain rows are told and kept. -/
theorem both_ways (two : BothWays env s there back child parent a a' orders t u) :
    (Told s there parent [] t u → Gives env s there parent a [] t u) ∧
      (Told s back child orders u t → Gives env s back child a' orders u t) ∧
      (Agrees there.relation t u (shown there parent [] t u) (shown back child orders u t) ↔
        KeepsPairs there.relation back.relation t u) ∧
      (there.relation.PlainSides t u → Told s there parent [] t u ∧ Told s back child orders u t ∧
        KeepsPairs there.relation back.relation t u) := by
  have swapped := two.reverse.swapped.2
  refine ⟨gives_of_told two.unhindered swapped.direct two.table' two.readable,
    gives_of_told two.unhindered' swapped.direct' two.table two.readable, two.agrees_iff,
    fun plain => ⟨?_, ?_, two.keepsPairs_of_plain plain⟩⟩
  · exact told_of_plain swapped.direct two.table' two.readable two.reads plain
  · exact told_of_plain swapped.direct' two.table two.readable two.reads' (swapped.plainSides plain)

/-! ## Nodes -/

section Nodes

open Sample

/-- The node that another one is below. -/
def above : Relation where
  toRelationShape := link .belongsTo "above" "node" ["up"] ["id"] true none
  nonempty := by decide
  paired := rfl
  joined := by decide

/-- Nodes by what they are known by, each of them below another one or on top. -/
def nodeEntity (kind : BasicKind) : Entity where
  name := "node"
  columns := [column "id" (.plain kind), nullable (column "up" (.plain kind)),
    column "label" (.plain .string)]
  primaryKey := ["id"]
  relations := [above]
  distinct := by
    show ["id", "up", "label"].Nodup
    decide
  keyArity := keyArity_single "id"
  keyKnown := by
    show ∀ k ∈ ["id"], k ∈ ["id", "up", "label"]
    decide

/-- The nodes are registered. -/
def nodeBuilder (kind : BasicKind) : Builder :=
  { Builder.empty {} with entities := [nodeEntity kind] }

/-- A node. -/
def node (id up : Cell) (label : String) : Row := [("id", id), ("up", up), ("label", .text label)]

/-- The table of some nodes. -/
def nodeTable (kind : BasicKind) (nodes : List Row) : Table :=
  { Table.ofEntity [] (nodeEntity kind) with rows := nodes }

/-- The store of some nodes. -/
def nodeStore (kind : BasicKind) (nodes : List Row) : Store :=
  ⟨[nodeTable kind nodes], true, false, [], fun _ => true⟩

/-- The fields of nodes for the node above and for those below. -/
def aboveField (p : Projection) : RelationField := Projection.relationField {} p.typeName above

@[inherit_doc aboveField]
def belowField (p : Projection) : RelationField :=
  Projection.relationField {} p.typeName above.companion

variable {kind : BasicKind} {nodes : List Row} {schema : SealedSchema} {p : Projection}

theorem exists_nodes (built : (nodeBuilder kind).build = .ok schema) :
    schema.context = {} ∧ ∃ p, schema.projections = [p] ∧ p.name = "node" ∧
      p.relations = [aboveField p, belowField p] := by
  obtain ⟨-, -, projections, -⟩ := Builder.build_eq_ok built
  obtain ⟨p, others, hp, none, hprojections⟩ :=
    List.forall₂_cons_left_iff.1 (mapM_eq_ok.1 projections)
  cases none
  have shows := Builder.shows_of_project hp
  refine ⟨(Builder.roots_of_build built).1, p, hprojections, ?_, shows.relations⟩
  exact congrArg (·.name) shows.entity

/-- Nodes that differ in what they are known by can be walked up and down. -/
theorem bothWays_nodes (built : (nodeBuilder kind).build = .ok schema)
    (hp : schema.projections = [p]) (name : p.name = "node")
    (relations : p.relations = [aboveField p, belowField p])
    (readable : ∀ r ∈ nodes, ∃ record, (nodeTable kind nodes).read r = .ok record)
    (unique : (nodeTable kind nodes).UniqueIn ["id"]) :
    BothWays ⟨schema, {}⟩ (nodeStore kind nodes) (aboveField p) (belowField p) p p ⟨[], none⟩
      ⟨[], none⟩ [] (nodeTable kind nodes) (nodeTable kind nodes) := by
  have context := (exists_nodes built).1
  have found : schema.projection "node" = .ok p := by
    have first : schema.projections.find? (fun p => p.name = "node") = some p := by
      rw [hp]
      exact List.find?_cons_of_pos (decide_eq_true name)
    unfold SealedSchema.projection
    rw [first]
  have unguarded : ∀ name env', Environment.Enters ⟨schema, {}⟩ env' →
      env'.checkEntity name .read = .ok () := by
    rintro name _ ⟨_, _, _, rfl⟩
    unfold Environment.checkEntity Environment.enter
    rw [context]
    rfl
  have unguarded' : ∀ path env', Environment.Enters ⟨schema, {}⟩ env' →
      env'.checkField path .read = .ok () := by
    rintro path _ ⟨_, _, _, rfl⟩
    unfold Environment.checkField Environment.enter
    rw [context]
    rfl
  have unscoped : ∀ env', Environment.Enters ⟨schema, {}⟩ env' →
      env'.scope p .read = .ok none := by
    rintro _ ⟨_, _, _, rfl⟩
    unfold Environment.scope Environment.enter
    rw [context]
    rfl
  have whole : PageRequest.ofValue schema.context .null = .ok .all := by
    rw [context]
    rfl
  have table : (nodeStore kind nodes).table p.name = .ok (nodeTable kind nodes) := by
    rw [name]
    rfl
  exact
    { reverse := .companion rfl rfl
      own := relations ▸ List.mem_cons_self
      own' := relations ▸ List.mem_cons_of_mem _ List.mem_cons_self
      leads := found
      leads' := found
      unhindered := ⟨unguarded _, unguarded' _, unscoped, nofun, nofun, rfl⟩
      unhindered' := ⟨unguarded _, unguarded' _, unscoped, fun _ => rfl, fun _ => whole, rfl⟩
      table := table
      table' := table
      readable := by
        rintro t ht
        rw [List.mem_singleton.1 ht]
        exact readable
      unique := unique
      single := nofun }

/-- Whole numbers that fit are kept as they are. -/
theorem plainSides_integers (whole : ∀ r ∈ nodes, ∀ c ∈ ["id", "up"],
    r.get c = .null ∨ ∃ n, Cell.holds n ∧ r.get c = .int n) :
    above.PlainSides (nodeTable (.integer .regular) nodes)
      (nodeTable (.integer .regular) nodes) := by
  have row : ∀ r ∈ nodes, ∀ c ∈ ["id", "up"],
      ∃ type, (nodeTable (.integer .regular) nodes).typeOf c = .ok type ∧
        ((r.get c).isNull ∨ ∃ v, type.Plain v ∧ r.get c = v.cell) := by
    intro r hr c hc
    have type : (nodeTable (.integer .regular) nodes).typeOf c = .ok .integer := by
      rw [List.mem_cons, List.mem_singleton] at hc
      rcases hc with rfl | rfl <;> rfl
    refine ⟨.integer, type, ?_⟩
    rcases whole r hr c hc with null | ⟨n, held, same⟩
    · rw [null]
      exact .inl rfl
    · exact .inr ⟨.int n, .whole rfl held, same⟩
  refine ⟨.cons ⟨.integer, .integer, rfl, rfl, fun _ => Iff.rfl⟩ .nil, fun r hr c hc => ?_,
    fun r hr c hc => ?_⟩
  · exact row r hr c (List.mem_cons_of_mem _ hc)
  · exact row r hr c (List.mem_singleton.1 hc ▸ List.mem_cons_self)

/-- Nodes that are known by whole numbers are walked up and down alike. -/
theorem both_ways_integers : ∃ schema p,
    (nodeBuilder (.integer .regular)).build = .ok schema ∧
    let nodes := [node (.int 1) .null "top", node (.int 2) (.int 1) "left",
      node (.int 3) (.int 1) "right"]
    let t := nodeTable (.integer .regular) nodes
    let s := nodeStore (.integer .regular) nodes
    Gives ⟨schema, {}⟩ s (aboveField p) p ⟨[], none⟩ [] t t ∧
      Gives ⟨schema, {}⟩ s (belowField p) p ⟨[], none⟩ [] t t ∧
      Agrees above t t (shown (aboveField p) p [] t t) (shown (belowField p) p [] t t) := by
  obtain ⟨schema, built⟩ : ∃ schema, (nodeBuilder (.integer .regular)).build = .ok schema :=
    exists_of_isOk (by decide +kernel)
  obtain ⟨-, p, hp, name, relations⟩ := exists_nodes built
  refine ⟨schema, p, built, ?_⟩
  intro nodes t s
  have readable : ∀ r ∈ nodes, ∃ record, t.read r = .ok record := fun r hr =>
    exists_of_isOk (List.all_eq_true.1 (show (nodes.all fun r => (t.read r).isOk) = true by
      decide +kernel) r hr)
  have unique : t.UniqueIn ["id"] := by
    unfold Table.UniqueIn
    decide +kernel
  have whole : ∀ r ∈ nodes, ∀ c ∈ ["id", "up"],
      r.get c = .null ∨ ∃ n, Cell.holds n ∧ r.get c = .int n := by
    simp only [nodes, List.forall_mem_cons, List.not_mem_nil, false_implies, implies_true, and_true]
    exact ⟨⟨.inr ⟨1, rfl, rfl⟩, .inl rfl⟩, ⟨.inr ⟨2, rfl, rfl⟩, .inr ⟨1, rfl, rfl⟩⟩,
      ⟨.inr ⟨3, rfl, rfl⟩, .inr ⟨1, rfl, rfl⟩⟩⟩
  obtain ⟨up, down, agrees, plain⟩ :=
    both_ways (bothWays_nodes built hp name relations readable unique)
  obtain ⟨told, told', keeps⟩ := plain (plainSides_integers whole)
  exact ⟨up told, down told', agrees.2 keeps⟩

/-- The key that leads from a node to others. -/
def nodeKey (r : Relation) (row : Record) : LoadKey :=
  ⟨r.fromColumns.map row.get, ⟨"node", r.toColumns, r.junction, .null, .null, [], none⟩⟩

theorem relatedKey_nodes (name : p.name = "node") :
    relatedKey (aboveField p) p [] = nodeKey above ∧
      relatedKey (belowField p) p [] = nodeKey above.companion := by
  unfold relatedKey relatedGroup
  rw [name]
  exact ⟨rfl, rfl⟩

/-- Decimal numbers are read with ten places, which are those of another node: the one below is told
to be below that one, and neither lists it. -/
theorem not_agrees_decimals : ∃ schema p, (nodeBuilder .decimal).build = .ok schema ∧
    let own := node (.real (.ofScientific false 12345678901 (-11))) .null "own"
    let other := node (.real (.ofScientific false 123456789 (-9))) .null "other"
    let child := node (.real (.ofScientific false 5 (-1)))
      (.real (.ofScientific false 12345678901 (-11))) "child"
    let nodes := [own, other, child]
    let t := nodeTable .decimal nodes
    let s := nodeStore .decimal nodes
    let keys := fun r => nodes.map fun l => relatedKey r p [] (t.record l)
    BothWays ⟨schema, {}⟩ s (aboveField p) (belowField p) p p ⟨[], none⟩ ⟨[], none⟩ [] t t ∧
      above.Matches child own ∧ shown (aboveField p) p [] t t child = [other] ∧
      (∀ l ∈ nodes, shown (belowField p) p [] t t l = []) ∧
      ((TableGraph.Load.one s (keys (aboveField p))).run 0).toOption.map
        (fun x => x.1.map (·.map fun r => (r.get "label").shown)) =
          some [none, none, some "other"] ∧
      ((TableGraph.Load.many s (keys (belowField p))).run 0).toOption.map
        (fun x => x.1.map List.length) = some [0, 0, 0] ∧
      ¬Agrees above t t (shown (aboveField p) p [] t t) (shown (belowField p) p [] t t) := by
  obtain ⟨schema, built⟩ : ∃ schema, (nodeBuilder .decimal).build = .ok schema :=
    exists_of_isOk (by decide +kernel)
  obtain ⟨-, p, hp, name, relations⟩ := exists_nodes built
  refine ⟨schema, p, built, ?_⟩
  intro own other child nodes t s keys
  have readable : ∀ r ∈ nodes, ∃ record, t.read r = .ok record := fun r hr =>
    exists_of_isOk (List.all_eq_true.1 (show (nodes.all fun r => (t.read r).isOk) = true by
      decide +kernel) r hr)
  have unique : t.UniqueIn ["id"] := by
    unfold Table.UniqueIn
    decide +kernel
  have same : above.Matches child own := by
    unfold Relation.Matches
    decide +kernel
  obtain ⟨key, key'⟩ := relatedKey_nodes name
  have up : shown (aboveField p) p [] t t child = [other] := by
    unfold shown
    rw [key]
    change (TableGraph.Load.foundRows t _).take 1 = _
    decide +kernel
  have down : ∀ l ∈ nodes, shown (belowField p) p [] t t l = [] := by
    unfold shown
    rw [key']
    change ∀ l ∈ nodes, TableGraph.Load.foundRows t _ = []
    decide +kernel
  refine ⟨bothWays_nodes built hp name relations readable unique, same, up, down, ?_, ?_,
    fun agrees => ?_⟩
  · simp only [keys, key]
    decide +kernel
  · simp only [keys, key']
    decide +kernel
  · have first : own ∈ t.rows := List.mem_cons_self
    have last : child ∈ t.rows := List.mem_of_getElem? (i := 2) rfl
    have listed := (agrees.parent child last own first same own first).2 rfl
    rw [down own first] at listed
    cases listed

end Nodes

end Answer

end TableGraph
