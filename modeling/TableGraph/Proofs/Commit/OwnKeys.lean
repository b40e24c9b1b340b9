import TableGraph.Proofs.Commit.Paths
import TableGraph.Proofs.Lossless
import TableGraph.Sample.Registered

/-!
# Rows that are found by their own keys

A database that does not return what it changes tells a changed row if the row is found by the key
that was read from it, with what is given for the key in its place; and an inserted row if it is
found by the key that is known of it.

Main statement: `paths_agree`.
-/

namespace TableGraph

namespace Mutation

variable {codec : Codec} {s : Store} {p : Projection} {filter : Value}
  {scope : Option (Predicate Value)} {t t' : Table} {S : Row → Bool} {values : Record} {row : Row}
  {after : Row → Row} {enumerations : List Enumeration}

/-! ## Changed rows -/

/-- The table as far as its key is read. -/
def keyPart (p : Projection) (t : Table) : Table :=
  { t with columns := t.columns.filter fun c => p.entity.isKey c.name }

/-- What stands for a column of the key of a row: what is given, else what is read. -/
def keyValue (p : Projection) (t : Table) (values : Record) (r : Row) (column : String) : Value :=
  (values.lookup column).getD (((keyPart p t).record r).get column)

/-- The key of a row can be read, and finds the row after the change. -/
structure OwnKey (p : Projection) (t : Table) (values : Record) (after : Row → Row) (r : Row) :
    Prop where
  readable : ∃ key, (keyPart p t).read r = .ok key
  finds : ∀ c ∈ p.entity.primaryKey, ∃ type, t.typeOf c = .ok type ∧
    type.Finds (keyValue p t values r c) ((after r).get c)

theorem foundAgain_of_ownKey (keeps : t.Keeps enumerations p.entity)
    (own : ∀ r ∈ t.rows, S r = true → OwnKey p t values after r) :
    ∃ cells, KeysAgain p t S values cells ∧ FoundAgain p t S after cells := by
  have selected {r : Row} (hr : r ∈ t.rows.filter S) : OwnKey p t values after r :=
    own r (List.mem_filter.1 hr).1 (List.mem_filter.1 hr).2
  obtain ⟨types, htypes⟩ := keeps.exists_keyTypes
  have finds : ∀ r ∈ t.rows.filter S, t.FindsAll p.entity.primaryKey
      (p.entity.primaryKey.map (keyValue p t values r))
      (p.entity.primaryKey.map (after r).get) := by
    intro r hr
    have all := Table.findsAll_map id (selected hr).finds
    rwa [List.map_id] at all
  obtain ⟨cells, hcells, found⟩ := Table.bindKeys_of_finds htypes finds
  refine ⟨cells, ⟨(t.rows.filter S).map (keyPart p t).record, types, ?_, htypes, ?_⟩, found⟩
  · exact mapM_eq_map fun r hr => (keyPart p t).read_eq (selected hr).readable
  · rw [List.map_map]
    exact hcells

/-! ## Keys that are kept -/

/-- The keys of the rows that are changed are read without loss, and what is given in their place is
taken. -/
structure KeptKeys (p : Projection) (t : Table) (S : Row → Bool) (values : Record) : Prop where
  readable : ∀ r ∈ t.rows, S r = true → ∃ record, t.read r = .ok record
  notNull : ∀ r ∈ t.rows, S r = true → ∀ c ∈ p.entity.primaryKey, (r.get c).isNull = false
  given : ∀ c ∈ p.entity.primaryKey, ∀ v, values.lookup c = some v →
    ∃ type x, t.typeOf c = .ok type ∧ type.Takes v x
  lossless : ∀ r ∈ t.rows, S r = true → ∀ c ∈ p.entity.primaryKey, values.lookup c = none →
    ∃ type, t.typeOf c = .ok type ∧ type.Lossless (r.get c)

theorem typeOf_keyPart {c : String} (hc : c ∈ p.entity.primaryKey) :
    (keyPart p t).typeOf c = t.typeOf c := by
  have key : p.entity.isKey c = true := List.contains_iff_mem.2 hc
  have same : (fun d : StoredColumn => p.entity.isKey d.name && decide (d.name = c)) =
      fun d => decide (d.name = c) := by
    funext d
    by_cases hd : d.name = c
    · rw [hd, key, Bool.true_and]
    · rw [decide_eq_false hd, Bool.and_false]
  unfold Table.typeOf keyPart
  dsimp only
  rw [List.find?_filter]
  simp only [Bool.decide_and, Bool.decide_eq_true, same]

/-- A row that can be read has a key that can be read. -/
theorem exists_key_of_read {r : Row} (h : ∃ record, t.read r = .ok record) :
    ∃ key, (keyPart p t).read r = .ok key := by
  obtain ⟨record, hread⟩ := h
  refine mapM_of_forall fun c hc => ?_
  obtain ⟨entry, -, hentry⟩ := exists_of_mem_mapM hread (List.mem_filter.1 hc).1
  exact ⟨entry, hentry⟩

/-- A value that is given for a column and taken by it is in its cell. -/
theorem lookup_cells_takes {cells : Row} (hcells : t.cellsOf values = .ok cells) {c : String}
    {v : Value} {type : SqlType} {x : Cell} (hv : values.lookup c = some v)
    (typed : t.typeOf c = .ok type) (takes : type.Takes v x) : cells.lookup c = some x := by
  obtain ⟨type', cell, typed', hcell, hkept⟩ := (Table.lookup_cellsOf hcells c).2 v hv
  obtain ⟨y, hy, rfl⟩ := takes.kept
  obtain rfl := Except.ok.inj (typed.symm.trans typed')
  obtain rfl := Except.ok.inj (hy.symm.trans hcell)
  exact hkept

theorem ownKey_replaced {cells : Row} (hcells : t.cellsOf values = .ok cells)
    (kept : KeptKeys p t S values) {r : Row} (hr : r ∈ t.rows) (selected : S r = true)
    (hafter : after r = Table.replaced cells r) : OwnKey p t values after r := by
  have key := exists_key_of_read (p := p) (kept.readable r hr selected)
  refine ⟨key, fun c hc => ?_⟩
  rw [hafter, Table.get_replaced (kept.notNull r hr selected c hc)]
  unfold keyValue
  cases hgiven : values.lookup c with
  | some w =>
    obtain ⟨type, x, typed, takes⟩ := kept.given c hc w hgiven
    rw [lookup_cells_takes hcells hgiven typed takes]
    exact ⟨type, typed, takes.finds⟩
  | none =>
    obtain ⟨type, typed, lossless⟩ := kept.lossless r hr selected c hc hgiven
    have read := Table.read_of_typeOf ((keyPart p t).read_eq key) ((typeOf_keyPart hc).trans typed)
    rw [(Table.lookup_cellsOf hcells c).1 hgiven]
    exact ⟨type, typed, (lossless _ read).finds⟩

theorem Rewrites.ownKey_of_kept {data : List (String × Value)}
    (h : Rewrites codec s p data filter scope t S values after) (kept : KeptKeys p t S values) :
    ∀ r ∈ t.rows, S r = true → OwnKey p t values after r := by
  obtain ⟨cells, hcells, hafter⟩ := h.edits
  intro r hr selected
  refine ownKey_replaced hcells kept hr selected ?_
  rw [hafter]
  exact if_pos selected

/-! ## Inserted rows -/

/-- A column of the key of a row that is inserted takes a value that is given for it, or the table
supplies its next number. -/
inductive Supplied (t : Table) (values : Record) (c : Column) : Prop
  | given {v : Value} {type : SqlType} {x : Cell} (value : values.lookup c.name = some v)
    (typed : t.typeOf c.name = .ok type) (takes : type.Takes v x)
  | numbered (absent : values.lookup c.name = none) (generated : c.autoIncrement = true)
    (number : t.numberedKey? = some c.name) (held : Cell.holds (t.nextNumber c.name))

theorem get_rowOf (keeps : t.Keeps enumerations p.entity) (cells : Row) {c : Column}
    (hc : c ∈ p.entity.columns) : (t.rowOf cells).get c.name =
      if (cells.get c.name).isNull && t.numberedKey? = some c.name then
        .int (t.nextNumber c.name) else cells.get c.name := by
  have found : (t.rowOf cells).lookup c.name = some _ :=
    lookup_map_name StoredColumn.name keeps.nodup (keeps.mem hc)
  rw [Row.get, found]
  rfl

theorem typeOf_numberedKey (keeps : t.Keeps enumerations p.entity) {c : String}
    (number : t.numberedKey? = some c) : t.typeOf c = .ok .integer := by
  unfold Table.numberedKey? at number
  split at number
  · split_ifs at number with integer
    cases number
    obtain ⟨d, hd, named⟩ := List.any_eq_true.1 integer
    rw [Bool.and_eq_true, decide_eq_true_iff, beq_iff_eq] at named
    obtain ⟨rfl, type⟩ := named
    have found : (t.columns.find? fun e => e.name = d.name) = some d := find?_name keeps.nodup hd
    unfold Table.typeOf
    rw [found, ← type]
  · cases number

/-- A row that is inserted with such a key is found by it. -/
theorem known_of_supplied (keeps : t.Keeps enumerations p.entity)
    (inserted : t.insert values = .ok (t', row))
    (supplied : ∀ c ∈ p.keyColumns, Supplied t values c) :
    Known p t values row := by
  obtain ⟨cells, hcells, rfl, -, -⟩ := Table.insert_eq_ok inserted
  obtain ⟨types, htypes⟩ := keeps.exists_keyTypes
  have finds : t.FindsAll (p.keyColumns.map (·.name)) (insertedKey p t values (t.rowOf cells))
      (p.keyColumns.map fun c => (t.rowOf cells).get c.name) := by
    refine Table.findsAll_map Column.name fun c hc => ?_
    have known := (Entity.mem_keyColumns hc).1
    rw [get_rowOf keeps cells known]
    cases supplied c hc with
    | @given v type x value typed takes =>
      have kept : cells.get c.name = x := by
        rw [Row.get, lookup_cells_takes hcells value typed takes, Option.getD_some]
      rw [kept, takes.notNull, Bool.false_and, if_neg Bool.false_ne_true, value]
      exact ⟨type, typed, takes.finds⟩
    | numbered absent generated number held =>
      have empty : cells.get c.name = .null := by
        rw [Row.get, (Table.lookup_cellsOf hcells c.name).1 absent, Option.getD_none]
      have plain : SqlType.integer.Plain (.int (t.nextNumber c.name)) := .whole rfl held
      have next : (Cell.null.isNull && some c.name = some c.name) = true := decide_eq_true rfl
      rw [empty, number, absent, if_pos next]
      refine ⟨.integer, typeOf_numberedKey keeps number, ?_⟩
      dsimp only
      rw [if_pos ⟨generated, rfl⟩]
      exact plain.takes.finds
  have names : p.keyColumns.map (·.name) = p.entity.primaryKey := Entity.names_keyColumns p.entity
  rw [names] at finds
  -- Keys are bound by the types of the first of them, so that a single key is a list of one.
  have each : ∀ u ∈ [()], t.FindsAll p.entity.primaryKey (insertedKey p t values (t.rowOf cells))
      (p.keyColumns.map fun c => (t.rowOf cells).get c.name) := fun _ _ => finds
  obtain ⟨bound, hbound, found⟩ := Table.bindKeys_of_finds htypes each
  cases found with
  | @cons _ key _ _ same rest =>
    cases rest
    refine ⟨types, key, htypes, hbound, ?_⟩
    rw [← names, List.map_map]
    exact same

/-! ## Both kinds of database -/

/-- The two kinds of database come to the same, as far as they do. -/
structure PathsAgree (codec : Codec) (s : Store) (p : Projection) : Prop where
  /-- A row is created alike if its key is known. -/
  createdOne : ∀ data, (∀ values, Converted codec p data values → AllKnown p s [values]) →
    Agree Eq s (createOne codec p data)
  /-- Rows are created alike if their keys are known. -/
  createdBatch : ∀ items,
    (∀ rows, List.Forall₂ (Converted codec p) items rows → AllKnown p s rows) →
    Agree Eq s (createBatch codec p items)
  /-- A key is known that is given and taken by its columns, or supplied as a number. -/
  known : ∀ t t' values row, s.table p.name = .ok t → t.insert values = .ok (t', row) →
    (∀ c ∈ p.keyColumns, Supplied t values c) → Known p t values row
  /-- Rows are updated alike exactly if the keys find rows that tell what the changed ones tell. -/
  updated : ∀ data filter scope, Agree List.Perm s (update codec p data filter scope) ↔
    ∀ t S values after, Rewrites codec s p data filter scope t S values after →
      Refound p t S values after
  /-- They do if every changed row is found by its own key. -/
  ownKeys : ∀ data filter scope t S values after,
    Rewrites codec s p data filter scope t S values after →
    (∀ r ∈ t.rows, S r = true → OwnKey p t values after r) → Refound p t S values after
  /-- Keys find their rows that are read without loss, or given and taken by their columns. -/
  keptKeys : ∀ data filter scope t S values after,
    Rewrites codec s p data filter scope t S values after → KeptKeys p t S values →
    ∀ r ∈ t.rows, S r = true → OwnKey p t values after r
  /-- Without loss columns read what they took, unless they are of decimals, JSON or lists. -/
  lossless : ∀ type v x, SqlType.IsExact type → type.Takes v x → type.Lossless x
  /-- Whatever they tell, updates that succeed leave the same tables. -/
  tables : ∀ data filter scope db₁ db₂ s₁ s₂ told₁ told₂,
    db₁.stored = s.answering true → db₂.stored = s.answering false →
    (update codec p data filter scope).Gives db₁ s₁ told₁ →
    (update codec p data filter scope).Gives db₂ s₂ told₂ → s₂ = s₁.answering false

theorem paths_agree (keeps : ∀ t, s.table p.name = .ok t → t.Keeps enumerations p.entity)
    (codec : Codec) : PathsAgree codec s p where
  createdOne _ := createOne_agrees keeps
  createdBatch _ := createBatch_agrees keeps
  known t _ _ _ table := known_of_supplied (keeps t table)
  updated _ _ _ := update_agrees_iff keeps
  ownKeys data filter scope t S values after h own := by
    obtain ⟨cells, again, found⟩ := foundAgain_of_ownKey (keeps t h.selects.table) own
    exact h.refound (keeps t h.selects.table) again found
  keptKeys _ _ _ _ _ _ _ h := h.ownKey_of_kept
  lossless _ _ _ exact takes := takes.lossless exact
  tables _ _ _ _ _ _ _ _ _ := tables_of_updates

/-! ## Whole numbers and decimals as keys -/

section Samples

open TableGraph.Sample

/-- The number of an item is changed, and with it its key. -/
def renumbered : Session (List Record) :=
  update Rates.codec Items.projection [("id", .int 7)]
    (.object [("id", .object [("eq", .int 1)])]) none

theorem keeps_items {items : List Row} {t : Table}
    (h : (Items.store items).table Items.projection.name = .ok t) :
    t.Keeps [] Items.projection.entity := by
  cases h
  exact Table.keeps_ofEntity [] Items.entity items

/-- An item with a new number is told by either kind of database. -/
theorem paths_agree_items :
    (∀ t, (Items.store [Items.item 1 .null true]).table Items.projection.name = .ok t →
      t.Keeps [] Items.projection.entity) ∧
    Agree List.Perm (Items.store [Items.item 1 .null true]) renumbered ∧
    (renumbered.outcome (.opened ((Items.store [Items.item 1 .null true]).answering
      false))).1.toOption.map (·.map fun told => (told.get "id").shown) = some ["7"] := by
  have keeps : ∀ t, (Items.store [Items.item 1 .null true]).table Items.projection.name = .ok t →
      t.Keeps [] Items.projection.entity := fun _ => keeps_items
  have agree := paths_agree keeps Rates.codec
  refine ⟨keeps, (agree.updated _ _ _).2 fun t S values after h => ?_, by decide +kernel⟩
  refine agree.ownKeys _ _ _ t S values after h (agree.keptKeys _ _ _ t S values after h ?_)
  cases h.selects.table
  obtain rfl : values = [("id", .int 7)] := h.converted.unique (columnValues_eq_ok.1 rfl)
  have seven : SqlType.integer.Plain (.int 7) := .whole rfl (by decide)
  constructor
  · intro r hr _
    rw [List.mem_singleton.1 hr]
    exact ⟨_, rfl⟩
  · intro r hr _ c hc
    rw [List.mem_singleton.1 hr, List.mem_singleton.1 hc]
    rfl
  · intro c hc v hv
    rw [List.mem_singleton.1 hc] at hv ⊢
    cases hv
    exact ⟨.integer, _, rfl, seven.takes⟩
  · intro r hr _ c hc absent
    rw [List.mem_singleton.1 hc] at absent
    cases absent

/-- The label of a rate is changed that has eleven places. -/
def relabelledRate : Session (List Record) :=
  update Rates.codec Rates.projection [("label", .text "new")] (Rates.labelled "old") none

/-- Its key is read as ten places, which do not find it: it is told as changed by one kind of
database, and nothing by the other. -/
theorem not_agree_rate :
    ¬ Agree List.Perm (Rates.store false [Rates.rate 12345678901 (-11) "old"]) relabelledRate := by
  intro agree
  let opened (returns : Bool) : Database :=
    .opened ((Rates.store false [Rates.rate 12345678901 (-11) "old"]).answering returns)
  have returned : (relabelledRate.outcome (opened true)).1.toOption.map (·.map Rates.labelOf) =
      some ["new"] := by
    decide +kernel
  have readBack : (relabelledRate.outcome (opened false)).1.toOption.map (·.map Rates.labelOf) =
      some [] := by
    decide +kernel
  obtain ⟨told, hrun, labels⟩ := Option.map_eq_some_iff.1 returned
  obtain ⟨told', ⟨db, hrun', -⟩, same⟩ := agree.readBack (opened true) (opened false) _ told rfl rfl
    ⟨_, Prod.ext (eq_ok_of_toOption hrun) rfl, rfl⟩
  rw [hrun'] at readBack
  have none : told' = [] := List.map_eq_nil_iff.1 (Option.some.inj readBack)
  rw [none] at same
  rw [same.eq_nil] at labels
  cases labels

end Samples

end Mutation

end TableGraph
