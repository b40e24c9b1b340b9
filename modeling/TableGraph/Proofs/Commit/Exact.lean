import TableGraph.Proofs.EntityTable
import TableGraph.Proofs.Scope.Change
import TableGraph.Sample.Filtered

/-!
# Writes hit what reads list

A listing of all rows within a filter and a row scope, a deletion and an update bind the same
condition, so that there is one set of rows that the first shows, the second removes and the third
changes.  Whatever lies outside of it is left alone: other rows, other columns and other tables.

A database that does not return the rows it changes is asked for them again, by the keys they had
with the values they were given.  Then the rows that are told are those that the keys find, which
are the changed ones exactly if the keys find these and no others; they are if every row is found by
its own key (`refound_of_own`).

Main statement: `writes_listed`.
-/

namespace TableGraph

namespace Table

variable {t : Table} {cells : Row} {values : Record} {r r' : Row}

/-- The values of rows, told in some order. -/
def Tells (t : Table) (rows : List Row) (told : List Record) : Prop :=
  ∃ arranged : List Row, arranged.Perm rows ∧ arranged.mapM t.read = .ok told

/-- A row has the given values, as they are kept, in the columns they are given for, and what
another row has in all others. -/
structure Given (t : Table) (values : Record) (r r' : Row) : Prop where
  columns : r'.map (·.1) = r.map (·.1)
  kept : ∀ column, values.lookup column = none → r'.lookup column = r.lookup column
  given : ∀ column v, values.lookup column = some v → column ∈ r.map (·.1) →
    ∃ type cell, t.typeOf column = .ok type ∧ type.bind v = .ok cell ∧
      r'.lookup column = some (cell.preferred (.ofType type))

/-! ## Changed rows -/

theorem lookup_replaced (cells r : Row) (column : String) :
    (replaced cells r).lookup column =
      (r.lookup column).map fun cell => (cells.lookup column).getD cell := by
  induction r with
  | nil => rfl
  | cons entry r ih =>
    obtain ⟨name, cell⟩ := entry
    show List.lookup column ((name, (cells.lookup name).getD cell) :: replaced cells r) = _
    rw [List.lookup_cons, List.lookup_cons, ih]
    by_cases h : column = name
    · rw [h, beq_self_eq_true]
      rfl
    · rw [beq_false_of_ne h]

theorem get_replaced {c : String} (notNull : (r.get c).isNull = false) :
    (replaced cells r).get c = (cells.lookup c).getD (r.get c) := by
  unfold Row.get at notNull ⊢
  rw [lookup_replaced]
  cases hlookup : r.lookup c with
  | none =>
    rw [hlookup] at notNull
    cases notNull
  | some x => rfl

theorem lookup_cellsOf (h : t.cellsOf values = .ok cells) (column : String) :
    (values.lookup column = none → cells.lookup column = none) ∧
      ∀ v, values.lookup column = some v → ∃ type cell, t.typeOf column = .ok type ∧
        type.bind v = .ok cell ∧ cells.lookup column = some (cell.preferred (.ofType type)) := by
  have items := mapM_eq_ok.1 h
  clear h
  induction items with
  | nil => exact ⟨fun _ => rfl, nofun⟩
  | @cons entry kept values cells hentry _ ih =>
    obtain ⟨name, w⟩ := entry
    obtain ⟨type, htype, hentry⟩ := bind_eq_ok.1 hentry
    obtain ⟨cell, hcell, hentry⟩ := bind_eq_ok.1 hentry
    cases hentry
    rw [List.lookup_cons, List.lookup_cons]
    by_cases hname : column = name
    · subst hname
      rw [beq_self_eq_true]
      refine ⟨nofun, fun v hv => ?_⟩
      cases hv
      exact ⟨type, cell, htype, hcell, rfl⟩
    · rw [beq_false_of_ne hname]
      exact ih

/-- Replacing the cells of some values gives a row these values. -/
theorem given_replaced (h : t.cellsOf values = .ok cells) (r : Row) :
    t.Given values r (replaced cells r) := by
  refine ⟨?_, fun column hnone => ?_, fun column v hv hcolumn => ?_⟩
  · unfold replaced
    rw [List.map_map]
    rfl
  · rw [lookup_replaced, (lookup_cellsOf h column).1 hnone]
    exact Option.map_id'
  · obtain ⟨type, cell, htype, hcell, hkept⟩ := (lookup_cellsOf h column).2 v hv
    obtain ⟨old, hold⟩ : ∃ old, r.lookup column = some old :=
      Option.ne_none_iff_exists'.1 fun hnone => by
        obtain ⟨entry, hentry, hname⟩ := List.mem_map.1 hcolumn
        exact absurd hname.symm (bne_iff_ne.1 (List.lookup_eq_none_iff.1 hnone entry hentry))
    refine ⟨type, cell, htype, hcell, ?_⟩
    rw [lookup_replaced, hkept, hold]
    rfl

/-! ## Keys -/

/-- A row has the cell of another in a column, and it is not null. -/
def SameAt (r r' : Row) (column : String) : Prop :=
  (r.get column).isNull = false ∧ (r.get column).order (r'.get column) = .eq

theorem SameAt.symm {column : String} (h : SameAt r r' column) : SameAt r' r column :=
  ⟨(Cell.isNull_of_order h.2).symm.trans h.1, Cell.order_eq_symm h.2⟩

theorem sameCells_rows {columns : List String} :
    sameCells (columns.map r.get) (columns.map r'.get) ↔ ∀ c ∈ columns, SameAt r r' c := by
  unfold sameCells SameAt
  induction columns with
  | nil => exact iff_of_true rfl nofun
  | cons c columns ih =>
    rw [List.map_cons, List.map_cons, List.zip_cons_cons, List.all_cons, Bool.and_eq_true, ih,
      List.forall_mem_cons]
    refine and_congr_left' ?_
    simp only [Bool.and_eq_true, beq_iff_eq, Bool.not_eq_true']

/-- Rows that one key is found at have the same cells there. -/
theorem sameAt_of_key {columns : List String} {key : List Cell}
    (hlength : key.length = columns.length) (h : sameCells (columns.map r.get) key)
    (h' : sameCells (columns.map r'.get) key) : ∀ c ∈ columns, SameAt r r' c := by
  unfold sameCells at h h'
  induction columns generalizing key with
  | nil => nofun
  | cons c columns ih =>
    cases key with
    | nil => cases hlength
    | cons x key =>
      rw [List.map_cons, List.zip_cons_cons, List.all_cons, Bool.and_eq_true] at h h'
      rw [List.forall_mem_cons]
      refine ⟨?_, ih (Nat.succ.inj hlength) h.2 h'.2⟩
      have own := h.1
      have other := h'.1
      simp only [Bool.and_eq_true, beq_iff_eq, Bool.not_eq_true'] at own other
      exact ⟨own.1, Std.TransCmp.eq_trans own.2 (Cell.order_eq_symm other.2)⟩

/-- Rows of a table have different keys, as far as the keys are without null. -/
theorem pairwise_of_hasUniqueKeys {rows : List Row} (h : t.hasUniqueKeys rows) :
    rows.Pairwise fun r r' => ¬ ∀ c ∈ t.key, SameAt r r' c := by
  induction rows with
  | nil => exact .nil
  | cons r rows ih =>
    unfold hasUniqueKeys at h
    rw [Bool.and_eq_true] at h
    refine List.pairwise_cons.2 ⟨fun r' hr' same => ?_, ih h.2⟩
    have new := List.all_eq_true.1 h.1 r' hr'
    rw [show sameCells (t.keyCells r) (t.keyCells r') = true from sameCells_rows.2 same] at new
    cases new

theorem length_of_bindKeys {types : List SqlType} {keys : List (List Value)}
    {cells : List (List Cell)} (h : bindKeys types keys = .ok cells)
    (hlength : ∀ key ∈ keys, key.length = types.length) :
    ∀ key ∈ cells, key.length = types.length := by
  unfold bindKeys at h
  cases keys with
  | nil =>
    cases h
    nofun
  | cons first rest =>
    intro key hkey
    obtain ⟨values, hvalues, hbound⟩ := mem_of_mapM h hkey
    rw [length_of_mapM hbound, List.length_zip, List.length_zip, List.length_map, List.length_zip,
      hlength first List.mem_cons_self, hlength values hvalues, Nat.min_self, Nat.min_self,
      Nat.min_self]

/-! ## What statements do -/

/-- The row with other cells if a condition holds of it. -/
def edited (q : Predicate Cell) (cells r : Row) : Row :=
  if q.accepts r then replaced cells r else r

theorem map_edited (q : Predicate Cell) (cells : Row) (rows : List Row) :
    (rows.filter q.accepts).map (edited q cells) =
      (rows.filter q.accepts).map (replaced cells) :=
  List.map_congr_left fun _ hr => if_pos (List.mem_filter.1 hr).2

theorem update_eq_ok {c : Predicate Value} {t' : Table} {changed : List Row}
    (h : t.update c values = .ok (t', changed)) :
    ∃ q cells, t.bind c = .ok q ∧ t.cellsOf values = .ok cells ∧
      t' = { t with rows := t.rows.map (edited q cells) } ∧
      t.hasUniqueKeys (t.rows.map (edited q cells)) ∧
      changed = (t.rows.filter q.accepts).map (edited q cells) := by
  unfold Table.update at h
  obtain ⟨q, hq, h⟩ := bind_eq_ok.1 h
  obtain ⟨cells, hcells, h⟩ := bind_eq_ok.1 h
  obtain ⟨u, hu, h⟩ := bind_eq_ok.1 h
  cases h
  refine ⟨q, cells, hq, hcells, checkRows_eq_ok hu, hasUniqueKeys_of_checkRows hu, ?_⟩
  rw [map_edited]

theorem tells_sorted {orders : List Order} {rows : List Row} {told : List Record}
    (h : (t.sorted orders rows).mapM t.read = .ok told) : t.Tells rows told :=
  ⟨_, t.sorted_perm orders rows, h⟩

end Table

/-! ## Writes -/

namespace Mutation

variable {codec : Codec} {s s' : Store} {p : Projection} {filter : Value}
  {scope : Option (Predicate Value)} {t : Table} {S : Row → Bool} {values : Record}
  {after : Row → Row} {cells : List (List Cell)}

/-- The listing of all rows of a filter and a row scope. -/
def listing (codec : Codec) (s : Store) (p : Projection) (filter : Value)
    (scope : Option (Predicate Value)) (orders : List Order) : Counted Connection := do
  let c ← Filter.compile codec p filter
  Query.connection codec s p (c.andAlso scope) orders .all

/-- The rows of the table that pass `S` are those a filter and a row scope select. -/
structure Selects (codec : Codec) (s : Store) (p : Projection) (filter : Value)
    (scope : Option (Predicate Value)) (t : Table) (S : Row → Bool) : Prop where
  table : s.table p.name = .ok t
  condition : ∃ c q, Filter.compile codec p filter = .ok c ∧ t.bind (c.andAlso scope) = .ok q ∧
    q.accepts = S

/-- The keys that the selected rows had, with the values they are given, as the cells that they are
looked for by. -/
def KeysAgain (p : Projection) (t : Table) (S : Row → Bool) (values : Record)
    (cells : List (List Cell)) : Prop :=
  ∃ keys types, (t.rows.filter S).mapM
      (Table.readColumns · (t.columns.filter fun c => p.entity.isKey c.name)) = .ok keys ∧
    p.entity.primaryKey.mapM t.typeOf = .ok types ∧
    Table.bindKeys types (keys.map fun key => p.entity.primaryKey.map fun name =>
      (values.lookup name).getD (key.get name)) = .ok cells

/-- The row has one of several keys. -/
def hasKey (p : Projection) (cells : List (List Cell)) (r : Row) : Bool :=
  cells.any fun key => Table.sameCells (p.entity.primaryKey.map r.get) key

/-- Every selected row is found by its own key after it was changed. -/
def FoundAgain (p : Projection) (t : Table) (S : Row → Bool) (after : Row → Row)
    (cells : List (List Cell)) : Prop :=
  List.Forall₂ (fun r key => Table.sameCells (p.entity.primaryKey.map (after r).get) key)
    (t.rows.filter S) cells

/-- A deletion removes the rows that pass `S` and counts them. -/
structure Removes (s s' : Store) (p : Projection) (t : Table) (S : Row → Bool) (count : Nat) :
    Prop where
  table : s'.table p.name = .ok { t with rows := t.rows.filter (!S ·) }
  count : count = (t.rows.filter S).length
  others : ∀ name, name ≠ p.name → s'.table name = s.table name

/-- An update turns the rows that pass `S` into what `after` says. -/
structure Edits (s s' : Store) (p : Projection) (t : Table) (S : Row → Bool) (values : Record)
    (after : Row → Row) : Prop where
  /-- The selected rows have the given values and nothing else is changed in them. -/
  given : ∀ r, S r = true → t.Given values r (after r)
  /-- The other rows are as they were. -/
  kept : ∀ r, S r = false → after r = r
  table : s'.table p.name = .ok { t with rows := t.rows.map after }
  others : ∀ name, name ≠ p.name → s'.table name = s.table name

/-- What an update tells of the rows that pass `S`. -/
structure Reports (s : Store) (p : Projection) (t : Table) (S : Row → Bool) (values : Record)
    (after : Row → Row) (told : List Record) : Prop where
  /-- A database that returns what it changes tells the changed rows; so does one that is given
  nothing. -/
  returned : s.returning = true ∨ values = [] → t.Tells ((t.rows.filter S).map after) told
  /-- Any other tells the rows that the keys find, which are the changed ones exactly if each of
  these and no other row has one of the keys. -/
  readBack : s.returning = false → values ≠ [] → ∃ cells, KeysAgain p t S values cells ∧
    t.Tells ((t.rows.map after).filter (hasKey p cells)) told ∧
    (((t.rows.map after).filter (hasKey p cells)).Perm ((t.rows.filter S).map after) ↔
      ∀ r ∈ t.rows, hasKey p cells (after r) = S r) ∧
    (FoundAgain p t S after cells → ∀ r ∈ t.rows, hasKey p cells (after r) = S r)

/-- One set of rows is what a listing shows, a deletion removes and an update changes. -/
structure WritesListed (codec : Codec) (s : Store) (p : Projection) (filter : Value)
    (scope : Option (Predicate Value)) : Prop where
  listed : ∀ orders n connection, (listing codec s p filter scope orders).Gives n connection →
    ∃ t S, Selects codec s p filter scope t S ∧ t.Tells (t.rows.filter S) connection.nodes
  deletes : ∀ t S, Selects codec s p filter scope t S → ∃ s',
    Removes s s' p t S (t.rows.filter S).length ∧ ∀ db, db.stored = s →
      ((delete codec p filter scope).Gives db s' (t.rows.filter S).length ↔ s'.commits = true)
  deleted : ∀ db s' count, db.stored = s → (delete codec p filter scope).Gives db s' count →
    ∃ t S, Selects codec s p filter scope t S ∧ Removes s s' p t S count
  updated : ∀ data db s' told, db.stored = s →
    (update codec p data filter scope).Gives db s' told →
    ∃ t S values after, Selects codec s p filter scope t S ∧ Converted codec p data values ∧
      Edits s s' p t S values after ∧ Reports s p t S values after told
  unique : ∀ t t' S S', Selects codec s p filter scope t S → Selects codec s p filter scope t' S' →
    t = t' ∧ S = S'

theorem Selects.unique {t' : Table} {S' : Row → Bool} (h : Selects codec s p filter scope t S)
    (h' : Selects codec s p filter scope t' S') : t = t' ∧ S = S' := by
  obtain rfl : t = t' := Except.ok.inj (h.table.symm.trans h'.table)
  obtain ⟨c, q, hc, hq, rfl⟩ := h.condition
  obtain ⟨c', q', hc', hq', rfl⟩ := h'.condition
  obtain rfl : c = c' := Except.ok.inj (hc.symm.trans hc')
  obtain rfl : q = q' := Except.ok.inj (hq.symm.trans hq')
  exact ⟨rfl, rfl⟩

/-! ## Rows that are found again -/

/-- Different rows of the table that an update leaves have no key in common. -/
theorem not_sameAt_after {u : Table} (unique : u.hasUniqueKeys (t.rows.map after)) {r r' : Row}
    (hr : r ∈ t.rows) (hr' : r' ∈ t.rows) (hne : r ≠ r') :
    ¬ ∀ c ∈ u.key, Table.SameAt (after r) (after r') c := by
  have apart := List.pairwise_map.1 (Table.pairwise_of_hasUniqueKeys unique)
  have _ : Std.Symm fun r r' => ¬ ∀ c ∈ u.key, Table.SameAt (after r) (after r') c :=
    ⟨fun _ _ h same => h fun c hc => (same c hc).symm⟩
  exact List.Pairwise.forall apart hr hr' hne

section Again

variable {enumerations : List Enumeration} (keeps : t.Keeps enumerations p.entity)
  (unique : t.hasUniqueKeys (t.rows.map after))
  (hlength : ∀ key ∈ cells, key.length = p.entity.primaryKey.length)
include keeps unique hlength

/-- No key finds two rows. -/
theorem eq_of_key {r r' : Row} (hr : r ∈ t.rows) (hr' : r' ∈ t.rows) {key : List Cell}
    (hkey : key ∈ cells) (h : Table.sameCells (p.entity.primaryKey.map (after r).get) key)
    (h' : Table.sameCells (p.entity.primaryKey.map (after r').get) key) : r = r' := by
  by_contra hne
  refine not_sameAt_after unique hr hr' hne fun c hc => ?_
  exact Table.sameAt_of_key (hlength key hkey) h h' c (keeps.mem_key.1 hc)

/-- Rows that are each found by their own key are found, and no others. -/
theorem refound_of_own (own : FoundAgain p t S after cells) {r : Row} (hr : r ∈ t.rows) :
    hasKey p cells (after r) = S r := by
  rw [Bool.eq_iff_iff]
  constructor
  · intro found
    obtain ⟨key, hkey, same⟩ := List.any_eq_true.1 found
    obtain ⟨r', hr', same'⟩ := exists_of_forall₂ own.flip hkey
    obtain ⟨hr', selected⟩ := List.mem_filter.1 hr'
    rw [eq_of_key keeps unique hlength hr hr' hkey same same']
    exact selected
  · intro selected
    obtain ⟨key, hkey, same⟩ := exists_of_forall₂ own (List.mem_filter.2 ⟨hr, selected⟩)
    exact List.any_eq_true.2 ⟨key, hkey, same⟩

/-- The rows that the keys find are the changed ones exactly if these have one of the keys and no
other row does. -/
theorem found_perm_iff :
    ((t.rows.map after).filter (hasKey p cells)).Perm ((t.rows.filter S).map after) ↔
      ∀ r ∈ t.rows, hasKey p cells (after r) = S r := by
  rw [List.filter_map]
  constructor
  · intro same r hr
    rw [Bool.eq_iff_iff]
    constructor
    · intro found
      have told := same.mem_iff.1 (List.mem_map_of_mem (List.mem_filter.2 ⟨hr, found⟩))
      obtain ⟨r', hr', heq⟩ := List.mem_map.1 told
      obtain ⟨hr', selected⟩ := List.mem_filter.1 hr'
      obtain ⟨key, hkey, hsame⟩ := List.any_eq_true.1 found
      rw [eq_of_key keeps unique hlength hr hr' hkey hsame (by rwa [heq])]
      exact selected
    · intro selected
      have told := same.mem_iff.2 (List.mem_map_of_mem (List.mem_filter.2 ⟨hr, selected⟩))
      obtain ⟨r', hr', heq⟩ := List.mem_map.1 told
      have found := (List.mem_filter.1 hr').2
      rwa [Function.comp_apply, heq] at found
  · intro same
    rw [List.filter_congr (p := hasKey p cells ∘ after) (q := S) same]

end Again

/-! ## Listing, deleting and updating -/

theorem listing_gives {orders : List Order} {n : Nat} {connection : Connection}
    (h : (listing codec s p filter scope orders).Gives n connection) :
    ∃ t S, Selects codec s p filter scope t S ∧ t.Tells (t.rows.filter S) connection.nodes := by
  unfold listing at h
  obtain ⟨c, hc, h⟩ := Counted.gives_lift_bind.1 h
  unfold Query.connection at h
  obtain ⟨t, records, table, hselect, h⟩ := Store.gives_ask_bind.1 h
  obtain ⟨m, h⟩ := h
  obtain ⟨hpage, -⟩ := Counted.run_lift_eq_ok.1 h
  obtain ⟨rows, hmatching, hread⟩ := Table.select_eq_ok.1 hselect
  obtain ⟨q, hq, rfl⟩ := Table.matching_eq_ok.1 hmatching
  rw [(Query.nodes_page hpage).1]
  exact ⟨t, q.accepts, ⟨table, c, q, hc, hq, rfl⟩, Table.tells_sorted hread⟩

theorem removes_of_deleted {c : Predicate Value} {count : Nat}
    (hc : Filter.compile codec p filter = .ok c) (h : Deleted p s (c.andAlso scope) s' count) :
    ∃ t S, Selects codec s p filter scope t S ∧ Removes s s' p t S count := by
  cases h with
  | @deleted t t' count table deleted =>
    obtain ⟨q, hq, h⟩ := bind_eq_ok.1 deleted
    cases h
    exact ⟨t, q.accepts, ⟨table, c, q, hc, hq, rfl⟩, Store.table_put table rfl, rfl,
      fun _ => Store.table_put_other table rfl⟩

/-- Whatever is selected can be deleted, unless the tables cannot be committed without it. -/
theorem delete_selected (h : Selects codec s p filter scope t S) : ∃ s',
    Removes s s' p t S (t.rows.filter S).length ∧ ∀ db, db.stored = s →
      ((delete codec p filter scope).Gives db s' (t.rows.filter S).length ↔
        s'.commits = true) := by
  obtain ⟨c, q, hc, hq, hS⟩ := h.condition
  have deleted : Deleted p s (c.andAlso scope) _ _ :=
    .deleted h.table (bind_eq_ok.2 ⟨q, hq, rfl⟩)
  obtain ⟨t', S', selects, removes⟩ := removes_of_deleted hc deleted
  obtain ⟨rfl, rfl⟩ := h.unique selects
  subst hS
  refine ⟨_, removes, fun db stored => ?_⟩
  subst stored
  rw [delete_gives]
  constructor
  · rintro ⟨-, -, taken, -⟩
    exact taken.2
  · intro commits
    exact ⟨c, hc, ⟨(Store.table_eq_ok.1 h.table).1.1, commits⟩, deleted⟩

theorem removes_of_delete {db : Database} {count : Nat} (stored : db.stored = s)
    (h : (delete codec p filter scope).Gives db s' count) :
    ∃ t S, Selects codec s p filter scope t S ∧ Removes s s' p t S count := by
  subst stored
  obtain ⟨c, hc, -, h⟩ := delete_gives.1 h
  exact removes_of_deleted hc h

/-- What is told of rows that are read back are those of the new table that have one of the keys. -/
theorem tells_of_readBack {keys : List (List Value)} {types : List SqlType} {told : List Record}
    (htypes : p.entity.primaryKey.mapM t.typeOf = .ok types) (table : s.table p.name = .ok t)
    (h : ReadBack p s keys told) : ∃ cells, Table.bindKeys types keys = .ok cells ∧
      t.Tells (t.rows.filter (hasKey p cells)) told := by
  cases h with
  | nothing => exact ⟨[], rfl, [], by rw [List.filter_eq_nil_iff.2 nofun], rfl⟩
  | rows some table' keyed read =>
    obtain rfl := Except.ok.inj (table.symm.trans table')
    obtain ⟨types', htypes', keyed⟩ := bind_eq_ok.1 keyed
    obtain rfl := Except.ok.inj (htypes.symm.trans htypes')
    obtain ⟨cells, hcells, keyed⟩ := bind_eq_ok.1 keyed
    cases keyed
    exact ⟨cells, hcells, Table.tells_sorted read⟩

theorem edits_of_update {q : Predicate Cell} {cells : Row}
    (table : s.table p.name = .ok t) (hcells : t.cellsOf values = .ok cells) :
    Edits s (s.put { t with rows := t.rows.map (Table.edited q cells) }) p t q.accepts values
      (Table.edited q cells) where
  given r selected := by
    unfold Table.edited
    rw [if_pos selected]
    exact Table.given_replaced hcells r
  kept r left := if_neg (by rw [left]; exact Bool.false_ne_true)
  table := Store.table_put table rfl
  others _ := Store.table_put_other table rfl

/-- What is told of rows that are read back by the keys of the selected rows. -/
theorem reports_of_readBack {enumerations : List Enumeration}
    (keeps : t.Keeps enumerations p.entity) (unique : t.hasUniqueKeys (t.rows.map after))
    (table : s.table p.name = .ok t)
    (some : values ≠ []) (returning : s.returning = false) {keys told : List Record}
    (asked : (t.rows.filter S).mapM
      (Table.readColumns · (t.columns.filter fun c => p.entity.isKey c.name)) = .ok keys)
    (read : ReadBack p (s.put { t with rows := t.rows.map after })
      (keys.map fun key => p.entity.primaryKey.map fun name =>
        (values.lookup name).getD (key.get name)) told) :
    Reports s p t S values after told := by
  obtain ⟨types, htypes⟩ := keeps.exists_keyTypes
  obtain ⟨cells, hcells, told⟩ := tells_of_readBack
    (t := { t with rows := t.rows.map after }) htypes (Store.table_put table rfl) read
  have hlength : ∀ key ∈ cells, key.length = p.entity.primaryKey.length := by
    rw [← length_of_mapM htypes]
    refine Table.length_of_bindKeys hcells fun key hkey => ?_
    obtain ⟨_, -, rfl⟩ := List.mem_map.1 hkey
    rw [List.length_map, length_of_mapM htypes]
  refine ⟨fun h => ?_, fun _ _ => ⟨cells, ⟨keys, types, asked, htypes, hcells⟩, told,
    found_perm_iff keeps unique hlength, fun own r => refound_of_own keeps unique hlength own⟩⟩
  rcases h with h | h
  · exact absurd (h.symm.trans returning) (by decide)
  · exact absurd h some

/-- What an update changes, and what it tells of that. -/
theorem edits_of_updated {c : Predicate Value} {told : List Record}
    (hc : Filter.compile codec p filter = .ok c)
    (h : Updated p s (c.andAlso scope) values s' told) :
    ∃ t S after, Selects codec s p filter scope t S ∧ Edits s s' p t S values after ∧
      ∀ enumerations : List Enumeration, t.Keeps enumerations p.entity →
        Reports s p t S values after told := by
  cases h with
  | @nothing t told table read =>
    obtain ⟨rows, hmatching, hread⟩ := Table.select_eq_ok.1 read
    obtain ⟨q, hq, rfl⟩ := Table.matching_eq_ok.1 hmatching
    refine ⟨t, q.accepts, id, ⟨table, c, q, hc, hq, rfl⟩, ?_,
      fun _ _ => ⟨fun _ => ?_, fun _ some => absurd rfl some⟩⟩
    · refine ⟨fun r _ => ⟨rfl, fun _ _ => rfl, nofun⟩, fun _ _ => rfl, ?_, fun _ _ => rfl⟩
      rw [List.map_id]
      exact table
    · rw [List.map_id]
      exact Table.tells_sorted hread
  | @returned _ t t' changed told some returning table updated read =>
    obtain ⟨q, cells, hq, hcells, rfl, -, rfl⟩ := Table.update_eq_ok updated
    refine ⟨t, q.accepts, _, ⟨table, c, q, hc, hq, rfl⟩, edits_of_update table hcells,
      fun _ _ => ⟨fun _ => Table.tells_sorted read, fun other => ?_⟩⟩
    exact absurd (returning.symm.trans other) (by decide)
  | @readBack _ t t' before changed keys told some returning table matching asked updated read =>
    obtain ⟨q, cells, hq, hcells, rfl, unique, rfl⟩ := Table.update_eq_ok updated
    obtain ⟨q', hq', rfl⟩ := Table.matching_eq_ok.1 matching
    obtain rfl : q = q' := Except.ok.inj (hq.symm.trans hq')
    exact ⟨t, q.accepts, _, ⟨table, c, q, hc, hq, rfl⟩, edits_of_update table hcells,
      fun _ keeps => reports_of_readBack keeps unique table some returning asked read⟩

theorem reports_of_update {enumerations : List Enumeration}
    (keeps : ∀ t, s.table p.name = .ok t → t.Keeps enumerations p.entity)
    {data : List (String × Value)} {db : Database} {told : List Record} (stored : db.stored = s)
    (h : (update codec p data filter scope).Gives db s' told) :
    ∃ t S values after, Selects codec s p filter scope t S ∧ Converted codec p data values ∧
      Edits s s' p t S values after ∧ Reports s p t S values after told := by
  subst stored
  obtain ⟨values, converted, c, hc, -, h⟩ := update_gives.1 h
  obtain ⟨t, S, after, selects, edits, reports⟩ := edits_of_updated hc h
  exact ⟨t, S, values, after, selects, converted, edits,
    reports enumerations (keeps t selects.table)⟩

/-- Reads and writes agree on the rows of a filter and a row scope. -/
theorem writes_listed {enumerations : List Enumeration}
    (keeps : ∀ t, s.table p.name = .ok t → t.Keeps enumerations p.entity) (codec : Codec)
    (filter : Value) (scope : Option (Predicate Value)) : WritesListed codec s p filter scope where
  listed _ _ _ := listing_gives
  deletes _ _ := delete_selected
  deleted _ _ _ := removes_of_delete
  updated _ _ _ _ := reports_of_update keeps
  unique _ _ _ _ := Selects.unique

/-! ## A key that is not restored -/

section Rates

open TableGraph.Sample TableGraph.Sample.Rates

theorem keeps_rates {returning : Bool} {rates : List Row} {t : Table}
    (h : (store returning rates).table projection.name = .ok t) : t.Keeps [] projection.entity := by
  cases h
  exact Table.keeps_ofEntity [] entity rates

/-- The update of the label of one of the rates by a database that does not return what it
changes. -/
def relabelled (rates : List Row) : Except Fault (List Record) × Database :=
  (update Rates.codec projection [("label", .text "new")] (labelled "old") none).outcome
    (.opened (store false rates))

/-- Half of a unit is restored as it is, so that its rate is told after the change. -/
theorem writes_listed_rates :
    (∀ t, (store false [rate 5 (-1) "old"]).table projection.name = .ok t →
      t.Keeps [] projection.entity) ∧
    (relabelled [rate 5 (-1) "old"]).1.toOption.map (·.map labelOf) = some ["new"] ∧
    WritesListed Rates.codec (store false [rate 5 (-1) "old"]) projection (labelled "old") none :=
  ⟨fun _ => keeps_rates, by decide +kernel, writes_listed (fun _ => keeps_rates) Rates.codec _ none⟩

/-- The label of the first of two rates is changed, which has eleven places.  Its key is read as ten
places and finds the second rate, which is told in its place. -/
theorem update_tells_other : ∃ db told t',
    relabelled [rate 12345678901 (-11) "old", rate 123456789 (-9) "other"] = (.ok told, db) ∧
    db.stored.table projection.name = .ok t' ∧
    t'.rows = [rate 12345678901 (-11) "new", rate 123456789 (-9) "other"] ∧
    ¬ t'.Tells [rate 12345678901 (-11) "new"] told := by
  have outcome : ((relabelled [rate 12345678901 (-11) "old",
      rate 123456789 (-9) "other"]).1.toOption.bind fun told =>
        ((relabelled [rate 12345678901 (-11) "old",
          rate 123456789 (-9) "other"]).2.stored.table projection.name).toOption.map fun t' =>
        (told.map labelOf, t'.rows,
          (t'.read (rate 12345678901 (-11) "new")).toOption.map labelOf)) =
      some (["other"], [rate 12345678901 (-11) "new", rate 123456789 (-9) "other"],
        some "new") := by
    decide +kernel
  obtain ⟨told, hresult, outcome⟩ := Option.bind_eq_some_iff.1 outcome
  obtain ⟨t', htable, outcome⟩ := Option.map_eq_some_iff.1 outcome
  obtain ⟨hlabels, hrest⟩ := Prod.mk.inj outcome
  obtain ⟨hrows, hread⟩ := Prod.mk.inj hrest
  refine ⟨_, told, t', Prod.ext (eq_ok_of_toOption hresult) rfl, eq_ok_of_toOption htable,
    hrows, ?_⟩
  rintro ⟨arranged, hperm, htold⟩
  rw [List.perm_singleton.1 hperm] at htold
  cases mapM_eq_ok.1 htold with
  | cons hrecord hnil =>
    cases hnil
    rw [hrecord] at hread
    have label := (List.cons.inj hlabels).1.symm.trans (Option.some.inj hread)
    revert label
    decide

end Rates

end Mutation

end TableGraph
