import TableGraph.Proofs.RowOrder

/-!
# Tables of entities

What the table of an entity has in common with it: the names and types of the columns.  A record of
a row has the value of every column under its name.

A row is looked up by the values of its key.  Rows that are found by the same values do not differ
in their keys, so that in a table whose keys differ no other row is found.
-/

namespace TableGraph

/-! ## Lookups by name -/

theorem lookup_map_name {α β : Type} (name : α → String) {f : α → β} {xs : List α}
    (hnodup : (xs.map name).Nodup) {x : α} (hx : x ∈ xs) :
    (xs.map fun x => (name x, f x)).lookup (name x) = some (f x) := by
  induction xs with
  | nil => cases hx
  | cons y ys ih =>
    rw [List.map_cons, List.nodup_cons] at hnodup
    rw [List.map_cons, List.lookup_cons]
    rcases List.mem_cons.1 hx with rfl | hx
    · rw [beq_self_eq_true]
    · have other : name x ≠ name y := fun h => hnodup.1 (h ▸ List.mem_map_of_mem hx)
      rw [beq_false_of_ne other]
      exact ih hnodup.2 hx

theorem find?_name {α : Type} {name : α → String} {xs : List α} (hnodup : (xs.map name).Nodup)
    {x : α} (hx : x ∈ xs) : (xs.find? fun y => name y = name x) = some x := by
  induction xs with
  | nil => cases hx
  | cons y ys ih =>
    rw [List.map_cons, List.nodup_cons] at hnodup
    rcases List.mem_cons.1 hx with rfl | hx
    · exact List.find?_cons_of_pos (decide_eq_true rfl)
    · have other : name y ≠ name x := fun h => hnodup.1 (h ▸ List.mem_map_of_mem hx)
      rw [List.find?_cons_of_neg (by simpa using other)]
      exact ih hnodup.2 hx

namespace Entity

variable {e : Entity}

theorem column?_name {c : Column} (hc : c ∈ e.columns) : e.column? c.name = some c :=
  find?_name e.distinct hc

theorem hasColumn_of_mem {c : Column} (hc : c ∈ e.columns) : e.hasColumn c.name = true :=
  List.any_eq_true.2 ⟨c, hc, decide_eq_true rfl⟩

/-- Every column of the key is a column of the entity. -/
theorem exists_keyColumn {k : String} (hk : k ∈ e.primaryKey) :
    ∃ c ∈ e.columns, c.name = k ∧ c ∈ e.keyColumns := by
  obtain ⟨c, hc, rfl⟩ := List.mem_map.1 (e.keyKnown k hk)
  exact ⟨c, hc, rfl, List.mem_filterMap.2 ⟨c.name, hk, column?_name hc⟩⟩

theorem mem_keyColumns {c : Column} (hc : c ∈ e.keyColumns) :
    c ∈ e.columns ∧ c.name ∈ e.primaryKey := by
  obtain ⟨k, hk, hc⟩ := List.mem_filterMap.1 hc
  have hname := List.find?_some hc
  rw [decide_eq_true_iff] at hname
  exact ⟨List.mem_of_find?_eq_some hc, hname ▸ hk⟩

theorem names_keyColumns (e : Entity) : e.keyColumns.map (·.name) = e.primaryKey := by
  have known : ∀ k ∈ e.primaryKey, ∃ c, e.column? k = some c ∧ c.name = k := by
    intro k hk
    obtain ⟨c, hc, rfl, -⟩ := exists_keyColumn hk
    exact ⟨c, column?_name hc, rfl⟩
  unfold keyColumns
  generalize e.primaryKey = ks at known
  induction ks with
  | nil => rfl
  | cons k ks ih =>
    obtain ⟨c, hc, hname⟩ := known k List.mem_cons_self
    rw [List.filterMap_cons, hc, List.map_cons, hname,
      ih fun k' hk' => known k' (List.mem_cons_of_mem k hk')]

theorem length_keyColumns (e : Entity) : e.keyColumns.length = e.primaryKey.length := by
  rw [← names_keyColumns, List.length_map]

end Entity

namespace Table

variable {enumerations : List Enumeration} {e : Entity} {t : Table} {r : Row}

/-- The column in which the table keeps a column of the entity. -/
def keptColumn (enumerations : List Enumeration) (c : Column) : StoredColumn :=
  ⟨c.name, .ofColumnType enumerations c.type, c.nullable⟩

/-- The table has the columns and the key of an entity. -/
structure Keeps (t : Table) (enumerations : List Enumeration) (e : Entity) : Prop where
  columns : t.columns = e.columns.map (keptColumn enumerations)
  key : t.key = (e.columns.map (·.name)).filter e.isKey

theorem keeps_ofEntity (enumerations : List Enumeration) (e : Entity) (rows : List Row) :
    Keeps { ofEntity enumerations e with rows } enumerations e := ⟨rfl, rfl⟩

theorem Keeps.nodup (h : t.Keeps enumerations e) : (t.columns.map (·.name)).Nodup := by
  rw [h.columns, List.map_map]
  exact e.distinct

theorem Keeps.mem (h : t.Keeps enumerations e) {c : Column} (hc : c ∈ e.columns) :
    keptColumn enumerations c ∈ t.columns := by
  rw [h.columns]
  exact List.mem_map_of_mem hc

theorem Keeps.typeOf (h : t.Keeps enumerations e) {c : Column} (hc : c ∈ e.columns) :
    t.typeOf c.name = .ok (.ofColumnType enumerations c.type) := by
  have found : (t.columns.find? fun d => d.name = c.name) = some (keptColumn enumerations c) :=
    find?_name h.nodup (h.mem hc)
  unfold Table.typeOf
  rw [found]
  rfl

/-- The columns of the key have types. -/
theorem Keeps.exists_keyTypes (h : t.Keeps enumerations e) :
    ∃ types, e.primaryKey.mapM t.typeOf = .ok types := by
  refine mapM_of_forall fun k hk => ?_
  obtain ⟨c, hc, rfl, -⟩ := Entity.exists_keyColumn hk
  exact ⟨_, h.typeOf hc⟩

theorem Keeps.mem_key (h : t.Keeps enumerations e) {k : String} :
    k ∈ t.key ↔ k ∈ e.primaryKey := by
  rw [h.key, List.mem_filter]
  have key : e.isKey k = true ↔ k ∈ e.primaryKey := List.contains_iff_mem
  rw [key]
  exact and_iff_right_of_imp (e.keyKnown k)

/-- What is read of a column is the value of its name. -/
theorem read_of_typeOf {record : Record} (h : t.read r = .ok record) {c : String}
    {type : SqlType} (htype : t.typeOf c = .ok type) :
    type.read (r.get c) = .ok (record.get c) := by
  unfold Table.read at h
  unfold Table.typeOf at htype
  have items := mapM_eq_ok.1 h
  clear h
  unfold Record.get
  generalize t.columns = columns at items htype
  induction items with
  | nil => cases htype
  | @cons d entry columns record hd _ ih =>
    obtain ⟨v, hv, hentry⟩ := bind_eq_ok.1 hd
    cases hentry
    rw [List.find?_cons] at htype
    rw [List.lookup_cons]
    by_cases hname : d.name = c
    · subst hname
      rw [decide_eq_true rfl] at htype
      cases htype
      rw [beq_self_eq_true]
      exact hv
    · rw [decide_eq_false hname] at htype
      rw [beq_false_of_ne (Ne.symm hname)]
      exact ih htype

theorem Keeps.get_read (h : t.Keeps enumerations e) {record : Record}
    (hread : t.read r = .ok record) {c : Column} (hc : c ∈ e.columns) :
    (SqlType.ofColumnType enumerations c.type).read (r.get c.name) = .ok (record.get c.name) :=
  read_of_typeOf hread (h.typeOf hc)

end Table

end TableGraph

namespace TableGraph.Query

/-! ## Looking rows up -/

variable {s : Store} {p : Projection} {t : Table}

/-- Two cells that pass the test for one value are not told apart by the order. -/
theorem order_eq_of_equals {type : SqlType} {v : Value} {q : Test Cell}
    (hq : (Test.equals false v).bind type = .ok q) {a b : Cell} (ha : q.holds a = some true)
    (hb : q.holds b = some true) : a.order b = .eq := by
  have meet : ∀ x : Cell, Test.compared .eq a x = some true → Test.compared .eq b x = some true →
      a.order b = .eq := by
    intro x hax hbx
    obtain ⟨-, -, hax⟩ := Test.compared_eq_true.1 hax
    obtain ⟨-, -, hbx⟩ := Test.compared_eq_true.1 hbx
    exact Std.TransCmp.eq_trans (beq_iff_eq.1 hax) (Cell.order_eq_symm (beq_iff_eq.1 hbx))
  cases v with
  | null =>
    cases hq
    cases a <;> cases ha
    cases b <;> cases hb
    rfl
  | bool t =>
    cases hq
    exact meet _ ha hb
  | _ =>
    obtain ⟨x, -, rfl⟩ := map_eq_ok.1 hq
    exact meet _ ha hb

theorem compareRows_eq_of_isAt (hkey : ∀ k ∈ t.key, k ∈ p.entity.primaryKey)
    {values : List Value} (hlen : p.entity.primaryKey.length = values.length) {r r' : Row}
    (h : t.Accepts (isAt (p.entity.primaryKey.zip values)) r)
    (h' : t.Accepts (isAt (p.entity.primaryKey.zip values)) r') :
    Table.compareRows (t.fullOrder []) r r' = .eq := by
  have cells : ∀ k ∈ t.key, (r.get k).order (r'.get k) = .eq := by
    intro k hk
    have names : (p.entity.primaryKey.zip values).map Prod.fst = p.entity.primaryKey :=
      List.map_fst_zip hlen.le
    obtain ⟨⟨_, v⟩, hpair, rfl⟩ := List.mem_map.1 (names ▸ hkey k hk)
    have test := List.mem_map_of_mem (f := fun q : String × Value =>
      Predicate.test q.1 (Test.equals false q.2)) hpair
    obtain ⟨type, q, htype, hq, hr⟩ := Table.accepts_test.1 (Table.accepts_allOf.1 h _ test)
    obtain ⟨type', q', htype', hq', hr'⟩ := Table.accepts_test.1 (Table.accepts_allOf.1 h' _ test)
    rw [htype] at htype'
    cases htype'
    rw [hq] at hq'
    cases hq'
    exact order_eq_of_equals hq hr hr'
  unfold Table.fullOrder
  rw [List.nil_append]
  clear hkey
  generalize t.key = ks at cells
  induction ks with
  | nil => rfl
  | cons k ks ih =>
    rw [List.map_cons, Table.compareRows_cons,
      ih fun k' hk' => cells k' (List.mem_cons_of_mem k hk'), Ordering.then_eq]
    exact cells k List.mem_cons_self

/-- A condition that includes a key holds of one row at most. -/
theorem length_filter_isAt (hk : t.DistinctKeys t.rows) (hkey : ∀ k ∈ t.key, k ∈ p.entity.primaryKey)
    {values : List Value} (hlen : p.entity.primaryKey.length = values.length)
    {c : Predicate Value} {q : Predicate Cell} (hq : t.bind c = .ok q)
    (narrow : ∀ r, t.Accepts c r → t.Accepts (isAt (p.entity.primaryKey.zip values)) r) :
    (t.rows.filter q.accepts).length ≤ 1 := by
  have distinct := hk.sublist (List.filter_sublist (p := q.accepts) (l := t.rows))
  have found : ∀ r ∈ t.rows.filter q.accepts,
      t.Accepts (isAt (p.entity.primaryKey.zip values)) r := fun r hr =>
    narrow r ((Table.accepts_iff hq).2 (List.mem_filter.1 hr).2)
  match hrows : t.rows.filter q.accepts with
  | [] | [_] => simp
  | r :: r' :: rs =>
    rw [hrows] at distinct found
    have same := compareRows_eq_of_isAt hkey hlen (found r (by simp)) (found r' (by simp))
    exact absurd same (List.rel_of_pairwise_cons distinct (by simp))

/-- Where one row at most matches, neither the order nor the limit makes a difference. -/
theorem select_short {c : Predicate Value} {rows : List Row} (hm : t.matching c = .ok rows)
    (short : rows.length ≤ 1) : t.select c [] (some 1) 0 = rows.mapM t.read ∧
      t.select c [] none 0 = rows.mapM t.read := by
  have sorted : t.sorted [] rows = rows := by
    match rows with
    | [] => exact List.perm_nil.1 (t.sorted_perm [] [])
    | [r] => exact List.perm_singleton.1 (t.sorted_perm [] [r])
  have all : rows.take 1 = rows := List.take_of_length_le short
  unfold Table.select
  rw [hm]
  show (Table.window (some 1) 0 (t.sorted [] rows)).mapM t.read = _ ∧
    (Table.window none 0 (t.sorted [] rows)).mapM t.read = _
  rw [sorted]
  exact ⟨congrArg (·.mapM t.read) all, rfl⟩

/-- Looked up by its key, a row is found. -/
theorem select_isAt (hk : t.DistinctKeys t.rows) (hkey : ∀ k ∈ t.key, k ∈ p.entity.primaryKey)
    {values : List Value} (hlen : p.entity.primaryKey.length = values.length) {r : Row}
    (hr : r ∈ t.rows) (hacc : t.Accepts (isAt (p.entity.primaryKey.zip values)) r)
    {record : Record} (hread : t.read r = .ok record) :
    t.select (isAt (p.entity.primaryKey.zip values)) [] (some 1) 0 = .ok [record] := by
  obtain ⟨q, hq, haccepts⟩ := id hacc
  have short := length_filter_isAt hk hkey hlen hq fun _ => id
  have found : r ∈ t.rows.filter q.accepts := List.mem_filter.2 ⟨hr, haccepts⟩
  obtain ⟨r', only⟩ := List.length_eq_one_iff.1 (short.antisymm (List.length_pos_of_mem found))
  rw [only] at found
  rw [(select_short (Table.matching_eq_ok.2 ⟨q, hq, only⟩) (by simp)).1,
    ← List.mem_singleton.1 found, List.mapM_cons, hread]
  rfl

theorem run_first (ht : s.table p.name = .ok t) (c : Predicate Value) (n : Nat) :
    (first? s p c).run n = (fun rows => (rows.head?, n + 1)) <$> t.select c [] (some 1) 0 := by
  unfold first?
  rw [StateT.run_bind, Store.run_ask, ht]
  show ((·, n + 1) <$> t.select c [] (some 1) 0) >>= _ = _
  cases t.select c [] (some 1) 0 <;> rfl

end TableGraph.Query
