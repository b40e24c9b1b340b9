import TableGraph.Proofs.EntityTable
import TableGraph.Proofs.Walk.Key
import TableGraph.Proofs.Walk.Keyset

/-!
# Anchors of pages

Main statement: `Walkable.exists_anchor`.  Of rows whose keys cursors carry, the cursor of a row
stands for a record with the values of that row, which is looked up unless the key is all the order
needs.  The rows that follow the anchor in the order are those behind the row of operands that the
values are bound to again.
-/

namespace TableGraph

namespace Table

/-- The row with the cells that its values are compared as. -/
def restored (t : Table) (r : Row) : Row :=
  t.columns.map fun c => (c.name, c.type.restored (r.get c.name))

theorem Keeps.get_restored {t : Table} {enumerations : List Enumeration} {e : Entity}
    (h : t.Keeps enumerations e) {c : Column} (hc : c ∈ e.columns) (r : Row) :
    (t.restored r).get c.name =
      (SqlType.ofColumnType enumerations c.type).restored (r.get c.name) := by
  unfold restored Row.get
  rw [show c.name = (keptColumn enumerations c).name from rfl,
    lookup_map_name (·.name) h.nodup (h.mem hc)]
  rfl

end Table

theorem zip_map_self (f : String → Value) (ks : List String) :
    ks.zip (ks.map f) = ks.map fun k => (k, f k) := by
  have both := List.zip_map' (f := id) (g := f) (l := ks)
  rwa [List.map_id] at both

theorem checkAnchor_eq_ok {a : Record} {orders : List Order}
    (h : ∀ o ∈ orders, (a.get o.column).isNull = false) :
    Keyset.checkAnchor a orders = .ok () := by
  induction orders with
  | nil => rfl
  | cons o os ih =>
    rw [Keyset.checkAnchor, h o List.mem_cons_self, if_neg Bool.false_ne_true]
    exact ih fun o' ho' => h o' (List.mem_cons_of_mem o ho')

/-- Rows of the table of an entity that can be walked in an order of all its key columns: their
values can be read, cursors carry their keys, and there is something in the columns of the order. -/
structure Walkable (p : Projection) (enumerations : List Enumeration) (t : Table)
    (orders : List Order) (rows : List Row) : Prop where
  keeps : t.Keeps enumerations p.entity
  complete : ∀ k ∈ p.entity.primaryKey, ∃ o ∈ orders, o.column = k
  keys : t.DistinctKeys t.rows
  among : ∀ r ∈ rows, r ∈ t.rows
  read : ∀ r ∈ rows, ∃ record, t.read r = .ok record
  carries : ∀ r ∈ rows, ∀ c ∈ p.entity.keyColumns, Key.Carries c.type (r.get c.name)
  held : ∀ r ∈ rows, ∀ o ∈ orders, (r.get o.column).isNull = false ∧ (r.get o.column).IsKept ∧
    ∃ c ∈ p.entity.columns, c.name = o.column ∧
      (SqlType.ofColumnType enumerations c.type).IsOrdered

namespace Walkable

variable {p : Projection} {enumerations : List Enumeration} {t : Table} {orders : List Order}
  {rows : List Row} (h : Walkable p enumerations t orders rows)

variable {r : Row} (hr : r ∈ rows) {record : Record} (hread : t.read r = .ok record)
include h hr hread

/-- A record with the values of a row is bound to the restored cells of the row. -/
theorem binds {a : Record} {o : Order} (ho : o ∈ orders)
    (ha : a.get o.column = record.get o.column) : t.Binds a (t.restored r) o.column := by
  obtain ⟨hnull, hkept, c, hc, hname, hordered⟩ := h.held r hr o ho
  have hv := h.keeps.get_read hread hc
  rw [← hname] at ha hnull hkept ⊢
  obtain ⟨plain, y, hy, -⟩ := SqlType.exists_operand hordered hnull hkept hv
  refine ⟨ha ▸ plain, _, y, h.keeps.typeOf hc, ha ▸ hy, ?_⟩
  rw [h.keeps.get_restored hc r, SqlType.restored_eq hv hy rfl]

/-- There is something in the restored cells. -/
theorem restored_isNull {o : Order} (ho : o ∈ orders) :
    ((t.restored r).get o.column).isNull = false := by
  obtain ⟨hnull, hkept, c, hc, hname, hordered⟩ := h.held r hr o ho
  rw [← hname] at hnull hkept ⊢
  rw [h.keeps.get_restored hc r]
  exact SqlType.restored_isNull hordered hnull hkept (h.keeps.get_read hread hc)

/-- The values of the key, which a cursor carries. -/
theorem exists_cursor (codec : Codec) :
    ∃ cursor, Key.encode codec p.keyColumns record = .ok cursor ∧ cursor.isEmpty = false ∧
      Key.decode codec p.keyColumns p.keyPaths cursor =
        .ok (p.entity.primaryKey.map record.get) := by
  have some : p.keyColumns ≠ [] := by
    refine List.ne_nil_of_length_pos ?_
    show 0 < p.entity.keyColumns.length
    rw [p.entity.length_keyColumns]
    exact p.entity.keyArity.1
  have names : (p.keyColumns.map fun c => record.get c.name) =
      p.entity.primaryKey.map record.get := by
    rw [← p.entity.names_keyColumns, List.map_map]
    rfl
  rw [← names]
  exact Key.exists_cursor some (h.carries r hr)
    (fun c hc => h.keeps.get_read hread (Entity.mem_keyColumns hc).1) p.keyPaths

omit hread in
/-- In the columns of the key a row is compared with its own cells. -/
theorem restored_key {k : String} (hk : k ∈ p.entity.primaryKey) :
    (t.restored r).get k = r.get k := by
  obtain ⟨c, hc, rfl, hkey⟩ := Entity.exists_keyColumn hk
  rw [h.keeps.get_restored hc r]
  exact Key.restored_of_carries (h.carries r hr c hkey)

/-- A row is found by the values of its key. -/
theorem accepts_isAt :
    t.Accepts (Query.isAt (p.entity.primaryKey.zip (p.entity.primaryKey.map record.get))) r := by
  unfold Query.isAt
  rw [Table.accepts_allOf, zip_map_self]
  intro q hq
  obtain ⟨_, hkv, rfl⟩ := List.mem_map.1 hq
  obtain ⟨k, hk, rfl⟩ := List.mem_map.1 hkv
  obtain ⟨o, ho, hok⟩ := h.complete k hk
  have held := (h.held r hr o ho).1
  have bound := h.binds hr hread ho rfl
  rw [hok] at held bound
  refine (Table.Binds.accepts_level (o := ⟨k, false⟩) bound r).2.2 ?_
  show Test.compared .eq (r.get k) ((t.restored r).get k) = some true
  rw [h.restored_key hr hk]
  refine Test.compared_eq_true.2 ⟨held, held, ?_⟩
  rw [Cell.order_self]
  rfl

variable {codec : Codec} {s : Store} (ht : s.table p.name = .ok t)
include ht

/-- The row of a key is found, whatever is wanted of it. -/
theorem exists_anchorRow (wanted : List Order) (n : Nat) :
    ∃ a m, (Query.anchorRow s p (p.entity.primaryKey.zip (p.entity.primaryKey.map record.get))
        wanted).run n = .ok (a, m) ∧ ∀ o ∈ wanted, a.get o.column = record.get o.column := by
  unfold Query.anchorRow
  split_ifs with hall
  · refine ⟨_, n, rfl, fun o ho => ?_⟩
    have key : o.column ∈ p.entity.primaryKey :=
      List.contains_iff_mem.1 (List.all_eq_true.1 hall o ho)
    rw [zip_map_self]
    unfold Record.get
    rw [List.lookup_graph _ key]
    rfl
  · have select := Query.select_isAt h.keys (fun k hk => h.keeps.mem_key.1 hk)
      (List.length_map _).symm (h.among r hr) (h.accepts_isAt hr hread) hread
    have first := Query.run_first ht (Query.isAt (p.entity.primaryKey.zip
      (p.entity.primaryKey.map record.get))) n
    rw [select] at first
    refine ⟨record, n + 1, ?_, fun _ _ => rfl⟩
    rw [Counted.run_bind_of_ok first]
    rfl

/-- The cursor of a row stands for a record with its values, if they are not null. -/
theorem run_anchor {cursor : String}
    (hcursor : Key.encode codec p.keyColumns record = .ok cursor) (wanted : List Order) (n : Nat) :
    ∃ a m, (∀ o ∈ wanted, a.get o.column = record.get o.column) ∧
      (Query.anchor codec s p cursor wanted).run n =
        (Keyset.checkAnchor a wanted).map fun _ => (a, m) := by
  obtain ⟨a, m, hrow, ha⟩ := h.exists_anchorRow hr hread ht wanted n
  obtain ⟨cursor', hcursor', -, hdecode⟩ := h.exists_cursor hr hread codec
  rw [hcursor, Except.ok.injEq] at hcursor'
  rw [← hcursor'] at hdecode
  refine ⟨a, m, ha, ?_⟩
  unfold Query.anchor
  rw [Counted.run_bind_of_ok (Counted.run_lift_eq_ok.2 ⟨hdecode, rfl⟩), Counted.run_bind_of_ok hrow]
  cases Keyset.checkAnchor a wanted <;> rfl

/-- The cursor of a row of these stands for a record with its values. -/
theorem exists_anchor {cursor : String}
    (hcursor : Key.encode codec p.keyColumns record = .ok cursor) (n : Nat) :
    ∃ a m, (Query.anchor codec s p cursor orders).run n = .ok (a, m) ∧
      ∀ o ∈ orders, a.get o.column = record.get o.column := by
  obtain ⟨a, m, ha, hrun⟩ := h.run_anchor hr hread ht hcursor orders n
  have check : Keyset.checkAnchor a orders = .ok () :=
    checkAnchor_eq_ok fun o ho => (h.binds hr hread ho (ha o ho)).plain.1
  rw [check] at hrun
  exact ⟨a, m, hrun, ha⟩

end Walkable

end TableGraph
