import TableGraph.Proofs.RowOrder
import TableGraph.Proofs.Scope.Page

/-!
# Tables with the same visible rows

Two states of a table may hold the same rows within a row scope and differ in all others.  A
statement whose condition accepts rows within the scope only cannot tell them apart, and that is so
for everything a page does except for looking up the row that its cursor stands for.
-/

namespace TableGraph

namespace Table

variable {t t' : Table} {scope : Option (Predicate Value)} {p : Predicate Value}

/-- Two states of a table that hold the same rows within a scope. -/
structure SameVisible (scope : Option (Predicate Value)) (t t' : Table) : Prop where
  columns : t'.columns = t.columns
  key : t'.key = t.key
  rows : ∃ visible hidden hidden' : List Row, t.rows.Perm (visible ++ hidden) ∧
    t'.rows.Perm (visible ++ hidden') ∧ (∀ r ∈ visible, t.Within scope r) ∧
    (∀ r ∈ hidden, ¬ t.Within scope r) ∧ ∀ r ∈ hidden', ¬ t.Within scope r

theorem bind_congr (h : t'.columns = t.columns) : t'.bind = t.bind := by
  unfold Table.bind Table.typeOf
  rw [h]

theorem accepts_congr (h : t'.columns = t.columns) : t'.Accepts = t.Accepts := by
  unfold Table.Accepts
  rw [bind_congr h]

theorem within_congr (h : t'.columns = t.columns) : t'.Within = t.Within := by
  unfold Table.Within
  rw [accepts_congr h]

theorem read_congr (h : t'.columns = t.columns) : t'.read = t.read := by
  unfold Table.read
  rw [h]

theorem sorted_key_congr (h : t'.key = t.key) : t'.sorted = t.sorted := by
  unfold Table.sorted Table.fullOrder
  rw [h]

/-- The condition accepts rows of the table only that are within the scope. -/
def OnlyVisible (t : Table) (scope : Option (Predicate Value)) (p : Predicate Value) : Prop :=
  ∀ r ∈ t.rows, t.Accepts p r → t.Within scope r

theorem onlyVisible_of_narrows (h : p.Narrows scope) : t.OnlyVisible scope p := fun r _ => h t r

/-- What is matched in a state of the table are visible rows, up to their arrangement. -/
theorem matching_perm {visible hidden : List Row} (hrows : t.rows.Perm (visible ++ hidden))
    (hout : ∀ r ∈ hidden, ¬ t.Within scope r) (hp : t.OnlyVisible scope p)
    {q : Predicate Cell} (hq : t.bind p = .ok q) :
    (t.rows.filter q.accepts).Perm (visible.filter q.accepts) := by
  have none : hidden.filter q.accepts = [] := by
    rw [List.filter_eq_nil_iff]
    intro r hr hacc
    have hin : r ∈ t.rows := hrows.mem_iff.2 (List.mem_append_right visible hr)
    exact hout r hr (hp r hin ((accepts_iff hq).2 hacc))
  have parts := hrows.filter q.accepts
  rwa [List.filter_append, none, List.append_nil] at parts

/-- Sorted, the rows that match are the same in both states. -/
theorem SameVisible.sorted_matching (h : t.SameVisible scope t') (hk : t.DistinctKeys t.rows)
    (hp : t.OnlyVisible scope p) (hp' : t'.OnlyVisible scope p) (orders : List Order) :
    t'.sorted orders <$> t'.matching p = t.sorted orders <$> t.matching p := by
  obtain ⟨visible, hidden, hidden', hrows, hrows', -, hout, hout'⟩ := h.rows
  unfold Table.matching
  rw [bind_congr h.columns, sorted_key_congr h.key]
  cases hq : t.bind p with
  | error e => rfl
  | ok q =>
    have hq' : t'.bind p = .ok q := by rw [bind_congr h.columns, hq]
    rw [← within_congr h.columns] at hout'
    have perm := matching_perm hrows hout hp hq
    have perm' := matching_perm hrows' hout' hp' hq'
    show Except.ok (t.sorted orders (t'.rows.filter q.accepts)) =
      Except.ok (t.sorted orders (t.rows.filter q.accepts))
    rw [(hk.sublist List.filter_sublist).sorted_congr (perm.trans perm'.symm)]

theorem select_eq (t : Table) (p : Predicate Value) (orders : List Order) (limit : Option Int)
    (offset : Int) : t.select p orders limit offset =
      (t.sorted orders <$> t.matching p) >>= fun rows =>
        (window limit offset rows).mapM t.read := by
  unfold Table.select
  cases t.matching p <;> rfl

theorem SameVisible.select_congr (h : t.SameVisible scope t') (hk : t.DistinctKeys t.rows)
    (hp : t.OnlyVisible scope p) (hp' : t'.OnlyVisible scope p) (orders : List Order)
    (limit : Option Int) (offset : Int) :
    t'.select p orders limit offset = t.select p orders limit offset := by
  rw [select_eq, select_eq, h.sorted_matching hk hp hp', read_congr h.columns]

end Table

end TableGraph
