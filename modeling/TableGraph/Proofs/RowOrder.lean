import TableGraph.Proofs.CellOrder
import TableGraph.Proofs.Selection

/-!
# Rows in order

Rows are compared column by column, which is a total preorder, and sorting arranges them by it.
Sorting is stable, so that leaving rows out before or after makes no difference.  Where the keys of
the rows differ there is one way only to arrange them, and it does not depend on how the rows came.
-/

namespace TableGraph

section Stability

variable {α : Type} {le : α → α → Bool} (trans : ∀ a b c, le a b → le b c → le a c)
  (total : ∀ a b, le a b || le b a)
include trans total

/-- An item is sorted in front of those that it does not come behind. -/
theorem mergeSort_cons (x : α) (xs : List α) : (x :: xs).mergeSort le =
    (xs.mergeSort le).filter (!le x ·) ++ x :: (xs.mergeSort le).filter (le x) := by
  obtain ⟨before, behind, hsort, hrest, hbefore⟩ := List.mergeSort_cons trans total x xs
  have hbehind : ∀ y ∈ behind, le x y := by
    have sorted := List.pairwise_mergeSort trans total (x :: xs)
    rw [hsort, List.pairwise_append] at sorted
    exact fun y hy => List.rel_of_pairwise_cons sorted.2.1 hy
  have front : (before ++ behind).filter (!le x ·) = before := by
    rw [List.filter_append, List.filter_eq_self.2 hbefore, List.filter_eq_nil_iff.2,
      List.append_nil]
    intro y hy
    rw [hbehind y hy]
    exact Bool.false_ne_true
  have back : (before ++ behind).filter (le x) = behind := by
    rw [List.filter_append, List.filter_eq_self.2 hbehind, List.filter_eq_nil_iff.2,
      List.nil_append]
    intro y hy h
    have := hbefore y hy
    rw [h] at this
    cases this
  rw [hsort, hrest, front, back]

theorem mergeSort_filter (p : α → Bool) (xs : List α) :
    (xs.filter p).mergeSort le = (xs.mergeSort le).filter p := by
  induction xs with
  | nil => rw [List.filter_nil, List.mergeSort_nil, List.filter_nil]
  | cons x xs ih =>
    by_cases hx : p x
    · rw [List.filter_cons_of_pos hx, mergeSort_cons trans total, mergeSort_cons trans total,
        List.filter_append, List.filter_cons_of_pos hx, ih, List.filter_comm,
        List.filter_comm (le x)]
    · obtain ⟨before, behind, hsort, hrest, -⟩ := List.mergeSort_cons trans total x xs
      rw [List.filter_cons_of_neg hx, ih, hsort, hrest, List.filter_append, List.filter_append,
        List.filter_cons_of_neg hx]

end Stability

namespace Table

variable {t : Table} {orders : List Order} {rows rows' : List Row}

/-! ## Comparing rows -/

instance (o : Order) : Std.TransCmp (compareBy o) := by
  have cells := transCmp_on Cell.order fun r : Row => r.get o.column
  by_cases h : o.descending
  · have same : compareBy o = fun a b => (b.get o.column).order (a.get o.column) := by
      funext a b
      exact if_pos h
    rw [same]
    exact Std.TransCmp.opposite
  · have same : compareBy o = fun a b => (a.get o.column).order (b.get o.column) := by
      funext a b
      exact if_neg h
    rw [same]
    exact cells

theorem compareRows_cons (o : Order) (orders : List Order) (a b : Row) :
    compareRows (o :: orders) a b = (compareBy o a b).then (compareRows orders a b) := rfl

theorem compareRows_append (os ps : List Order) (a b : Row) :
    compareRows (os ++ ps) a b = (compareRows os a b).then (compareRows ps a b) := by
  induction os with
  | nil => rfl
  | cons o os ih =>
    rw [List.cons_append, compareRows_cons, ih, compareRows_cons, Ordering.then_assoc]

instance (orders : List Order) : Std.TransCmp (compareRows orders) := by
  induction orders with
  | nil => exact { eq_swap := rfl, isLE_trans := fun _ _ => rfl }
  | cons o orders ih =>
    have same : compareRows (o :: orders) = compareLex (compareBy o) (compareRows orders) := rfl
    rw [same]
    infer_instance

@[simp] theorem compareRows_self (orders : List Order) (a : Row) :
    compareRows orders a a = .eq := Std.ReflCmp.compare_self

/-! ## Sorting -/

/-- The keys of the rows differ. -/
def DistinctKeys (t : Table) (rows : List Row) : Prop :=
  rows.Pairwise fun a b => compareRows (t.fullOrder []) a b ≠ .eq

theorem compareRows_fullOrder (t : Table) (orders : List Order) (a b : Row) :
    compareRows (t.fullOrder orders) a b =
      (compareRows orders a b).then (compareRows (t.fullOrder []) a b) :=
  compareRows_append orders (t.key.map (Order.mk · false)) a b

theorem DistinctKeys.ne_eq (h : t.DistinctKeys rows) (orders : List Order) {a b : Row}
    (ha : a ∈ rows) (hb : b ∈ rows) (hab : a ≠ b) : compareRows (t.fullOrder orders) a b ≠ .eq := by
  intro heq
  rw [compareRows_fullOrder, Ordering.then_eq_eq] at heq
  have _ : Std.Symm fun a b => compareRows (t.fullOrder []) a b ≠ .eq :=
    ⟨fun _ _ h h' => h (Std.OrientedCmp.eq_symm h')⟩
  exact List.Pairwise.forall h ha hb hab heq.2

theorem DistinctKeys.sublist (h : t.DistinctKeys rows) (hs : rows'.Sublist rows) :
    t.DistinctKeys rows' := List.Pairwise.sublist hs h

theorem DistinctKeys.perm (h : t.DistinctKeys rows) (hp : rows.Perm rows') :
    t.DistinctKeys rows' :=
  List.Pairwise.perm h hp fun h h' => h (Std.OrientedCmp.eq_symm h')

theorem not_gt_trans (t : Table) (orders : List Order) (a b c : Row)
    (hab : compareRows (t.fullOrder orders) a b != .gt)
    (hbc : compareRows (t.fullOrder orders) b c != .gt) :
    compareRows (t.fullOrder orders) a c != .gt := by
  simp only [bne_iff_ne, Ordering.ne_gt_iff_isLE] at *
  exact Std.TransCmp.isLE_trans hab hbc

theorem not_gt_total (t : Table) (orders : List Order) (a b : Row) :
    compareRows (t.fullOrder orders) a b != .gt || compareRows (t.fullOrder orders) b a != .gt := by
  rw [@Std.OrientedCmp.eq_swap _ (compareRows (t.fullOrder orders)) _ b a]
  cases compareRows (t.fullOrder orders) a b <;> rfl

theorem sorted_pairwise (t : Table) (orders : List Order) (rows : List Row) :
    (t.sorted orders rows).Pairwise fun a b => compareRows (t.fullOrder orders) a b ≠ .gt :=
  (List.pairwise_mergeSort (t.not_gt_trans orders) (t.not_gt_total orders) rows).imp
    fun h => bne_iff_ne.1 h

theorem sorted_filter (t : Table) (orders : List Order) (rows : List Row) (p : Row → Bool) :
    t.sorted orders (rows.filter p) = (t.sorted orders rows).filter p :=
  mergeSort_filter (t.not_gt_trans orders) (t.not_gt_total orders) p rows

/-- Rows with different keys are sorted strictly. -/
theorem DistinctKeys.sorted_lt (h : t.DistinctKeys rows) (orders : List Order) :
    (t.sorted orders rows).Pairwise fun a b => compareRows (t.fullOrder orders) a b = .lt := by
  have keys : (t.sorted orders rows).Pairwise
      fun a b => compareRows (t.fullOrder orders) a b ≠ .eq :=
    (h.perm (t.sorted_perm orders rows).symm).imp fun {a b} hab heq => by
      rw [compareRows_fullOrder, Ordering.then_eq_eq] at heq
      exact hab heq.2
  refine (keys.and (t.sorted_pairwise orders rows)).imp fun {a b} ⟨hne, hgt⟩ => ?_
  cases hab : compareRows (t.fullOrder orders) a b with
  | lt => rfl
  | eq => exact absurd hab hne
  | gt => exact absurd hab hgt

/-- Arranged strictly in the order, the rows are the sorted ones. -/
theorem DistinctKeys.sorted_eq (h : t.DistinctKeys rows) (hp : rows'.Perm rows)
    (hs : rows'.Pairwise fun a b => compareRows (t.fullOrder orders) a b = .lt) :
    t.sorted orders rows = rows' := by
  refine List.Perm.eq_of_pairwise ?_ (h.sorted_lt orders) hs
    ((t.sorted_perm orders rows).trans hp.symm)
  intro a b _ _ hab hba
  rw [@Std.OrientedCmp.eq_swap _ (compareRows (t.fullOrder orders)) _ b a, hab] at hba
  cases hba

/-- However the rows came, they are sorted in the same way. -/
theorem DistinctKeys.sorted_congr (h : t.DistinctKeys rows) (hp : rows.Perm rows') :
    t.sorted orders rows = t.sorted orders rows' :=
  h.sorted_eq ((t.sorted_perm orders rows').trans hp.symm) ((h.perm hp).sorted_lt orders)

end Table

end TableGraph
