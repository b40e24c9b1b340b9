import TableGraph.Proofs.Walk.Page

/-!
# Places of rows

Rows that can be walked are sorted strictly.  A row keeps its place if what it is compared as is
followed by the same rows as itself, and preceded by some if it is.  Whatever it is compared as, the
rows that follow are the last ones of the sorted rows.
-/

namespace TableGraph

namespace Table

variable {t : Table} {orders : List Order} {rows : List Row} {r x : Row}

theorem compareRows_eq_iff {a b : Row} :
    compareRows orders a b = .eq ↔ ∀ o ∈ orders, compareBy o a b = .eq := by
  induction orders with
  | nil => exact iff_of_true rfl nofun
  | cons o os ih => rw [compareRows_cons, Ordering.then_eq_eq, ih, List.forall_mem_cons]

/-- A row keeps its place: what it is compared as comes before the same rows, and there are rows
before the one if there are some before the other. -/
def KeepsPlace (t : Table) (orders : List Order) (rows : List Row) (r : Row) : Prop :=
  (∀ r' ∈ rows, compareRows orders (t.restored r) r' = .lt ↔ compareRows orders r r' = .lt) ∧
    ((∃ r' ∈ rows, compareRows orders (t.restored r) r' = .gt) ↔
      ∃ r' ∈ rows, compareRows orders r r' = .gt)

/-- A row that is compared by the very cells it has keeps its place. -/
theorem keepsPlace_of_restored (h : ∀ o ∈ orders, (t.restored r).get o.column = r.get o.column) :
    t.KeepsPlace orders rows r := by
  have same : ∀ r', compareRows orders (t.restored r) r' = compareRows orders r r' := by
    intro r'
    induction orders with
    | nil => rfl
    | cons o os ih =>
      have first : compareBy o (t.restored r) r' = compareBy o r r' := by
        unfold compareBy
        rw [h o List.mem_cons_self]
      rw [compareRows_cons, compareRows_cons, first,
        ih fun o' ho' => h o' (List.mem_cons_of_mem o ho')]
  unfold KeepsPlace
  simp only [same, implies_true, and_self]

theorem KeepsPlace.perm {rows' : List Row} (h : t.KeepsPlace orders rows r)
    (hp : rows.Perm rows') : t.KeepsPlace orders rows' r := by
  unfold KeepsPlace at h ⊢
  simpa only [hp.mem_iff] using h

theorem mem_beyond {forward : Bool} {r' : Row} : r' ∈ t.beyond orders r forward rows ↔
    r' ∈ rows ∧ compareRows orders (t.restored r) r' = side forward := by
  unfold beyond
  rw [List.mem_filter, beq_iff_eq]

theorem isEmpty_beyond_eq_false {forward : Bool} :
    (t.beyond orders r forward rows).isEmpty = false ↔
      ∃ r' ∈ rows, compareRows orders (t.restored r) r' = side forward := by
  rw [List.isEmpty_eq_false_iff_exists_mem]
  exact exists_congr fun r' => mem_beyond

theorem isEmpty_beyond_perm {rows' : List Row} (hp : rows.Perm rows') (forward : Bool) :
    (t.beyond orders r forward rows).isEmpty = (t.beyond orders r forward rows').isEmpty := by
  have both := (hp.filter fun r' => compareRows orders (t.restored r) r' == side forward).length_eq
  unfold beyond
  rw [Bool.eq_iff_iff, List.isEmpty_iff_length_eq_zero, List.isEmpty_iff_length_eq_zero, both]

/-! ## Sorted rows -/

/-- The rows arranged strictly in the order. -/
def Ascends (orders : List Order) (rows : List Row) : Prop :=
  rows.Pairwise fun a b => compareRows orders a b = .lt

theorem Ascends.nodup (h : Ascends orders rows) : rows.Nodup := by
  refine List.Pairwise.imp (fun {a b} hab heq => ?_) h
  rw [heq, compareRows_self] at hab
  cases hab

/-- There is one way to arrange rows strictly. -/
theorem Ascends.eq_of_perm {rows' : List Row} (h : Ascends orders rows) (h' : Ascends orders rows')
    (hp : rows.Perm rows') : rows = rows' := by
  refine List.Perm.eq_of_pairwise (fun a b _ _ hab hba => ?_) h h' hp
  rw [Std.OrientedCmp.gt_iff_lt.2 hab] at hba
  cases hba

/-- The rows behind a row among ascending ones. -/
theorem Ascends.filter_lt {before behind : List Row} (h : Ascends orders (before ++ r :: behind)) :
    ((before ++ r :: behind).filter fun r' => compareRows orders r r' == .lt) = behind := by
  obtain ⟨-, hr, hbefore⟩ := List.pairwise_append.1 h
  obtain ⟨hbehind, -⟩ := List.pairwise_cons.1 hr
  have none : (before.filter fun r' => compareRows orders r r' == .lt) = [] := by
    rw [List.filter_eq_nil_iff]
    intro a ha hlt
    have hgt := Std.OrientedCmp.gt_iff_lt.2 (hbefore a ha r List.mem_cons_self)
    rw [hgt] at hlt
    cases hlt
  have all : (behind.filter fun r' => compareRows orders r r' == .lt) = behind :=
    List.filter_eq_self.2 fun b hb => beq_iff_eq.2 (hbehind b hb)
  rw [List.filter_append, none, List.nil_append, List.filter_cons_of_neg, all]
  rw [compareRows_self]
  decide

theorem Ascends.behind_unique {before behind before' behind' : List Row}
    (h : Ascends orders rows) (hr : rows = before ++ r :: behind)
    (hr' : rows = before' ++ r :: behind') : behind = behind' := by
  have one := h
  have other := h
  rw [hr] at one
  rw [hr'] at other
  rw [← one.filter_lt, ← other.filter_lt, ← hr, ← hr']

/-- A row is preceded by those in front of it. -/
theorem Ascends.exists_gt_iff {before behind : List Row}
    (h : Ascends orders (before ++ r :: behind)) :
    (∃ r' ∈ before ++ r :: behind, compareRows orders r r' = .gt) ↔ before ≠ [] := by
  obtain ⟨-, hr, hbefore⟩ := List.pairwise_append.1 h
  obtain ⟨hbehind, -⟩ := List.pairwise_cons.1 hr
  constructor
  · rintro ⟨r', hr', hgt⟩ rfl
    rw [List.nil_append] at hr'
    rcases List.mem_cons.1 hr' with rfl | hr'
    · rw [compareRows_self] at hgt
      cases hgt
    · rw [hbehind r' hr'] at hgt
      cases hgt
  · intro hne
    obtain ⟨a, as, rfl⟩ := List.exists_cons_of_ne_nil hne
    refine ⟨a, by simp, Std.OrientedCmp.gt_iff_lt.2 ?_⟩
    exact hbefore a List.mem_cons_self r List.mem_cons_self

/-- What passes a test that is passed on to later items ends a list. -/
theorem exists_append_filter {α : Type} {q : α → Bool} {xs : List α}
    (h : xs.Pairwise fun a b => q a = true → q b = true) : ∃ front, xs = front ++ xs.filter q := by
  induction xs with
  | nil => exact ⟨[], rfl⟩
  | cons x xs ih =>
    obtain ⟨hx, hxs⟩ := List.pairwise_cons.1 h
    by_cases hq : q x = true
    · have all : xs.filter q = xs := List.filter_eq_self.2 fun y hy => hx y hy hq
      exact ⟨[], by rw [List.filter_cons_of_pos hq, all, List.nil_append]⟩
    · obtain ⟨front, hfront⟩ := ih hxs
      exact ⟨x :: front, by rw [List.filter_cons_of_neg hq, List.cons_append, ← hfront]⟩

/-- The rows that follow are the last ones. -/
theorem Ascends.exists_append_beyond (h : Ascends orders rows) (t : Table) (r : Row) :
    ∃ front, rows = front ++ t.beyond orders r true rows := by
  refine exists_append_filter (h.imp fun {a b} hab ha => ?_)
  rw [beq_iff_eq] at ha ⊢
  exact Std.TransCmp.lt_trans ha hab

theorem KeepsPlace.beyond_eq {before behind : List Row}
    (h : t.KeepsPlace orders (before ++ r :: behind) r)
    (hs : Ascends orders (before ++ r :: behind)) :
    t.beyond orders r true (before ++ r :: behind) = behind := by
  refine Eq.trans (List.filter_congr fun r' hr' => ?_) hs.filter_lt
  rw [Bool.eq_iff_iff, beq_iff_eq, beq_iff_eq]
  exact h.1 r' hr'

/-- A row keeps its place if it is followed by the rows behind it, and preceded by some if there
are any in front of it. -/
theorem Ascends.keepsPlace {before behind : List Row} (h : Ascends orders rows)
    (split : rows = before ++ r :: behind) (follow : t.beyond orders r true rows = behind)
    (precede : (t.beyond orders r false rows).isEmpty = before.isEmpty) :
    t.KeepsPlace orders rows r := by
  refine ⟨fun r' hr' => ?_, ?_⟩
  · have same : t.beyond orders r true rows =
        rows.filter fun r' => compareRows orders r r' == .lt := by
      rw [follow]
      rw [split] at h ⊢
      exact h.filter_lt.symm
    have both : r' ∈ t.beyond orders r true rows ↔
        r' ∈ rows.filter fun r' => compareRows orders r r' == .lt := by rw [same]
    rw [mem_beyond, List.mem_filter, beq_iff_eq] at both
    exact (and_congr_right_iff.1 both) hr'
  · have some : (t.beyond orders r false rows).isEmpty = false ↔
        ∃ r' ∈ rows, compareRows orders (t.restored r) r' = side false := isEmpty_beyond_eq_false
    rw [precede, List.isEmpty_eq_false_iff] at some
    rw [split] at h
    rw [split, h.exists_gt_iff, some, split]
    rfl

end Table

namespace Walkable

variable {p : Projection} {enumerations : List Enumeration} {t : Table} {orders : List Order}
  {rows : List Row} (h : Walkable p enumerations t orders rows)
include h

theorem order_key {a b : Row} (hab : Table.compareRows orders a b = .eq) :
    Table.compareRows (t.fullOrder []) a b = .eq := by
  unfold Table.fullOrder
  rw [List.nil_append, Table.compareRows_eq_iff]
  intro _ hkey
  obtain ⟨k, hk, rfl⟩ := List.mem_map.1 hkey
  obtain ⟨o, ho, rfl⟩ := h.complete k (h.keeps.mem_key.1 hk)
  have cells := Table.compareRows_eq_iff.1 hab o ho
  unfold Table.compareBy at cells ⊢
  split_ifs at cells
  · exact Cell.order_eq_symm cells
  · exact cells

/-- Rows that can be walked are sorted strictly. -/
theorem ascends {condition : Predicate Value} (hm : t.matching condition = .ok rows) :
    Table.Ascends orders (t.sorted orders rows) := by
  refine ((h.distinct hm).sorted_lt orders).imp fun {a b} hab => ?_
  rw [Table.compareRows_fullOrder, Ordering.then_eq_lt] at hab
  rcases hab with hlt | ⟨heq, hlt⟩
  · exact hlt
  · rw [h.order_key heq] at hlt
    cases hlt

/-- Rows with the same values are the same row. -/
theorem eq_of_read {a b : Row} (ha : a ∈ rows) (hb : b ∈ rows) {record : Record}
    (hra : t.read a = .ok record) (hrb : t.read b = .ok record) : a = b := by
  have cells : ∀ k ∈ p.entity.primaryKey, a.get k = b.get k := by
    intro k hk
    obtain ⟨c, hc, rfl, hkey⟩ := Entity.exists_keyColumn hk
    have hva := h.keeps.get_read hra hc
    obtain ⟨hordered, hnull, hkept⟩ :=
      Key.isKept_of_carries enumerations (h.carries a ha c hkey)
    obtain ⟨-, y, hy, -⟩ := SqlType.exists_operand hordered hnull hkept hva
    rw [← h.restored_key ha hk, ← h.restored_key hb hk, h.keeps.get_restored hc,
      h.keeps.get_restored hc, SqlType.restored_eq hva hy rfl,
      SqlType.restored_eq (h.keeps.get_read hrb hc) hy rfl]
  by_contra hne
  refine h.keys.ne_eq [] (h.among a ha) (h.among b hb) hne ?_
  unfold Table.fullOrder
  rw [List.nil_append, Table.compareRows_eq_iff]
  intro o ho
  obtain ⟨k, hk, rfl⟩ := List.mem_map.1 ho
  show (a.get k).order (b.get k) = .eq
  rw [cells k (h.keeps.mem_key.1 hk), Cell.order_self]

variable {condition : Predicate Value} (hm : t.matching condition = .ok rows)
  (hplace : ∀ r ∈ rows, t.KeepsPlace orders rows r)
include hm hplace

/-- The rows behind one that keeps its place are those after it among the sorted rows. -/
theorem beyond_last {before shown rest : List Row} {r : Row}
    (hsorted : t.sorted orders rows = before ++ (shown ++ rest))
    (hr : shown.getLast? = some r) :
    t.beyond orders r true (t.sorted orders rows) = rest := by
  obtain ⟨front, rfl⟩ := List.getLast?_eq_some_iff.1 hr
  have split : t.sorted orders rows = (before ++ front) ++ r :: rest := by
    rw [hsorted]
    simp only [List.append_assoc, List.singleton_append]
  have perm := t.sorted_perm orders rows
  have hin : r ∈ rows := perm.mem_iff.1 (by rw [split]; simp)
  have place := (hplace r hin).perm perm.symm
  have ascends := h.ascends hm
  rw [split] at ascends place ⊢
  exact place.beyond_eq ascends

/-- There are rows before one that keeps its place if it is not the first of the sorted rows. -/
theorem isEmpty_before {before start : List Row} {r : Row}
    (hsorted : t.sorted orders rows = before ++ start) (hr : start.head? = some r) :
    (t.beyond orders r false rows).isEmpty = before.isEmpty := by
  obtain ⟨rest, rfl⟩ := List.head?_eq_some_iff.1 hr
  have perm := t.sorted_perm orders rows
  have hin : r ∈ rows := perm.mem_iff.1 (by rw [hsorted]; simp)
  have place := ((hplace r hin).perm perm.symm).2
  have ascends := h.ascends hm
  rw [hsorted] at ascends place
  rw [ascends.exists_gt_iff] at place
  rw [← Table.isEmpty_beyond_perm perm, hsorted, Bool.eq_iff_iff, ← not_iff_not, Bool.not_eq_true,
    Bool.not_eq_true, Table.isEmpty_beyond_eq_false, List.isEmpty_eq_false_iff]
  exact place

end Walkable

end TableGraph
