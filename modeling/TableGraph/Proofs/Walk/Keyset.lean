import TableGraph.Proofs.RowOrder
import TableGraph.Proofs.Walk.Lexicographic

/-!
# Rows beyond a row

Main statements: `Keyset.exists_condition` and `Keyset.passes_iff`.  The values of an anchor are
bound to operands, which are cells of a row of their own.  The condition of an order accepts the
rows that pass that row of operands: in the first column in which they differ from it neither is
null, and they are further.  Among rows without nulls these are the rows that come after it in the
order, or those that come before it.
-/

namespace TableGraph

namespace Table

variable {t : Table} {a : Record} {x r : Row} {o : Order}

/-- The value of the anchor in a column is neither null nor a truth value, and its operand is the
cell of the row. -/
structure Binds (t : Table) (a : Record) (x : Row) (column : String) : Prop where
  plain : (a.get column).isNull = false ∧ ∀ b, a.get column ≠ .bool b
  operand : ∃ type y, t.typeOf column = .ok type ∧ type.bindOperand (a.get column) = .ok y ∧
    y.operand (.ofType type) = x.get column

theorem ordered_eq_ok {v : Value} {k : Comparison} {q : Test Value} (h : Test.ordered k v = .ok q) :
    (v.isNull = false ∧ ∀ b, v ≠ .bool b) ∧ q = .compare k v := by
  cases v with
  | null | bool => cases h
  | _ => cases h; exact ⟨⟨rfl, nofun⟩, rfl⟩

/-- A comparison with the anchor is bound to one with the row of operands. -/
theorem Binds.bindTest (h : t.Binds a x o.column) (k : Comparison) :
    t.bindTest o.column (.compare k (a.get o.column)) = .ok (.compare k (x.get o.column)) := by
  obtain ⟨type, y, htype, hy, hx⟩ := h.operand
  unfold Table.bindTest
  rw [htype, ← hx]
  show (fun x : Cell => Test.compare k (x.operand (.ofType type))) <$> type.bindOperand _ = _
  rw [hy]
  rfl

theorem Binds.tells_iff (h : t.Binds a x o.column) {k : Comparison} {r : Row} :
    t.cells.tells r o.column (.compare k (a.get o.column)) = some true ↔
      Test.compared k (r.get o.column) (x.get o.column) = some true := by
  show (t.bindTest _ _).toOption.bind _ = _ ↔ _
  rw [h.bindTest]
  rfl

theorem Binds.accepts_level (h : t.Binds a x o.column) (r : Row) :
    (∃ q, t.bind (Keyset.level a o) = .ok q) ∧ (t.Accepts (Keyset.level a o) r ↔
      Test.compared .eq (r.get o.column) (x.get o.column) = some true) := by
  have bound : t.bind (Keyset.level a o) = .ok (.test o.column (.compare .eq (x.get o.column))) := by
    unfold Keyset.level
    rw [Keyset.equals_eq h.plain]
    exact map_eq_ok.2 ⟨_, h.bindTest .eq, rfl⟩
  refine ⟨⟨_, bound⟩, ?_⟩
  rw [accepts_iff bound]
  exact decide_eq_true_iff

theorem then_eq_side {c d : Ordering} {forward : Bool} :
    c.then d = side forward ↔ c = side forward ∨ c = .eq ∧ d = side forward := by
  cases forward <;> cases c <;> cases d <;> decide

theorem order_gt_iff {c d : Cell} : c.order d = .gt ↔ d.order c = .lt := Std.OrientedCmp.gt_iff_lt

end Table

namespace Keyset

variable {t : Table} {e : Entity} {a : Record} {x r : Row} {o : Order}

/-- The row is further than another in the first column in which they differ, neither being null in
it or in a column before. -/
def Passes (forward : Bool) : List Order → Row → Row → Prop
  | [], _, _ => False
  | o :: os, x, r =>
    Test.compared (further forward o) (r.get o.column) (x.get o.column) = some true ∨
      Test.compared .eq (r.get o.column) (x.get o.column) = some true ∧ Passes forward os x r

/-! ## Rows without nulls -/

theorem compared_eq_iff (hx : (x.get o.column).isNull = false)
    (hr : (r.get o.column).isNull = false) :
    Test.compared .eq (r.get o.column) (x.get o.column) = some true ↔
      Table.compareBy o x r = .eq := by
  rw [Test.compared_eq_true, and_iff_right hr, and_iff_right hx]
  refine beq_iff_eq.trans ?_
  unfold Table.compareBy
  split_ifs
  · rfl
  · exact ⟨Cell.order_eq_symm, Cell.order_eq_symm⟩

theorem compared_further_iff (hx : (x.get o.column).isNull = false)
    (hr : (r.get o.column).isNull = false) (forward : Bool) :
    Test.compared (further forward o) (r.get o.column) (x.get o.column) = some true ↔
      Table.compareBy o x r = Table.side forward := by
  rw [Test.compared_eq_true, and_iff_right hr, and_iff_right hx]
  unfold further Table.compareBy Table.side
  cases o.descending <;> cases forward
  · exact beq_iff_eq.trans Table.order_gt_iff.symm
  · exact beq_iff_eq.trans Table.order_gt_iff
  · exact beq_iff_eq
  · exact beq_iff_eq

/-- Among rows without nulls those pass a row that come after it, or before it. -/
theorem passes_iff {os : List Order} (hx : ∀ o ∈ os, (x.get o.column).isNull = false)
    (hr : ∀ o ∈ os, (r.get o.column).isNull = false) (forward : Bool) :
    Passes forward os x r ↔ Table.compareRows os x r = Table.side forward := by
  induction os with
  | nil => cases forward <;> exact ⟨False.elim, nofun⟩
  | cons o os ih =>
    rw [List.forall_mem_cons] at hx hr
    unfold Passes
    rw [compared_further_iff hx.1 hr.1, compared_eq_iff hx.1 hr.1, ih hx.2 hr.2,
      Table.compareRows_cons, Table.then_eq_side]

/-! ## Conditions -/

/-- The rows beyond an anchor are those that pass its operands. -/
theorem beyond_iff_passes {os : List Order} (hos : ∀ o ∈ os, t.Binds a x o.column)
    {forward : Bool} : t.cells.Beyond forward os a r ↔ Passes forward os x r := by
  induction os with
  | nil => exact iff_of_false Columns.not_beyond_nil id
  | cons o os ih =>
    rw [List.forall_mem_cons] at hos
    unfold Passes
    rw [Columns.beyond_cons, ih hos.2, ← tells_eq_true (accepts_further_iff forward),
      ← tells_eq_true accepts_eq_iff, hos.1.tells_iff, hos.1.tells_iff]

/-- The condition accepts the rows that pass the row of operands. -/
theorem exists_condition {os : List Order} (hos : ∀ o ∈ os, t.Binds a x o.column)
    (he : ∀ o ∈ os, e.hasColumn o.column) (forward : Bool) :
    ∃ beyond, condition e os a forward = .ok beyond ∧ (∃ q, t.bind beyond = .ok q) ∧
      ∀ r : Row, t.Accepts beyond r ↔ Passes forward os x r := by
  obtain ⟨beyond, hbeyond, htruth, hbound⟩ :=
    exists_condition_truth he (fun o ho => (hos o ho).plain) forward
  obtain ⟨q, hq⟩ := hbound t.bindTest fun o ho k => ⟨_, (hos o ho).bindTest k⟩
  refine ⟨beyond, hbeyond, ⟨q, hq⟩, fun r => ?_⟩
  exact (Table.accepts_iff_truth hq).trans ((htruth t.cells r _).trans (beyond_iff_passes hos))

/-! ## Conditions that can be bound -/

theorem step_eq_ok {forward : Bool} {p : Predicate Value} (h : step e forward a o = .ok p) :
    e.hasColumn o.column ∧ ((a.get o.column).isNull = false ∧ ∀ b, a.get o.column ≠ .bool b) ∧
      p = .test o.column (.compare (further forward o) (a.get o.column)) := by
  unfold step at h
  split_ifs at h with he
  obtain ⟨q, hq, h⟩ := bind_eq_ok.1 h
  obtain ⟨plain, rfl⟩ := Table.ordered_eq_ok hq
  cases h
  exact ⟨he, plain, rfl⟩

/-- The anchor of a condition has neither nulls nor truth values in the columns of the order. -/
theorem plain_of_branches {equal os : List Order} {forward : Bool} {ps : List (Predicate Value)}
    (h : branches e forward a equal os = .ok ps) : ∀ o ∈ os, e.hasColumn o.column ∧
      ((a.get o.column).isNull = false ∧ ∀ b, a.get o.column ≠ .bool b) := by
  induction os generalizing equal ps with
  | nil => exact nofun
  | cons o os ih =>
    unfold branches at h
    obtain ⟨last, hlast, h⟩ := bind_eq_ok.1 h
    obtain ⟨rest, hrest, -⟩ := bind_eq_ok.1 h
    obtain ⟨he, plain, -⟩ := step_eq_ok hlast
    exact List.forall_mem_cons.2 ⟨⟨he, plain⟩, ih hrest⟩

/-- A conjunction with a test in it asks for something. -/
theorem isAlways_allOf (ps : List (Predicate Value)) (column : String) (q : Test Value) :
    (Predicate.allOf (ps ++ [.test column q])).isAlways = false := by
  unfold Predicate.allOf
  rw [List.flatMap_append]
  split
  next h => exact absurd (List.append_eq_nil_iff.1 h).2 (List.cons_ne_nil _ _)
  next p h =>
    have last : p ∈ [Predicate.test column q] := by
      cases hps : ps.flatMap Predicate.conjuncts with
      | nil =>
        rw [hps] at h
        cases h
        exact List.mem_singleton_self _
      | cons r rs =>
        rw [hps] at h
        have length := congrArg List.length h
        simp [Predicate.conjuncts] at length
    rw [List.mem_singleton.1 last]
    rfl
  next => rfl

/-- The anchor of branches that can be bound has operands in all columns of the order. -/
theorem binds_of_branches {equal os : List Order} {forward : Bool} {ps : List (Predicate Value)}
    (h : branches e forward a equal os = .ok ps) :
    (∀ p ∈ ps, p.isAlways = false) ∧ ((∀ p ∈ ps, ∃ q, t.bind p = .ok q) → ∀ o ∈ os,
      ∃ type y, t.typeOf o.column = .ok type ∧ type.bindOperand (a.get o.column) = .ok y) := by
  induction os generalizing equal ps with
  | nil =>
    cases h
    exact ⟨nofun, fun _ => nofun⟩
  | cons o os ih =>
    unfold branches at h
    obtain ⟨last, hlast, h⟩ := bind_eq_ok.1 h
    obtain ⟨rest, hrest, h⟩ := bind_eq_ok.1 h
    cases h
    obtain ⟨-, -, rfl⟩ := step_eq_ok hlast
    obtain ⟨given, binds⟩ := ih hrest
    refine ⟨List.forall_mem_cons.2 ⟨isAlways_allOf _ _ _, given⟩, fun hbound => ?_⟩
    rw [List.forall_mem_cons] at hbound ⊢
    refine ⟨?_, binds hbound.2⟩
    obtain ⟨q, hq⟩ := hbound.1
    obtain ⟨qs, hqs⟩ := Predicate.exists_of_mapM_allOf hq
    obtain ⟨q', -, hq'⟩ := exists_of_mem_mapM hqs (List.mem_append_right _ List.mem_cons_self)
    obtain ⟨test, htest, -⟩ := map_eq_ok.1 hq'
    obtain ⟨type, htype, htest⟩ := bind_eq_ok.1 htest
    obtain ⟨y, hy, -⟩ := map_eq_ok.1 htest
    exact ⟨type, y, htype, hy⟩

/-- The anchor of a condition has neither nulls nor truth values in the columns of the order, and
operands in all of them if the condition can be bound. -/
theorem binds_of_condition {os : List Order} {forward : Bool} {beyond : Predicate Value}
    (h : condition e os a forward = .ok beyond) :
    (∀ o ∈ os, e.hasColumn o.column ∧
      ((a.get o.column).isNull = false ∧ ∀ b, a.get o.column ≠ .bool b)) ∧
    ∀ q, t.bind beyond = .ok q → ∀ o ∈ os,
      ∃ type y, t.typeOf o.column = .ok type ∧ type.bindOperand (a.get o.column) = .ok y := by
  obtain ⟨ps, hps, rfl⟩ := map_eq_ok.1 h
  refine ⟨plain_of_branches hps, fun q hq => ?_⟩
  obtain ⟨given, binds⟩ := binds_of_branches (t := t) hps
  obtain ⟨qs, hqs⟩ := Predicate.exists_of_mapM_anyOf given hq
  refine binds fun p hp => ?_
  obtain ⟨q', -, hq'⟩ := exists_of_mem_mapM hqs hp
  exact ⟨q', hq'⟩

end Keyset

end TableGraph
