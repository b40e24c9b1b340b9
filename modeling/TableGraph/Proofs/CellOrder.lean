import Mathlib.Algebra.Order.Field.Power
import Mathlib.Algebra.Order.Field.Rat
import Mathlib.Order.Compare
import Mathlib.Tactic.Positivity
import Mathlib.Tactic.Ring
import TableGraph.Store.Cell

/-!
# The order of cells

Binary64 numbers compare as the rational numbers they stand for, what is no number coming first and
the infinities where they belong.  From that the order of cells, which puts cells of different
classes one after another, is transitive and total.  Cells that it does not tell apart are equal
except for numbers written in different ways, so that a cell is found in whatever form its column
prefers.
-/

namespace TableGraph

/-- What is compared by a part of it is compared as that part is. -/
theorem transCmp_on {α β : Type} (cmp : β → β → Ordering) [Std.TransCmp cmp] (f : α → β) :
    Std.TransCmp fun a b => cmp (f a) (f b) where
  eq_swap {a b} := @Std.OrientedCmp.eq_swap β cmp _ (f a) (f b)
  isLE_trans {a b c} := @Std.TransCmp.isLE_trans β cmp _ (f a) (f b) (f c)

/-! ## Binary64 numbers -/

namespace Binary64

/-- The rational number that a finite number is; zero for the others. -/
def toRat : Binary64 → ℚ
  | finite s m e => (if s then -1 else 1) * m * 2 ^ e
  | infinite _ | nan => 0

/-- The place among what is no number, negative infinity, the finite numbers and infinity. -/
def place : Binary64 → Nat
  | nan => 0
  | infinite true => 1
  | finite .. => 2
  | infinite false => 3

theorem cast_twoTo (k : Nat) : ((twoTo k : Nat) : ℚ) = 2 ^ k := by
  unfold twoTo
  rw [Nat.pow_eq, Nat.cast_pow, Nat.cast_ofNat]

theorem numerator_eq {s : Bool} {m : Nat} {e : Int} {k : Nat} (h : 0 ≤ e + k) :
    (numerator s m e k : ℚ) = toRat (finite s m e) * 2 ^ k := by
  have power : ((twoTo (e + k).toNat : Nat) : ℚ) = 2 ^ e * 2 ^ k := by
    rw [cast_twoTo, ← zpow_natCast, Int.toNat_of_nonneg h, zpow_add₀ two_ne_zero, zpow_natCast]
  unfold numerator toRat
  cases s with
  | false =>
    simp only [Bool.false_eq_true, if_false]
    push_cast
    rw [power]
    ring
  | true =>
    simp only [if_true]
    push_cast
    rw [power]
    ring

theorem compare_intCast (m n : Int) : compare (m : ℚ) n = compare m n := by
  rcases lt_trichotomy m n with h | h | h
  · rw [compare_lt_iff_lt.2 h, compare_lt_iff_lt.2 (by exact_mod_cast h)]
  · rw [h, compare_eq_iff_eq.2 rfl, compare_eq_iff_eq.2 rfl]
  · rw [compare_gt_iff_gt.2 h, compare_gt_iff_gt.2 (by exact_mod_cast h)]

theorem compare_mul_right {a b c : ℚ} (hc : 0 < c) : compare (a * c) (b * c) = compare a b := by
  rcases lt_trichotomy a b with h | h | h
  · rw [compare_lt_iff_lt.2 h, compare_lt_iff_lt.2 (mul_lt_mul_of_pos_right h hc)]
  · rw [h, compare_eq_iff_eq.2 rfl, compare_eq_iff_eq.2 rfl]
  · rw [compare_gt_iff_gt.2 h, compare_gt_iff_gt.2 (mul_lt_mul_of_pos_right h hc)]

/-- Finite numbers compare by size. -/
theorem compare?_finite (s t : Bool) (m n : Nat) (e f : Int) :
    compare? (finite s m e) (finite t n f) =
      some (compare (toRat (finite s m e)) (toRat (finite t n f))) := by
  unfold compare?
  dsimp only
  rw [← compare_intCast, numerator_eq (by omega), numerator_eq (by omega),
    compare_mul_right (by positivity)]

/-- The whole part of a whole number is the number. -/
theorem toRat_of_isInteger {x : Binary64} {n : Int} (whole : x.isInteger = true)
    (h : x.truncate? = some n) : x.place = 2 ∧ x.toRat = n := by
  cases x with
  | infinite | nan => cases h
  | finite s m e =>
    obtain ⟨k, hk⟩ : ∃ k : Nat, ((k : Nat) : ℚ) = m * 2 ^ e ∧ n = if s then -(k : Int) else k := by
      by_cases he : 0 ≤ e
      · refine ⟨m * twoTo e.toNat, ?_, ?_⟩
        · rw [Nat.cast_mul, cast_twoTo, ← zpow_natCast, Int.toNat_of_nonneg he]
        · have part := Option.some.inj h
          rw [if_pos he] at part
          rw [← part]
          push_cast
          rfl
      · have divides : m % twoTo (-e).toNat = 0 := by
          unfold isInteger at whole
          simpa [he] using whole
        have exact : m / twoTo (-e).toNat * twoTo (-e).toNat = m :=
          Nat.div_mul_cancel (Nat.dvd_of_mod_eq_zero divides)
        refine ⟨m / twoTo (-e).toNat, ?_, ?_⟩
        · have power : (2 : ℚ) ^ (-e).toNat = 2 ^ (-e) := by
            rw [← zpow_natCast, Int.toNat_of_nonneg (by omega)]
          have cast := congrArg (Nat.cast : Nat → ℚ) exact
          rw [Nat.cast_mul, cast_twoTo, power] at cast
          rw [← cast, mul_assoc, ← zpow_add₀ two_ne_zero, neg_add_cancel, zpow_zero, mul_one]
        · have part := Option.some.inj h
          rw [if_neg he] at part
          rw [← part]
          push_cast
          rfl
    refine ⟨rfl, ?_⟩
    obtain ⟨hk, rfl⟩ := hk
    show (if s then (-1 : ℚ) else 1) * m * 2 ^ e = _
    rw [mul_assoc, ← hk]
    cases s <;> simp

end Binary64

namespace Cell

theorem compareReals_eq (x y : Binary64) :
    compareReals x y = (compare x.place y.place).then (compare x.toRat y.toRat) := by
  have zero : compare (0 : ℚ) 0 = .eq := compare_eq_iff_eq.2 rfl
  rcases x with ⟨s, m, e⟩ | s | _ <;> rcases y with ⟨t, n, f⟩ | t | _
  case finite.finite =>
    show ((Binary64.finite s m e).compare? (.finite t n f)).getD .eq = _
    rw [Binary64.compare?_finite]
    rfl
  case infinite.infinite =>
    cases s <;> cases t
    · exact zero.symm
    · rfl
    · rfl
    · exact zero.symm
  case nan.nan => exact zero.symm
  case finite.infinite => cases t <;> rfl
  case infinite.finite => cases s <;> rfl
  case infinite.nan => cases s <;> rfl
  case nan.infinite => cases t <;> rfl
  all_goals rfl

instance : Std.TransCmp compareReals := by
  have same : compareReals = compareLex (compareOn Binary64.place) (compareOn Binary64.toRat) := by
    funext x y
    exact compareReals_eq x y
  rw [same]
  infer_instance

/-! ## Cells -/

theorem toRat_exactly (n : Int) : (exactly n).toRat = n := by
  show (if decide (n < 0) then (-1 : ℚ) else 1) * (n.natAbs : ℕ) * 2 ^ (0 : ℤ) = n
  rw [zpow_zero, mul_one, ← Int.cast_natCast, Int.natCast_natAbs]
  rcases lt_or_ge n 0 with h | h
  · rw [decide_eq_true h, if_pos rfl, abs_of_neg h, neg_one_mul, Int.cast_neg, neg_neg]
  · rw [decide_eq_false (not_lt.2 h), if_neg Bool.false_ne_true, abs_of_nonneg h, one_mul]

theorem compareReals_exactly (m n : Int) : compareReals (exactly m) (exactly n) = compare m n := by
  rw [compareReals_eq, toRat_exactly, toRat_exactly, Binary64.compare_intCast]
  rfl

/-- The number of a cell as a binary64 number; what is no number for the others. -/
def toReal : Cell → Binary64
  | int n => exactly n
  | real x => x
  | _ => .nan

/-- The characters of a cell. -/
def toText : Cell → String
  | text s => s
  | _ => ""

/-- The bytes of a cell. -/
def toBytes : Cell → List UInt8
  | blob bs => bs
  | _ => []

theorem compareBytes_eq (as bs : List UInt8) :
    compareBytes as bs = List.compareLex (compareOn UInt8.toNat) as bs := by
  induction as generalizing bs with
  | nil => cases bs <;> rfl
  | cons a as ih =>
    cases bs with
    | nil => rfl
    | cons b bs =>
      unfold compareBytes
      rw [List.compareLex_cons_cons, ih]
      rfl

instance : Std.TransCmp compareBytes := by
  have same : compareBytes = List.compareLex (compareOn UInt8.toNat) := by
    funext as bs
    exact compareBytes_eq as bs
  rw [same]
  infer_instance

/-- Cells compare by their classes, and within these by numbers, characters and bytes. -/
theorem order_eq (a b : Cell) : a.order b = (compare a.rank b.rank).then
    ((compareReals a.toReal b.toReal).then
      ((compare a.toText b.toText).then (compareBytes a.toBytes b.toBytes))) := by
  have rest : (compare "" "").then (compareBytes [] []) = .eq := by
    rw [Std.ReflOrd.compare_self]
    rfl
  have alone : ∀ o : Ordering, o = o.then ((compare "" "").then (compareBytes [] [])) := by
    intro o
    rw [rest, Ordering.then_eq]
  rcases a with _ | m | x | s | as <;> rcases b with _ | n | y | t | bs
  case null.null => exact rest.symm
  case int.int => exact (compareReals_exactly m n).symm.trans (alone _)
  case int.real => exact alone _
  case real.int => exact alone _
  case real.real => exact alone _
  case text.text =>
    show compare s t = (compare s t).then .eq
    rw [Ordering.then_eq]
  case blob.blob =>
    show _ = (compare "" "").then (compareBytes as bs)
    rw [Std.ReflOrd.compare_self]
    rfl
  all_goals rfl

instance : Std.TransCmp order := by
  have same : order = compareLex (compareOn rank) (compareLex
      (fun a b => compareReals a.toReal b.toReal) (compareLex (compareOn toText)
        fun a b => compareBytes a.toBytes b.toBytes)) := by
    funext a b
    exact order_eq a b
  have _ := transCmp_on compareReals toReal
  have _ := transCmp_on compareBytes toBytes
  rw [same]
  infer_instance

@[simp] theorem order_self (a : Cell) : a.order a = .eq := Std.ReflCmp.compare_self

theorem order_eq_symm {a b : Cell} (h : a.order b = .eq) : b.order a = .eq :=
  Std.OrientedCmp.eq_symm h

theorem isNull_of_order {a b : Cell} (h : a.order b = .eq) : a.isNull = b.isNull := by
  cases a <;> cases b <;> first | rfl | cases h

/-! ## Preferred forms -/

theorem order_wholeIfExact (x : Binary64) : (wholeIfExact x).order (.real x) = .eq := by
  unfold wholeIfExact
  split
  next n whole part =>
    split_ifs with small
    · obtain ⟨place, value⟩ := Binary64.toRat_of_isInteger whole part
      show compareReals (exactly n) x = .eq
      rw [compareReals_eq, toRat_exactly, value, place]
      exact compare_eq_iff_eq.2 rfl
    · exact order_self _
  next => exact order_self _

/-- A cell in the form that its column prefers is found by its operand. -/
theorem order_preferred {a : Affinity} {c : Cell} (h : a = .real → ∃ x, c = .real x) :
    (c.preferred a).order (c.operand a) = .eq := by
  cases a with
  | text | blob => exact order_self _
  | real =>
    obtain ⟨x, rfl⟩ := h rfl
    exact order_self _
  | integer | numeric =>
    cases c with
    | null | int | blob => exact order_self _
    | real x => exact order_wholeIfExact x
    | text s =>
      unfold preferred operand
      dsimp only
      cases hnumber : numberOf? s with
      | none => exact order_self _
      | some number =>
        cases number with
        | real x => exact order_wholeIfExact x
        | null | int | text | blob => exact order_self _

end Cell

end TableGraph
