import TableGraph.BigInteger
import TableGraph.Codec
import TableGraph.Proofs.CursorText
import TableGraph.Proofs.Outcome

/-!
# Numbers that are written

Whole numbers of more than `Numeral.digitLimit` digits are not written, so that a value with one of
them is neither shown as text nor named in a refusal.  Every number that is read from a text is
written again, and so is every number within a width.
-/

namespace TableGraph

namespace Value

theorem isWritable_int {n : Int} :
    (int n).isWritable = true ↔ Numeral.digitCount n.natAbs ≤ Numeral.digitLimit :=
  decide_eq_true_iff

theorem isWritable_of_lt {n : Int} (h : n.natAbs < 10 ^ Numeral.digitLimit) :
    (int n).isWritable = true := isWritable_int.2 (Cursor.digitCount_of_lt h)

theorem areWritable_iff {items : List Value} :
    areWritable items = true ↔ ∀ v ∈ items, v.isWritable = true := by
  induction items with
  | nil => exact iff_of_true rfl (List.forall_mem_nil _)
  | cons item items ih =>
    unfold areWritable
    rw [Bool.and_eq_true, ih, List.forall_mem_cons]

theorem haveWritable_iff {fields : List (String × Value)} :
    haveWritable fields = true ↔ ∀ f ∈ fields, f.2.isWritable = true := by
  induction fields with
  | nil => exact iff_of_true rfl (List.forall_mem_nil _)
  | cons field fields ih =>
    unfold haveWritable
    rw [Bool.and_eq_true, ih, List.forall_mem_cons]

/-- A number that is read is short enough to be written. -/
theorem isWritable_of_integer {s : String} {n : Int} (h : Numeral.integer s = .ok n) :
    (int n).isWritable = true := by
  unfold Numeral.integer at h
  split at h
  · cases h
  next cs _ =>
  dsimp only at h
  split at h
  · cases h
  split at h
  · cases h
  next form long =>
    rw [Bool.or_eq_true, not_or, Bool.not_eq_true', Bool.not_eq_false] at form
    have abs : n.natAbs = Numeral.valueOf (Numeral.splitSign cs).2 := by
      rw [← Except.ok.inj h]
      split
      · exact Int.natAbs_neg _
      · rfl
    refine isWritable_of_lt (abs ▸ Nat.lt_of_lt_of_le (Cursor.valueOf_lt form.2) ?_)
    exact Nat.pow_le_pow_right (by decide) (Nat.not_lt.1 long)

theorem isWritable_of_holds {kind : IntegerKind} {n : Int} (h : kind.holds n = true) :
    (int n).isWritable = true :=
  isWritable_int.2 (Cursor.digitCount_le (Cursor.natAbs_of_holds h))

end Value

namespace Codec

variable {v w : Value}

theorem textOf_eq_ok {s : String} : textOf v = .ok s ↔ v.isWritable = true ∧ v.shown = s := by
  unfold textOf
  split_ifs with writable
  · rw [Except.ok.injEq, and_iff_right writable]
  · exact ⟨nofun, fun h => absurd h.1 writable⟩

theorem refuse_of_isWritable (h : v.isWritable = true) (path : String) (words : String → String) :
    refuse path v words = .error (.conversion path (words v.quoted)) := if_pos h

/-- What is not refused is read. -/
theorem eq_ok_of_refuse {P : Prop} [Decidable P] {path : String} {words : String → String}
    {x : Except Fault Value} {u : Value}
    (h : (if P then x else refuse path u words) = .ok w) : P ∧ x = .ok w := by
  split_ifs at h with holds
  · exact ⟨holds, h⟩
  · exact absurd h (refuse_ne_ok path u words w)

end Codec

namespace BigInteger

variable {v : Value}

theorem refuse_ne_ok (words : String) (v : Value) (n : Int) : refuse words v ≠ .ok n := by
  unfold refuse
  split_ifs <;> nofun

theorem refuse_of_isWritable (h : v.isWritable = true) (words : String) :
    refuse words v = .error (.graph (words ++ v.quoted)) := if_pos h

end BigInteger

end TableGraph
