import TableGraph.Proofs.Identifier
import TableGraph.Proofs.RowOrder

/-!
# Cells that are compared with what was read of them

The value of a cell is bound again where rows are compared with it.  The cell that this gives, its
restored cell, is the original one for whole numbers, binary64 numbers, texts, bytes and identifiers
in columns of their types; decimals lose what goes beyond their ten places.
-/

namespace TableGraph

/-! ## Kept cells -/

namespace Cell

/-- A table keeps whole numbers of 64 bits, and nothing in the place of what is no number. -/
def IsKept : Cell → Prop
  | int n => holds n
  | real x => x ≠ .nan
  | _ => True

theorem preferred_text_isNull {c : Cell} (h : c.isNull = false) :
    (c.preferred .text).isNull = false := by
  cases c <;> first | rfl | cases h

/-- What a text spells is a whole number or a binary64 number. -/
theorem numberOf?_cases {s : String} {c : Cell} (h : numberOf? s = some c) :
    (∃ n, c = .int n) ∨ ∃ x, c = .real x := by
  unfold numberOf? at h
  dsimp only at h
  by_cases odd : ((trimmed s.toList).any fun c =>
      !(c.isDigit || ['+', '-', '.', 'e', 'E'].contains c)) = true
  · rw [if_pos odd] at h
    cases h
  · rw [if_neg odd] at h
    obtain ⟨r, -, hr⟩ := Option.bind_eq_some_iff.1 h
    split_ifs at hr <;> cases hr <;> first | exact .inl ⟨_, rfl⟩ | exact .inr ⟨_, rfl⟩

theorem numberOf?_isNull {s : String} : ((numberOf? s).getD (text s)).isNull = false := by
  cases h : numberOf? s with
  | none => rfl
  | some c => rcases numberOf?_cases h with ⟨n, rfl⟩ | ⟨x, rfl⟩ <;> rfl

theorem operand_isNull {a : Affinity} {c : Cell} (h : c.isNull = false) :
    (c.operand a).isNull = false := by
  cases a with
  | text => exact preferred_text_isNull h
  | blob => exact h
  | _ =>
    cases c with
    | text s => exact numberOf?_isNull
    | _ => exact h

end Cell

/-! ## Restored cells -/

namespace SqlType

/-- The cell that the value of a cell is compared as. -/
def restored (t : SqlType) (c : Cell) : Cell :=
  match t.read c >>= t.bindOperand with
  | .ok x => x.operand (.ofType t)
  | .error _ => c

theorem cellOfReal_eq {x : Binary64} (h : x ≠ .nan) : cellOfReal x = .real x := by
  cases x with
  | nan => exact absurd rfl h
  | _ => rfl

theorem cellOfInt_eq {n : Int} (h : Cell.holds n) : cellOfInt n = .ok (.int n) := if_pos h

theorem round_ne_nan (negative : Bool) (num den : Nat) :
    Binary64.round negative num den ≠ .nan := by
  unfold Binary64.round Binary64.zero
  dsimp only
  split_ifs <;> nofun

theorem ofScientific_ne_nan (negative : Bool) (c : Nat) (k : Int) :
    Binary64.ofScientific negative c k ≠ .nan := by
  unfold Binary64.ofScientific Binary64.zero
  dsimp only
  split_ifs
  case pos | pos | pos => nofun
  all_goals exact round_ne_nan _ _ _

/-- Rounded to places and back, a number stays one. -/
theorem ofPlaces_ne_nan {x : Binary64} (h : x ≠ .nan) (places : Nat) :
    (Decimal.ofPlaces places x).toBinary64 ≠ .nan := by
  cases x with
  | nan => exact absurd rfl h
  | infinite s => nofun
  | finite s m e => exact ofScientific_ne_nan _ _ _

theorem bindOperand_decimal {x : Binary64} (h : x ≠ .nan) (places : Nat) :
    numeric.bindOperand (.decimal (.ofPlaces places x)) =
      .ok (.real (Decimal.ofPlaces places x).toBinary64) := by
  rw [← cellOfReal_eq (ofPlaces_ne_nan h places)]
  cases x with
  | nan => exact absurd rfl h
  | _ => rfl

/-- Rows can be walked in the order of columns of the type: it is no truth value, list or JSON. -/
def IsOrdered : SqlType → Prop
  | boolean | json | array _ => False
  | _ => True

theorem exists_of_found {α : Type} {make : α → Value} {x : Option α} {v : Value}
    (h : found make x = .ok v) : ∃ a, make a = v := by
  cases x with
  | none => cases h
  | some a =>
    cases h
    exact ⟨a, rfl⟩

/-- The value of a cell can be bound again. -/
theorem exists_operand {t : SqlType} {c : Cell} {v : Value} (ht : t.IsOrdered)
    (hnull : c.isNull = false) (hc : c.IsKept) (hv : t.read c = .ok v) :
    (v.isNull = false ∧ ∀ b, v ≠ .bool b) ∧ ∃ y, t.bindOperand v = .ok y ∧ y.isNull = false := by
  cases t
  case boolean | json | array => exact ht.elim
  case smallInteger | integer | bigInteger | float | double | string | character =>
    cases c with
    | null => cases hnull
    | int n =>
      cases hv
      exact ⟨⟨rfl, nofun⟩, .int n, cellOfInt_eq hc, rfl⟩
    | real x =>
      cases hv
      exact ⟨⟨rfl, nofun⟩, .real x, congrArg Except.ok (cellOfReal_eq hc), rfl⟩
    | text s =>
      cases hv
      exact ⟨⟨rfl, nofun⟩, .text s, rfl, rfl⟩
    | blob bs =>
      cases hv
      exact ⟨⟨rfl, nofun⟩, .blob bs, rfl, rfl⟩
  case numeric =>
    cases c with
    | int n =>
      cases hv
      exact ⟨⟨rfl, nofun⟩, _, bindOperand_decimal (round_ne_nan _ _ _) 10, rfl⟩
    | real x =>
      cases hv
      exact ⟨⟨rfl, nofun⟩, _, bindOperand_decimal hc 10, rfl⟩
    | null => cases hnull
    | text | blob => cases hv
  case enumeration values =>
    cases c with
    | text s =>
      unfold read at hv
      dsimp only at hv
      split_ifs at hv
      cases hv
      exact ⟨⟨rfl, nofun⟩, .text s, rfl, rfl⟩
    | null => cases hnull
    | int | real | blob => cases hv
  case binary =>
    cases c with
    | blob bs =>
      cases hv
      exact ⟨⟨rfl, nofun⟩, .blob bs, rfl, rfl⟩
    | null => cases hnull
    | int | real | text => cases hv
  case date | time | dateTime | uuid =>
    cases c with
    | text s =>
      obtain ⟨x, rfl⟩ := exists_of_found hv
      exact ⟨⟨rfl, nofun⟩, _, rfl, rfl⟩
    | null => cases hnull
    | int | real | blob => cases hv

theorem restored_eq {t : SqlType} {c x y : Cell} {v : Value} (hv : t.read c = .ok v)
    (hy : t.bindOperand v = .ok y) (hx : y.operand (.ofType t) = x) : t.restored c = x := by
  subst hx
  unfold restored
  rw [hv]
  show (match t.bindOperand v with | .ok x => _ | .error _ => _) = _
  rw [hy]

theorem restored_isNull {t : SqlType} {c : Cell} {v : Value} (ht : t.IsOrdered)
    (hnull : c.isNull = false) (hc : c.IsKept) (hv : t.read c = .ok v) :
    (t.restored c).isNull = false := by
  obtain ⟨-, y, hy, hnull⟩ := exists_operand ht hnull hc hv
  rw [restored_eq hv hy rfl]
  exact Cell.operand_isNull hnull

/-! ## Cells that are restored exactly -/

theorem restored_int {t : SqlType} {n : Int} (ht : t.family = .whole) (hn : Cell.holds n) :
    t.restored (.int n) = .int n := by
  cases t
  case smallInteger | integer | bigInteger =>
    exact restored_eq (v := .int n) rfl (cellOfInt_eq hn) rfl
  all_goals cases ht

theorem restored_text {t : SqlType} {s : String} (ht : t.family = .text) :
    t.restored (.text s) = .text s := by
  cases t
  case string | character => rfl
  case enumeration values =>
    by_cases h : values.contains s = true
    · exact restored_eq (v := .text s) (if_pos h) rfl rfl
    · unfold restored
      rw [show (enumeration values).read (.text s) = .error unreadable from if_neg h]
      rfl
  all_goals cases ht

theorem restored_uuid (u : Uuid) :
    uuid.restored (.text (String.ofList u.digits)) = .text (String.ofList u.digits) := by
  have hv : uuid.read (.text (String.ofList u.digits)) = .ok (.uuid u) := by
    show found .uuid (Uuid.ofText? (String.ofList u.digits)) = _
    rw [Uuid.ofText?_digits]
    rfl
  exact restored_eq hv rfl rfl

end SqlType

end TableGraph
