import TableGraph.Calendar.Date
import TableGraph.Number.Hexadecimal
import TableGraph.Proofs.Walk.Cursor

/-!
# Digits that are read back

Numbers of a fixed width are read off the front of a text that they are written at, and byte strings
from their pairs of digits in base sixteen.
-/

namespace TableGraph

/-! ## Digits of base ten -/

/-- Whatever is true of the ten digits is true of every digit. -/
theorem elim_isDigit {P : Char → Prop} {c : Char} (h : c.isDigit = true)
    (all : ∀ d < 10, P (Nat.digitChar d)) : P c := by
  unfold Char.isDigit at h
  rw [Bool.and_eq_true, decide_eq_true_iff, decide_eq_true_iff] at h
  have low : 48 ≤ c.toNat := h.1
  have high : c.toNat ≤ 57 := h.2
  have digit : ∀ d < 10, Nat.digitChar d = Char.ofNat (48 + d) := by decide
  have same : Nat.digitChar (c.toNat - 48) = c := by
    rw [digit _ (by omega), Nat.add_sub_cancel' low, Char.ofNat_toNat]
  exact same ▸ all (c.toNat - 48) (by omega)

namespace Numeral

theorem valueOf_cons (d : Char) (ds : List Char) :
    valueOf (d :: ds) = (d.toNat - 48) * tenTo ds.length + valueOf ds := by
  show Nat.ofDigitChars 10 (d :: ds) 0 = _
  rw [Nat.ofDigitChars_cons, Nat.ofDigitChars_eq_ofDigitChars_zero, Nat.mul_zero, Nat.zero_add,
    Nat.mul_comm]
  rfl

theorem valueOf_zeros (k : Nat) (ds : List Char) :
    valueOf (List.replicate k '0' ++ ds) = valueOf ds := by
  show Nat.ofDigitChars 10 (List.replicate k '0' ++ ds) 0 = _
  rw [Nat.ofDigitChars_append, Nat.ofDigitChars_replicate_zero, Nat.mul_zero]
  rfl

end Numeral

/-- Digits are read off the front of a text, with the number that they denote. -/
theorem takeDigits?_append {ds : List Char} (h : ∀ d ∈ ds, d.isDigit = true) (rest : List Char) :
    takeDigits? ds.length (ds ++ rest) = some (Numeral.valueOf ds, rest) := by
  induction ds with
  | nil => rfl
  | cons d ds ih =>
    rw [List.forall_mem_cons] at h
    rw [List.length_cons, takeDigits?, List.cons_append, List.head?_cons, Option.bind_eq_bind,
      Option.bind_some, if_pos h.1, List.tail_cons, ih h.2, Option.bind_eq_bind, Option.bind_some,
      Numeral.valueOf_cons]

theorem isDigit_of_mem_paddedDigits {width n : Nat} {d : Char} (h : d ∈ paddedDigits width n) :
    d.isDigit = true := by
  rcases List.mem_append.1 h with zero | digit
  · exact (List.eq_of_mem_replicate zero) ▸ rfl
  · exact Nat.isDigit_of_mem_toDigits (by decide) (by decide) digit

theorem length_paddedDigits {width n : Nat} (hwidth : 0 < width) (h : n < 10 ^ width) :
    (paddedDigits width n).length = width := by
  have short := (Nat.length_toDigits_le_iff (n := n) (b := 10) (by decide) hwidth).2 h
  unfold paddedDigits
  rw [List.length_append, List.length_replicate]
  omega

/-- A number of a fixed width is read off the front of a text. -/
theorem takeDigits?_paddedDigits {width n : Nat} (hwidth : 0 < width) (h : n < 10 ^ width)
    (rest : List Char) : takeDigits? width (paddedDigits width n ++ rest) = some (n, rest) := by
  have digits : ∀ d ∈ paddedDigits width n, d.isDigit = true :=
    fun _ => isDigit_of_mem_paddedDigits
  have front := takeDigits?_append digits rest
  have value : Numeral.valueOf (paddedDigits width n) = n := by
    unfold paddedDigits
    rw [Numeral.valueOf_zeros, Cursor.valueOf_toDigits]
  rwa [length_paddedDigits hwidth h, value] at front

/-- A number of a fixed width begins with a digit. -/
theorem exists_paddedDigits {width n : Nat} (hwidth : 0 < width) (h : n < 10 ^ width) :
    ∃ d ds, paddedDigits width n = d :: ds ∧ d.isDigit = true := by
  obtain ⟨d, ds, hds⟩ := List.exists_cons_of_length_pos
    (l := paddedDigits width n) (by rw [length_paddedDigits hwidth h]; exact hwidth)
  exact ⟨d, ds, hds, isDigit_of_mem_paddedDigits (hds ▸ List.mem_cons_self)⟩

/-! ## Pairs of digits of base sixteen -/

namespace Hexadecimal

/-- Byte strings are read back from their digits. -/
theorem ofText?_toText (bs : List UInt8) : ofText? (toText bs) = some bs := by
  unfold ofText? toText
  rw [String.toList_ofList]
  induction bs with
  | nil => rfl
  | cons b bs ih =>
    have high : b.toNat / 16 < 16 := by
      have := b.toNat_lt
      omega
    have low : b.toNat % 16 < 16 := Nat.mod_lt _ (by decide)
    have noGap : ∀ d < 16, isGap (Text.hexChar d) = false := by decide
    have pair : chars (b :: bs) =
        Text.hexChar (b.toNat / 16) :: Text.hexChar (b.toNat % 16) :: chars bs := rfl
    rw [pair, bytes?, noGap _ high, if_neg Bool.false_ne_true, Text.hexValue?_hexChar high,
      Text.hexValue?_hexChar low, ih]
    show some (UInt8.ofNat (16 * (b.toNat / 16) + b.toNat % 16) :: bs) = _
    rw [Nat.div_add_mod, UInt8.ofNat_toNat]

end Hexadecimal

end TableGraph
