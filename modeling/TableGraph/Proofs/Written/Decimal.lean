import TableGraph.Number.Decimal
import TableGraph.Proofs.Written.Digits

/-!
# Decimals that are read back

Main statement: `Decimal.ofText?_toText`.  A decimal whose exponent is within bounds is read back
with its sign, its coefficient and its power of ten, whether it is written positionally or with an
exponent.
-/

namespace TableGraph

open Numeral

/-- What stands behind the digits of a decimal, and the power of ten it denotes. -/
inductive IsExponent : List Char → Int → Prop
  | absent : IsExponent [] 0
  | present (e : Int) : IsExponent (Decimal.exponentText e) e

/-- Digits, maybe a point among them, and an exponent behind: the text of `c · 10^k`. -/
inductive IsNumeral (c : Nat) (k : Int) : List Char → Prop
  | whole {ds tail : List Char} (hne : ds ≠ []) (hds : ∀ d ∈ ds, d.isDigit = true)
    (value : valueOf ds = c) (exponent : IsExponent tail k) : IsNumeral c k (ds ++ tail)
  | point {ds fs tail : List Char} {e : Int} (hne : ds ≠ []) (hds : ∀ d ∈ ds, d.isDigit = true)
    (hfs : ∀ d ∈ fs, d.isDigit = true) (value : valueOf (ds ++ fs) = c)
    (exponent : IsExponent tail e) (power : k = e - fs.length) :
    IsNumeral c k (ds ++ '.' :: fs ++ tail)

namespace IsNumeral

variable {c : Nat} {k : Int}

theorem ofDigits {ds : List Char} (hne : ds ≠ []) (hds : ∀ d ∈ ds, d.isDigit = true)
    (value : valueOf ds = c) : IsNumeral c 0 ds :=
  List.append_nil ds ▸ .whole hne hds value .absent

theorem ofPoint {ds fs : List Char} (hne : ds ≠ []) (hds : ∀ d ∈ ds, d.isDigit = true)
    (hfs : ∀ d ∈ fs, d.isDigit = true) (value : valueOf (ds ++ fs) = c) (power : k = -fs.length) :
    IsNumeral c k (ds ++ '.' :: fs) :=
  List.append_nil (ds ++ '.' :: fs) ▸ .point hne hds hfs value .absent (by omega)

end IsNumeral

/-! ## Reading -/

theorem splitSign_of_isDigit {d : Char} {ds : List Char} (h : d.isDigit = true) :
    splitSign (d :: ds) = (false, d :: ds) := by
  have minus : d ≠ '-' := elim_isDigit h (P := (· ≠ '-')) (by decide)
  have plus : d ≠ '+' := elim_isDigit h (P := (· ≠ '+')) (by decide)
  unfold splitSign
  split
  next hminus => exact absurd (List.cons.inj hminus).1 minus
  next hplus => exact absurd (List.cons.inj hplus).1 plus
  next => rfl

theorem digits?_eq_some {ds : List Char} (hne : ds ≠ []) (hds : ∀ d ∈ ds, d.isDigit = true) :
    digits? ds = some (valueOf ds) := by
  unfold digits?
  rw [List.all_eq_true.2 hds, List.isEmpty_eq_false_iff.2 hne]
  rfl

theorem exponent?_exponentText (e : Int) : exponent? (Decimal.exponentText e) = some e := by
  have digits : ∀ d ∈ Nat.toDigits 10 e.natAbs, d.isDigit = true :=
    fun d hd => Nat.isDigit_of_mem_toDigits (by decide) (by decide) hd
  have read := digits?_eq_some Nat.toDigits_ne_nil digits
  rw [Cursor.valueOf_toDigits] at read
  unfold exponent? Decimal.exponentText
  by_cases hnegative : e < 0
  · simp only [hnegative, if_true, or_true, splitSign, read]
    show some (-(e.natAbs : Int)) = some e
    rw [Option.some.injEq]
    omega
  · simp only [hnegative, if_true, if_false, or_true, splitSign, read]
    show some (e.natAbs : Int) = some e
    rw [Option.some.injEq]
    omega

theorem IsExponent.exponent? {tail : List Char} {e : Int} (h : IsExponent tail e) :
    exponent? tail = some e := by
  cases h with
  | absent => rfl
  | present => exact exponent?_exponentText e

/-- Neither a digit nor a point follows the digits in front of an exponent. -/
theorem IsExponent.split {tail : List Char} {e : Int} (h : IsExponent tail e) {ds : List Char}
    (hds : ∀ d ∈ ds, d.isDigit = true) :
    (ds ++ tail).takeWhile Char.isDigit = ds ∧ (ds ++ tail).dropWhile Char.isDigit = tail := by
  rw [List.takeWhile_append_of_pos hds, List.dropWhile_append_of_pos hds]
  cases h with
  | absent => exact ⟨List.append_nil ds, rfl⟩
  | present e => exact ⟨List.append_nil ds, rfl⟩

/-- The coefficient and the power of ten are read. -/
theorem IsNumeral.scientific? {c : Nat} {k : Int} {cs : List Char} (h : IsNumeral c k cs) :
    scientific? cs = some (c, k) := by
  unfold Numeral.scientific?
  cases h with
  | whole hne hds value exponent =>
    have read := exponent.exponent?
    obtain ⟨front, behind⟩ := exponent.split hds
    simp only [front, behind, List.isEmpty_eq_false_iff.2 hne]
    cases exponent with
    | absent => rw [← value]; rfl
    | present e =>
      show (Numeral.exponent? (Decimal.exponentText k)).map _ = _
      rw [read, ← value]
      rfl
  | @point ds fs tail e hne hds hfs value exponent power =>
    obtain ⟨front, behind⟩ := exponent.split hfs
    rw [List.append_assoc, List.cons_append, List.takeWhile_append_of_pos hds,
      List.dropWhile_append_of_pos hds]
    rw [List.takeWhile_cons_of_neg (by decide), List.dropWhile_cons_of_neg (by decide),
      List.append_nil]
    simp only [front, behind, List.isEmpty_eq_false_iff.2 hne, Bool.false_and, Bool.false_eq_true,
      if_false, exponent.exponent?, Option.map_some, value, power]

theorem IsNumeral.exists_cons {c : Nat} {k : Int} {cs : List Char} (h : IsNumeral c k cs) :
    ∃ d ds, cs = d :: ds ∧ d.isDigit = true := by
  cases h with
  | whole hne hds =>
    obtain ⟨d, ds, rfl⟩ := List.exists_cons_of_ne_nil hne
    exact ⟨d, _, rfl, hds d List.mem_cons_self⟩
  | point hne hds =>
    obtain ⟨d, ds, rfl⟩ := List.exists_cons_of_ne_nil hne
    exact ⟨d, _, rfl, hds d List.mem_cons_self⟩

/-! ## Characters -/

/-- A character that reading decimals does not touch. -/
def IsUntouched (c : Char) : Prop :=
  Text.isBlank c = false ∧ c ≠ '_' ∧ ordinary c = c

instance (c : Char) : Decidable (IsUntouched c) := inferInstanceAs (Decidable (_ ∧ _ ∧ _))

theorem isUntouched_of_isDigit {c : Char} (h : c.isDigit = true) : IsUntouched c :=
  elim_isDigit h (by decide)

theorem IsExponent.isUntouched {tail : List Char} {e : Int} (h : IsExponent tail e) :
    ∀ c ∈ tail, IsUntouched c := by
  cases h with
  | absent => exact fun c hc => absurd hc List.not_mem_nil
  | present e =>
    unfold Decimal.exponentText
    rw [List.forall_mem_cons, List.forall_mem_cons]
    refine ⟨by decide, ?_, fun c hc => ?_⟩
    · split <;> decide
    · exact isUntouched_of_isDigit (Nat.isDigit_of_mem_toDigits (by decide) (by decide) hc)

theorem IsNumeral.isUntouched {c : Nat} {k : Int} {cs : List Char} (h : IsNumeral c k cs) :
    ∀ d ∈ cs, IsUntouched d := by
  have digits {ds : List Char} (hds : ∀ d ∈ ds, d.isDigit = true) : ∀ d ∈ ds, IsUntouched d :=
    fun d hd => isUntouched_of_isDigit (hds d hd)
  cases h with
  | whole _ hds _ exponent => exact List.forall_mem_append.2 ⟨digits hds, exponent.isUntouched⟩
  | point _ hds hfs _ exponent =>
    exact List.forall_mem_append.2 ⟨List.forall_mem_append.2 ⟨digits hds,
      List.forall_mem_cons.2 ⟨by decide, digits hfs⟩⟩, exponent.isUntouched⟩

theorem map_ordinary_of_isUntouched {cs : List Char} (h : ∀ c ∈ cs, IsUntouched c) :
    ((Text.trim Text.isBlank cs).filter (· ≠ '_')).map ordinary = cs := by
  have kept : cs.filter (· ≠ '_') = cs :=
    List.filter_eq_self.2 fun c hc => decide_eq_true (h c hc).2.1
  rw [Text.trim_eq_self fun c hc => (h c hc).1, kept, List.map_congr_left fun c hc => (h c hc).2.2,
    List.map_id']

/-- No word begins with a digit. -/
theorem spells_of_isDigit {w : String} {d : Char} {ds : List Char} (h : d.isDigit = true)
    (hw : w.toList.head? ∈ [some 'i', some 'n', some 's']) : spells w (d :: ds) = false := by
  have same : d.toLower = d := elim_isDigit h (P := fun c => c.toLower = c) (by decide)
  have other : d ∉ ['i', 'n', 's'] := elim_isDigit h (P := (· ∉ ['i', 'n', 's'])) (by decide)
  refine beq_eq_false_iff_ne.2 fun hsame => other ?_
  have head : w.toList.head? = some d := by
    rw [← hsame, List.map_cons, same]
    rfl
  rw [head] at hw
  simpa only [List.mem_cons, Option.some.injEq, List.not_mem_nil] using hw

/-! ## Writing -/

namespace Decimal

theorem isDigit_of_mem_toDigits {n : Nat} : ∀ d ∈ Nat.toDigits 10 n, d.isDigit = true :=
  fun _ => Nat.isDigit_of_mem_toDigits (by decide) (by decide)

/-- The text of a decimal is a numeral for its coefficient and its power of ten. -/
theorem isNumeral_finiteText (c : Nat) (k : Int) : IsNumeral c k (finiteText c k) := by
  have digits := isDigit_of_mem_toDigits (n := c)
  have value := Cursor.valueOf_toDigits c
  have some := Nat.toDigits_ne_nil (n := c) (b := 10)
  have positive := List.length_pos_iff.2 some
  unfold finiteText
  dsimp only
  generalize Nat.toDigits 10 c = ds at digits value some positive
  split
  next hpositional =>
    split
    next hzero =>
      subst hzero
      exact .ofDigits some digits value
    next hnegative =>
      split
      next hsmall =>
        have read : valueOf ('0' :: (List.replicate (-(k + ds.length)).toNat '0' ++ ds)) = c := by
          rw [← List.cons_append, ← List.replicate_succ, valueOf_zeros, value]
        refine .ofPoint (List.cons_ne_nil '0' []) (List.forall_mem_singleton.2 rfl) ?_ read ?_
        · intro d hd
          rcases List.mem_append.1 hd with hzero | hdigit
          · exact List.eq_of_mem_replicate hzero ▸ rfl
          · exact digits d hdigit
        · show k = -((List.replicate (-(k + ds.length)).toNat '0' ++ ds).length : Int)
          rw [List.length_append, List.length_replicate]
          omega
      next hlarge =>
        have front : ds.take (k + ds.length).toNat ≠ [] := by
          rw [← List.length_pos_iff, List.length_take]
          omega
        refine .ofPoint front (fun d hd => digits d (List.mem_of_mem_take hd))
          (fun d hd => digits d (List.mem_of_mem_drop hd)) ?_ ?_
        · rw [List.take_append_drop, value]
        · rw [List.length_drop]
          omega
  next hexponent =>
    split
    next => exact absurd rfl some
    next d =>
      have power : k + ([d].length : Nat) - 1 = k := Int.add_sub_cancel k 1
      rw [power]
      exact .whole (List.cons_ne_nil d []) digits value (.present k)
    next d rest _ =>
      rw [List.forall_mem_cons] at digits
      refine .point (List.cons_ne_nil d []) (List.forall_mem_singleton.2 digits.1)
        digits.2 value (.present _) ?_
      rw [List.length_cons]
      omega

/-- A decimal is read back from its text. -/
theorem ofText?_toText {negative : Bool} {c : Nat} {k : Int}
    (h : ofScientific? negative c k = some (finite negative c k)) :
    ofText? (finite negative c k).toText = some (finite negative c k) := by
  have numeral := isNumeral_finiteText c k
  obtain ⟨d, ds, hcons, hdigit⟩ := numeral.exists_cons
  have untouched : ∀ x ∈ (if negative then '-' :: finiteText c k else finiteText c k),
      IsUntouched x := by
    split
    · exact List.forall_mem_cons.2 ⟨by decide, numeral.isUntouched⟩
    · exact numeral.isUntouched
  have sign : splitSign (if negative then '-' :: finiteText c k else finiteText c k) =
      (negative, finiteText c k) := by
    cases negative with
    | true => rfl
    | false => rw [hcons]; exact splitSign_of_isDigit hdigit
  have inf : spells "inf" (finiteText c k) = false :=
    hcons ▸ spells_of_isDigit hdigit (by decide)
  have infinity : spells "infinity" (finiteText c k) = false :=
    hcons ▸ spells_of_isDigit hdigit (by decide)
  have nan : diagnostic? "nan" (finiteText c k) = none := by
    have other : spells "nan" (d :: ds.take 2) = false := spells_of_isDigit hdigit (by decide)
    rw [hcons]
    exact if_neg fun hspelled => Bool.false_ne_true (other.symm.trans hspelled)
  have snan : diagnostic? "snan" (finiteText c k) = none := by
    have other : spells "snan" (d :: ds.take 3) = false := spells_of_isDigit hdigit (by decide)
    rw [hcons]
    exact if_neg fun hspelled => Bool.false_ne_true (other.symm.trans hspelled)
  unfold ofText? toText
  simp only [String.toList_ofList, map_ordinary_of_isUntouched untouched, sign, inf, infinity,
    Bool.or_self, Bool.false_eq_true, if_false, nan, snan, numeral.scientific?, Option.bind_eq_bind,
    Option.bind_some, h]

end Decimal

end TableGraph
