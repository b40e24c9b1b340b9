import Mathlib.Algebra.Order.Field.Power
import Mathlib.Data.List.Forall2
import Mathlib.Data.Nat.Cast.Field
import Mathlib.Tactic.Positivity
import TableGraph.Load.Key

/-!
# Sameness

Values that are the same as a third one are the same: decimals because they are equal exactly if they
are one rational number, moments by their instants, objects field by field.  So groups are told apart
consistently, whichever key opens a group.

A decimal has many representations of one number: zeros behind the coefficient go with a smaller
exponent, and zero has any exponent and both signs.  A finite decimal is read as a whole number
exactly if it is that number.

Sameness with a fingerprint is symmetric: no object is in it, whose fields might be repeated.  A
fingerprint is the same as itself unless there is an undefined number in it.

Main statements: `Decimal.compareFinite_eq_iff`, `Decimal.toInt?_eq_some_iff`, `Value.same_trans`,
`Group.same_trans`.
-/

namespace TableGraph

open Numeral (digitCount)

/-! ## Numbers -/

namespace Decimal

variable {s t : Bool} {c d : Nat} {e f : Int}

/-- The rational number that a finite decimal is; zero for the others. -/
def toRat : Decimal → ℚ
  | finite s c e => (if s then -1 else 1) * c * 10 ^ e
  | _ => 0

theorem cast_tenTo (n : Nat) : (tenTo n : ℚ) = 10 ^ n := by
  unfold tenTo
  rw [Nat.pow_eq, Nat.cast_pow, Nat.cast_ofNat]

theorem tenTo_add (m n : Nat) : tenTo (m + n) = tenTo m * tenTo n := Nat.pow_add 10 m n

theorem digitCount_le_iff {n k : Nat} (h : 0 < k) : digitCount n ≤ k ↔ n < tenTo k :=
  Nat.length_toDigits_le_iff (by decide) h

theorem digitCount_pos (n : Nat) : 0 < digitCount n := by
  unfold digitCount
  exact Nat.length_toDigits_pos

/-- Every zero behind a number is a digit. -/
theorem digitCount_mul_tenTo (hc : c ≠ 0) (k : Nat) :
    digitCount (c * tenTo k) = digitCount c + k := by
  have own := digitCount_pos c
  refine le_antisymm ?_ ?_
  · rw [digitCount_le_iff (by omega), tenTo_add]
    exact Nat.mul_lt_mul_of_pos_right ((digitCount_le_iff own).1 le_rfl) (tenTo_pos k)
  · by_contra fewer
    have low : c * tenTo k < tenTo (digitCount c - 1) * tenTo k := by
      rw [← tenTo_add]
      have := digitCount_pos (c * tenTo k)
      exact (digitCount_le_iff (by omega)).1 (by omega)
    have low := Nat.lt_of_mul_lt_mul_right low
    rcases Nat.eq_zero_or_pos (digitCount c - 1) with one | more
    · rw [one] at low
      exact hc (Nat.lt_one_iff.1 low)
    · have := (digitCount_le_iff more).2 low
      omega

/-! ### Equal numbers -/

theorem toRat_finite (s : Bool) (c : Nat) (e : Int) :
    toRat (finite s c e) = (if s then -1 else 1) * (c * 10 ^ e) := mul_assoc _ _ _

/-- The number in a unit that it is whole in. -/
theorem mul_zpow_eq {m : Int} (h : m ≤ e) :
    (c : ℚ) * 10 ^ e = (c * tenTo (e - m).toNat : Nat) * 10 ^ m := by
  rw [Nat.cast_mul, cast_tenTo, mul_assoc, ← zpow_natCast, ← zpow_add₀ (by norm_num),
    Int.toNat_of_nonneg (by omega), sub_add_cancel]

theorem toRat_eq_zero_iff : toRat (finite s c e) = 0 ↔ c = 0 := by
  unfold toRat
  cases s <;> simp [zpow_ne_zero]

theorem toRat_neg_iff (hc : c ≠ 0) : toRat (finite s c e) < 0 ↔ s = true := by
  have size : (0 : ℚ) < c * 10 ^ e := by
    have : (0 : ℚ) < c := by exact_mod_cast Nat.pos_of_ne_zero hc
    positivity
  rw [toRat_finite]
  cases s with
  | false => simpa using size.le
  | true => simpa using size

/-- Numbers of one sign are equal exactly if they are equal in a unit that both are whole in. -/
theorem toRat_eq_iff_scaled : toRat (finite s c e) = toRat (finite s d f) ↔
    c * tenTo (e - min e f).toNat = d * tenTo (f - min e f).toNat := by
  have sign : (if s then (-1 : ℚ) else 1) ≠ 0 := by cases s <;> norm_num
  have unit : (10 : ℚ) ^ min e f ≠ 0 := zpow_ne_zero _ (by norm_num)
  rw [toRat_finite, toRat_finite, mul_right_inj' sign, mul_zpow_eq (min_le_left e f),
    mul_zpow_eq (min_le_right e f), mul_left_inj' unit, Nat.cast_inj]

theorem compareFinite_eq_eq :
    compareFinite s c e t d f = .eq ↔ c = 0 ∧ d = 0 ∨ c ≠ 0 ∧ d ≠ 0 ∧ s = t ∧
      e + digitCount c = f + digitCount d ∧
      (c * tenTo (e - min e f).toNat : Int) = d * tenTo (f - min e f).toNat := by
  unfold compareFinite
  dsimp only
  split_ifs <;> simp_all <;> omega

/-- Decimals are told to be equal exactly if they are one number. -/
theorem compareFinite_eq_iff :
    compareFinite s c e t d f = .eq ↔ toRat (finite s c e) = toRat (finite t d f) := by
  rw [compareFinite_eq_eq]
  constructor
  · rintro (⟨rfl, rfl⟩ | ⟨-, -, rfl, -, scaled⟩)
    · rw [toRat_eq_zero_iff.2 rfl, toRat_eq_zero_iff.2 rfl]
    · exact toRat_eq_iff_scaled.2 (by exact_mod_cast scaled)
  · intro h
    by_cases hc : c = 0
    · exact .inl ⟨hc, toRat_eq_zero_iff.1 (h ▸ toRat_eq_zero_iff.2 hc)⟩
    · have hd : d ≠ 0 := fun hd => hc (toRat_eq_zero_iff.1 (h.trans (toRat_eq_zero_iff.2 hd)))
      obtain rfl : s = t := by
        rw [Bool.eq_iff_iff, ← toRat_neg_iff hc, h, toRat_neg_iff hd]
      have scaled := toRat_eq_iff_scaled.1 h
      have digits := congrArg digitCount scaled
      rw [digitCount_mul_tenTo hc, digitCount_mul_tenTo hd] at digits
      exact .inr ⟨hc, hd, rfl, by omega, by exact_mod_cast scaled⟩

theorem compare?_trans {x y z : Decimal} (hxy : x.compare? y = some .eq)
    (hyz : y.compare? z = some .eq) : x.compare? z = some .eq := by
  cases x with
  | nan => cases hxy
  | infinite a =>
    cases y with
    | nan => cases hxy
    | finite => cases a <;> cases hxy
    | infinite b =>
      cases z with
      | nan => cases hyz
      | finite => cases b <;> cases hyz
      | infinite =>
        unfold compare? at *
        grind
  | finite s c e =>
    cases y with
    | nan => cases hxy
    | infinite b => cases b <;> cases hxy
    | finite t d f =>
      cases z with
      | nan => cases hyz
      | infinite b => cases b <;> cases hyz
      | finite u b h =>
        have size := compareFinite_eq_iff.1 (Option.some.inj hxy)
        exact congrArg some <|
          compareFinite_eq_iff.2 (size.trans (compareFinite_eq_iff.1 (Option.some.inj hyz)))

theorem compare?_symm {x y : Decimal} (h : x.compare? y = some .eq) : y.compare? x = some .eq := by
  cases x with
  | nan => cases h
  | infinite a =>
    cases y with
    | nan => cases h
    | finite => cases a <;> cases h
    | infinite b =>
      unfold compare? at *
      grind
  | finite =>
    cases y with
    | nan => cases h
    | infinite b => cases b <;> cases h
    | finite =>
      have size := compareFinite_eq_iff.1 (Option.some.inj h)
      exact congrArg some (compareFinite_eq_iff.2 size.symm)

/-! ### Whole numbers -/

theorem abs_toRat (s : Bool) (c : Nat) (e : Int) : |toRat (finite s c e)| = c * 10 ^ e := by
  have size : (0 : ℚ) ≤ c * 10 ^ e := by positivity
  rw [toRat_finite]
  cases s <;> simp [abs_of_nonneg size]

/-- The size of a number with its sign. -/
theorem signed_eq {m : Nat} (h : (m : ℚ) = c * 10 ^ e) :
    (((if s then -(m : Int) else m) : Int) : ℚ) = toRat (finite s c e) := by
  rw [toRat_finite, ← h]
  cases s <;> simp

theorem toRat_ofInt (n : Int) : toRat (ofInt n) = n := by
  have size : (n.natAbs : ℚ) = n.natAbs * 10 ^ (0 : Int) := by rw [zpow_zero, mul_one]
  refine (signed_eq (s := n < 0) size).symm.trans ?_
  simp only [Int.cast_inj, decide_eq_true_eq]
  split_ifs <;> omega

/-- A coefficient in smaller units than one makes a whole number of as many ones. -/
theorem natAbs_mul_of_toRat {n : Int} (he : e < 0) (h : toRat (finite s c e) = n) :
    n.natAbs * tenTo (-e).toNat = c := by
  have size := abs_toRat s c e
  rw [h, ← Int.cast_abs, Int.abs_eq_natAbs, Int.cast_natCast] at size
  have units : ((n.natAbs * tenTo (-e).toNat : Nat) : ℚ) = c := by
    rw [Nat.cast_mul, cast_tenTo, size, mul_assoc, ← zpow_natCast, ← zpow_add₀ (by norm_num),
      Int.toNat_of_nonneg (by omega), add_neg_cancel, zpow_zero, mul_one]
  exact_mod_cast units

/-- A decimal is read as a whole number exactly if it is one. -/
theorem toInt?_eq_some_iff {n : Int} :
    toInt? (finite s c e) = some n ↔ toRat (finite s c e) = n := by
  unfold toInt?
  dsimp only
  by_cases he : 0 ≤ e
  · rw [if_pos he, Option.some.injEq, ← signed_eq (m := c * tenTo e.toNat), Int.cast_inj]
    · push_cast
      rfl
    · rw [Nat.cast_mul, cast_tenTo, ← zpow_natCast, Int.toNat_of_nonneg he]
  rw [if_neg he]
  by_cases hc : c = 0
  · rw [if_pos hc, Option.some.injEq, toRat_eq_zero_iff.2 hc, @eq_comm ℚ 0, Int.cast_eq_zero,
      eq_comm]
  rw [if_neg hc]
  -- a whole number of ones makes the coefficient a multiple of the ones
  have multiple : toRat (finite s c e) = n → n.natAbs * tenTo (-e).toNat = c :=
    natAbs_mul_of_toRat (by omega)
  by_cases hfew : digitCount c < (-e).toNat
  · rw [if_pos hfew]
    refine iff_of_false nofun fun h => ?_
    have small : c < tenTo (-e).toNat := (digitCount_le_iff (by omega)).1 hfew.le
    have positive : 0 < n.natAbs := Nat.pos_of_ne_zero fun zero => by
      rw [← multiple h, zero, zero_mul] at hc
      exact hc rfl
    have := Nat.le_mul_of_pos_left (tenTo (-e).toNat) positive
    have := multiple h
    omega
  rw [if_neg hfew]
  by_cases hdvd : c % tenTo (-e).toNat = 0
  · rw [if_pos hdvd, Option.some.injEq, ← signed_eq (m := c / tenTo (-e).toNat), Int.cast_inj]
    rw [Nat.cast_div (Nat.dvd_of_mod_eq_zero hdvd) (by exact_mod_cast (tenTo_pos _).ne'),
      cast_tenTo, div_eq_mul_inv, ← zpow_natCast, ← zpow_neg, Int.toNat_of_nonneg (by omega),
      neg_neg]
  · rw [if_neg hdvd]
    exact iff_of_false nofun fun h => hdvd (by rw [← multiple h, Nat.mul_mod_left])

end Decimal

/-! ## Moments -/

namespace DateTime

theorem same_self (t : DateTime) : t.same t := by
  unfold same
  cases t.instant? <;> exact beq_self_eq_true _

theorem same_symm {t u : DateTime} (h : t.same u) : u.same t := by
  unfold same at *
  split at h <;> grind

theorem same_trans {t u v : DateTime} (htu : t.same u) (huv : u.same v) : t.same v := by
  unfold same at *
  split at htu <;> grind

end DateTime

namespace Time

theorem same_self (t : Time) : t.same t := by
  unfold same
  cases t.offset <;> exact beq_self_eq_true _

theorem same_symm {t u : Time} (h : t.same u) : u.same t := by
  unfold same at *
  split at h <;> grind

theorem same_trans {t u v : Time} (htu : t.same u) (huv : u.same v) : t.same v := by
  unfold same at *
  split at htu <;> grind

end Time

/-! ## Values -/

theorem mem_of_lookup {α : Type} {xs : List (String × α)} {k : String} {a : α}
    (h : xs.lookup k = some a) : (k, a) ∈ xs := by
  obtain ⟨before, behind, rfl, -⟩ := List.lookup_eq_some_iff.1 h
  exact List.mem_append_right before List.mem_cons_self

namespace Value

theorem sameNumber_iff {a b : Value} : sameNumber a b ↔
    ∃ x y, a.number? = some x ∧ b.number? = some y ∧ x.compare? y = some .eq := by
  unfold sameNumber
  cases a.number? with
  | none => simp
  | some x => cases b.number? <;> simp

theorem sameNumber_trans {a b c : Value} (hab : sameNumber a b) (hbc : sameNumber b c) :
    sameNumber a c := by
  rw [sameNumber_iff] at *
  obtain ⟨x, y, hx, hy, hxy⟩ := hab
  obtain ⟨y', z, hy', hz, hyz⟩ := hbc
  rw [hy] at hy'
  cases hy'
  exact ⟨x, z, hx, hz, Decimal.compare?_trans hxy hyz⟩

/-- What is the same as a number is a number. -/
theorem sameNumber_of_same {a b c : Value} (hab : sameNumber a b) (hbc : b.same c) :
    sameNumber b c := by
  obtain ⟨-, y, -, hy, -⟩ := sameNumber_iff.1 hab
  cases b <;> first | cases hy; done | exact hbc


theorem lookup_of_sameFields {as bs : List (String × Value)} (h : sameFields as bs) {k : String}
    {a : Value} (ha : (k, a) ∈ as) : ∃ b, bs.lookup k = some b ∧ a.same b := by
  induction as with
  | nil => cases ha
  | cons field as ih =>
    obtain ⟨l, v⟩ := field
    unfold sameFields at h
    rw [Bool.and_eq_true] at h
    rcases List.mem_cons.1 ha with ha | ha
    · cases ha
      obtain ⟨h, -⟩ := h
      split at h
      next b hb => exact ⟨b, hb, h⟩
      next => cases h
    · exact ih h.2 ha

mutual

theorem same_trans {a b c : Value} (hab : a.same b) (hbc : b.same c) : a.same c := by
  match a with
  | bool _ => exact sameNumber_trans hab (sameNumber_of_same hab hbc)
  | int _ => exact sameNumber_trans hab (sameNumber_of_same hab hbc)
  | float _ => exact sameNumber_trans hab (sameNumber_of_same hab hbc)
  | decimal _ => exact sameNumber_trans hab (sameNumber_of_same hab hbc)
  | null => cases b <;> first | exact hbc | cases hab
  | text _ => cases b <;> first | cases hab | (cases eq_of_beq hab; exact hbc)
  | bytes _ => cases b <;> first | cases hab | (cases eq_of_beq hab; exact hbc)
  | date _ => cases b <;> first | cases hab | (cases eq_of_beq hab; exact hbc)
  | uuid _ => cases b <;> first | cases hab | (cases eq_of_beq hab; exact hbc)
  | time _ =>
    cases b <;> first | cases hab | skip
    cases c <;> first | cases hbc | exact Time.same_trans hab hbc
  | dateTime _ =>
    cases b <;> first | cases hab | skip
    cases c <;> first | cases hbc | exact DateTime.same_trans hab hbc
  | list as =>
    cases b <;> first | cases hab | skip
    cases c <;> first | cases hbc | exact sameItems_trans hab hbc
  | tuple as =>
    cases b <;> first | cases hab | skip
    cases c <;> first | cases hbc | exact sameItems_trans hab hbc
  | object as =>
    cases b <;> first | cases hab | skip
    cases c <;> first | cases hbc | skip
    unfold same at *
    rw [Bool.and_eq_true, beq_iff_eq] at *
    exact ⟨hab.1.trans hbc.1, sameFields_trans hab.2 hbc.2⟩
  | member a =>
    cases b <;> first | cases hab | skip
    cases c <;> first | cases hbc | exact same_trans (a := a) hab hbc
termination_by structural a

theorem sameItems_trans {as bs cs : List Value} (hab : sameItems as bs) (hbc : sameItems bs cs) :
    sameItems as cs := by
  match as with
  | [] => cases bs <;> first | exact hbc | cases hab
  | a :: as =>
    cases bs <;> first | cases hab | skip
    cases cs <;> first | cases hbc | skip
    unfold sameItems at *
    rw [Bool.and_eq_true] at *
    exact ⟨same_trans hab.1 hbc.1, sameItems_trans hab.2 hbc.2⟩
termination_by structural as

theorem sameFields_trans {as bs cs : List (String × Value)} (hab : sameFields as bs)
    (hbc : sameFields bs cs) : sameFields as cs := by
  match as with
  | [] => rfl
  | (k, a) :: as =>
    obtain ⟨b, hb, same⟩ := lookup_of_sameFields hab List.mem_cons_self
    obtain ⟨c, hc, same'⟩ := lookup_of_sameFields hbc (mem_of_lookup hb)
    unfold sameFields at hab ⊢
    rw [Bool.and_eq_true] at hab ⊢
    rw [hc]
    exact ⟨same_trans same same', sameFields_trans hab.2 hbc⟩
termination_by structural as

end

theorem sameItems_freezeItems_iff {as bs : List Value} :
    sameItems (freezeItems as) (freezeItems bs) ↔
      List.Forall₂ (fun a b => a.freeze.same b.freeze) as bs := by
  induction as generalizing bs with
  | nil => cases bs <;> simp [freezeItems, sameItems]
  | cons a as ih =>
    cases bs with
    | nil => simp [freezeItems, sameItems]
    | cons b bs =>
      rw [List.forall₂_cons, ← ih, freezeItems, freezeItems, sameItems, Bool.and_eq_true]

theorem sameNumber_symm {a b : Value} (h : sameNumber a b) : sameNumber b a := by
  rw [sameNumber_iff] at *
  obtain ⟨x, y, hx, hy, hxy⟩ := h
  exact ⟨y, x, hy, hx, Decimal.compare?_symm hxy⟩

mutual

/-- A value that fingerprints are made of: tuples take the place of lists and objects. -/
def isHashable : Value → Bool
  | list _ | object _ => false
  | tuple items => areHashable items
  | member v => v.isHashable
  | _ => true
termination_by structural v => v

/-- No list and no object is among the values. -/
def areHashable : List Value → Bool
  | [] => true
  | v :: vs => v.isHashable && areHashable vs
termination_by structural vs => vs

end

mutual

/-- No undefined number is in the value. -/
def isDefined : Value → Bool
  | float x => x != .nan
  | decimal (.nan ..) => false
  | list items => areDefined items
  | tuple items => areDefined items
  | object fields => fieldsDefined fields
  | member v => v.isDefined
  | _ => true
termination_by structural v => v

/-- No undefined number is in the values. -/
def areDefined : List Value → Bool
  | [] => true
  | v :: vs => v.isDefined && areDefined vs
termination_by structural vs => vs

/-- No undefined number is in the fields. -/
def fieldsDefined : List (String × Value) → Bool
  | [] => true
  | (_, v) :: fields => v.isDefined && fieldsDefined fields
termination_by structural fields => fields

end

theorem sameNumber_self_of_finite {a : Value} {s : Bool} {c : Nat} {e : Int}
    (h : a.number? = some (.finite s c e)) : sameNumber a a :=
  sameNumber_iff.2 ⟨_, _, h, h, congrArg some (Decimal.compareFinite_eq_iff.2 rfl)⟩

theorem sameNumber_self_of_infinite {a : Value} {s : Bool}
    (h : a.number? = some (.infinite s)) : sameNumber a a :=
  sameNumber_iff.2 ⟨_, _, h, h, congrArg some (if_pos rfl)⟩

mutual

/-- A value without undefined numbers is the same as itself. -/
theorem same_self {v : Value} (h : v.isHashable) (defined : v.isDefined) : v.same v := by
  match v with
  | null => rfl
  | bool _ => exact sameNumber_self_of_finite rfl
  | int _ => exact sameNumber_self_of_finite rfl
  | float .nan => cases defined
  | float (.infinite _) => exact sameNumber_self_of_infinite rfl
  | float (.finite _ _ e) =>
    by_cases he : 0 ≤ e
    · exact sameNumber_self_of_finite (congrArg some (if_pos he))
    · exact sameNumber_self_of_finite (congrArg some (if_neg he))
  | decimal (.nan ..) => cases defined
  | decimal (.infinite _) => exact sameNumber_self_of_infinite rfl
  | decimal (.finite ..) => exact sameNumber_self_of_finite rfl
  | text s => exact beq_self_eq_true s
  | bytes bs => exact beq_self_eq_true bs
  | date d => exact beq_self_eq_true d
  | uuid u => exact beq_self_eq_true u
  | time t => exact t.same_self
  | dateTime t => exact t.same_self
  | list _ | object _ => cases h
  | tuple items => exact sameItems_self h defined
  | member v => exact same_self (v := v) h defined
termination_by structural v

theorem sameItems_self {vs : List Value} (h : areHashable vs) (defined : areDefined vs) :
    sameItems vs vs := by
  match vs with
  | [] => rfl
  | v :: vs =>
    unfold areHashable at h
    unfold areDefined at defined
    unfold sameItems
    rw [Bool.and_eq_true] at *
    exact ⟨same_self h.1 defined.1, sameItems_self h.2 defined.2⟩
termination_by structural vs

end

theorem same_of_sameNumber {a b : Value} (h : sameNumber a b) : a.same b := by
  cases a <;> first | exact h | cases h

mutual

/-- Sameness with a fingerprint is mutual, also where an undefined number is in it. -/
theorem same_symm {a b : Value} (h : a.isHashable) (hab : a.same b) : b.same a := by
  match a with
  | bool _ => exact same_of_sameNumber (sameNumber_symm hab)
  | int _ => exact same_of_sameNumber (sameNumber_symm hab)
  | float _ => exact same_of_sameNumber (sameNumber_symm hab)
  | decimal _ => exact same_of_sameNumber (sameNumber_symm hab)
  | null => cases b <;> first | rfl | cases hab
  | text _ => cases b <;> first | cases hab | exact beq_iff_eq.2 (eq_of_beq hab).symm
  | bytes _ => cases b <;> first | cases hab | exact beq_iff_eq.2 (eq_of_beq hab).symm
  | date _ => cases b <;> first | cases hab | exact beq_iff_eq.2 (eq_of_beq hab).symm
  | uuid _ => cases b <;> first | cases hab | exact beq_iff_eq.2 (eq_of_beq hab).symm
  | time _ => cases b <;> first | cases hab | exact Time.same_symm hab
  | dateTime _ => cases b <;> first | cases hab | exact DateTime.same_symm hab
  | list _ | object _ => cases h
  | tuple as => cases b <;> first | cases hab | exact sameItems_symm h hab
  | member a => cases b <;> first | cases hab | exact same_symm (a := a) h hab
termination_by structural a

theorem sameItems_symm {as bs : List Value} (h : areHashable as) (hab : sameItems as bs) :
    sameItems bs as := by
  match as with
  | [] => cases bs <;> first | rfl | cases hab
  | a :: as =>
    cases bs <;> first | cases hab | skip
    unfold areHashable at h
    unfold sameItems at *
    rw [Bool.and_eq_true] at *
    exact ⟨same_symm h.1 hab.1, sameItems_symm h.2 hab.2⟩
termination_by structural as

end

end Value

/-! ## Row scopes -/

namespace Scope

variable {table : String} {scope scope' : Option (Predicate Value)}

/-- The row scopes are written alike, with operands that count as the same. -/
def WrittenAlike (table : String) : Option (Predicate Value) → Option (Predicate Value) → Prop
  | none, none => True
  | some p, some q => (p.sql table).text = (q.sql table).text ∧
    List.Forall₂ (fun a b => a.freeze.same b.freeze) (p.sql table).operands (q.sql table).operands
  | _, _ => False

/-- Fingerprints tell exactly the row scopes apart that are not written alike. -/
theorem fingerprint_same_iff :
    (fingerprint table scope).same (fingerprint table scope') ↔
      WrittenAlike table scope scope' := by
  cases scope with
  | none =>
    cases scope' with
    | none => exact iff_of_true rfl trivial
    | some q => exact iff_of_false nofun id
  | some p =>
    cases scope' with
    | none => exact iff_of_false nofun id
    | some q =>
      show ((p.sql table).text == (q.sql table).text &&
        (Value.sameItems (Value.freezeItems (p.sql table).operands)
          (Value.freezeItems (q.sql table).operands) && true)) = true ↔ _ ∧ _
      rw [Bool.and_true, Bool.and_eq_true, beq_iff_eq, Value.sameItems_freezeItems_iff]

end Scope

/-! ## Groups -/

namespace Group

variable {g g' g'' : Group}

theorem same_iff : g.same g' ↔ g.target = g'.target ∧ g.columns = g'.columns ∧
    g.junction = g'.junction ∧ g.filters.same g'.filters ∧ g.scope.same g'.scope ∧
    g.orders = g'.orders := by
  unfold same
  simp only [Bool.and_eq_true, decide_eq_true_eq, and_assoc]

theorem same_trans (h : g.same g') (h' : g'.same g'') : g.same g'' := by
  rw [same_iff] at *
  obtain ⟨htarget, hcolumns, hjunction, hfilters, hscope, horders⟩ := h
  obtain ⟨htarget', hcolumns', hjunction', hfilters', hscope', horders'⟩ := h'
  exact ⟨htarget.trans htarget', hcolumns.trans hcolumns', hjunction.trans hjunction',
    Value.same_trans hfilters hfilters', Value.same_trans hscope hscope', horders.trans horders'⟩

end Group

/-! ## Keys -/

theorem sameKey_trans {as bs cs : List Identity} (hab : sameKey as bs) (hbc : sameKey bs cs) :
    sameKey as cs := by
  induction as generalizing bs cs with
  | nil =>
    cases bs with
    | nil => exact hbc
    | cons => cases hab
  | cons a as ih =>
    cases bs with
    | nil => cases hab
    | cons b bs =>
      cases cs with
      | nil => cases hbc
      | cons c cs =>
        unfold sameKey Identity.same at hab hbc ⊢
        simp only [Bool.and_eq_true, decide_eq_true_iff] at hab hbc ⊢
        exact ⟨⟨hab.1.1.trans hbc.1.1, Value.same_trans hab.1.2 hbc.1.2⟩, ih hab.2 hbc.2⟩

end TableGraph
