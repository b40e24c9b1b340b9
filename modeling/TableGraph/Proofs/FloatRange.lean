import Mathlib.Algebra.Group.Nat.Defs
import Mathlib.Tactic.SplitIfs
import TableGraph.Number.Binary64

/-!
# The largest whole numbers of binary64

Main statement: `Binary64.ofInt_eq_infinite_iff`.  A whole number is too large to be rounded to a
binary64 number exactly from `2^1024 - 2^970` on, half a unit below `2^1024`.
-/

namespace TableGraph.Binary64

/-- The least whole number that is rounded to infinity. -/
def limit : Nat := 2 ^ 1024 - 2 ^ 970

/-- A quotient below an even number is rounded to that number from half a unit below it on. -/
theorem divRound_eq_succ_iff {a b c : Nat} (hb : 0 < b) (below : a < (c + 1) * b)
    (odd : c % 2 = 1) : divRound a b = c + 1 ↔ (2 * c + 1) * b ≤ 2 * a := by
  have split := Nat.div_add_mod a b
  have part := Nat.mod_lt a hb
  have most : a / b ≤ c := Nat.lt_succ_iff.1 ((Nat.div_lt_iff_lt_mul hb).2 below)
  rw [Nat.mul_comm] at split
  rw [Nat.add_mul, Nat.mul_assoc]
  unfold divRound
  dsimp only
  rcases Nat.lt_or_eq_of_le most with less | same
  · have next := Nat.mul_le_mul_right b (Nat.succ_le_of_lt less)
    rw [Nat.succ_mul] at next
    refine iff_of_false ?_ (by omega)
    split_ifs <;> omega
  · rw [same] at split ⊢
    split_ifs <;> omega

theorem exponentFor_one {n : Nat} (hn : n ≠ 0) : exponentFor n 1 = (n.log2 : Int) - 52 := by
  have whole : isBelow n 1 (n.log2 : Int) = false := by
    unfold isBelow
    rw [if_pos (Int.natCast_nonneg _), Int.toNat_natCast, Nat.one_mul]
    exact decide_eq_false (Nat.not_lt.2 (Nat.log2_self_le hn))
  have one : Nat.log2 1 = 0 := by decide
  unfold exponentFor minExponent
  rw [one]
  dsimp only
  rw [Int.natCast_zero, Int.sub_zero, whole, if_neg (by decide)]
  omega

/-- What is rounded to 53 bits at the largest exponent. -/
theorem inUnits_eq_iff {n k : Nat} (hn : n < 2 ^ (54 + k)) :
    inUnits n 1 ((k + 1 : Nat) : Int) = twoTo 53 ↔ 2 ^ (54 + k) - 2 ^ k ≤ n := by
  have unit : twoTo (k + 1) = 2 * 2 ^ k := Nat.pow_succ'
  have top : (2 : Nat) ^ (54 + k) = 2 ^ 54 * 2 ^ k := Nat.pow_add 2 54 k
  have all : twoTo 53 = (2 ^ 53 - 1) + 1 := by decide
  have positive : 0 < 2 ^ k := Nat.pow_pos (by decide)
  unfold inUnits
  rw [if_pos (Int.natCast_nonneg _), Int.toNat_natCast, Nat.one_mul, unit, all,
    divRound_eq_succ_iff]
  · omega
  · omega
  · omega
  · decide

/-- A whole number is rounded to infinity from half a unit below the next power of two on. -/
theorem round_eq_infinite {k : Nat} (largest : maxExponent = (k + 1 : Nat)) (negative : Bool)
    {n : Nat} : (∃ sign, round negative n 1 = .infinite sign) ↔ 2 ^ (54 + k) - 2 ^ k ≤ n := by
  have bits : (2 : Nat) ^ (54 + k) = 2 ^ 54 * 2 ^ k := Nat.pow_add 2 54 k
  have half : (2 : Nat) ^ (53 + k) = 2 ^ 53 * 2 ^ k := Nat.pow_add 2 53 k
  have positive : 0 < 2 ^ k := Nat.pow_pos (by decide)
  unfold round
  split_ifs with hn
  · exact iff_of_false nofun (by omega)
  rw [exponentFor_one hn, largest]
  dsimp only
  rcases Nat.lt_trichotomy n.log2 (53 + k) with small | same | large
  · have below : n < 2 ^ (53 + k) := (Nat.log2_lt hn).1 small
    refine iff_of_false ?_ (by omega)
    rw [if_neg]
    · nofun
    · split_ifs <;> dsimp only <;> omega
  · have below : n < 2 ^ (54 + k) := (Nat.log2_lt hn).1 (by omega)
    rw [show (n.log2 : Int) - 52 = (k + 1 : Nat) by omega, ← inUnits_eq_iff below]
    by_cases carried : inUnits n 1 ((k + 1 : Nat) : Int) = twoTo 53
    · rw [if_pos carried, if_pos (by dsimp only; omega)]
      exact iff_of_true ⟨_, rfl⟩ carried
    · rw [if_neg carried, if_neg (by dsimp only; omega)]
      exact iff_of_false nofun carried
  · have above : 2 ^ (54 + k) ≤ n := (Nat.le_log2 hn).1 (by omega)
    refine iff_of_true ?_ (by omega)
    rw [if_pos]
    · exact ⟨_, rfl⟩
    · split_ifs <;> dsimp only <;> omega

theorem ofInt_eq_infinite_iff {n : Int} :
    (∃ sign, ofInt n = .infinite sign) ↔ limit ≤ n.natAbs := by
  have bound := round_eq_infinite (k := 970) rfl (decide (n < 0)) (n := n.natAbs)
  simp only [Nat.reduceAdd] at bound
  unfold limit
  exact bound

end TableGraph.Binary64
