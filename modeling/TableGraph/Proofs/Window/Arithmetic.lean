import Mathlib.Order.Bounds.Defs
import Mathlib.Tactic.Ring
import TableGraph.Proofs.Walk.Complete
import TableGraph.Proofs.Window.Counted

/-!
# Page arithmetic

Main statement: `page_arithmetic`.  Below `2^53` the counts of pages are exact, and a page asked for
by its number is the page asked for by the offset that the number stands for, of rows at hand as of
the rows of a table.

A count of pages is the ceiling of a quotient that was rounded to binary64 first.  Below `2^53` the
rounding does no harm: the quotient is rounded in units of `2^e` with `2 * 2^-e` above the divisor,
so that half a unit is less than the distance of the quotient from the whole number below it.
-/

namespace TableGraph

namespace Binary64

/-! ## Rounding in units -/

theorem twoTo_add (m n : Nat) : twoTo (m + n) = twoTo m * twoTo n := Nat.pow_add 2 m n

theorem twoTo_le {m n : Nat} (h : m ≤ n) : twoTo m ≤ twoTo n := Nat.pow_le_pow_right (by decide) h

/-- What is at most a whole number is rounded to at most that. -/
theorem divRound_le {a b c : Nat} (hb : 0 < b) (h : a ≤ c * b) : divRound a b ≤ c := by
  have split := Nat.div_add_mod a b
  have floor : a / b ≤ c := Nat.div_le_of_le_mul (by rw [Nat.mul_comm]; exact h)
  have above (hr : 0 < a % b) : a / b < c := by
    by_contra hle
    have := Nat.mul_le_mul_left b (Nat.not_lt.1 hle)
    rw [Nat.mul_comm b c] at this
    omega
  unfold divRound
  dsimp only
  split_ifs with hdown hup heven
  · exact floor
  · exact above (by omega)
  · exact floor
  · exact above (by omega)

/-- Rounding takes away at most a half. -/
theorem le_divRound (a : Nat) {b : Nat} (hb : 0 < b) : 2 * a ≤ 2 * (divRound a b * b) + b := by
  have split := Nat.div_add_mod a b
  have part := Nat.mod_lt a hb
  rw [Nat.mul_comm] at split
  unfold divRound
  dsimp only
  split_ifs with hdown hup heven
  · omega
  · rw [Nat.add_mul]
    omega
  · omega
  · rw [Nat.add_mul]
    omega

/-- The ceiling of a number that is not negative. -/
theorem exists_ceil? (m : Nat) (e : Int) : ∃ k : Nat, (finite false m e).ceil? = some (k : Int) ∧
    ∀ c : Nat, k ≤ c ↔ m * twoTo e.toNat ≤ c * twoTo (-e).toNat := by
  by_cases he : 0 ≤ e
  · refine ⟨m * twoTo e.toNat, ?_, fun c => ?_⟩
    · simp [ceil?, he]
    · rw [show (-e).toNat = 0 by omega, twoTo_zero, Nat.mul_one]
  · have unit := twoTo_pos (-e).toNat
    refine ⟨(m + twoTo (-e).toNat - 1) / twoTo (-e).toNat, ?_, fun c => ?_⟩
    · simp [ceil?, he]
    · rw [show e.toNat = 0 by omega, twoTo_zero, Nat.mul_one, ← Nat.lt_succ_iff,
        Nat.div_lt_iff_lt_mul unit, Nat.succ_mul]
      omega

/-! ## Units of a quotient -/

variable {n d : Nat} (hn : n ≠ 0) (hsmall : n < 2 ^ 53)
include hn hsmall

theorem log2_lt_of_small : n.log2 < 53 := (Nat.log2_lt hn).2 hsmall

theorem exponentFor_nonpos (d : Nat) : exponentFor n d ≤ 0 := by
  have top := log2_lt_of_small hn hsmall
  unfold exponentFor minExponent
  dsimp only
  split_ifs <;> omega

/-- The unit in which a quotient is rounded is more than half its divisor. -/
theorem lt_unit (hd : 0 < d) (hsmall' : d < 2 ^ 53) :
    d < 2 * twoTo (-exponentFor n d).toNat := by
  have top := log2_lt_of_small hn hsmall
  -- Either the power of two below the quotient is not negative, or the divisor is small enough.
  obtain ⟨f, hf, hexp⟩ : ∃ f : Int, (∀ k : Nat, f = k → d * twoTo k ≤ n) ∧
      exponentFor n d ≤ max (f - 52) (-1074) := by
    refine ⟨_, ?_, le_rfl⟩
    intro k hk
    have numerator : twoTo n.log2 ≤ n := Nat.log2_self_le hn
    have divisor : d < twoTo (d.log2 + 1) := Nat.lt_log2_self
    split_ifs at hk with hbelow
    · have : twoTo (d.log2 + 1) * twoTo k = twoTo n.log2 := by
        rw [← twoTo_add]
        congr 1
        omega
      have := Nat.mul_le_mul_right (twoTo k) divisor.le
      omega
    · unfold isBelow at hbelow
      rw [hk] at hbelow
      simpa using hbelow
  by_cases hpos : 0 ≤ f
  · obtain ⟨k, rfl⟩ := Int.eq_ofNat_of_zero_le hpos
    have whole := hf k rfl
    by_contra hle
    have unit : twoTo 53 ≤ 2 * twoTo (-exponentFor n d).toNat * twoTo k := by
      rw [show 2 * twoTo (-exponentFor n d).toNat = twoTo ((-exponentFor n d).toNat + 1) by
        rw [twoTo_succ, Nat.mul_comm], ← twoTo_add]
      exact twoTo_le (by omega)
    have := Nat.mul_le_mul_right (twoTo k) (Nat.not_lt.1 hle)
    have : twoTo 53 = 2 ^ 53 := rfl
    omega
  · have unit : twoTo 52 ≤ twoTo (-exponentFor n d).toNat := twoTo_le (by omega)
    have : twoTo 52 = 2 ^ 52 := rfl
    omega

/-- The rounded quotient is found in its units. -/
theorem exists_ceil?_round (d : Nat) : ∃ k : Nat, (round false n d).ceil? = some (k : Int) ∧
    ∀ c : Nat, k ≤ c ↔ divRound (n * twoTo (-exponentFor n d).toNat) d ≤
      c * twoTo (-exponentFor n d).toNat := by
  have nonpos := exponentFor_nonpos hn hsmall d
  have units : inUnits n d (exponentFor n d) =
      divRound (n * twoTo (-exponentFor n d).toNat) d := by
    unfold inUnits
    split_ifs with he
    · rw [show exponentFor n d = 0 by omega]
      simp
    · rfl
  unfold round
  rw [if_neg hn]
  dsimp only
  rw [units]
  generalize exponentFor n d = e at nonpos
  generalize divRound (n * twoTo (-e).toNat) d = m
  by_cases hm : m = twoTo 53
  · -- 53 bits overflow: the number is written with one bit less in the unit above.
    rw [if_pos hm, if_neg (by unfold maxExponent; omega)]
    obtain ⟨k, hk, hleast⟩ := exists_ceil? (twoTo 52) (e + 1)
    refine ⟨k, hk, fun c => ?_⟩
    rw [hleast, hm]
    rcases Int.lt_or_eq_of_le nonpos with hneg | rfl
    · rw [show (e + 1).toNat = 0 by omega, show (-e).toNat = (-(e + 1)).toNat + 1 by omega,
        twoTo_succ 52, twoTo_succ (-(e + 1)).toNat, twoTo_zero, ← Nat.mul_assoc]
      omega
    · rw [twoTo_succ 52]
      rfl
  · rw [if_neg hm, if_neg (by unfold maxExponent; omega)]
    obtain ⟨k, hk, hleast⟩ := exists_ceil? m e
    refine ⟨k, hk, fun c => ?_⟩
    rw [hleast, show e.toNat = 0 by omega, twoTo_zero, Nat.mul_one]

end Binary64

namespace PageCount

open Binary64

/--
The quotient of a number below `2^53`, rounded and then rounded up, is not above a whole number that
it should not be above; and if the divisor is below `2^53` as well, it is not below the quotient.
-/
theorem exists_ceilQuotient {n d : Int} (hn : 0 ≤ n) (hsmall : n < 2 ^ 53) (hd : 0 < d) :
    ∃ k, ceilQuotient n d = .ok k ∧ (∀ c, n ≤ c * d → k ≤ c) ∧ (d < 2 ^ 53 → n ≤ k * d) := by
  obtain ⟨a, rfl⟩ := Int.eq_ofNat_of_zero_le hn
  obtain ⟨b, rfl⟩ := Int.eq_ofNat_of_zero_le hd.le
  have nonneg {c : Int} (h : (a : Int) ≤ c * b) : ∃ i : Nat, c = i := by
    refine Int.eq_ofNat_of_zero_le ?_
    by_contra hneg
    have := Int.mul_neg_of_neg_of_pos (Int.not_le.1 hneg) hd
    omega
  have quotient {k : Nat} (h : (round false a b).ceil? = some (k : Int)) :
      ceilQuotient a b = .ok k := by
    have plus (i : Nat) : decide ((i : Int) < 0) = false := decide_eq_false (by omega)
    simp only [ceilQuotient, if_neg hd.ne', plus, bne_self_eq_false, Int.natAbs_natCast, h]
  by_cases hzero : a = 0
  · subst hzero
    obtain ⟨k, hk, hleast⟩ := exists_ceil? 0 minExponent
    obtain rfl : k = 0 := Nat.le_zero.1 ((hleast 0).2 (by simp))
    refine ⟨0, quotient hk, fun c hc => ?_, fun _ => by simp⟩
    obtain ⟨i, rfl⟩ := nonneg hc
    omega
  have hsmall : a < 2 ^ 53 := by omega
  have hpos : 0 < b := by omega
  obtain ⟨k, hk, hleast⟩ := exists_ceil?_round hzero hsmall b
  have unit := twoTo_pos (-exponentFor a b).toNat
  have wide := lt_unit hzero hsmall hpos
  generalize twoTo (-exponentFor a b).toNat = u at hleast unit wide
  refine ⟨k, quotient hk, fun c hc => ?_, fun hd' => ?_⟩
  · obtain ⟨i, rfl⟩ := nonneg hc
    have hc : a ≤ i * b := by exact_mod_cast hc
    have : k ≤ i := (hleast i).2 <| divRound_le hpos <| by
      rw [Nat.mul_right_comm]
      exact Nat.mul_le_mul_right u hc
    omega
  · have above := (hleast k).1 le_rfl
    have near := le_divRound (a * u) hpos
    have : a ≤ k * b := by
      by_contra hlt
      have half := Nat.mul_le_mul_right b above
      have step := Nat.mul_le_mul_right u (Nat.not_le.1 hlt)
      rw [Nat.succ_mul, Nat.mul_right_comm] at step
      have := wide (by omega)
      omega
    exact_mod_cast this

/-- At `2^53` the last page is lost. -/
example : ceilQuotient 9007199254740993 9007199254740992 = .ok 1 := rfl

theorem isLeast_ceilQuotient {n d : Int} (hn : 0 ≤ n) (hsmall : n < 2 ^ 53) (hd : 0 < d)
    (hsmall' : d < 2 ^ 53) :
    ∃ k, ceilQuotient n d = .ok k ∧ IsLeast {c : Int | n ≤ c * d} k := by
  obtain ⟨k, hk, hleast, habove⟩ := exists_ceilQuotient hn hsmall hd
  exact ⟨k, hk, habove hsmall', fun c hc => hleast c hc⟩

end PageCount

/-! ## Counts of pages -/

namespace PageCount

section Bounds

variable {total limit : Int} (htotal : 0 ≤ total ∧ total < 2 ^ 53) (hlimit : 0 < limit)
include htotal hlimit

/-- Whether more pages follow is counted exactly, whatever the limit. -/
theorem exists_ofPage (number : Int) : ∃ count, ofPage total limit number = .ok count ∧
    (0 ≤ number → (number + 1 < count.pages ↔ (number + 1) * limit < total)) := by
  obtain ⟨pages, hpages, hleast, habove⟩ := exists_ceilQuotient htotal.1 htotal.2 hlimit
  refine ⟨⟨pages, number, number * limit, total⟩, ?_, fun hnumber => ⟨fun hmore => ?_, fun hmore => ?_⟩⟩
  · unfold ofPage
    rw [hpages]
    rfl
  · by_contra hend
    exact absurd (hleast _ (Int.not_lt.1 hend)) (Int.not_le.2 hmore)
  · -- A page behind this one can only be full below the total, so that the limit is small.
    have whole : limit ≤ (number + 1) * limit := le_mul_of_one_le_left hlimit.le (by omega)
    have covers := habove (by omega)
    show number + 1 < pages
    by_contra hend
    have := Int.mul_le_mul_of_nonneg_right (Int.not_lt.1 hend) hlimit.le
    omega

variable (hsmall : limit < 2 ^ 53)
include hsmall

theorem isLeast_ofPage (number : Int) : ∃ pages, IsLeast {n : Int | total ≤ n * limit} pages ∧
    ofPage total limit number = .ok ⟨pages, number, number * limit, total⟩ := by
  obtain ⟨pages, hpages, hleast⟩ := isLeast_ceilQuotient htotal.1 htotal.2 hlimit hsmall
  refine ⟨pages, hleast, ?_⟩
  unfold ofPage
  rw [hpages]
  rfl

theorem isLeast_ofOffset {start : Int} (hstart : 0 ≤ start ∧ start < 2 ^ 53) :
    ∃ pages current, IsLeast {n : Int | total ≤ n * limit} pages ∧
      IsLeast {n : Int | start ≤ n * limit} current ∧
      ofOffset total limit start = .ok ⟨pages, current, start, total⟩ := by
  obtain ⟨pages, hpages, hleast⟩ := isLeast_ceilQuotient htotal.1 htotal.2 hlimit hsmall
  obtain ⟨current, hcurrent, hleast'⟩ :=
    isLeast_ceilQuotient hstart.1 hstart.2 hlimit hsmall
  refine ⟨pages, current, hleast, hleast', ?_⟩
  unfold ofOffset
  rw [hpages, hcurrent]
  rfl

end Bounds

/-- The count for a page number is the count for its offset. -/
theorem ofPage_eq_ofOffset {total limit number : Int} (htotal : 0 ≤ total ∧ total < 2 ^ 53)
    (hlimit : 0 < limit ∧ limit < 2 ^ 53) (hnumber : 0 ≤ number)
    (hstart : number * limit < 2 ^ 53) :
    ofPage total limit number = ofOffset total limit (number * limit) := by
  have nonneg := Int.mul_nonneg hnumber hlimit.1.le
  obtain ⟨pages, hpages, hpage⟩ := isLeast_ofPage htotal hlimit.1 hlimit.2 number
  obtain ⟨pages', current, hpages', hcurrent, hoffset⟩ :=
    isLeast_ofOffset htotal hlimit.1 hlimit.2 ⟨nonneg, hstart⟩
  have own : IsLeast {n : Int | number * limit ≤ n * limit} number :=
    ⟨le_refl (number * limit), fun n hn => le_of_mul_le_mul_right hn hlimit.1⟩
  rw [hpage, hoffset, hpages.unique hpages', hcurrent.unique own]

end PageCount

/-! ## Pages by number and by offset -/

section Requests

variable {limit number : Int} (hlimit : 0 < limit ∧ limit < 2 ^ 53) (hnumber : 0 ≤ number)
  (hstart : number * limit < 2 ^ 53)
include hlimit hnumber hstart

/-- The flags of a page are those of its offset. -/
theorem PageCount.flags_eq {total : Int} (htotal : 0 ≤ total ∧ total < 2 ^ 53) :
    ∃ count, PageCount.ofPage total limit number = .ok count ∧
      PageCount.ofOffset total limit (number * limit) = .ok count ∧
      decide (0 < number) = decide (0 < number * limit) ∧
      decide (number + 1 < count.pages) = decide (number * limit + limit < total) := by
  obtain ⟨count, hcount, hmore⟩ := PageCount.exists_ofPage htotal hlimit.1 number
  refine ⟨count, hcount, ?_, ?_, ?_⟩
  · rw [← PageCount.ofPage_eq_ofOffset htotal hlimit hnumber hstart, hcount]
  · rw [decide_eq_decide, mul_pos_iff_of_pos_right hlimit.1]
  · rw [decide_eq_decide, hmore hnumber, Int.add_mul, Int.one_mul]

theorem Window.paginate_page (codec : Codec) (key : List Column) (paths : List String)
    {rows : List Record} (hrows : (rows.length : Int) < 2 ^ 53) :
    paginate codec key paths rows (.page number limit) =
      paginate codec key paths rows (.offset (number * limit) limit) := by
  obtain ⟨count, hpage, hoffset, hprevious, hnext⟩ :=
    PageCount.flags_eq hlimit hnumber hstart ⟨Int.natCast_nonneg rows.length, hrows⟩
  unfold paginate
  dsimp only
  rw [hpage, hoffset]
  show (_ >>= fun edges => Except.ok (Connection.mk _ (decide (0 < number)) _ _)) = _
  rw [hprevious, hnext]
  rfl

theorem Query.connection_page (codec : Codec) (s : Store) (p : Projection)
    {condition : Predicate Value} (orders : List Order)
    (hrows : ∀ t rows, s.table p.name = .ok t → t.matching condition = .ok rows →
      (rows.length : Int) < 2 ^ 53) :
    connection codec s p condition orders (.page number limit) =
      connection codec s p condition orders (.offset (number * limit) limit) := by
  unfold connection
  refine Counted.bind_congr_of_run rfl fun total n m hrun => ?_
  refine Counted.bind_congr_of_run rfl fun records _ _ _ => ?_
  obtain ⟨rows, k, hask, hlength⟩ := Counted.run_bind_eq_ok.1 hrun
  obtain ⟨rfl, -⟩ := Counted.run_pure_eq_ok.1 hlength
  obtain ⟨t, ht, hm, -⟩ := Store.run_ask_eq_ok.1 hask
  obtain ⟨count, hpage, hoffset, hprevious, hnext⟩ := PageCount.flags_eq hlimit hnumber hstart
    ⟨Int.natCast_nonneg rows.length, hrows t rows ht hm⟩
  rw [hpage, hoffset]
  show (liftM (page codec p records (decide (0 < number)) _ _) : Counted Connection) = _
  rw [hprevious, hnext]
  rfl

end Requests

/--
Below `2^53` both counts tell the least number of pages that hold the total, the count for an offset
also the least number of pages that reach it, and another page follows exactly if the rows go on.
A page asked for by its number is, with its flags and its count, the page asked for by the offset of
its first row: of rows at hand, and of the rows of a table.
-/
theorem page_arithmetic {total limit number start : Int} (htotal : 0 ≤ total ∧ total < 2 ^ 53)
    (hlimit : 0 < limit ∧ limit < 2 ^ 53) (hnumber : 0 ≤ number ∧ number * limit < 2 ^ 53)
    (hstart : 0 ≤ start ∧ start < 2 ^ 53) :
    (∃ count, PageCount.ofPage total limit number = .ok count ∧
      IsLeast {n : Int | total ≤ n * limit} count.pages ∧
      (number + 1 < count.pages ↔ (number + 1) * limit < total)) ∧
    (∃ count, PageCount.ofOffset total limit start = .ok count ∧
      IsLeast {n : Int | total ≤ n * limit} count.pages ∧
      IsLeast {n : Int | start ≤ n * limit} count.current) ∧
    (∀ (codec : Codec) (key : List Column) (paths : List String) (rows : List Record),
      (rows.length : Int) = total →
        Window.paginate codec key paths rows (.page number limit) =
          Window.paginate codec key paths rows (.offset (number * limit) limit)) ∧
    ∀ (codec : Codec) (s : Store) (p : Projection) (condition : Predicate Value)
      (orders : List Order), (∀ t rows, s.table p.name = .ok t → t.matching condition = .ok rows →
        (rows.length : Int) = total) →
        Query.connection codec s p condition orders (.page number limit) =
          Query.connection codec s p condition orders (.offset (number * limit) limit) := by
  refine ⟨?_, ?_, fun codec key paths rows hrows => ?_, fun codec s p condition orders hrows => ?_⟩
  · obtain ⟨pages, hleast, hpage⟩ :=
      PageCount.isLeast_ofPage htotal hlimit.1 hlimit.2 number
    obtain ⟨count, hcount, hmore⟩ := PageCount.exists_ofPage htotal hlimit.1 number
    rw [hpage, Except.ok.injEq] at hcount
    subst hcount
    exact ⟨_, hpage, hleast, hmore hnumber.1⟩
  · obtain ⟨pages, current, hleast, hcurrent, hoffset⟩ :=
      PageCount.isLeast_ofOffset htotal hlimit.1 hlimit.2 hstart
    exact ⟨_, hoffset, hleast, hcurrent⟩
  · exact Window.paginate_page hlimit hnumber.1 hnumber.2 codec key paths (hrows ▸ htotal.2)
  · exact Query.connection_page hlimit hnumber.1 hnumber.2 codec s p orders
      fun t rows ht hm => hrows t rows ht hm ▸ htotal.2

section Notes

open Sample.Notes

/-- The second of two notes, asked for by its page of a single note and by its offset. -/
theorem page_arithmetic_notes :
    (∃ count, PageCount.ofPage 2 1 1 = .ok count ∧ IsLeast {n : Int | 2 ≤ n * 1} count.pages ∧
      ((1 : Int) + 1 < count.pages ↔ ((1 : Int) + 1) * 1 < 2)) ∧
    Query.connection environment.schema.codec (store [note 1 1 (.int 7), note 2 1 (.int 5)])
        projection .always [] (.page 1 1) =
      Query.connection environment.schema.codec (store [note 1 1 (.int 7), note 2 1 (.int 5)])
        projection .always [] (.offset 1 1) := by
  have total : (0 : Int) ≤ 2 ∧ (2 : Int) < 2 ^ 53 := by decide
  have limit : (0 : Int) < 1 ∧ (1 : Int) < 2 ^ 53 := by decide
  have number : (0 : Int) ≤ 1 ∧ (1 : Int) * 1 < 2 ^ 53 := by decide
  have start : (0 : Int) ≤ 1 ∧ (1 : Int) < 2 ^ 53 := by decide
  have arithmetic := page_arithmetic total limit number start
  refine ⟨arithmetic.1, arithmetic.2.2.2 _ _ _ _ _ fun t rows ht hm => ?_⟩
  obtain rfl : table [note 1 1 (.int 7), note 2 1 (.int 5)] = t := Except.ok.inj ht
  rw [matching_notes, Except.ok.injEq] at hm
  subst hm
  rfl

end Notes

end TableGraph
