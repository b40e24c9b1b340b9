import Mathlib.Algebra.Group.Nat.Defs
import TableGraph.Value.Uuid

/-!
# Reading identifiers

An identifier is read back from its 32 digits, with or without the hyphens between their groups.
-/

namespace TableGraph

/-! ## Digits in base sixteen -/

/-- A small digit in base sixteen. -/
def IsHex (c : Char) : Prop := ∃ d < 16, c = Nat.digitChar d

theorem isHex_digitChar {d : Nat} (h : d < 16) : IsHex (Nat.digitChar d) := ⟨d, h, rfl⟩

/-- Whatever is true of the sixteen digits is true of every digit. -/
theorem IsHex.elim {P : Char → Prop} {c : Char} (h : IsHex c)
    (all : ∀ d < 16, P (Nat.digitChar d)) : P c := by
  obtain ⟨d, hd, rfl⟩ := h
  exact all d hd

theorem isHex_of_mem_toDigits {n : Nat} {c : Char} (h : c ∈ Nat.toDigits 16 n) : IsHex c := by
  induction n using Nat.base_induction 16 (by decide) with
  | single m hm =>
    rw [Nat.toDigits_of_lt_base hm, List.mem_singleton] at h
    exact h ▸ isHex_digitChar hm
  | digit m k hk hm ih =>
    rw [← Nat.toDigits_append_toDigits (by decide) hm hk, List.mem_append,
      Nat.toDigits_of_lt_base hk, List.mem_singleton] at h
    rcases h with h | h
    · exact ih h
    · exact h ▸ isHex_digitChar hk

namespace Text

theorem isHex_of_mem_hexDigits {width n : Nat} {c : Char} (h : c ∈ hexDigits width n) :
    IsHex c := by
  unfold hexDigits at h
  rcases List.mem_append.1 h with h | h
  · exact (List.eq_of_mem_replicate h) ▸ isHex_digitChar (d := 0) (by decide)
  · exact isHex_of_mem_toDigits h

theorem length_hexDigits {width n : Nat} (hw : 0 < width) (h : n < 16 ^ width) :
    (hexDigits width n).length = width := by
  have short := (Nat.length_toDigits_le_iff (n := n) (b := 16) (by decide) hw).2 h
  unfold hexDigits
  rw [List.length_append, List.length_replicate]
  omega

/-- A class of characters that none of a text is in leaves the text as it is. -/
theorem trim_eq_self {outside : Char → Bool} {cs : List Char} (h : ∀ c ∈ cs, outside c = false) :
    trim outside cs = cs := by
  have keep : ∀ ds : List Char, (∀ c ∈ ds, outside c = false) → ds.dropWhile outside = ds := by
    intro ds hds
    cases ds with
    | nil => rfl
    | cons d ds =>
      rw [List.dropWhile_cons_of_neg]
      rw [hds d List.mem_cons_self]
      exact Bool.false_ne_true
  unfold trim
  rw [keep cs h, keep cs.reverse fun c hc => h c (List.mem_reverse.1 hc), List.reverse_reverse]

end Text

namespace Hexadecimal

/-- The number that digits in base sixteen stand for. -/
def valueOf (cs : List Char) : Nat :=
  (cs.map fun c => (Text.hexValue? c).getD 0).foldl (fun n d => 16 * n + d) 0

theorem valueOf_concat (cs : List Char) {d : Nat} (h : d < 16) :
    valueOf (cs ++ [Nat.digitChar d]) = 16 * valueOf cs + d := by
  have digit : (Text.hexValue? (Nat.digitChar d)).getD 0 = d := by
    revert d
    decide
  unfold valueOf
  rw [List.map_append, List.foldl_append, List.map_singleton, digit]
  rfl

theorem valueOf_hexDigits (width n : Nat) : valueOf (Text.hexDigits width n) = n := by
  have zeros : ∀ k, valueOf (List.replicate k '0') = 0 := by
    intro k
    induction k with
    | zero => rfl
    | succ k ih =>
      rw [List.replicate_succ', show '0' = Nat.digitChar 0 from rfl, valueOf_concat _ (by decide)]
      rw [show Nat.digitChar 0 = '0' from rfl, ih]
  have digits : ∀ k, valueOf (List.replicate k '0' ++ Nat.toDigits 16 n) = n := by
    intro k
    induction n using Nat.base_induction 16 (by decide) with
    | single m hm =>
      rw [Nat.toDigits_of_lt_base hm, valueOf_concat _ hm, zeros, Nat.mul_zero, Nat.zero_add]
    | digit m d hd hm ih =>
      rw [← Nat.toDigits_append_toDigits (by decide) hm hd, Nat.toDigits_of_lt_base hd,
        ← List.append_assoc, valueOf_concat _ hd, ih]
  exact digits _

theorem joinedAfter_eq {cs : List Char} (h : ∀ c ∈ cs, IsHex c) :
    joinedAfter false cs = some cs := by
  induction cs with
  | nil => rfl
  | cons c cs ih =>
    have plain : c ≠ '_' := (h c List.mem_cons_self).elim (P := (· ≠ '_')) (by decide)
    rw [joinedAfter, if_neg plain, ih fun d hd => h d (List.mem_cons_of_mem c hd)]
    rfl

theorem mapM_hexValue {cs : List Char} (h : ∀ c ∈ cs, IsHex c) :
    cs.mapM Text.hexValue? = some (cs.map fun c => (Text.hexValue? c).getD 0) := by
  induction cs with
  | nil => rfl
  | cons c cs ih =>
    have digit : Text.hexValue? c = some ((Text.hexValue? c).getD 0) :=
      (h c List.mem_cons_self).elim
        (P := fun c => Text.hexValue? c = some ((Text.hexValue? c).getD 0)) (by decide)
    rw [List.mapM_cons, ih fun d hd => h d (List.mem_cons_of_mem c hd), digit]
    rfl

theorem unmarked_eq_self {cs : List Char} (h : ∀ c ∈ cs, IsHex c) : unmarked cs = cs := by
  have small : ∀ c ∈ cs, c ≠ 'x' := fun c hc => (h c hc).elim (P := (· ≠ 'x')) (by decide)
  have capital : ∀ c ∈ cs, c ≠ 'X' := fun c hc => (h c hc).elim (P := (· ≠ 'X')) (by decide)
  unfold unmarked
  split
  next => exact absurd rfl (small 'x' (by simp))
  next => exact absurd rfl (capital 'X' (by simp))
  next => exact absurd rfl (small 'x' (by simp))
  next => exact absurd rfl (capital 'X' (by simp))
  next => rfl

theorem integer?_eq {cs : List Char} (hne : cs ≠ []) (h : ∀ c ∈ cs, IsHex c) :
    integer? cs = some ((valueOf cs : Nat) : Int) := by
  have kept : (Text.trim Text.isPadding cs).map Numeral.ordinary = cs := by
    rw [Text.trim_eq_self fun c hc => (h c hc).elim (P := (Text.isPadding · = false)) (by decide)]
    refine (List.map_congr_left fun c hc => ?_).trans (List.map_id cs)
    exact (h c hc).elim (P := fun c => Numeral.ordinary c = id c) (by decide)
  have unsigned : Numeral.splitSign cs = (false, cs) := by
    unfold Numeral.splitSign
    split
    next => exact absurd rfl ((h '-' List.mem_cons_self).elim (P := (· ≠ '-')) (by decide))
    next => exact absurd rfl ((h '+' List.mem_cons_self).elim (P := (· ≠ '+')) (by decide))
    next => rfl
  have start : ¬ (cs.head? = some '_' ∨ cs.isEmpty = true) := by
    rintro (hhead | hempty)
    · have mark := h '_' (List.mem_of_head? hhead)
      exact mark.elim (P := (· ≠ '_')) (by decide) rfl
    · exact hne (List.isEmpty_iff.1 hempty)
  unfold integer?
  rw [kept, unsigned]
  dsimp only
  rw [unmarked_eq_self h, if_neg start, joinedAfter_eq h]
  show (cs.mapM Text.hexValue? >>= _) = _
  rw [mapM_hexValue h]
  rfl

end Hexadecimal

/-! ## Identifiers -/

namespace Uuid

theorem digits_isHex (u : Uuid) : ∀ c ∈ u.digits, IsHex c := fun _ => Text.isHex_of_mem_hexDigits

theorem length_digits (u : Uuid) : u.digits.length = 32 := by
  refine Text.length_hexDigits (by decide) ?_
  have h := u.bits.isLt
  rwa [show (16 : Nat) ^ 32 = 2 ^ 128 by decide]

theorem without_eq_self {word cs : List Char} (hw : ':' ∈ word) (h : ':' ∉ cs) :
    without word 0 cs = cs := by
  induction cs with
  | nil => rfl
  | cons c cs ih =>
    have other : ¬ word.isPrefixOf (c :: cs) = true := by
      intro hp
      exact h ((List.isPrefixOf_iff_prefix.1 hp).subset hw)
    rw [without, if_neg other, ih fun hc => h (List.mem_cons_of_mem c hc)]

/-- Digits with hyphens anywhere between them are read. -/
theorem ofText?_ofList {u : Uuid} {cs : List Char} (hcs : ∀ c ∈ cs, c = '-' ∨ IsHex c)
    (hdigits : cs.filter (· ≠ '-') = u.digits) : ofText? (String.ofList cs) = some u := by
  have chars : ∀ c ∈ cs, c ≠ ':' ∧ c ≠ '\x7b' ∧ c ≠ '\x7d' := by
    intro c hc
    rcases hcs c hc with rfl | hex
    · decide
    · exact hex.elim (P := fun c => c ≠ ':' ∧ c ≠ '\x7b' ∧ c ≠ '\x7d') (by decide)
  have body : significant cs = u.digits := by
    have colon : ':' ∉ cs := fun h => (chars _ h).1 rfl
    unfold significant
    rw [without_eq_self (by decide) colon, without_eq_self (by decide) colon]
    dsimp only
    rw [Text.trim_eq_self fun c hc => ?_, hdigits]
    simp only [decide_eq_false (chars c hc).2.1, decide_eq_false (chars c hc).2.2, Bool.or_false]
  have number : Hexadecimal.integer? u.digits = some ((u.bits.toNat : Nat) : Int) := by
    rw [Hexadecimal.integer?_eq (List.ne_nil_of_length_pos (by rw [length_digits]; decide))
      u.digits_isHex]
    unfold digits
    rw [Hexadecimal.valueOf_hexDigits]
  have bounds : (0 : Int) ≤ u.bits.toNat ∧ (u.bits.toNat : Int) < twoTo 128 :=
    ⟨Int.natCast_nonneg _, Int.ofNat_lt.2 u.bits.isLt⟩
  unfold ofText?
  rw [show (String.ofList cs).toList = cs from String.toList_ofList, body]
  dsimp only
  rw [length_digits, if_neg (by decide), number]
  rw [Option.bind_eq_bind, Option.bind_some, if_pos bounds, Int.toNat_natCast, BitVec.ofNat_toNat,
    BitVec.setWidth_eq]

theorem ofText?_digits (u : Uuid) : ofText? (String.ofList u.digits) = some u := by
  refine ofText?_ofList (fun c hc => Or.inr (u.digits_isHex c hc)) ?_
  rw [List.filter_eq_self]
  intro c hc
  exact (u.digits_isHex c hc).elim (P := fun c => decide (c ≠ '-') = true) (by decide)

theorem ofText?_toText (u : Uuid) : ofText? u.toText = some u := by
  have hex := u.digits_isHex
  have plain : ∀ ds : List Char, (∀ c ∈ ds, c ∈ u.digits) → ds.filter (· ≠ '-') = ds := by
    intro ds hds
    rw [List.filter_eq_self]
    intro c hc
    exact (hex c (hds c hc)).elim (P := fun c => decide (c ≠ '-') = true) (by decide)
  have part : ∀ (m n : Nat), ∀ c ∈ (u.digits.drop m).take n, c ∈ u.digits := fun m n c hc =>
    List.mem_of_mem_drop (List.mem_of_mem_take hc)
  refine ofText?_ofList (fun c hc => ?_) ?_
  · unfold chars at hc
    simp only [List.mem_append, List.mem_cons] at hc
    rcases hc with (((h | rfl | h) | rfl | h) | rfl | h) | rfl | h
    all_goals first
      | exact Or.inl rfl
      | exact Or.inr (hex c (List.mem_of_mem_take h))
      | exact Or.inr (hex c (part _ _ c h))
      | exact Or.inr (hex c (List.mem_of_mem_drop h))
  · have groups : u.digits = u.digits.take 8 ++ ((u.digits.drop 8).take 4 ++
        ((u.digits.drop 12).take 4 ++ ((u.digits.drop 16).take 4 ++ u.digits.drop 20))) := by
      have step : ∀ m n : Nat, u.digits.drop m =
          (u.digits.drop m).take n ++ u.digits.drop (m + n) := by
        intro m n
        rw [← List.drop_drop, List.take_append_drop]
      rw [← step 16 4, ← step 12 4, ← step 8 4, List.take_append_drop]
    have hyphen : ∀ ds : List Char, ('-' :: ds).filter (· ≠ '-') = ds.filter (· ≠ '-') :=
      fun ds => List.filter_cons_of_neg (by decide)
    unfold chars
    simp only [List.append_assoc, List.cons_append, List.filter_append, hyphen]
    rw [plain _ fun _ => List.mem_of_mem_take, plain _ (part 8 4), plain _ (part 12 4),
      plain _ (part 16 4), plain _ fun _ => List.mem_of_mem_drop, ← groups]

end Uuid

end TableGraph
