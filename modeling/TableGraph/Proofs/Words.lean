import Mathlib
import TableGraph.Text.Words

/-!
# Where words end

Two passes put blanks into a text, each into what it finds from left to right.  What a pass finds
holds one place where a word ends and no second one, so that a blank comes behind every character
that ends a word and behind no other (`Finds.spaced_eq`); and the blanks of the first pass neither
hide places from the second nor make new ones (`spread_rises_acronymEnds`).  So the words are those
of a text that is cut at these places (`wordsOf_eq_cut`).

`wordIndex` tells which word a letter or digit of the text falls into.  Main statements:
`cutIndex_adjacent` and `cutIndex_apart`, two neighbours among the letters and digits fall into
different words exactly if something else stands or a word ends between them.
-/

namespace TableGraph.Text

variable {a b c : Char} {cs : List Char}

/-! ## Blanks -/

/-- A text with a blank behind every character that ends a word, which is told by what follows. -/
def spread (ends : Char → List Char → Bool) : List Char → List Char
  | [] => []
  | c :: cs => if ends c cs then c :: ' ' :: spread ends cs else c :: spread ends cs

section Passes

variable {find? : List Char → Option (List Char × List Char)} {ends : Char → List Char → Bool}

theorem spread_of_ends (h : ends c cs = true) :
    spread ends (c :: cs) = c :: ' ' :: spread ends cs := if_pos h

theorem spread_of_not_ends (h : ends c cs = false) :
    spread ends (c :: cs) = c :: spread ends cs := if_neg (Bool.eq_false_iff.1 h)

theorem head?_spread (ends : Char → List Char → Bool) (cs : List Char) :
    (spread ends cs).head? = cs.head? := by
  cases cs with
  | nil => rfl
  | cons c cs =>
    unfold spread
    split_ifs <;> rfl

theorem spaced_covered (n : Nat) (cs : List Char) :
    spaced find? n cs = spaced find? 0 (cs.drop n) := by
  induction n generalizing cs with
  | zero => rfl
  | succ n ih =>
    cases cs with
    | nil => rfl
    | cons c cs => exact ih cs

/-- The search finds the places where words end, one at a time. -/
structure Finds (find? : List Char → Option (List Char × List Char))
    (ends : Char → List Char → Bool) : Prop where
  /-- A character at which nothing is found ends no word. -/
  passed {c : Char} {cs : List Char} : find? (c :: cs) = none → ends c cs = false
  /-- What is found ends one word, between its parts. -/
  found {cs first second : List Char} : find? cs = some (first, second) → first ≠ [] ∧
    ∃ rest, cs = first ++ second ++ rest ∧
      spread ends cs = first ++ ' ' :: second ++ spread ends rest

/-- A pass puts a blank behind every character that ends a word. -/
theorem Finds.spaced_eq (h : Finds find? ends) (cs : List Char) :
    spaced find? 0 cs = spread ends cs := by
  match cs with
  | [] => rfl
  | c :: cs =>
    unfold spaced
    cases hfind : find? (c :: cs) with
    | none =>
      dsimp only
      rw [h.spaced_eq cs, spread_of_not_ends (h.passed hfind)]
    | some parts =>
      obtain ⟨first, second⟩ := parts
      obtain ⟨hfirst, rest, hrest, hspread⟩ := h.found hfind
      have covered : cs.drop (first.length + second.length - 1) = rest := by
        obtain ⟨d, run, rfl⟩ := List.exists_cons_of_ne_nil hfirst
        obtain ⟨-, rfl⟩ := List.cons.inj hrest
        rw [List.length_cons, Nat.succ_add, Nat.add_one_sub_one]
        simp
      have shorter : rest.length < cs.length + 1 := by
        have size := congrArg List.length hrest
        have := List.length_pos_iff.2 hfirst
        simp only [List.length_cons, List.length_append] at size
        omega
      dsimp only
      rw [spaced_covered, covered, h.spaced_eq rest, hspread]
termination_by cs.length

end Passes

/-! ### A capital behind a small letter -/

/-- A small letter or a digit ends a word in front of a capital. -/
def rises (a : Char) (cs : List Char) : Bool :=
  (a.isLower || a.isDigit) && cs.head?.any Char.isUpper

theorem not_isDigit_of_isUpper (h : a.isUpper = true) : a.isDigit = false := by
  simp only [Char.isUpper, Char.isDigit, ge_iff_le, UInt32.le_iff_toNat_le, Bool.and_eq_false_iff,
    decide_eq_true_eq, decide_eq_false_iff_not] at *
  have : 'A'.val.toNat = 65 := rfl
  have : '9'.val.toNat = 57 := rfl
  omega

theorem rises_of_isUpper (h : a.isUpper = true) (cs : List Char) : rises a cs = false := by
  unfold rises
  rw [Bool.eq_false_iff.2 (Char.not_isLower_of_isUpper h), not_isDigit_of_isUpper h]
  rfl

theorem finds_rises : Finds rise? rises where
  passed {c cs} h := by
    cases cs with
    | nil => exact Bool.and_false _
    | cons b cs => simpa [rise?, rises] using h
  found {cs first second} h := by
    match cs with
    | [] => cases h
    | [_] => cases h
    | a :: b :: cs =>
      simp only [rise?, Option.ite_none_right_eq_some, Option.some.injEq, Prod.mk.injEq] at h
      obtain ⟨hends, rfl, rfl⟩ := h
      have capital : b.isUpper = true := (Bool.and_eq_true_iff.1 hends).2
      refine ⟨List.cons_ne_nil _ _, cs, rfl, ?_⟩
      rw [spread_of_ends hends, spread_of_not_ends (rises_of_isUpper capital cs)]
      rfl

/-! ### The last capital of a run -/

/-- A capital ends a word in front of a capital that a small letter follows. -/
def acronymEnds (a : Char) (cs : List Char) : Bool :=
  a.isUpper && cs.head?.any Char.isUpper && cs[1]?.any Char.isLower

theorem acronymEnds_of_isLower (h : a.isLower = true) (cs : List Char) :
    acronymEnds a cs = false := by
  unfold acronymEnds
  rw [Bool.eq_false_iff.2 (Char.not_isUpper_of_isLower h)]
  rfl

/-- A run of capitals is cut in front of the last one only. -/
theorem spread_acronymEnds {run rest : List Char} (hne : run ≠ [])
    (hrun : ∀ a ∈ run, a.isUpper = true) (hb : b.isUpper = true) (hc : c.isLower = true) :
    spread acronymEnds (run ++ b :: c :: rest) =
      run ++ ' ' :: b :: c :: spread acronymEnds rest := by
  induction run with
  | nil => exact absurd rfl hne
  | cons a run ih =>
    obtain ⟨ha, hrun⟩ := List.forall_mem_cons.1 hrun
    cases run with
    | nil =>
      have hends : acronymEnds a (b :: c :: rest) = true := by simp [acronymEnds, ha, hb, hc]
      have hword : acronymEnds b (c :: rest) = false := by
        simp [acronymEnds, Char.not_isUpper_of_isLower hc]
      rw [List.singleton_append, spread_of_ends hends, spread_of_not_ends hword,
        spread_of_not_ends (acronymEnds_of_isLower hc rest)]
      rfl
    | cons d run =>
      have within : acronymEnds a (d :: run ++ b :: c :: rest) = false := by
        cases run with
        | nil => simp [acronymEnds, Char.not_isLower_of_isUpper hb]
        | cons e run =>
          have capital : e.isUpper = true := hrun e (by simp)
          simp [acronymEnds, Char.not_isLower_of_isUpper capital]
      rw [List.cons_append, spread_of_not_ends within, ih (List.cons_ne_nil _ _) hrun]
      rfl

theorem eq_of_acronym? {first second : List Char} (h : acronym? cs = some (first, second)) :
    first ≠ [] ∧ (∀ a ∈ first, a.isUpper = true) ∧
      ∃ b c rest, b.isUpper = true ∧ c.isLower = true ∧ second = [b, c] ∧
        cs = first ++ b :: c :: rest := by
  induction cs generalizing first second with
  | nil => cases h
  | cons a cs ih =>
    unfold acronym? at h
    split_ifs at h with capital
    cases hlonger : acronym? cs with
    | some parts =>
      obtain ⟨run, word⟩ := parts
      rw [hlonger] at h
      cases h
      obtain ⟨-, hrun, b, c, rest, hb, hc, hword, rfl⟩ := ih hlonger
      exact ⟨List.cons_ne_nil _ _, List.forall_mem_cons.2 ⟨capital, hrun⟩, b, c, rest, hb, hc,
        hword, rfl⟩
    | none =>
      rw [hlonger] at h
      match cs with
      | [] => cases h
      | [_] => cases h
      | b :: c :: cs =>
        dsimp only at h
        split_ifs at h with hword
        cases h
        obtain ⟨hb, hc⟩ := Bool.and_eq_true_iff.1 hword
        exact ⟨List.cons_ne_nil _ _, by simpa using capital, b, c, cs, hb, hc, rfl, rfl⟩

theorem exists_acronym? (h : acronymEnds a cs = true) : ∃ found, acronym? (a :: cs) = some found := by
  match cs with
  | [] => simp [acronymEnds] at h
  | [_] => simp [acronymEnds] at h
  | b :: c :: cs =>
    simp only [acronymEnds, List.head?_cons, List.getElem?_cons_succ, List.getElem?_cons_zero,
      Option.any_some, Bool.and_eq_true, and_assoc] at h
    obtain ⟨capital, hb, hc⟩ := h
    unfold acronym?
    rw [if_pos capital]
    cases acronym? (b :: c :: cs) with
    | some parts => exact ⟨_, rfl⟩
    | none => exact ⟨_, if_pos (Bool.and_eq_true_iff.2 ⟨hb, hc⟩)⟩

theorem finds_acronymEnds : Finds acronym? acronymEnds where
  passed {a cs} h := by
    refine Bool.eq_false_iff.2 fun hends => ?_
    obtain ⟨found, hfound⟩ := exists_acronym? hends
    cases h.symm.trans hfound
  found {cs first second} h := by
    obtain ⟨hfirst, hrun, b, c, rest, hb, hc, rfl, rfl⟩ := eq_of_acronym? h
    refine ⟨hfirst, rest, by simp, ?_⟩
    rw [spread_acronymEnds hfirst hrun hb hc]
    simp

/-! ## Words -/

/-- The character ends a word of a text that continues with `cs`. -/
def endsWord (a : Char) (cs : List Char) : Bool := rises a cs || acronymEnds a cs

/-- One pass after the other puts a blank behind every character that ends a word. -/
theorem spread_rises_acronymEnds (cs : List Char) :
    spread rises (spread acronymEnds cs) = spread endsWord cs := by
  induction cs with
  | nil => rfl
  | cons a cs ih =>
    cases hends : acronymEnds a cs with
    | true =>
      have before : ∀ ds, rises a (' ' :: ds) = false := fun ds => Bool.and_false _
      have behind : ∀ ds, rises ' ' ds = false := fun ds => rfl
      have both : endsWord a cs = true := by rw [endsWord, hends, Bool.or_true]
      rw [spread_of_ends hends, spread_of_not_ends (before _), spread_of_not_ends (behind _), ih,
        spread_of_ends both]
    | false =>
      have same : rises a (spread acronymEnds cs) = endsWord a cs := by
        rw [endsWord, hends, Bool.or_false, rises, head?_spread, rises]
      rw [spread_of_not_ends hends, spread, spread, same, ih]

/-- The words of a text that is cut behind every character that ends a word. -/
def cut (ends : Char → List Char → Bool) : List Char → List (List Char)
  | [] => []
  | a :: cs =>
    if isWordChar a then
      if cs.head?.any isWordChar && !ends a cs then prepend a (cut ends cs)
      else [a] :: cut ends cs
    else cut ends cs

section Cut

variable {ends : Char → List Char → Bool}

theorem cut_of_not_word (h : isWordChar a = false) : cut ends (a :: cs) = cut ends cs :=
  if_neg (Bool.eq_false_iff.1 h)

theorem cut_of_ends (h : isWordChar a = true)
    (hends : (cs.head?.any isWordChar && !ends a cs) = false) :
    cut ends (a :: cs) = [a] :: cut ends cs := by
  rw [cut, if_pos h, if_neg (Bool.eq_false_iff.1 hends)]

theorem cut_of_not_ends (h : isWordChar a = true) (hb : isWordChar b = true)
    (hends : ends a (b :: cs) = false) :
    cut ends (a :: b :: cs) = prepend a (cut ends (b :: cs)) := by
  rw [cut, if_pos h, if_pos (by simp [hb, hends])]

theorem exists_prepend (c : Char) (ws : List (List Char)) :
    ∃ w rest, prepend c ws = (c :: w) :: rest := by
  cases ws with
  | nil => exact ⟨[], [], rfl⟩
  | cons w ws => exact ⟨w, ws, rfl⟩

/-- A letter or digit at the front starts the first word. -/
theorem exists_cut (h : isWordChar c = true) : ∃ w ws, cut ends (c :: cs) = (c :: w) :: ws := by
  rw [cut, if_pos h]
  split_ifs
  · exact exists_prepend c _
  · exact ⟨[], _, rfl⟩

theorem pieces_of_word (h : isWordChar c = true) : pieces (c :: cs) = prepend c (pieces cs) :=
  if_pos h

theorem pieces_of_not_word (h : isWordChar c = false) : pieces (c :: cs) = [] :: pieces cs :=
  if_neg (Bool.eq_false_iff.1 h)

/-- Dividing a text with blanks where words end cuts it there. -/
theorem filter_pieces_spread (ends : Char → List Char → Bool) (cs : List Char) :
    (pieces (spread ends cs)).filter (fun w => !w.isEmpty) = cut ends cs := by
  have blank : ∀ ds, pieces (' ' :: ds) = [] :: pieces ds := fun ds => pieces_of_not_word rfl
  induction cs with
  | nil => rfl
  | cons a cs ih =>
    cases ha : isWordChar a with
    | false =>
      rw [cut_of_not_word ha, ← ih, spread]
      split_ifs
      · rw [pieces_of_not_word ha, blank]
        rfl
      · rw [pieces_of_not_word ha]
        rfl
    | true =>
      cases hends : ends a cs with
      | true =>
        rw [spread_of_ends hends, pieces_of_word ha, blank, cut_of_ends ha (by simp [hends]), ← ih]
        rfl
      | false =>
        rw [spread_of_not_ends hends, pieces_of_word ha]
        cases cs with
        | nil =>
          rw [cut_of_ends ha rfl]
          rfl
        | cons b cs =>
          obtain ⟨tail, htail⟩ : ∃ tail, spread ends (b :: cs) = b :: tail :=
            List.head?_eq_some_iff.1 (head?_spread ends (b :: cs))
          rw [htail] at ih ⊢
          cases hb : isWordChar b with
          | true =>
            rw [cut_of_not_ends ha hb hends, ← ih, pieces_of_word hb]
            obtain ⟨w, ws, hword⟩ := exists_prepend b (pieces tail)
            rw [hword]
            rfl
          | false =>
            rw [cut_of_ends ha (by simp [hb]), ← ih, pieces_of_not_word hb]
            rfl

theorem flatten_prepend (c : Char) (ws : List (List Char)) :
    (prepend c ws).flatten = c :: ws.flatten := by
  cases ws <;> rfl

theorem flatten_cut (ends : Char → List Char → Bool) (cs : List Char) :
    (cut ends cs).flatten = cs.filter isWordChar := by
  induction cs with
  | nil => rfl
  | cons a cs ih =>
    unfold cut
    split_ifs with h
    · rw [flatten_prepend, List.filter_cons_of_pos h, ih]
    · rw [List.filter_cons_of_pos h, ← ih]
      rfl
    · rw [List.filter_cons_of_neg h, ih]

end Cut

/-- The words of a text are what is left of it between the characters that end words. -/
theorem wordsOf_eq_cut (cs : List Char) : wordsOf cs = cut endsWord cs := by
  unfold wordsOf
  rw [finds_acronymEnds.spaced_eq, finds_rises.spaced_eq, spread_rises_acronymEnds,
    filter_pieces_spread]

/-- The words of a name together are its letters and digits. -/
theorem flatten_wordsOf (cs : List Char) : (wordsOf cs).flatten = cs.filter isWordChar := by
  rw [wordsOf_eq_cut, flatten_cut]

/-- The first letter or digit starts the first word. -/
theorem exists_wordsOf (h : isWordChar c = true) : ∃ w ws, wordsOf (c :: cs) = (c :: w) :: ws := by
  rw [wordsOf_eq_cut]
  exact exists_cut h

theorem ne_nil_of_mem_wordsOf {w : List Char} (h : w ∈ wordsOf cs) : w ≠ [] := by
  have kept := (List.mem_filter.1 h).2
  rintro rfl
  cases kept

theorem isWordChar_of_mem_wordsOf {w : List Char} (h : w ∈ wordsOf cs) (hc : c ∈ w) :
    isWordChar c = true := by
  have kept : c ∈ cs.filter isWordChar := by
    rw [← flatten_wordsOf]
    exact List.mem_flatten.2 ⟨w, h, hc⟩
  exact (List.mem_filter.1 kept).2

/-! ## The word of a character -/

/-- The number of the word that holds character `k` of the words written without a mark. -/
def wordIndex : List String → Nat → Nat
  | [], _ => 0
  | w :: ws, k => if k < w.length then 0 else wordIndex ws (k - w.length) + 1

/-- The place among all letters and digits of a text of the one that follows a part of it. -/
def place (before : List Char) : Nat := (before.filter isWordChar).length

/-- The number of the word that holds letter or digit `k` of a text. -/
def cutIndex (cs : List Char) (k : Nat) : Nat := wordIndex ((cut endsWord cs).map String.ofList) k

theorem wordIndex_singleton (c : Char) (ws : List (List Char)) (k : Nat) :
    wordIndex (([c] :: ws).map String.ofList) (k + 1) = wordIndex (ws.map String.ofList) k + 1 := by
  rw [List.map_cons, wordIndex, String.length_ofList]
  rfl

theorem wordIndex_prepend {ws : List (List Char)} (h : ws ≠ []) (c : Char) (k : Nat) :
    wordIndex ((prepend c ws).map String.ofList) (k + 1) = wordIndex (ws.map String.ofList) k := by
  cases ws with
  | nil => exact absurd rfl h
  | cons w ws =>
    simp only [prepend, List.map_cons, wordIndex, String.length_ofList, List.length_cons,
      Nat.add_lt_add_iff_right, Nat.add_sub_add_right]

/-- The first letter or digit is in the first word. -/
theorem cutIndex_zero (h : isWordChar c = true) (cs : List Char) : cutIndex (c :: cs) 0 = 0 := by
  obtain ⟨w, ws, hcut⟩ := @exists_cut c cs endsWord h
  rw [cutIndex, hcut, List.map_cons, wordIndex, String.length_ofList]
  rfl

/-- What stands in front moves the numbers of all words alike. -/
theorem exists_cutIndex_append (before : List Char) (c : Char) (cs : List Char) :
    ∃ n, ∀ k, cutIndex (before ++ c :: cs) (place before + k) = cutIndex (c :: cs) k + n := by
  induction before with
  | nil => exact ⟨0, fun k => by rw [place, List.filter_nil, List.length_nil, Nat.zero_add]; rfl⟩
  | cons a before ih =>
    obtain ⟨n, ih⟩ := ih
    cases ha : isWordChar a with
    | false =>
      refine ⟨n, fun k => ?_⟩
      rw [← ih k, place, place, List.filter_cons_of_neg (Bool.eq_false_iff.1 ha), List.cons_append,
        cutIndex, cut_of_not_word ha, cutIndex]
    | true =>
      have moved : ∀ k, place (a :: before) + k = place before + k + 1 := by
        intro k
        rw [place, place, List.filter_cons_of_pos ha, List.length_cons, Nat.succ_add_eq_add_succ,
          Nat.add_assoc]
      obtain ⟨d, ds, hds⟩ : ∃ d ds, before ++ c :: cs = d :: ds :=
        List.exists_cons_of_ne_nil (by simp)
      cases hends : (isWordChar d && !endsWord a (d :: ds)) with
      | true =>
        obtain ⟨hd, hends⟩ := Bool.and_eq_true_iff.1 hends
        obtain ⟨w, ws, hcut⟩ := @exists_cut d ds endsWord hd
        refine ⟨n, fun k => ?_⟩
        rw [← ih k, moved, List.cons_append, hds, cutIndex,
          cut_of_not_ends ha hd (by simpa using hends),
          wordIndex_prepend (by rw [hcut]; exact List.cons_ne_nil _ _), cutIndex]
      | false =>
        refine ⟨n + 1, fun k => ?_⟩
        rw [moved, List.cons_append, cutIndex, hds, cut_of_ends ha (by simpa using hends),
          wordIndex_singleton, ← Nat.add_assoc, ← ih k, hds, cutIndex]

/-- Adjacent letters and digits fall into different words exactly if the first ends a word. -/
theorem cutIndex_adjacent (before : List Char) (ha : isWordChar a = true) (hb : isWordChar b = true)
    (after : List Char) :
    cutIndex (before ++ a :: b :: after) (place before) ≠
        cutIndex (before ++ a :: b :: after) (place before + 1) ↔
      endsWord a (b :: after) = true := by
  obtain ⟨n, hindex⟩ := exists_cutIndex_append before a (b :: after)
  have first := hindex 0
  rw [Nat.add_zero, cutIndex_zero ha] at first
  rw [first, hindex 1]
  cases hends : endsWord a (b :: after) with
  | true =>
    rw [cutIndex, cut_of_ends ha (by simp [hends]), wordIndex_singleton]
    exact iff_of_true (by omega) rfl
  | false =>
    obtain ⟨w, ws, hcut⟩ := @exists_cut b after endsWord hb
    have second : cutIndex (a :: b :: after) 1 = cutIndex (b :: after) 0 := by
      rw [cutIndex, cut_of_not_ends ha hb hends,
        wordIndex_prepend (by rw [hcut]; exact List.cons_ne_nil _ _), cutIndex]
    rw [second, cutIndex_zero hb]
    exact iff_of_false (fun h => h rfl) nofun

/-- Letters and digits with something else between them fall into different words. -/
theorem cutIndex_apart (before : List Char) (ha : isWordChar a = true) (hb : isWordChar b = false)
    (after : List Char) :
    cutIndex (before ++ a :: b :: after) (place before) ≠
      cutIndex (before ++ a :: b :: after) (place before + 1) := by
  obtain ⟨n, hindex⟩ := exists_cutIndex_append before a (b :: after)
  have first := hindex 0
  rw [Nat.add_zero, cutIndex_zero ha] at first
  rw [first, hindex 1, cutIndex, cut_of_ends ha (by simp [hb]), wordIndex_singleton]
  omega

end TableGraph.Text
