import Mathlib
import TableGraph.Proofs.Words

/-!
# Words and casings

Words hold the letters and digits of a name and nothing else, and two neighbours among these fall
into different words exactly if something else stands between them or the case changes there.  No
other list of words is like that.  The casings change nothing but the case of the letters, and small
letters with underscores are read as the words that they were made of.

Main statement: `words_iff_and_casings`.
-/

namespace TableGraph.Text

variable {name : String} {c : Char} {cs w : List Char}

/-! ## Letters and digits -/

theorem isWordChar_of_isAlpha (h : c.isAlpha = true) : isWordChar c = true :=
  Bool.or_eq_true_iff.2 (.inl h)

theorem isWordChar_toUpper (h : isWordChar c = true) : isWordChar c.toUpper = true := by
  by_cases small : c.isLower
  · refine isWordChar_of_isAlpha ?_
    rw [Char.isAlpha_toUpper_eq_isAlpha]
    exact Bool.or_eq_true_iff.2 (.inr small)
  · rwa [Char.toUpper_eq_of_not_isLower small]

theorem isWordChar_toLower (h : isWordChar c = true) : isWordChar c.toLower = true := by
  by_cases capital : c.isUpper
  · refine isWordChar_of_isAlpha ?_
    rw [Char.isAlpha_toLower_eq_isAlpha]
    exact Bool.or_eq_true_iff.2 (.inl capital)
  · rwa [Char.toLower_eq_of_not_isUpper capital]

theorem mem_capitalize (h : c ∈ capitalize w) : ∃ d ∈ w, c = d.toUpper ∨ c = d.toLower := by
  cases w with
  | nil => cases h
  | cons d w =>
    rcases List.mem_cons.1 h with rfl | h
    · exact ⟨d, List.mem_cons_self, .inl rfl⟩
    · obtain ⟨e, he, rfl⟩ := List.mem_map.1 h
      exact ⟨e, List.mem_cons_of_mem d he, .inr rfl⟩

theorem toList_pascalCase : (pascalCase name).toList = (wordsOf name.toList).flatMap capitalize :=
  String.toList_ofList

theorem toList_upperCamel : (upperCamel name).toList = (pascalCase name).toList.map Char.toUpper :=
  String.toList_map

/-- Casing gives letters and digits. -/
theorem isWordChar_pascalCase (h : c ∈ (pascalCase name).toList) : isWordChar c = true := by
  rw [toList_pascalCase] at h
  obtain ⟨w, hw, hc⟩ := List.mem_flatMap.1 h
  obtain ⟨d, hd, hcase⟩ := mem_capitalize hc
  have word := isWordChar_of_mem_wordsOf hw hd
  rcases hcase with rfl | rfl
  · exact isWordChar_toUpper word
  · exact isWordChar_toLower word

theorem isWordChar_camelCase (h : c ∈ (camelCase name).toList) : isWordChar c = true := by
  unfold camelCase at h
  split at h
  · cases h
  · rename_i d ds hchars
    have all : ∀ e ∈ d :: ds, isWordChar e = true := fun e he => isWordChar_pascalCase (hchars ▸ he)
    rw [String.toList_ofList] at h
    rcases List.mem_cons.1 h with rfl | h
    · exact isWordChar_toLower (all d List.mem_cons_self)
    · exact all c (List.mem_cons_of_mem d h)

theorem isWordChar_upperCamel (h : c ∈ (upperCamel name).toList) : isWordChar c = true := by
  rw [toList_upperCamel] at h
  obtain ⟨d, hd, rfl⟩ := List.mem_map.1 h
  exact isWordChar_toUpper (isWordChar_pascalCase hd)

/-! ## The same letters in every casing -/

/-- The letters and digits of a name, with small letters only. -/
def letters (name : String) : List Char := (name.toList.filter isWordChar).map Char.toLower

theorem map_toLower_capitalize (w : List Char) :
    (capitalize w).map Char.toLower = w.map Char.toLower := by
  cases w with
  | nil => rfl
  | cons c w => simp [capitalize]

theorem map_toLower_pascalCase (name : String) :
    (pascalCase name).toList.map Char.toLower = letters name := by
  rw [toList_pascalCase, List.map_flatMap, letters, ← flatten_wordsOf, List.map_flatten,
    List.flatMap_def]
  exact congrArg List.flatten (List.map_congr_left fun w _ => map_toLower_capitalize w)

theorem map_toLower_camelCase (name : String) :
    (camelCase name).toList.map Char.toLower = letters name := by
  rw [← map_toLower_pascalCase]
  unfold camelCase
  split
  · rename_i hnil
    rw [hnil]
    rfl
  · rename_i c cs hchars
    rw [String.toList_ofList, hchars, List.map_cons, List.map_cons, Char.toLower_toLower_eq_toLower]

theorem map_toLower_upperCamel (name : String) :
    (upperCamel name).toList.map Char.toLower = letters name := by
  rw [toList_upperCamel, List.map_map, ← map_toLower_pascalCase]
  exact List.map_congr_left fun c _ => Char.toLower_toUpper_eq_toLower c

/-! ## Small letters with underscores -/

/-- A word of small letters and digits. -/
structure IsSmall (w : List Char) : Prop where
  ne_nil : w ≠ []
  word : ∀ c ∈ w, isWordChar c = true
  small : ∀ c ∈ w, c.isUpper = false

/-- The words of a name in small letters. -/
def smallWords (name : String) : List (List Char) := (wordsOf name.toList).map (·.map Char.toLower)

theorem isSmall_of_mem_smallWords (h : w ∈ smallWords name) : IsSmall w := by
  obtain ⟨v, hv, rfl⟩ := List.mem_map.1 h
  refine ⟨fun hnil => ne_nil_of_mem_wordsOf hv (List.map_eq_nil_iff.1 hnil), ?_, ?_⟩
  · exact List.forall_mem_map.2 fun c hc => isWordChar_toLower (isWordChar_of_mem_wordsOf hv hc)
  · exact List.forall_mem_map.2 fun c _ => Char.isUpper_toLower_eq_false c

theorem toList_snakeCase (name : String) :
    (snakeCase name).toList = ['_'].intercalate (smallWords name) := by
  unfold snakeCase words smallWords
  rw [String.toList_intercalate, List.map_map, List.map_map]
  refine congrArg _ (List.map_congr_left fun w _ => ?_)
  show (String.map Char.toLower (String.ofList w)).toList = _
  rw [String.toList_map, String.toList_ofList]

theorem endsWord_of_head (h : cs.head?.any Char.isUpper = false) (c : Char) :
    endsWord c cs = false := by
  unfold endsWord rises acronymEnds
  rw [h, Bool.and_false, Bool.and_false]
  rfl

/-- A small word that nothing continues is one word. -/
theorem IsSmall.cut_append (h : IsSmall w) (hcs : cs.head?.any isWordChar = false) :
    cut endsWord (w ++ cs) = w :: cut endsWord cs := by
  obtain ⟨hne, hword, hsmall⟩ := h
  induction w with
  | nil => exact absurd rfl hne
  | cons c w ih =>
    rw [List.forall_mem_cons] at hword hsmall
    cases w with
    | nil =>
      show cut endsWord (c :: cs) = _
      exact cut_of_ends hword.1 (by rw [hcs, Bool.false_and])
    | cons d w =>
      have small : (d :: (w ++ cs)).head?.any Char.isUpper = false :=
        hsmall.2 d List.mem_cons_self
      have within := endsWord_of_head small c
      have hd := hword.2 d List.mem_cons_self
      rw [List.cons_append, List.cons_append, cut_of_not_ends hword.1 hd within, ← List.cons_append,
        ih (List.cons_ne_nil _ _) hword.2 hsmall.2]
      rfl

/-- Small words with underscores between them are read as these words. -/
theorem wordsOf_intercalate {ws : List (List Char)} (h : ∀ w ∈ ws, IsSmall w) :
    wordsOf (['_'].intercalate ws) = ws := by
  rw [wordsOf_eq_cut]
  induction ws with
  | nil => rfl
  | cons w ws ih =>
    rw [List.forall_mem_cons] at h
    cases ws with
    | nil =>
      have whole : cut endsWord (w ++ []) = [w] := h.1.cut_append rfl
      rw [List.append_nil] at whole
      rw [List.intercalate_singleton, whole]
    | cons v ws =>
      rw [List.intercalate_cons_cons, List.append_assoc, h.1.cut_append rfl,
        List.singleton_append, cut_of_not_word rfl, ih h.2]

theorem smallWords_snakeCase (name : String) : smallWords (snakeCase name) = smallWords name := by
  rw [smallWords, toList_snakeCase,
    wordsOf_intercalate fun w hw => isSmall_of_mem_smallWords hw, smallWords, List.map_map]
  refine List.map_congr_left fun w _ => ?_
  rw [Function.comp_apply, List.map_map]
  exact List.map_congr_left fun c _ => Char.toLower_toLower_eq_toLower c

theorem snakeCase_snakeCase (name : String) : snakeCase (snakeCase name) = snakeCase name := by
  rw [← String.toList_inj, toList_snakeCase, toList_snakeCase, smallWords_snakeCase]

theorem filter_intercalate {ws : List (List Char)} (h : ∀ w ∈ ws, IsSmall w) :
    (['_'].intercalate ws).filter (· ≠ '_') = ws.flatten := by
  have kept : ∀ {w}, IsSmall w → w.filter (· ≠ '_') = w := fun small =>
    List.filter_eq_self.2 fun c hc => decide_eq_true fun mark => by
      cases mark ▸ small.word c hc
  have mark : ['_'].filter (· ≠ '_') = [] := rfl
  induction ws with
  | nil => rfl
  | cons w ws ih =>
    rw [List.forall_mem_cons] at h
    cases ws with
    | nil => rw [List.intercalate_singleton, kept h.1, List.flatten_singleton]
    | cons v ws =>
      rw [List.intercalate_cons_cons, List.filter_append, List.filter_append, kept h.1, ih h.2,
        mark, List.append_nil, ← List.flatten_cons]

/-- Without the underscores, the letters and digits of the name are left. -/
theorem filter_snakeCase (name : String) :
    (snakeCase name).toList.filter (· ≠ '_') = letters name := by
  rw [toList_snakeCase, filter_intercalate fun w hw => isSmall_of_mem_smallWords hw, smallWords,
    ← List.map_flatten, flatten_wordsOf, letters]

/-! ## Words told by where they end -/

/-- The words of both lists end at the same characters. -/
def SameEnds (vs ws : List String) : Prop :=
  ∀ k, k + 1 < (vs.flatMap String.toList).length →
    (wordIndex vs k ≠ wordIndex vs (k + 1) ↔ wordIndex ws k ≠ wordIndex ws (k + 1))

section Ends

variable {v w : String} {vs ws : List String}

theorem wordIndex_of_lt (h : k < w.length) : wordIndex (w :: ws) k = 0 := if_pos h

theorem wordIndex_add (w : String) (ws : List String) (k : Nat) :
    wordIndex (w :: ws) (w.length + k) = wordIndex ws k + 1 := by
  rw [wordIndex, if_neg (by omega), Nat.add_sub_cancel_left]

/-- The first word of one list goes on to where the first word of the other ends. -/
theorem SameEnds.length_le (ends : SameEnds (v :: vs) (w :: ws)) (hv : v ≠ "")
    (same : (v :: vs).flatMap String.toList = (w :: ws).flatMap String.toList) :
    w.length ≤ v.length := by
  by_contra longer
  have start : 0 < v.length := Nat.pos_of_ne_zero fun h => hv (String.length_eq_zero_iff.1 h)
  have inside : v.length - 1 + 1 < ((v :: vs).flatMap String.toList).length := by
    rw [same, List.flatMap_cons, List.length_append, String.length_toList]
    omega
  have told := (ends (v.length - 1) inside).1 ?_
  · rw [wordIndex_of_lt (by omega), wordIndex_of_lt (by omega)] at told
    exact told rfl
  · rw [wordIndex_of_lt (by omega), Nat.sub_add_cancel start, ← Nat.add_zero v.length,
      wordIndex_add]
    omega

theorem SameEnds.symm (ends : SameEnds vs ws)
    (same : vs.flatMap String.toList = ws.flatMap String.toList) : SameEnds ws vs :=
  fun k hk => (ends k (same ▸ hk)).symm

theorem eq_nil_of_flatMap (h : ∀ w ∈ ws, w ≠ "") (hnil : ws.flatMap String.toList = []) :
    ws = [] := by
  cases ws with
  | nil => rfl
  | cons w ws =>
    have := List.flatMap_eq_nil_iff.1 hnil w List.mem_cons_self
    exact absurd (String.toList_eq_nil_iff.1 this) (h w List.mem_cons_self)

/-- Words that hold the same characters and end at the same ones are the same words. -/
theorem SameEnds.eq (ends : SameEnds vs ws) (hvs : ∀ v ∈ vs, v ≠ "") (hws : ∀ w ∈ ws, w ≠ "")
    (same : vs.flatMap String.toList = ws.flatMap String.toList) : vs = ws := by
  induction vs generalizing ws with
  | nil => exact (eq_nil_of_flatMap hws same.symm).symm
  | cons v vs ih =>
    cases ws with
    | nil => exact eq_nil_of_flatMap hvs same
    | cons w ws =>
      have length : v.length = w.length :=
        Nat.le_antisymm ((ends.symm same).length_le (hws w List.mem_cons_self) same.symm)
          (ends.length_le (hvs v List.mem_cons_self) same)
      have parts := List.append_inj same (by rwa [String.length_toList, String.length_toList])
      obtain rfl := String.toList_inj.1 parts.1
      refine congrArg _ (ih (fun k hk => ?_) (List.forall_mem_cons.1 hvs).2
        (List.forall_mem_cons.1 hws).2 parts.2)
      have moved := ends (v.length + k) (by
        rw [List.flatMap_cons, List.length_append, String.length_toList]
        omega)
      rw [Nat.add_assoc, wordIndex_add, wordIndex_add, wordIndex_add, wordIndex_add] at moved
      simpa using moved

end Ends

/-- Neighbours among the letters and digits of a text have no other one between them. -/
theorem exists_neighbours {k : Nat} (h : k + 1 < (cs.filter isWordChar).length) :
    ∃ before a gap b after, cs = before ++ a :: (gap ++ b :: after) ∧ isWordChar a = true ∧
      isWordChar b = true ∧ (∀ c ∈ gap, isWordChar c = false) ∧ place before = k := by
  induction cs generalizing k with
  | nil => cases h
  | cons c cs ih =>
    cases hc : isWordChar c with
    | false =>
      rw [List.filter_cons_of_neg (Bool.eq_false_iff.1 hc)] at h
      obtain ⟨before, a, gap, b, after, rfl, ha, hb, hgap, rfl⟩ := ih h
      refine ⟨c :: before, a, gap, b, after, rfl, ha, hb, hgap, ?_⟩
      rw [place, List.filter_cons_of_neg (Bool.eq_false_iff.1 hc), place]
    | true =>
      rw [List.filter_cons_of_pos hc, List.length_cons, Nat.add_lt_add_iff_right] at h
      cases k with
      | zero =>
        obtain ⟨b, bs, hcs⟩ := List.exists_cons_of_length_pos h
        obtain ⟨gap, after, rfl, hgap, hb, -⟩ := List.filter_eq_cons_iff.1 hcs
        exact ⟨[], c, gap, b, after, rfl, hc, hb, fun d hd => Bool.eq_false_iff.2 (hgap d hd), rfl⟩
      | succ k =>
        obtain ⟨before, a, gap, b, after, rfl, ha, hb, hgap, rfl⟩ := ih h
        refine ⟨c :: before, a, gap, b, after, rfl, ha, hb, hgap, ?_⟩
        rw [place, List.filter_cons_of_pos hc, List.length_cons, place]

/-! ## The words of a name -/

/-- The words hold the letters and digits of the name, and end where the case changes or something
else stands. -/
structure Splits (name : String) (ws : List String) : Prop where
  /-- Words are made of letters and digits. -/
  words : ∀ w ∈ ws, w ≠ "" ∧ ∀ c ∈ w.toList, c.isAlphanum = true
  /-- All letters and digits of the name are kept, and nothing else is. -/
  lossless : ws.flatMap String.toList = name.toList.filter Char.isAlphanum
  /-- Adjacent ones are divided in front of a capital: behind a small letter or a digit, and behind
  a capital if a small letter follows. -/
  adjacent {before after : List Char} {a b : Char} (hname : name.toList = before ++ a :: b :: after)
    (ha : a.isAlphanum = true) (hb : b.isAlphanum = true) :
    wordIndex ws (place before) ≠ wordIndex ws (place before + 1) ↔
      (a.isLower ∨ a.isDigit) ∧ b.isUpper ∨
        a.isUpper ∧ b.isUpper ∧ ∃ c ∈ after.head?, c.isLower
  /-- Others are divided by what stands between them. -/
  apart {before gap after : List Char} {a b : Char}
    (hname : name.toList = before ++ a :: (gap ++ b :: after)) (ha : a.isAlphanum = true)
    (hb : b.isAlphanum = true) (hne : gap ≠ []) (hgap : ∀ c ∈ gap, c.isAlphanum = false) :
    wordIndex ws (place before) ≠ wordIndex ws (place before + 1)

/-- Words that a name is split into are told by the name. -/
theorem Splits.unique {vs ws : List String} (hvs : Splits name vs) (hws : Splits name ws) :
    vs = ws := by
  have ends : SameEnds vs ws := by
    intro k hk
    rw [hvs.lossless] at hk
    obtain ⟨before, a, gap, b, after, hname, ha, hb, hgap, rfl⟩ := exists_neighbours hk
    cases gap with
    | nil => rw [hvs.adjacent hname ha hb, hws.adjacent hname ha hb]
    | cons c gap =>
      have hne := List.cons_ne_nil c gap
      exact iff_of_true (hvs.apart hname ha hb hne hgap) (hws.apart hname ha hb hne hgap)
  exact ends.eq (fun v hv => (hvs.words v hv).1) (fun w hw => (hws.words w hw).1)
    (hvs.lossless.trans hws.lossless.symm)

theorem endsWord_iff {a b : Char} {after : List Char} : endsWord a (b :: after) = true ↔
    (a.isLower ∨ a.isDigit) ∧ b.isUpper ∨ a.isUpper ∧ b.isUpper ∧ ∃ c ∈ after.head?, c.isLower := by
  unfold endsWord rises acronymEnds
  cases after <;> simp [and_assoc]

theorem wordIndex_words (name : String) (k : Nat) :
    wordIndex (words name) k = cutIndex name.toList k := by
  rw [words, wordsOf_eq_cut, cutIndex]

theorem splits_words (name : String) : Splits name (words name) where
  words w hw := by
    obtain ⟨v, hv, rfl⟩ := List.mem_map.1 hw
    refine ⟨fun hnil => ne_nil_of_mem_wordsOf hv ?_, fun c hc => ?_⟩
    · rw [← String.toList_ofList (l := v), hnil]
      rfl
    · rw [String.toList_ofList] at hc
      exact isWordChar_of_mem_wordsOf hv hc
  lossless := by
    show _ = name.toList.filter isWordChar
    rw [words, List.flatMap_map, ← flatten_wordsOf]
    simp [List.flatMap_def]
  adjacent hname ha hb := by
    rw [wordIndex_words, wordIndex_words, hname, cutIndex_adjacent _ ha hb, endsWord_iff]
  apart hname ha hb hne hgap := by
    obtain ⟨c, gap, rfl⟩ := List.exists_cons_of_ne_nil hne
    rw [wordIndex_words, wordIndex_words, hname]
    exact cutIndex_apart _ ha (hgap c List.mem_cons_self) _

/--
A name is split into exactly its words, whatever characters it has.  All casings write the same
letters and digits, up to the case of letters and the underscores of names in small letters; and
names in small letters are kept by their casing.
-/
theorem words_iff_and_casings (name : String) :
    (∀ ws, Splits name ws ↔ ws = words name) ∧
      (((snakeCase name).toList.filter (· ≠ '_')).map Char.toLower = letters name ∧
        (camelCase name).toList.map Char.toLower = letters name ∧
        (pascalCase name).toList.map Char.toLower = letters name ∧
        (upperCamel name).toList.map Char.toLower = letters name) ∧
      snakeCase (snakeCase name) = snakeCase name := by
  refine ⟨fun ws => ⟨fun h => h.unique (splits_words name), fun h => h ▸ splits_words name⟩,
    ⟨?_, map_toLower_camelCase name, map_toLower_pascalCase name, map_toLower_upperCamel name⟩,
    snakeCase_snakeCase name⟩
  rw [filter_snakeCase, letters, List.map_map]
  exact List.map_congr_left fun c _ => Char.toLower_toLower_eq_toLower c

example : words "HTTPResponse-xML2Go_ABc" = ["HTTP", "Response", "x", "ML2", "Go", "A", "Bc"] := by
  decide

end TableGraph.Text
