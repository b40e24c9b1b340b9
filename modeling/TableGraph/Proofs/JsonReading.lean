import Mathlib.Tactic.SplitIfs
import TableGraph.Cursor.Basic
import TableGraph.Value.Json

/-!
# Reading JSON

Main statement: `Value.ofJson_cases`.  A value that is read from JSON has a JSON text of its own,
and only a long text has a number with more digits than are read.
-/

namespace TableGraph

/-- The value is made of what JSON has. -/
def Value.HasText (v : Value) : Prop := v.toJson?.isSome

namespace Json

/-- What reading a text of some length comes to: something good and a rest that is no longer, a
text that is no JSON, or a number that only fits in a long text. -/
inductive Reading {α : Type} (good : α → Prop) (size : Nat) :
    Except JsonDefect (α × List Char) → Prop
  | read {a : α} {rest : List Char} (h : good a) (behind : rest.length ≤ size) :
    Reading good size (.ok (a, rest))
  | malformed : Reading good size (.error .malformed)
  | tooLong (digits : Nat) (h : Numeral.digitLimit < size) :
    Reading good size (.error (.tooManyDigits digits))

namespace Reading

variable {α β : Type} {good : α → Prop} {good' : β → Prop} {size size' : Nat}
  {x : Except JsonDefect (α × List Char)}

theorem mono (h : Reading good size x) (le : size ≤ size') : Reading good size' x := by
  cases h with
  | read h behind => exact .read h (Nat.le_trans behind le)
  | malformed => exact .malformed
  | tooLong digits h => exact .tooLong digits (Nat.lt_of_lt_of_le h le)

theorem bind {f : α × List Char → Except JsonDefect (β × List Char)} (h : Reading good size x)
    (hf : ∀ a rest, good a → rest.length ≤ size → Reading good' size (f (a, rest))) :
    Reading good' size (x >>= f) := by
  cases h with
  | read h behind => exact hf _ _ h behind
  | malformed => exact .malformed
  | tooLong digits h => exact .tooLong digits h

end Reading

/-! ## Texts of values -/

theorem hasText_iff {v : Value} : v.HasText ↔ (chars? v).isSome = true := by
  unfold Value.HasText Value.toJson?
  rw [Option.isSome_map]

theorem isSome_itemChars? (first : Bool) {items : List Value} (h : ∀ v ∈ items, v.HasText) :
    (itemChars? first items).isSome = true := by
  induction items generalizing first with
  | nil => rfl
  | cons item items ih =>
    rw [List.forall_mem_cons, hasText_iff] at h
    obtain ⟨cs, hcs⟩ := Option.isSome_iff_exists.1 h.1
    obtain ⟨rest, hrest⟩ := Option.isSome_iff_exists.1 (ih false h.2)
    unfold itemChars?
    rw [hcs, hrest]
    rfl

theorem isSome_fieldChars? (first : Bool) {fields : List (String × Value)}
    (h : ∀ f ∈ fields, f.2.HasText) : (fieldChars? first fields).isSome = true := by
  induction fields generalizing first with
  | nil => rfl
  | cons field fields ih =>
    rw [List.forall_mem_cons, hasText_iff] at h
    obtain ⟨cs, hcs⟩ := Option.isSome_iff_exists.1 h.1
    obtain ⟨rest, hrest⟩ := Option.isSome_iff_exists.1 (ih false h.2)
    unfold fieldChars?
    rw [hcs, hrest]
    rfl

theorem hasText_list {items : List Value} (h : ∀ v ∈ items, v.HasText) :
    (Value.list items).HasText := by
  rw [hasText_iff]
  unfold chars?
  rw [Option.isSome_map]
  exact isSome_itemChars? _ h

theorem hasText_object {fields : List (String × Value)} (h : ∀ f ∈ fields, f.2.HasText) :
    (Value.object fields).HasText := by
  rw [hasText_iff]
  unfold chars?
  rw [Option.isSome_map]
  exact isSome_fieldChars? _ h

theorem hasText_setField (name : String) {v : Value} {fields : List (String × Value)}
    (hv : v.HasText) (h : ∀ f ∈ fields, f.2.HasText) :
    ∀ f ∈ setField name v fields, f.2.HasText := by
  induction fields with
  | nil => exact List.forall_mem_singleton.2 hv
  | cons field fields ih =>
    rw [List.forall_mem_cons] at h
    unfold setField
    split_ifs
    · exact List.forall_mem_cons.2 ⟨hv, h.2⟩
    · exact List.forall_mem_cons.2 ⟨h.1, ih h.2⟩

/-! ## What is left behind tokens -/

theorem length_skipGap_le (cs : List Char) : (skipGap cs).length ≤ cs.length :=
  (List.dropWhile_sublist _).length_le

theorem length_of_skipGap {c : Char} {cs rest : List Char} (h : skipGap cs = c :: rest) :
    rest.length < cs.length := by
  have le := length_skipGap_le cs
  rw [h, List.length_cons] at le
  exact le

theorem length_of_unit? {n : Nat} {cs rest : List Char} (h : unit? cs = some (n, rest)) :
    rest.length ≤ cs.length := by
  unfold unit? at h
  split at h
  next a b c d more =>
    simp only [Option.bind_eq_bind, Option.bind_eq_some_iff, Option.some.injEq, Prod.mk.injEq] at h
    obtain ⟨_, -, _, -, _, -, _, -, -, rfl⟩ := h
    simp only [List.length_cons]
    omega
  next => cases h

theorem length_of_escapedUnit? {n : Nat} {c : Char} {cs rest : List Char}
    (h : escapedUnit? n cs = some (c, rest)) : rest.length ≤ cs.length := by
  have whole : ∀ {d : Char}, some (d, cs) = some (c, rest) → rest.length ≤ cs.length := by
    intro d hsome
    obtain ⟨-, rfl⟩ := Prod.mk.inj (Option.some.inj hsome)
    exact Nat.le_refl _
  unfold escapedUnit? at h
  split_ifs at h
  · split at h
    next more =>
      cases hunit : unit? more with
      | none =>
        rw [hunit] at h
        cases h
      | some found =>
        obtain ⟨m, after⟩ := found
        rw [hunit] at h
        dsimp only at h
        split_ifs at h
        · obtain ⟨-, rfl⟩ := Prod.mk.inj (Option.some.inj h)
          have le := length_of_unit? hunit
          simp only [List.length_cons]
          omega
        · exact whole h
    next => exact whole h
  · exact whole h
  · exact whole h

/-- Every character that is read takes one at least, and so does the closing quote. -/
theorem length_of_text? {fuel : Nat} {cs ds rest : List Char}
    (h : text? fuel cs = some (ds, rest)) : ds.length + rest.length < cs.length := by
  induction fuel generalizing cs ds with
  | zero => cases h
  | succ fuel ih =>
    cases cs with
    | nil => cases h
    | cons c cs =>
      rw [text?] at h
      simp only [Option.bind_eq_bind] at h
      rw [List.length_cons]
      split_ifs at h
      · cases h
        rw [List.length_nil]
        omega
      · split at h
        next more =>
          simp only [Option.bind_eq_some_iff, Option.some.injEq, Prod.mk.injEq] at h
          obtain ⟨⟨n, after⟩, hunit, ⟨d, behind⟩, hescaped, ⟨ds, rest⟩, htext, rfl, rfl⟩ := h
          have first := length_of_unit? hunit
          have second := length_of_escapedUnit? hescaped
          have third := ih htext
          dsimp only at second third
          simp only [List.length_cons]
          omega
        next e more _ =>
          simp only [Option.bind_eq_some_iff, Option.map_eq_some_iff, Option.some.injEq,
            Prod.mk.injEq] at h
          obtain ⟨_, ⟨d, -, rfl⟩, ⟨ds, rest⟩, htext, rfl, rfl⟩ := h
          have tail := ih htext
          dsimp only at tail
          simp only [List.length_cons]
          omega
        next => cases h
      · simp only [Option.bind_eq_some_iff, Option.some.injEq, Prod.mk.injEq] at h
        obtain ⟨_, rfl, ⟨ds, rest⟩, htext, rfl, rfl⟩ := h
        have tail := ih htext
        dsimp only at tail
        simp only [List.length_cons]
        omega

theorem length_rest_of_text? {fuel : Nat} {cs ds rest : List Char}
    (h : text? fuel cs = some (ds, rest)) : rest.length ≤ cs.length :=
  Nat.le_of_lt (Nat.lt_of_le_of_lt (Nat.le_add_left _ _) (length_of_text? h))

/-! ## Numbers and words -/

theorem length_fractionChars_le (cs : List Char) : (fractionChars cs).2.length ≤ cs.length := by
  unfold fractionChars
  split
  next rest =>
    have tail := (List.dropWhile_sublist Char.isDigit (l := rest)).length_le
    dsimp only
    split_ifs
    · exact Nat.le_refl _
    · exact Nat.le_succ_of_le tail
  next => exact Nat.le_refl _

theorem length_exponentChars_le (cs : List Char) : (exponentChars cs).2.length ≤ cs.length := by
  unfold exponentChars
  split
  next c rest =>
    split_ifs
    · have tail (more : List Char) : (more.dropWhile Char.isDigit).length ≤ more.length :=
        (List.dropWhile_sublist _).length_le
      dsimp only
      split
      all_goals
        dsimp only
        split_ifs
        · exact Nat.le_refl _
        · refine Nat.le_trans (tail _) ?_
          simp only [List.length_cons]
          omega
    · exact Nat.le_refl _
  next => exact Nat.le_refl _

/-- The digits in front of a fraction, a zero alone or all there are, and what is behind them. -/
def wholeDigits : List Char → List Char × List Char
  | '0' :: rest => (['0'], rest)
  | rest => (rest.takeWhile Char.isDigit, rest.dropWhile Char.isDigit)

theorem length_wholeDigits_le (cs : List Char) :
    (wholeDigits cs).1.length ≤ cs.length ∧ (wholeDigits cs).2.length ≤ cs.length := by
  unfold wholeDigits
  split
  · simp only [List.length_cons, List.length_nil]
    omega
  · exact ⟨(List.takeWhile_sublist _).length_le, (List.dropWhile_sublist _).length_le⟩

theorem length_splitMinus_le (cs : List Char) :
    (Cursor.splitMinus cs).2.length ≤ cs.length := by
  unfold Cursor.splitMinus
  split
  · exact Nat.le_succ _
  · exact Nat.le_refl _

theorem number_reading (cs : List Char) : Reading Value.HasText cs.length (number cs) := by
  have digits {negative : Bool} {body whole rest : List Char}
      (hsign : Cursor.splitMinus cs = (negative, body))
      (hparts : wholeDigits body = (whole, rest)) :
      whole.length ≤ cs.length ∧ rest.length ≤ cs.length := by
    have le := length_splitMinus_le cs
    have sizes := length_wholeDigits_le body
    rw [hsign] at le
    rw [hparts] at sizes
    exact ⟨Nat.le_trans sizes.1 le, Nat.le_trans sizes.2 le⟩
  have behind {rest fraction left exponent after : List Char}
      (hfraction : fractionChars rest = (fraction, left))
      (hexponent : exponentChars left = (exponent, after)) : after.length ≤ rest.length := by
    have first := length_fractionChars_le rest
    have second := length_exponentChars_le left
    rw [hfraction] at first
    rw [hexponent] at second
    exact Nat.le_trans second first
  fun_cases number cs with
  | case1 => exact .malformed
  | case2 negative body hsign whole rest hparts _ _ _ _ _ _ _ _ long =>
    exact .tooLong _ (Nat.lt_of_lt_of_le long (digits hsign hparts).1)
  | case3 negative body hsign whole rest hparts _ fraction left hfraction exponent after hexponent =>
    exact .read rfl (Nat.le_trans (behind hfraction hexponent) (digits hsign hparts).2)
  | case4 negative body hsign whole rest hparts _ fraction left hfraction exponent after hexponent =>
    exact .read rfl (Nat.le_trans (behind hfraction hexponent) (digits hsign hparts).2)
  | case5 => exact .malformed

theorem word_reading {cs rest : List Char} {v : Value}
    (h : (words.findSome? fun (w, v) => (after? w cs).map fun rest => (v, rest)) =
      some (v, rest)) : v.HasText ∧ rest.length ≤ cs.length := by
  obtain ⟨⟨w, v'⟩, hw, h⟩ := List.exists_of_findSome?_eq_some h
  obtain ⟨rest', hrest, hfound⟩ := Option.map_eq_some_iff.1 h
  obtain ⟨rfl, rfl⟩ := Prod.mk.inj hfound
  constructor
  · revert hw
    unfold words
    simp only [List.mem_cons, Prod.mk.injEq, List.not_mem_nil, or_false]
    rintro (⟨-, rfl⟩ | ⟨-, rfl⟩ | ⟨-, rfl⟩ | ⟨-, rfl⟩ | ⟨-, rfl⟩ | ⟨-, rfl⟩) <;> rfl
  · unfold after? at hrest
    split_ifs at hrest
    obtain rfl := Option.some.inj hrest
    exact (List.drop_sublist _ _).length_le

section Readers

variable {fuel : Nat}
  (hvalue : ∀ cs, Reading Value.HasText cs.length (value fuel cs))
  (hitems : ∀ cs, Reading (fun vs => ∀ v ∈ vs, v.HasText) cs.length (items fuel cs))
  (hfields : ∀ found cs, (∀ f ∈ found, f.2.HasText) →
    Reading (fun fs => ∀ f ∈ fs, f.2.HasText) cs.length (fields fuel found cs))

include hitems hfields in
theorem value_reading (cs : List Char) :
    Reading Value.HasText cs.length (value (fuel + 1) cs) := by
  generalize hn : fuel + 1 = n
  fun_cases value n cs with
  | case1 => exact .malformed
  | case2 _ _ found hfound =>
    obtain ⟨v, rest⟩ := found
    have word := word_reading hfound
    exact .read word.1 word.2
  | case3 _ _ ds rest htext =>
    exact .read rfl (Nat.le_succ_of_le (length_rest_of_text? htext))
  | case4 => exact .malformed
  | case5 _ _ after hclose =>
    exact .read rfl (Nat.le_succ_of_le (Nat.le_of_lt (length_of_skipGap hclose)))
  | case6 fuel' rest =>
    obtain rfl := Nat.succ.inj hn
    refine ((hitems _).mono (Nat.le_succ_of_le (length_skipGap_le rest))).bind ?_
    intro vs after hvs behind
    exact .read (hasText_list hvs) behind
  | case7 _ _ after hclose =>
    exact .read rfl (Nat.le_succ_of_le (Nat.le_of_lt (length_of_skipGap hclose)))
  | case8 fuel' rest =>
    obtain rfl := Nat.succ.inj hn
    refine ((hfields [] _ (List.forall_mem_nil _)).mono
      (Nat.le_succ_of_le (length_skipGap_le rest))).bind ?_
    intro fs after hfs behind
    exact .read (hasText_object hfs) behind
  | case9 => exact number_reading _

include hvalue hitems in
theorem items_reading (cs : List Char) :
    Reading (fun vs => ∀ v ∈ vs, v.HasText) cs.length (items (fuel + 1) cs) := by
  unfold items
  refine (hvalue cs).bind ?_
  intro v rest hv behind
  dsimp only
  split
  next after hclose =>
    exact .read (List.forall_mem_singleton.2 hv)
      (Nat.le_trans (Nat.le_of_lt (length_of_skipGap hclose)) behind)
  next more hcomma =>
    have le : (skipGap more).length ≤ cs.length :=
      Nat.le_trans (length_skipGap_le more)
        (Nat.le_trans (Nat.le_of_lt (length_of_skipGap hcomma)) behind)
    refine ((hitems _).mono le).bind ?_
    intro vs after hvs behind
    exact .read (List.forall_mem_cons.2 ⟨hv, hvs⟩) behind
  next => exact .malformed

include hvalue hfields in
theorem fields_reading (found : List (String × Value)) (cs : List Char)
    (hfound : ∀ f ∈ found, f.2.HasText) :
    Reading (fun fs => ∀ f ∈ fs, f.2.HasText) cs.length (fields (fuel + 1) found cs) := by
  generalize hn : fuel + 1 = n
  fun_cases fields n found cs with
  | case1 => exact .malformed
  | case2 => exact .malformed
  | case3 _ fuel' cs name rest htext more hcolon =>
    obtain rfl := Nat.succ.inj hn
    have le : (skipGap more).length ≤ ('"' :: cs).length :=
      Nat.le_trans (length_skipGap_le more)
        (Nat.le_trans (Nat.le_of_lt (length_of_skipGap hcolon))
          (Nat.le_succ_of_le (length_rest_of_text? htext)))
    refine ((hvalue _).mono le).bind ?_
    intro v rest hv behind
    have set := hasText_setField (String.ofList name) hv hfound
    dsimp only
    split
    next after hclose =>
      exact .read set (Nat.le_trans (Nat.le_of_lt (length_of_skipGap hclose)) behind)
    next more hcomma =>
      exact (hfields _ _ set).mono (Nat.le_trans (length_skipGap_le more)
        (Nat.le_trans (Nat.le_of_lt (length_of_skipGap hcomma)) behind))
    next => exact .malformed
  | case4 => exact .malformed
  | case5 => exact .malformed

end Readers

/-- The three readers keep to this, however many steps they may take. -/
theorem readers_reading (fuel : Nat) :
    (∀ cs, Reading Value.HasText cs.length (value fuel cs)) ∧
    (∀ cs, Reading (fun vs => ∀ v ∈ vs, v.HasText) cs.length (items fuel cs)) ∧
    ∀ found cs, (∀ f ∈ found, f.2.HasText) →
      Reading (fun fs => ∀ f ∈ fs, f.2.HasText) cs.length (fields fuel found cs) := by
  induction fuel with
  | zero => exact ⟨fun _ => .malformed, fun _ => .malformed, fun _ _ _ => .malformed⟩
  | succ fuel ih =>
    obtain ⟨hvalue, hitems, hfields⟩ := ih
    exact ⟨value_reading hitems hfields, items_reading hvalue hitems,
      fields_reading hvalue hfields⟩

end Json

namespace Value

/-- A value that is read has a JSON text, and a number is too long for a long text only. -/
theorem ofJson_cases (s : String) :
    (∃ v, ofJson s = .ok v ∧ v.HasText) ∨ ofJson s = .error .malformed ∨
    ∃ digits, ofJson s = .error (.tooManyDigits digits) ∧
      Numeral.digitLimit < s.toList.length := by
  unfold ofJson
  dsimp only
  have reading := (Json.readers_reading ((Json.skipGap s.toList).length + 1)).1
    (Json.skipGap s.toList)
  generalize Json.value _ (Json.skipGap s.toList) = x at reading
  cases reading with
  | @read v rest hv behind =>
    by_cases hend : (Json.skipGap rest).isEmpty = true
    · exact .inl ⟨v, if_pos hend, hv⟩
    · exact .inr (.inl (if_neg hend))
  | malformed => exact .inr (.inl rfl)
  | tooLong digits long =>
    exact .inr (.inr ⟨digits, rfl, Nat.lt_of_lt_of_le long (Json.length_skipGap_le _)⟩)

end Value

end TableGraph
