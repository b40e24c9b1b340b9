import TableGraph.Cursor.Basic
import TableGraph.Proofs.Identifier

/-!
# Reading cursors

Main statement: `decode_encode`.  A cursor whose components are null, whole numbers within their
widths, texts and identifiers is read back component by component, whatever characters its texts
consist of: the length in front of a payload tells where the payload ends.
-/

namespace TableGraph

/-- A component of a cursor that is read back. -/
inductive CursorPart.Readable : CursorPart → Prop
  | integer {kind : IntegerKind} {n : Int} (h : kind.holds n) : Readable ⟨.integer kind, .int n⟩
  | text {s : String} (h : Numeral.digitCount s.utf8ByteSize ≤ Numeral.digitLimit) :
    Readable ⟨.text, .text s⟩
  | uuid (u : Uuid) : Readable ⟨.uuid, .uuid u⟩

/-- A component that a cursor can hold: null, or a value that is read back. -/
def CursorPart.Fits (p : CursorPart) : Prop := p.value = .null ∨ p.Readable

namespace Cursor

/-! ## Whole numbers -/

theorem valueOf_toDigits (n : Nat) : Numeral.valueOf (Nat.toDigits 10 n) = n :=
  Nat.ofDigitChars_ten_toDigits

theorem all_isDigit_toDigits (n : Nat) : (Nat.toDigits 10 n).all Char.isDigit = true :=
  List.all_eq_true.2 fun _ h => Nat.isDigit_of_mem_toDigits (by decide) (by decide) h

theorem isEmpty_toDigits (n : Nat) : (Nat.toDigits 10 n).isEmpty = false := by
  cases h : (Nat.toDigits 10 n).isEmpty with
  | false => rfl
  | true => exact absurd (List.isEmpty_iff.1 h) Nat.toDigits_ne_nil

theorem not_tooLong {n : Nat} (h : Numeral.digitCount n ≤ Numeral.digitLimit) :
    ¬ Numeral.digitLimit < (Nat.toDigits 10 n).length := Nat.not_lt.2 h

theorem splitMinus_toDigits (n : Nat) :
    splitMinus (Nat.toDigits 10 n) = (false, Nat.toDigits 10 n) := by
  unfold splitMinus
  split
  next ds hminus =>
    have minus : '-' ∈ Nat.toDigits 10 n := hminus ▸ List.mem_cons_self
    exact absurd (Nat.isDigit_of_mem_toDigits (by decide) (by decide) minus) (by decide)
  next => rfl

theorem whole_eq {cs : List Char} {negative : Bool} {n : Nat}
    (hcs : splitMinus cs = (negative, Nat.toDigits 10 n))
    (h : Numeral.digitCount n ≤ Numeral.digitLimit) :
    whole cs = .number (if negative then -n else n) := by
  unfold whole
  rw [hcs]
  dsimp only
  rw [isEmpty_toDigits, all_isDigit_toDigits, if_neg (by decide), if_neg (not_tooLong h),
    valueOf_toDigits]

theorem whole_toDigits {n : Nat} (h : Numeral.digitCount n ≤ Numeral.digitLimit) :
    whole (Nat.toDigits 10 n) = .number n := whole_eq (splitMinus_toDigits n) h

theorem digitCount_le {n : Nat} (h : n < 10 ^ 20) :
    Numeral.digitCount n ≤ Numeral.digitLimit := by
  have digits : Numeral.digitCount n ≤ 20 :=
    (Nat.length_toDigits_le_iff (by decide) (by decide)).2 h
  unfold Numeral.digitLimit
  omega

theorem natAbs_of_holds {kind : IntegerKind} {n : Int} (h : kind.holds n) :
    n.natAbs < 10 ^ 20 := by
  unfold IntegerKind.holds at h
  rw [Bool.and_eq_true, decide_eq_true_iff, decide_eq_true_iff] at h
  have low : -(2 ^ 63 : Int) ≤ kind.low := by cases kind <;> decide
  have high : kind.high < (2 ^ 64 : Int) := by cases kind <;> decide
  omega

theorem length_le_splitMinus (cs : List Char) : cs.length ≤ (splitMinus cs).2.length + 1 := by
  unfold splitMinus
  split
  next => exact Nat.le_refl _
  next => exact Nat.le_succ _

theorem toList_toString_ofNat (m : Nat) : (toString (Int.ofNat m)).toList = Nat.toDigits 10 m :=
  Nat.toList_repr

theorem toList_toString_negSucc (m : Nat) :
    (toString (Int.negSucc m)).toList = '-' :: Nat.toDigits 10 (m + 1) := by
  show ("-" ++ (m + 1).repr).toList = _
  rw [String.toList_append, Nat.toList_repr]
  rfl

theorem splitMinus_toString (n : Int) : ∃ negative m, n = (if negative then -(m : Int) else m) ∧
    m = n.natAbs ∧ splitMinus (toString n).toList = (negative, Nat.toDigits 10 m) := by
  rcases n with m | m
  · refine ⟨false, m, rfl, rfl, ?_⟩
    rw [toList_toString_ofNat, splitMinus_toDigits]
  · refine ⟨true, m + 1, rfl, rfl, ?_⟩
    rw [toList_toString_negSucc]
    rfl

theorem whole_toString {kind : IntegerKind} {n : Int} (h : kind.holds n) :
    whole (toString n).toList = .number n := by
  obtain ⟨negative, m, hn, hm, hsplit⟩ := splitMinus_toString n
  rw [whole_eq hsplit (digitCount_le (hm ▸ natAbs_of_holds h)), ← hn]

/-! ## Payloads -/

theorem slice_append (taken rest : List Char) :
    slice (byteCount taken) (taken ++ rest) = .whole taken rest := by
  induction taken with
  | nil =>
    cases rest <;> rfl
  | cons c cs ih =>
    have size : byteCount (c :: cs) = c.utf8Size - 1 + byteCount cs + 1 := by
      have pos := Char.utf8Size_pos c
      show c.utf8Size + byteCount cs = _
      omega
    have remaining : c.utf8Size - 1 + byteCount cs + 1 - c.utf8Size = byteCount cs := by
      have pos := Char.utf8Size_pos c
      omega
    rw [size, List.cons_append, slice, if_pos (by omega), remaining, ih]
    rfl

theorem payloadValue_shown {p : CursorPart} (h : p.Readable) :
    payloadValue p.tag p.value.shown.toList = .ok p.value := by
  cases h with
  | @integer kind n h =>
    unfold payloadValue
    dsimp only
    rw [show (Value.int n).shown = toString n from rfl, whole_toString h]
    dsimp only
    rw [if_pos h]
  | text =>
    unfold payloadValue
    dsimp only
    rw [String.ofList_toList]
    rfl
  | uuid u =>
    unfold payloadValue
    dsimp only
    rw [String.ofList_toList, show (Value.uuid u).shown = u.toText from rfl, Uuid.ofText?_toText]

theorem byteCount_toList (s : String) : byteCount s.toList = s.utf8ByteSize := by
  have chars : ∀ cs : List Char, byteCount cs = (String.ofList cs).utf8ByteSize := by
    intro cs
    induction cs with
    | nil => rfl
    | cons c cs ih =>
      rw [← List.singleton_append, String.ofList_append, String.utf8ByteSize_append, ← ih,
        ← String.singleton_eq_ofList, String.utf8ByteSize_singleton]
      rfl
  rw [chars, String.ofList_toList]

theorem utf8ByteSize_le (s : String) : s.utf8ByteSize ≤ 4 * s.toList.length := by
  rw [← byteCount_toList]
  induction s.toList with
  | nil => exact Nat.le_refl 0
  | cons c cs ih =>
    have one := Char.utf8Size_le_four c
    show c.utf8Size + byteCount cs ≤ 4 * (cs.length + 1)
    omega

/-- What is written in few characters has a length that is read. -/
theorem digitCount_le_of_length {s : String} (h : s.toList.length ≤ 100) :
    Numeral.digitCount s.utf8ByteSize ≤ Numeral.digitLimit := by
  have size := utf8ByteSize_le s
  exact digitCount_le (by omega)

/-- A whole number that is held is written in few characters. -/
theorem length_toString_le {kind : IntegerKind} {n : Int} (h : kind.holds n) :
    (toString n).toList.length ≤ 100 := by
  obtain ⟨negative, m, -, hm, hsplit⟩ := splitMinus_toString n
  have digits : (Nat.toDigits 10 m).length ≤ 20 :=
    (Nat.length_toDigits_le_iff (by decide) (by decide)).2 (hm ▸ natAbs_of_holds h)
  have sign := length_le_splitMinus (toString n).toList
  rw [hsplit] at sign
  exact Nat.le_trans sign (Nat.succ_le_succ (Nat.le_trans digits (by decide)))

theorem length_toText_le (u : Uuid) : u.toText.toList.length ≤ 100 := by
  unfold Uuid.toText Uuid.chars
  simp only [String.toList_ofList, List.length_append, List.length_cons, List.length_take,
    List.length_drop, u.length_digits]
  decide

theorem digitCount_of_readable {p : CursorPart} (h : p.Readable) :
    Numeral.digitCount p.value.shown.utf8ByteSize ≤ Numeral.digitLimit := by
  cases h with
  | integer h => exact digitCount_le_of_length (length_toString_le h)
  | text h => exact h
  | uuid u => exact digitCount_le_of_length (length_toText_le u)

/-! ## Components -/

theorem takeWhile_ne_append {cs : List Char} {c : Char} (h : c ∉ cs) (rest : List Char) :
    (cs ++ c :: rest).takeWhile (· ≠ c) = cs ∧ (cs ++ c :: rest).dropWhile (· ≠ c) = c :: rest := by
  have other : ∀ d ∈ cs, decide (d ≠ c) = true := fun d hd =>
    decide_eq_true fun hdc => h (hdc ▸ hd)
  rw [List.takeWhile_append_of_pos other, List.dropWhile_append_of_pos other]
  simp

theorem isNull_of_readable {p : CursorPart} (h : p.Readable) : p.value.isNull = false := by
  cases h <;> rfl

theorem payload_append {p : CursorPart} (h : p.Readable) (pos : Nat) (rest : List Char) :
    payload p.tag p.value.shown.utf8ByteSize pos (p.value.shown.toList ++ rest) =
      .ok (p, pos + p.value.shown.utf8ByteSize, rest) := by
  have cut : slice p.value.shown.utf8ByteSize (p.value.shown.toList ++ rest) =
      .whole p.value.shown.toList rest := by
    rw [← byteCount_toList, slice_append]
  unfold payload
  rw [if_neg (by omega), if_neg (by omega), Int.toNat_natCast, cut]
  dsimp only
  rw [payloadValue_shown h]

theorem open_not_mem_name (tag : CursorTag) : '[' ∉ tag.name.toList := by
  rcases tag with kind | _ | _
  · cases kind <;> decide
  · decide
  · decide

theorem segment_name (tag : CursorTag) (pos : Nat) (rest : List Char) :
    segment pos (tag.name.toList ++ '[' :: rest) =
      sized tag (pos + byteCount tag.name.toList) rest := by
  have cut := takeWhile_ne_append (open_not_mem_name tag) rest
  unfold segment
  rw [cut.1, cut.2]
  dsimp only
  rw [String.ofList_toList, CursorTag.ofName?_name]

theorem sized_append {digits : List Char} {length : Int} (hclose : ']' ∉ digits)
    (hlength : whole digits = .number length) (tag : CursorTag) (pos : Nat) (rest : List Char) :
    sized tag pos (digits ++ ']' :: ':' :: rest) =
      payload tag length (pos + byteCount digits + 2 + 1) rest := by
  have cut := takeWhile_ne_append hclose (':' :: rest)
  unfold sized
  dsimp only
  rw [cut.1, cut.2, hlength]
  rfl

theorem segment_null (tag : CursorTag) (pos : Nat) (rest : List Char) :
    ∃ stop, segment pos ((CursorPart.mk tag .null).chars ++ rest) =
      .ok (⟨tag, .null⟩, stop, rest) := by
  have written : (CursorPart.mk tag .null).chars ++ rest =
      tag.name.toList ++ '[' :: (['-', '1'] ++ ']' :: ':' :: rest) := by
    unfold CursorPart.chars
    rw [show (CursorPart.mk tag .null).value.isNull = true from rfl, if_pos rfl,
      List.append_assoc]
    rfl
  have minusOne : whole ['-', '1'] = .number (-1) := by decide
  rw [written, segment_name, sized_append (by decide) minusOne]
  unfold payload
  exact ⟨_, if_pos rfl⟩

theorem segment_readable {p : CursorPart} (h : p.Readable) (pos : Nat) (rest : List Char) :
    ∃ stop, segment pos (p.chars ++ rest) = .ok (p, stop, rest) := by
  have written : p.chars ++ rest = p.tag.name.toList ++ '[' ::
      (Nat.toDigits 10 p.value.shown.utf8ByteSize ++ ']' :: ':' ::
        (p.value.shown.toList ++ rest)) := by
    unfold CursorPart.chars
    rw [isNull_of_readable h, if_neg Bool.false_ne_true]
    simp only [List.append_assoc, List.cons_append]
  have close : ']' ∉ Nat.toDigits 10 p.value.shown.utf8ByteSize := fun hmem =>
    absurd (Nat.isDigit_of_mem_toDigits (by decide) (by decide) hmem) (by decide)
  rw [written, segment_name,
    sized_append close (whole_toDigits (digitCount_of_readable h)) p.tag]
  exact ⟨_, payload_append h _ rest⟩

/-- A component is read off the text it stands at the front of. -/
theorem segment_chars {p : CursorPart} (h : p.Fits) (pos : Nat) (rest : List Char) :
    ∃ stop, segment pos (p.chars ++ rest) = .ok (p, stop, rest) := by
  rcases h with null | readable
  · obtain ⟨tag, value⟩ := p
    obtain rfl : value = .null := null
    exact segment_null tag pos rest
  · exact segment_readable readable pos rest

theorem chars_ne_nil (p : CursorPart) : p.chars ≠ [] := by
  have name : p.tag.name.toList ≠ [] := by
    rcases p.tag with kind | _ | _
    · cases kind <;> decide
    · decide
    · decide
  unfold CursorPart.chars
  split
  · exact List.append_ne_nil_of_left_ne_nil name _
  · simp

theorem joined_ne_nil {ps : List CursorPart} (h : ps ≠ []) : joined ps ≠ [] := by
  match ps with
  | [p] => exact chars_ne_nil p
  | p :: q :: ps => exact List.append_ne_nil_of_left_ne_nil (chars_ne_nil p) _

/-- The last component ends the text. -/
theorem components_of_end {pos stop : Nat} {cs : List Char} {p : CursorPart}
    (h : segment pos cs = .ok (p, stop, [])) : components pos cs = .ok [p] := by
  unfold components
  split
  next hp => rw [h] at hp; cases hp
  next hp => rw [h] at hp; cases hp; rfl
  next hp => rw [h] at hp; cases hp

/-- A comma stands between a component and those behind it. -/
theorem components_of_comma {pos stop : Nat} {cs rest : List Char} {p : CursorPart}
    {ps : List CursorPart} (h : segment pos cs = .ok (p, stop, ',' :: rest)) (hne : rest ≠ [])
    (hps : components (stop + 1) rest = .ok ps) : components pos cs = .ok (p :: ps) := by
  have more : ¬ rest.isEmpty = true := fun hempty => hne (List.isEmpty_iff.1 hempty)
  unfold components
  split
  next hp => rw [h] at hp; cases hp
  next hp => rw [h] at hp; cases hp
  next hp =>
    rw [h] at hp
    cases hp
    rw [if_neg (fun h => h rfl), if_neg more, hps]

theorem components_joined {ps : List CursorPart} (hne : ps ≠ []) (h : ∀ p ∈ ps, p.Fits)
    (pos : Nat) : components pos (joined ps) = .ok ps := by
  induction ps generalizing pos with
  | nil => exact absurd rfl hne
  | cons p ps ih =>
    have first := h p List.mem_cons_self
    cases ps with
    | nil =>
      obtain ⟨stop, hp⟩ := segment_chars first pos []
      rw [List.append_nil] at hp
      exact components_of_end hp
    | cons q ps =>
      have more : q :: ps ≠ [] := List.cons_ne_nil q ps
      obtain ⟨stop, hp⟩ := segment_chars first pos (',' :: joined (q :: ps))
      exact components_of_comma hp (joined_ne_nil more)
        (ih more (fun r hr => h r (List.mem_cons_of_mem p hr)) (stop + 1))

/-- The components of a cursor are read back. -/
theorem decode_encode {ps : List CursorPart} {cursor : String} (h : ∀ p ∈ ps, p.Fits)
    (hcursor : encode ps = .ok cursor) : cursor.isEmpty = false ∧ decode cursor = .ok ps := by
  have hne : ps ≠ [] := by
    rintro rfl
    cases hcursor
  unfold encode at hcursor
  rw [if_neg fun hempty => hne (List.isEmpty_iff.1 hempty)] at hcursor
  cases hcursor
  have given : (String.ofList (joined ps)).isEmpty = false := by
    rw [String.isEmpty_eq_false_iff]
    intro hempty
    refine joined_ne_nil hne ?_
    rw [← String.toList_ofList (l := joined ps), hempty]
    rfl
  refine ⟨given, ?_⟩
  unfold decode
  rw [given, if_neg Bool.false_ne_true, String.toList_ofList, components_joined hne h]

end Cursor

end TableGraph
