import TableGraph.Codec
import TableGraph.Proofs.JsonText.Grammar
import TableGraph.Proofs.Writable

/-!
# What JSON columns show

The values that JSON has are null, truth values, whole numbers, texts, lists and objects with
distinct names.  Each has a JSON text, which denotes it.

A value of a JSON column is shown as its JSON text, unless it is a text itself: a text is shown as
it stands, so that it is taken for the value that it denotes, if any, on its way back.

Main statement: `Codec.parse_format_json_iff`.
-/

namespace TableGraph

/-! ## Values that JSON has -/

/-- A value that JSON has, with numbers that are short enough to be written. -/
inductive Value.IsJson : Value → Prop
  | null : IsJson .null
  | bool (b : Bool) : IsJson (.bool b)
  | int {n : Int} (h : Numeral.digitCount n.natAbs ≤ Numeral.digitLimit) : IsJson (.int n)
  | text (s : String) : IsJson (.text s)
  | list {items : List Value} (h : ∀ v ∈ items, IsJson v) : IsJson (.list items)
  | object {fields : List (String × Value)} (distinct : (fields.map Prod.fst).Nodup)
    (h : ∀ f ∈ fields, IsJson f.2) : IsJson (.object fields)

namespace Json

/-! ## Characters and texts -/

theorem spellsUnit_hexDigits {n : Nat} (h : n < 0x10000) : SpellsUnit n (Text.hexDigits 4 n) := by
  have length : (Text.hexDigits 4 n).length = 4 := Text.length_hexDigits (by decide) h
  have digits : ∀ c ∈ Text.hexDigits 4 n, IsHex c := fun _ => Text.isHex_of_mem_hexDigits
  have value := Hexadecimal.valueOf_hexDigits 4 n
  have digit : ∀ d < 16, Text.hexValue? (Nat.digitChar d) = some d := by decide
  generalize Text.hexDigits 4 n = ds at length digits value
  match ds, length with
  | [a, b, c, d], _ =>
    simp only [List.forall_mem_cons] at digits
    obtain ⟨⟨w, hw, rfl⟩, ⟨x, hx, rfl⟩, ⟨y, hy, rfl⟩, ⟨z, hz, rfl⟩, -⟩ := digits
    have sum : ((w * 16 + x) * 16 + y) * 16 + z = n := by
      simp only [Hexadecimal.valueOf, List.map_cons, List.map_nil, List.foldl_cons, List.foldl_nil,
        digit w hw, digit x hx, digit y hy, digit z hz, Option.getD_some] at value
      omega
    exact sum ▸ .digits (digit w hw) (digit x hx) (digit y hy) (digit z hz)

theorem spellsChar_escapeChar (c : Char) : SpellsChar c (escapeChar c) := by
  have valid : c.toNat < 0xd800 ∨ 0xdfff < c.toNat ∧ c.toNat < 0x110000 := c.valid
  have same {n : Nat} (h : c.toNat = n) : Char.ofNat n = c := h ▸ Char.ofNat_toNat c
  unfold escapeChar
  split_ifs with quote backslash newline carriage tab feed back printed low
  · exact .letter (by rw [quote]; rfl)
  · exact .letter (by rw [backslash]; rfl)
  · exact .letter (by rw [newline]; rfl)
  · exact .letter (by rw [carriage]; rfl)
  · exact .letter (by rw [tab]; rfl)
  · exact .letter (congrArg some (same feed))
  · exact .letter (congrArg some (same back))
  · exact .plain (Nat.not_lt.2 printed.1) quote backslash
  · exact .unit (spellsUnit_hexDigits low)
  · exact .pair (spellsUnit_hexDigits (by omega)) (spellsUnit_hexDigits (by omega)) (by omega)
      (by omega) (by omega)

theorem spellsText_textChars (s : String) : SpellsText s (textChars s) := by
  refine .quoted ?_
  induction s.toList with
  | nil => exact .nil
  | cons c cs ih =>
    rw [List.flatMap_cons]
    exact .cons (spellsChar_escapeChar c) ih

/-! ## Whole numbers -/

theorem isWhole_toDigits {n : Nat} (h : Numeral.digitCount n ≤ Numeral.digitLimit) :
    IsWhole (Nat.toDigits 10 n) where
  nonempty := Nat.toDigits_ne_nil
  digits _ hd := Nat.isDigit_of_mem_toDigits (by decide) (by decide) hd
  short := h
  leading d es hes := by
    -- digits behind a zero would be enough for the number
    have zero : n = Numeral.valueOf (d :: es) := by
      rw [← Cursor.valueOf_toDigits n, hes]
      exact Numeral.valueOf_zeros 1 (d :: es)
    have digits : (d :: es).all Char.isDigit = true := by
      have all := Cursor.all_isDigit_toDigits n
      rw [hes] at all
      exact all
    have less : (Nat.toDigits 10 n).length ≤ (d :: es).length :=
      (Nat.length_toDigits_le_iff (by decide) (Nat.succ_pos _)).2 (zero ▸ Cursor.valueOf_lt digits)
    rw [hes] at less
    exact Nat.not_succ_le_self _ less

theorem spellsInt_toString {n : Int} (h : Numeral.digitCount n.natAbs ≤ Numeral.digitLimit) :
    SpellsInt n (toString n).toList := by
  rcases n with m | m
  · have spelled := SpellsInt.plain (isWhole_toDigits h)
    rw [Cursor.valueOf_toDigits] at spelled
    rw [Cursor.toList_toString_ofNat]
    exact spelled
  · have spelled := SpellsInt.minus (isWhole_toDigits (n := m + 1) h)
    rw [Cursor.valueOf_toDigits] at spelled
    rw [Cursor.toList_toString_negSucc]
    exact spelled

/-! ## Items and fields -/

/-- The characters of a value denote it. -/
def IsWritten (v : Value) : Prop := ∃ cs, chars? v = some cs ∧ Denotes cs v

theorem isGap_blank : IsGap [' '] := List.forall_mem_singleton.2 rfl

theorem itemChars?_false (v : Value) (vs : List Value) :
    itemChars? false (v :: vs) =
      (itemChars? true (v :: vs)).map fun cs => ',' :: ' ' :: cs := by
  unfold itemChars?
  cases chars? v with
  | none => rfl
  | some cs => cases itemChars? false vs <;> rfl

theorem exists_itemChars? {v : Value} {vs : List Value} (h : ∀ w ∈ v :: vs, IsWritten w) :
    ∃ cs, itemChars? true (v :: vs) = some cs ∧ DenotesItems cs (v :: vs) := by
  induction vs generalizing v with
  | nil =>
    obtain ⟨cs, hcs, denotes⟩ := h v List.mem_cons_self
    refine ⟨cs ++ [], ?_, .last denotes nofun⟩
    unfold itemChars?
    rw [hcs]
    rfl
  | cons w vs ih =>
    rw [List.forall_mem_cons] at h
    obtain ⟨⟨cs, hcs, denotes⟩, tail⟩ := h
    obtain ⟨rest, hrest, items⟩ := ih tail
    refine ⟨cs ++ [] ++ ',' :: [' '] ++ rest, ?_, .more denotes nofun isGap_blank items⟩
    unfold itemChars?
    rw [hcs, itemChars?_false, hrest, List.append_nil, List.append_assoc]
    rfl

theorem fieldChars?_false (field : String × Value) (fields : List (String × Value)) :
    fieldChars? false (field :: fields) =
      (fieldChars? true (field :: fields)).map fun cs => ',' :: ' ' :: cs := by
  unfold fieldChars?
  cases chars? field.2 with
  | none => rfl
  | some cs => cases fieldChars? false fields <;> rfl

theorem exists_fieldChars? {field : String × Value} {fields : List (String × Value)}
    (h : ∀ f ∈ field :: fields, IsWritten f.2) :
    ∃ cs, fieldChars? true (field :: fields) = some cs ∧ DenotesFields cs (field :: fields) := by
  induction fields generalizing field with
  | nil =>
    obtain ⟨name, v⟩ := field
    obtain ⟨cs, hcs, denotes⟩ := h (name, v) List.mem_cons_self
    refine ⟨textChars name ++ [] ++ ':' :: [' '] ++ cs ++ [], ?_,
      .last (spellsText_textChars name) nofun isGap_blank denotes nofun⟩
    unfold fieldChars?
    dsimp only at hcs
    rw [hcs, List.append_nil (textChars name), List.append_assoc (textChars name)]
    rfl
  | cons next fields ih =>
    obtain ⟨name, v⟩ := field
    rw [List.forall_mem_cons] at h
    obtain ⟨⟨cs, hcs, denotes⟩, tail⟩ := h
    obtain ⟨rest, hrest, written⟩ := ih tail
    refine ⟨textChars name ++ [] ++ ':' :: [' '] ++ cs ++ [] ++ ',' :: [' '] ++ rest, ?_,
      .more (spellsText_textChars name) nofun isGap_blank denotes nofun isGap_blank written⟩
    unfold fieldChars?
    dsimp only at hcs
    rw [hcs, fieldChars?_false, hrest]
    simp

/-- A value that JSON has is written as characters that denote it. -/
theorem isWritten_of_isJson {v : Value} (h : v.IsJson) : IsWritten v := by
  induction h with
  | null => exact ⟨_, rfl, .null⟩
  | bool b =>
    cases b with
    | true => exact ⟨_, rfl, .true⟩
    | false => exact ⟨_, rfl, .false⟩
  | int h => exact ⟨_, rfl, .int (spellsInt_toString h)⟩
  | text s => exact ⟨_, rfl, .text (spellsText_textChars s)⟩
  | @list items _ ih =>
    cases items with
    | nil => exact ⟨_, rfl, .emptyList (g := []) nofun⟩
    | cons item items =>
      obtain ⟨cs, hcs, denotes⟩ := exists_itemChars? ih
      refine ⟨'[' :: [] ++ cs ++ [']'], ?_, .list nofun denotes⟩
      unfold chars?
      rw [hcs]
      rfl
  | @object fields distinct _ ih =>
    cases fields with
    | nil => exact ⟨_, rfl, .emptyObject (g := []) nofun⟩
    | cons field fields =>
      obtain ⟨cs, hcs, denotes⟩ := exists_fieldChars? ih
      refine ⟨'\x7b' :: [] ++ cs ++ ['\x7d'], ?_, .object nofun denotes distinct⟩
      unfold chars?
      rw [hcs]
      rfl

end Json

namespace Value.IsJson

variable {v : Value}

theorem isWritable (h : v.IsJson) : v.isWritable = true := by
  induction h with
  | null => rfl
  | bool => rfl
  | int h => exact isWritable_int.2 h
  | text => rfl
  | list _ ih => exact areWritable_iff.2 ih
  | object _ _ ih => exact haveWritable_iff.2 ih

/-- A value that JSON has is written as a text that denotes it. -/
theorem exists_text (h : v.IsJson) : ∃ s, v.toJson? = some s ∧ Json.IsTextOf s v := by
  obtain ⟨cs, hcs, denotes⟩ := Json.isWritten_of_isJson h
  refine ⟨String.ofList cs, ?_, [], cs, [], ?_, nofun, denotes, nofun⟩
  · unfold toJson?
    rw [hcs]
    rfl
  · rw [String.toList_ofList, List.append_nil]
    rfl

end Value.IsJson

/-! ## Texts inside texts -/

namespace Json

theorem word_ne_text {cs rest : List Char} {v : Value}
    (h : (words.findSome? fun (w, v) => (after? w cs).map fun rest => (v, rest)) =
      some (v, rest)) (s : String) : v ≠ .text s := by
  obtain ⟨⟨w, v'⟩, hw, h⟩ := List.exists_of_findSome?_eq_some h
  obtain ⟨rest', -, hfound⟩ := Option.map_eq_some_iff.1 h
  obtain ⟨rfl, -⟩ := Prod.mk.inj hfound
  revert hw
  unfold words
  simp only [List.mem_cons, Prod.mk.injEq, List.not_mem_nil, or_false]
  rintro (⟨-, rfl⟩ | ⟨-, rfl⟩ | ⟨-, rfl⟩ | ⟨-, rfl⟩ | ⟨-, rfl⟩ | ⟨-, rfl⟩) <;> nofun

theorem number_ne_text {cs rest : List Char} {s : String} : number cs ≠ .ok (.text s, rest) := by
  fun_cases number cs <;>
  · intro h
    cases h

/-- A text is shorter than the characters that it is read from, by its quotes at least. -/
theorem length_of_value_text {fuel : Nat} {cs rest : List Char} {s : String}
    (h : value fuel cs = .ok (.text s, rest)) : s.toList.length + 2 ≤ cs.length := by
  revert h
  fun_cases value fuel cs with
  | case2 _ _ found hfound =>
    intro h
    obtain rfl := Except.ok.inj h
    exact absurd rfl (word_ne_text hfound s)
  | case3 _ _ ds rest htext =>
    intro h
    cases h
    have length := length_of_text? htext
    rw [String.toList_ofList, List.length_cons]
    omega
  | case6 fuel more =>
    intro h
    cases hitems : items fuel (skipGap more) <;>
    · rw [hitems] at h
      cases h
  | case8 fuel more =>
    intro h
    cases hfields : fields fuel [] (skipGap more) <;>
    · rw [hfields] at h
      cases h
  | case9 => exact fun h => absurd h number_ne_text
  | _ =>
    intro h
    cases h

end Json

/-- No text denotes itself. -/
theorem Value.ofJson_ne_text (s : String) : ofJson s ≠ .ok (.text s) := by
  intro h
  cases hvalue : Json.value ((Json.skipGap s.toList).length + 1) (Json.skipGap s.toList) with
  | error =>
    unfold ofJson at h
    dsimp only at h
    rw [hvalue] at h
    cases h
  | ok found =>
    obtain ⟨v, rest⟩ := found
    rw [Json.ofJson_of_value hvalue] at h
    split_ifs at h
    obtain rfl := Except.ok.inj h
    have shorter := Json.length_of_value_text hvalue
    have le := Json.length_skipGap_le s.toList
    omega

/-- The value is a text. -/
def Value.IsText (v : Value) : Prop := ∃ s, v = .text s

/-! ## Columns -/

namespace Codec

variable {codec : Codec} {path : String} {label : Option String} {v : Value}

theorem format_json_text (s : String) :
    codec.format (.basic .json label) (.text s) = .ok (.text s) := rfl

theorem format_json (h : v.IsJson) (stored : v ≠ .null) (other : ¬ v.IsText) :
    ∃ s, v.toJson? = some s ∧ Json.IsTextOf s v ∧
      codec.format (.basic .json label) v = .ok (.text s) := by
  obtain ⟨s, hs, denotes⟩ := h.exists_text
  refine ⟨s, hs, denotes, ?_⟩
  have shown : codec.format (.basic .json label) v = .text <$> jsonText v := by
    cases v with
    | null => exact absurd rfl stored
    | text s => exact absurd ⟨s, rfl⟩ other
    | _ => rfl
  rw [shown]
  unfold jsonText
  rw [hs]
  dsimp only
  rw [if_pos h.isWritable]
  rfl

theorem format_json_iff (h : v.IsJson) (stored : v ≠ .null) {s : String} :
    codec.format (.basic .json label) v = .ok (.text s) ↔
      v = .text s ∨ ¬ v.IsText ∧ v.toJson? = some s := by
  by_cases text : v.IsText
  · obtain ⟨t, rfl⟩ := text
    rw [format_json_text, Except.ok.injEq, or_iff_left fun other => other.1 ⟨t, rfl⟩]
  · obtain ⟨t, ht, -, shown⟩ := @format_json codec label v h stored text
    rw [shown, ht, Except.ok.injEq, Value.text.injEq, Option.some.injEq, and_iff_right text,
      or_iff_right fun same => text ⟨s, same⟩]

theorem parse_json_iff {s : String} :
    codec.parse path (.basic .json label) (.text s) = .ok v ↔ Value.ofJson s = .ok v := by
  show parseJson path s = .ok v ↔ _
  unfold parseJson
  split
  next u hu => rw [hu, Except.ok.injEq, Except.ok.injEq]
  next hmalformed => rw [hmalformed]; exact ⟨nofun, nofun⟩
  next hlong => rw [hlong]; exact ⟨nofun, nofun⟩

/-- A value that is no text comes back from the JSON text that it is shown as, and a text does not.
Two values are shown alike if and only if one is no text and the other one is its JSON text. -/
theorem parse_format_json_iff (codec : Codec) (path : String) (label : Option String) {v : Value}
    (h : v.IsJson) (stored : v ≠ .null) :
    ∃ s, codec.format (.basic .json label) v = .ok (.text s) ∧
      (Json.IsTextOf s v ↔ ¬ v.IsText) ∧
      (codec.parse path (.basic .json label) (.text s) = .ok v ↔ ¬ v.IsText) ∧
      ∀ w : Value, w.IsJson → w ≠ .null → w ≠ v →
        (codec.format (.basic .json label) w = .ok (.text s) ↔
          w = .text s ∨ v = .text s ∧ ¬ w.IsText ∧ w.toJson? = some s) := by
  by_cases text : v.IsText
  · obtain ⟨s, rfl⟩ := text
    have lost : Value.ofJson s ≠ .ok (.text s) := Value.ofJson_ne_text s
    have isText : (Value.text s).IsText := ⟨s, rfl⟩
    refine ⟨s, format_json_text s, ?_, ?_, fun w hw hstored _ => ?_⟩
    · exact iff_of_false (fun denotes => lost (Json.ofJson_of_isTextOf denotes)) (· isText)
    · exact iff_of_false (fun parsed => lost (parse_json_iff.1 parsed)) (· isText)
    · rw [format_json_iff hw hstored, and_iff_right rfl]
  · obtain ⟨s, hs, denotes, shown⟩ := format_json h stored text
    have read := Json.ofJson_of_isTextOf denotes
    refine ⟨s, shown, iff_of_true denotes text, iff_of_true (parse_json_iff.2 read) text, ?_⟩
    intro w hw hstored other
    rw [format_json_iff hw hstored]
    refine or_congr_right (iff_of_false ?_ fun same => text ⟨s, same.1⟩)
    -- two values of one text would both be read from it
    rintro ⟨-, hws⟩
    obtain ⟨t, ht, denoted⟩ := hw.exists_text
    obtain rfl := Option.some.inj (hws.symm.trans ht)
    exact other (Except.ok.inj ((Json.ofJson_of_isTextOf denoted).symm.trans read))

/-- A list with null inside it comes back, and the text that it is shown as is shown alike. -/
theorem parse_format_json_iff_list :
    (Value.list [.null, .int 1]).IsJson ∧ Value.list [.null, .int 1] ≠ .null ∧
      format ⟨[], false⟩ (.plain .json) (.list [.null, .int 1]) = .ok (.text "[null, 1]") ∧
      Json.IsTextOf "[null, 1]" (.list [.null, .int 1]) ∧
      parse ⟨[], false⟩ "T.f" (.plain .json) (.text "[null, 1]") =
        .ok (.list [.null, .int 1]) ∧
      format ⟨[], false⟩ (.plain .json) (.text "[null, 1]") = .ok (.text "[null, 1]") := by
  have isJson : (Value.list [.null, .int 1]).IsJson := by
    refine .list (List.forall_mem_cons.2 ⟨.null, List.forall_mem_singleton.2 (.int ?_)⟩)
    decide
  have other : ¬ (Value.list [.null, .int 1]).IsText := nofun
  have text : (Value.list [.null, .int 1]).toJson? = some "[null, 1]" := by decide +kernel
  obtain ⟨s, shown, denotes, parsed, alike⟩ :=
    parse_format_json_iff ⟨[], false⟩ "T.f" none isJson nofun
  obtain rfl : s = "[null, 1]" := by
    rcases (format_json_iff isJson nofun).1 shown with same | ⟨-, hs⟩
    · cases same
    · exact Option.some.inj (hs.symm.trans text)
  exact ⟨isJson, nofun, shown, denotes.2 other, parsed.2 other,
    (alike (.text _) (.text _) nofun nofun).2 (.inl rfl)⟩

/-- A text and a number are shown alike, and the number comes back. -/
theorem parse_format_json_text :
    (Value.text "1").IsJson ∧ (Value.int 1).IsJson ∧
      format ⟨[], false⟩ (.plain .json) (.text "1") = .ok (.text "1") ∧
      format ⟨[], false⟩ (.plain .json) (.int 1) = .ok (.text "1") ∧
      parse ⟨[], false⟩ "T.f" (.plain .json) (.text "1") = .ok (.int 1) := by
  have isJson : (Value.int 1).IsJson := .int (by decide)
  have number : (Value.int 1).toJson? = some "1" := rfl
  refine ⟨.text "1", isJson, rfl, ?_, rfl⟩
  exact (format_json_iff isJson nofun).2 (.inr ⟨nofun, number⟩)

end Codec

end TableGraph
