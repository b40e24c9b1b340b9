import TableGraph.Graph.TypeSystem
import TableGraph.Proofs.Casing
import TableGraph.Proofs.Outcome

/-!
# Names that casing gives

Casing keeps the letters and digits of a name and drops the rest.  So a name that starts with a
letter gives a name of the query language that the language does not keep for itself, alone and with
a word behind it.
-/

namespace TableGraph

/-! ## Names that start with a letter -/

namespace Text

variable {name : String}

/-- The name starts with a letter. -/
def StartsWithLetter (name : String) : Prop := ∃ c cs, name.toList = c :: cs ∧ c.isAlpha = true

instance (name : String) : Decidable (StartsWithLetter name) :=
  decidable_of_iff ((name.toList.head?.any Char.isAlpha) = true) <| by
    unfold StartsWithLetter
    cases name.toList <;> simp

theorem StartsWithLetter.append (h : StartsWithLetter name) (word : String) :
    StartsWithLetter (name ++ word) := by
  obtain ⟨c, cs, hname, hc⟩ := h
  exact ⟨c, cs ++ word.toList, by rw [String.toList_append, hname]; rfl, hc⟩

theorem StartsWithLetter.pascalCase (h : StartsWithLetter name) :
    StartsWithLetter (pascalCase name) := by
  obtain ⟨c, cs, hname, hc⟩ := h
  obtain ⟨w, ws, hwords⟩ := @exists_wordsOf c cs (isWordChar_of_isAlpha hc)
  refine ⟨c.toUpper, w.map Char.toLower ++ ws.flatMap capitalize, ?_,
    (Char.isAlpha_toUpper_eq_isAlpha c).trans hc⟩
  rw [toList_pascalCase, hname, hwords]
  rfl

theorem StartsWithLetter.camelCase (h : StartsWithLetter name) :
    StartsWithLetter (camelCase name) := by
  obtain ⟨c, cs, hchars, hc⟩ := h.pascalCase
  refine ⟨c.toLower, cs, ?_, (Char.isAlpha_toLower_eq_isAlpha c).trans hc⟩
  unfold Text.camelCase
  rw [hchars]
  exact String.toList_ofList

end Text

/-! ## Names of the query language -/

namespace Graph

open Text

variable {name word : String}

/-- The name is one of the query language that is not kept for the language itself. -/
structure IsPlain (name : String) : Prop where
  isName : isName name = true
  notOwn : isOwnName name = false

instance (name : String) : Decidable (IsPlain name) :=
  decidable_of_iff (isName name = true ∧ isOwnName name = false)
    ⟨fun h => ⟨h.1, h.2⟩, fun h => ⟨h.1, h.2⟩⟩

theorem isOwnName_eq_false (h : ∀ c ∈ name.toList.head?, c ≠ '_') : isOwnName name = false := by
  refine Bool.eq_false_iff.2 fun own => ?_
  obtain ⟨rest, hrest⟩ := String.startsWith_string_iff.1 own
  exact h '_' (by rw [← hrest]; rfl) rfl

/-- Names of letters and digits are not kept for the language. -/
theorem notOwn_of_words (h : ∀ c ∈ name.toList, isWordChar c = true) : isOwnName name = false := by
  refine isOwnName_eq_false fun c hc => ?_
  rintro rfl
  exact absurd (h '_' (List.mem_of_head? hc)) (by decide)

theorem notOwn_of_letter (h : StartsWithLetter name) : isOwnName name = false := by
  obtain ⟨c, cs, hname, hc⟩ := h
  refine isOwnName_eq_false fun d hd => ?_
  rw [hname] at hd
  cases hd
  rintro rfl
  exact absurd hc (by decide)

theorem isPlain_of_chars (h : StartsWithLetter name)
    (parts : ∀ c ∈ name.toList, Token.isNamePart c = true) : IsPlain name := by
  refine ⟨?_, notOwn_of_letter h⟩
  obtain ⟨c, cs, hname, hc⟩ := h
  unfold isName
  rw [hname] at parts ⊢
  refine Bool.and_eq_true_iff.2 ⟨Bool.or_eq_true_iff.2 (.inl hc), List.all_eq_true.2 fun d hd => ?_⟩
  exact parts d (List.mem_cons_of_mem c hd)

theorem isNamePart_of_isWordChar {c : Char} (h : isWordChar c = true) :
    Token.isNamePart c = true := Bool.or_eq_true_iff.2 (.inl h)

theorem isPlain_pascalCase (h : StartsWithLetter name) : IsPlain (pascalCase name) :=
  isPlain_of_chars h.pascalCase fun _ hc => isNamePart_of_isWordChar (isWordChar_pascalCase hc)

theorem isPlain_camelCase (h : StartsWithLetter name) : IsPlain (camelCase name) :=
  isPlain_of_chars h.camelCase fun _ hc => isNamePart_of_isWordChar (isWordChar_camelCase hc)

/-- Parts of names can be put behind a name. -/
theorem IsPlain.append (h : IsPlain name) (start : StartsWithLetter name)
    (parts : word.toList.all Token.isNamePart = true) : IsPlain (name ++ word) := by
  refine isPlain_of_chars (start.append word) fun c hc => ?_
  rw [String.toList_append] at hc
  rcases List.mem_append.1 hc with hc | hc
  · have own := h.isName
    obtain ⟨d, ds, hname, hd⟩ := start
    unfold Graph.isName at own
    rw [hname] at own hc
    rcases List.mem_cons.1 hc with rfl | hc
    · exact Bool.or_eq_true_iff.2 (.inl (isWordChar_of_isAlpha hd))
    · exact List.all_eq_true.1 (Bool.and_eq_true_iff.1 own).2 c hc
  · exact List.all_eq_true.1 parts c hc

end Graph

end TableGraph
