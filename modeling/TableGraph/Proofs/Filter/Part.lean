import Mathlib.Data.List.Forall2
import TableGraph.Store.Condition

/-!
# Texts in texts

Main statement: `Test.matches_partPattern`.  The pattern that is made from a text matches the texts
that hold it at a place, whatever characters it has: those that mean something else in a pattern are
escaped.
-/

namespace TableGraph

namespace Pattern

variable {cs text : List Char}

/-- Texts of the same letters. -/
def SameLetters (cs ds : List Char) : Prop := List.Forall₂ (fun c d => sameLetter c d = true) cs ds

/-! ## Elements of patterns -/

theorem items_cons {c : Char} (hc : ¬ (c = escapeMark ∨ c = '%' ∨ c = '_')) (rest : List Char) :
    items (some escapeMark) (c :: rest) = .exactly c :: items (some escapeMark) rest := by
  rw [not_or, not_or] at hc
  obtain ⟨hmark, hmany, hone⟩ := hc
  cases rest with
  | nil =>
    unfold items
    rw [if_neg hmany, if_neg hone]
  | cons d rest =>
    have other : ¬ some escapeMark = some c := fun h => hmark (Option.some.inj h).symm
    conv_lhs => unfold items
    rw [if_neg other, if_neg hmany, if_neg hone]

theorem items_many (rest : List Char) :
    items (some escapeMark) ('%' :: rest) = .many :: items (some escapeMark) rest := by
  cases rest with
  | nil => rfl
  | cons d rest =>
    conv_lhs => unfold items
    rw [if_neg (by decide), if_pos rfl]

/-- A text whose special characters are escaped stands for itself. -/
theorem items_literal_append (cs rest : List Char) :
    items (some escapeMark) (literal cs ++ rest) =
      cs.map .exactly ++ items (some escapeMark) rest := by
  induction cs with
  | nil => rfl
  | cons c cs ih =>
    have split : literal (c :: cs) =
        (if c = escapeMark ∨ c = '%' ∨ c = '_' then [escapeMark, c] else [c]) ++ literal cs :=
      List.flatMap_cons
    rw [split, List.append_assoc, List.map_cons, List.cons_append, ← ih]
    by_cases hc : c = escapeMark ∨ c = '%' ∨ c = '_'
    · rw [if_pos hc]
      show items (some escapeMark) (escapeMark :: c :: (literal cs ++ rest)) = _
      conv_lhs => unfold items
      rw [if_pos rfl]
    · rw [if_neg hc]
      exact items_cons hc _

/-! ## Covered texts -/

theorem anySuffix_iff {f : List Char → Bool} :
    anySuffix f text = true ↔ ∃ before after, text = before ++ after ∧ f after = true := by
  induction text with
  | nil =>
    refine ⟨fun h => ⟨[], [], rfl, h⟩, ?_⟩
    rintro ⟨before, after, hsplit, h⟩
    obtain ⟨-, rfl⟩ := List.append_eq_nil_iff.1 hsplit.symm
    exact h
  | cons c cs ih =>
    unfold anySuffix
    rw [Bool.or_eq_true, ih]
    constructor
    · rintro (h | ⟨before, after, rfl, h⟩)
      · exact ⟨[], c :: cs, rfl, h⟩
      · exact ⟨c :: before, after, rfl, h⟩
    · rintro ⟨before, after, hsplit, h⟩
      cases before with
      | nil =>
        rw [List.nil_append] at hsplit
        exact .inl (hsplit ▸ h)
      | cons d before =>
        obtain ⟨-, rfl⟩ := List.cons.inj hsplit
        exact .inr ⟨before, after, rfl, h⟩

theorem covers_exactly_append {rest : List PatternItem} :
    covers (cs.map .exactly ++ rest) text = true ↔
      ∃ part after, text = part ++ after ∧ SameLetters cs part ∧ covers rest after = true := by
  induction cs generalizing text with
  | nil =>
    refine ⟨fun h => ⟨[], text, rfl, .nil, h⟩, ?_⟩
    rintro ⟨part, after, rfl, same, h⟩
    cases same
    exact h
  | cons c cs ih =>
    rw [List.map_cons, List.cons_append]
    cases text with
    | nil =>
      refine ⟨nofun, ?_⟩
      rintro ⟨part, after, hsplit, same, -⟩
      obtain ⟨rfl, -⟩ := List.append_eq_nil_iff.1 hsplit.symm
      cases same
    | cons d text =>
      show (sameLetter c d && covers (cs.map .exactly ++ rest) text) = true ↔ _
      rw [Bool.and_eq_true, ih]
      constructor
      · rintro ⟨letter, part, after, rfl, same, h⟩
        exact ⟨d :: part, after, rfl, .cons letter same, h⟩
      · rintro ⟨part, after, hsplit, same, h⟩
        cases same with
        | cons letter same =>
          obtain ⟨rfl, rfl⟩ := List.cons.inj hsplit
          exact ⟨letter, _, after, rfl, same, h⟩

theorem covers_many {rest : List PatternItem} : covers (.many :: rest) text = true ↔
    ∃ before after, text = before ++ after ∧ covers rest after = true := anySuffix_iff

end Pattern

/-- A text holds another at a place, up to the size of letters. -/
def Place.Holds (place : Place) (needle text : List Char) : Prop :=
  ∃ before part after, text = before ++ part ++ after ∧ Pattern.SameLetters needle part ∧
    match place with
    | anywhere => True
    | start => before = []
    | finish => after = []

namespace Test

open Pattern

/-- The pattern made from a text matches the texts that hold it at the place. -/
theorem matches_partPattern (place : Place) (needle : String) (text : List Char) :
    matches? (some escapeMark) (partPattern place needle) text = true ↔
      place.Holds needle.toList text := by
  have rest : items (some escapeMark) ['%'] = [.many] := rfl
  unfold matches? Place.Holds
  cases place with
  | anywhere =>
    show covers (items _ ('%' :: (literal needle.toList ++ ['%']))) text = true ↔ _
    rw [items_many, items_literal_append, covers_many]
    simp only [covers_exactly_append, rest, covers_many]
    constructor
    · rintro ⟨before, _, rfl, part, _, rfl, same, after, last, rfl, -⟩
      exact ⟨before, part, after ++ last, by rw [List.append_assoc], same, trivial⟩
    · rintro ⟨before, part, after, rfl, same, -⟩
      exact ⟨before, part ++ after, by rw [List.append_assoc], part, after, rfl, same, after, [],
        (List.append_nil after).symm, rfl⟩
  | start =>
    show covers (items _ (literal needle.toList ++ ['%'])) text = true ↔ _
    rw [items_literal_append]
    simp only [covers_exactly_append, rest, covers_many]
    constructor
    · rintro ⟨part, _, rfl, same, after, last, rfl, -⟩
      exact ⟨[], part, after ++ last, rfl, same, rfl⟩
    · rintro ⟨before, part, after, rfl, same, rfl⟩
      exact ⟨part, after, rfl, same, after, [], (List.append_nil after).symm, rfl⟩
  | finish =>
    show covers (items _ ('%' :: literal needle.toList)) text = true ↔ _
    have whole := items_literal_append needle.toList []
    rw [List.append_nil] at whole
    rw [items_many, whole, covers_many]
    simp only [covers_exactly_append]
    constructor
    · rintro ⟨before, _, rfl, part, after, rfl, same, h⟩
      obtain rfl : after = [] := List.isEmpty_iff.1 h
      exact ⟨before, part, [], by rw [List.append_assoc], same, rfl⟩
    · rintro ⟨before, part, after, rfl, same, rfl⟩
      exact ⟨before, part ++ [], by rw [List.append_assoc], part, [], rfl, same, rfl⟩

end Test

end TableGraph
