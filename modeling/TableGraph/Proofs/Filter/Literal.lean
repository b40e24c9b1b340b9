import TableGraph.Proofs.Condition
import TableGraph.Proofs.Filter.Part
import TableGraph.Proofs.Filter.Trees
import TableGraph.Sample.Filtered

/-!
# Texts that are looked for

A client looks for a text anywhere in a column, at its start or at its end.  The text stands for
itself, whatever wildcards it has, and capitals are not told from small letters.

Main statement: `Filter.accepts_part_iff`.
-/

namespace TableGraph

/-! ## Parts of texts -/

namespace Pattern

/-- The letters of a text, none of them capital: what patterns tell texts apart by. -/
def folded (s : String) : List Char := s.toList.map Char.toLower

theorem sameLetters_iff {cs ds : List Char} :
    SameLetters cs ds ↔ cs.map Char.toLower = ds.map Char.toLower := by
  unfold SameLetters sameLetter
  simp only [beq_iff_eq]
  rw [← List.forall₂_eq_eq_eq, List.forall₂_map_left_iff, List.forall₂_map_right_iff]

end Pattern

namespace Place

/-- The operator that looks for a text at the place. -/
def operator : Place → Operator
  | anywhere => .contains
  | start => .startsWith
  | finish => .endsWith

/-- The letters are part of others at the place. -/
def IsPart (place : Place) (needle text : List Char) : Prop :=
  match place with
  | anywhere => needle <:+: text
  | start => needle <+: text
  | finish => needle <:+ text

instance (place : Place) (needle text : List Char) : Decidable (place.IsPart needle text) :=
  match place with
  | anywhere => inferInstanceAs (Decidable (needle <:+: text))
  | start => inferInstanceAs (Decidable (needle <+: text))
  | finish => inferInstanceAs (Decidable (needle <:+ text))

theorem holds_iff_isPart {place : Place} {needle text : List Char} :
    place.Holds needle text ↔
      place.IsPart (needle.map Char.toLower) (text.map Char.toLower) := by
  unfold Holds IsPart
  simp only [Pattern.sameLetters_iff]
  cases place with
  | anywhere =>
    constructor
    · rintro ⟨before, part, after, rfl, same, -⟩
      exact ⟨before.map Char.toLower, after.map Char.toLower, by rw [same]; simp⟩
    · rintro ⟨front, back, h⟩
      obtain ⟨_, after, htext, hfront, -⟩ := List.map_eq_append_iff.1 h.symm
      obtain ⟨before, part, rfl, -, hpart⟩ := List.map_eq_append_iff.1 hfront
      exact ⟨before, part, after, htext, hpart.symm, trivial⟩
  | start =>
    constructor
    · rintro ⟨_, part, after, rfl, same, rfl⟩
      exact ⟨after.map Char.toLower, by rw [same]; simp⟩
    · rintro ⟨back, h⟩
      obtain ⟨part, after, htext, hpart, -⟩ := List.map_eq_append_iff.1 h.symm
      exact ⟨[], part, after, htext, hpart.symm, rfl⟩
  | finish =>
    constructor
    · rintro ⟨before, part, _, rfl, same, rfl⟩
      exact ⟨before.map Char.toLower, by rw [same]; simp⟩
    · rintro ⟨front, h⟩
      obtain ⟨before, part, htext, -, hpart⟩ := List.map_eq_append_iff.1 h.symm
      exact ⟨before, part, [], by rw [htext, List.append_nil], hpart.symm, rfl⟩

end Place

namespace Filter

/-- What a client's text stands for in the column of a field. -/
def meant (f : ColumnField) (s : String) : Except Fault Value :=
  match f.override.bind (·.input) with
  | some convert => convert (.text s)
  | none => .ok (.text s)

variable (codec : Codec) {p : Projection} {name : String} {f : ColumnField} {label : Option String}
  {sent : String}

/-- A column of texts takes what is meant as it is. -/
theorem decode_of_meant (htype : f.column.type = .basic .string label) {v : Value}
    (hmeant : meant f sent = .ok v) (path : String) : decode codec f path (.text sent) = .ok v := by
  unfold meant at hmeant
  unfold decode
  dsimp only
  cases hconvert : f.override.bind (·.input) with
  | some convert =>
    rw [hconvert] at hmeant
    dsimp only at hmeant ⊢
    rw [hmeant]
    rfl
  | none =>
    rw [hconvert] at hmeant
    dsimp only at hmeant ⊢
    rw [htype, ← hmeant]
    rfl

/-- What looks for a text in a column of texts. -/
theorem operatorTest_part (htype : f.column.type = .basic .string label) (place : Place)
    {needle : String} (hmeant : meant f sent = .ok (.text needle)) :
    operatorTest codec f (.family .string) place.operator.name (.text sent) =
      .ok (.test f.column.name (.part place needle)) := by
  have known : operatorOf f (.family .string) place.operator.name = .ok place.operator := by
    unfold operatorOf
    rw [Operator.ofName?_name]
    cases place <;> rfl
  have decoded := decode_of_meant codec htype hmeant (f.path ++ "." ++ place.operator.name)
  have asked : columnTest codec f (f.path ++ "." ++ place.operator.name) place.operator
      (.text sent) = .ok (.part place needle) := by
    unfold columnTest
    cases place <;>
    · dsimp only [Place.operator] at decoded ⊢
      rw [decoded]
      rfl
  unfold operatorTest
  rw [known]
  show (columnTest _ _ _ _ _ >>= _) = _
  rw [asked]
  rfl

/-- A tree that looks for a text is compiled to the test of the column. -/
theorem compile_part (hf : (p.filterFields.find? fun f => f.name = name) = some f)
    (hname : name ≠ "and" ∧ name ≠ "or") (hfilter : f.filter = some (.family .string))
    (htype : f.column.type = .basic .string label) (place : Place) {needle : String}
    (hmeant : meant f sent = .ok (.text needle)) :
    compile codec p (.object [(name, .object [(place.operator.name, .text sent)])]) =
      .ok (.test f.column.name (.part place needle)) := by
  obtain ⟨filter, hfilter', hsent⟩ := fieldTests_eq codec hf
  obtain rfl := Option.some.inj (hfilter.symm.trans hfilter')
  have entry : entry codec p name (.object [(place.operator.name, .text sent)]) =
      .ok [.test f.column.name (.part place needle)] := by
    unfold Filter.entry
    rw [if_neg hname.1, if_neg hname.2, hsent, List.mapM_cons,
      operatorTest_part codec htype place hmeant]
    rfl
  unfold compile ofValue
  rw [conjuncts_object, List.mapM_cons, entry]
  rfl

/--
A tree that looks for a text in a column of texts is compiled, and the condition takes the rows
whose text has the letters of that text as a part, at the start or at the end: `%`, `_` and `/`
stand for themselves wherever they are.
-/
theorem accepts_part_iff {t : Table}
    (hf : (p.filterFields.find? fun f => f.name = name) = some f)
    (hname : name ≠ "and" ∧ name ≠ "or") (hfilter : f.filter = some (.family .string))
    (htype : f.column.type = .basic .string label) (hstored : t.typeOf f.column.name = .ok .string)
    (place : Place) {needle : String} (hmeant : meant f sent = .ok (.text needle)) :
    ∃ c q, compile codec p (.object [(name, .object [(place.operator.name, .text sent)])]) = .ok c ∧
      t.bind c = .ok q ∧ ∀ (r : Row) (s : String), r.get f.column.name = .text s →
        (q.accepts r = true ↔ place.IsPart (Pattern.folded needle) (Pattern.folded s)) := by
  have bound : t.bind (.test f.column.name (.part place needle)) =
      .ok (.test f.column.name (.part place needle)) := by
    unfold Table.bind Predicate.mapM
    rw [hstored]
    rfl
  refine ⟨_, _, compile_part codec hf hname hfilter htype place hmeant, bound, fun r s hcell => ?_⟩
  have decided : (Predicate.test f.column.name (.part place needle) : Predicate Cell).holds r =
      some (Pattern.matches? (some Pattern.escapeMark) (Test.partPattern place needle)
        s.toList) := by
    show (Test.part place needle).holds (r.get f.column.name) = _
    rw [hcell]
    rfl
  unfold Predicate.accepts
  rw [decided, decide_eq_true_iff, Option.some.injEq, Test.matches_partPattern,
    Place.holds_iff_isPart]
  exact Iff.rfl

section Labels

open Sample.Moods

/-- A percent sign that is looked for is found only where there is one. -/
theorem accepts_part_iff_labels : ∃ c q,
    compile ⟨[], false⟩ labels (.object [("label", .object [("contains", .text "5%")])]) = .ok c ∧
    (Table.ofEntity [] entity).bind c = .ok q ∧
    q.accepts [("label", .text "5% off")] = true ∧
    ¬ q.accepts [("label", .text "50 off")] = true := by
  have hf : (labels.filterFields.find? fun f => f.name = "label") = some labelField := rfl
  have htype : labelField.column.type = .basic .string none := rfl
  have hstored : (Table.ofEntity [] entity).typeOf labelField.column.name = .ok .string := rfl
  have hmeant : meant labelField "5%" = .ok (.text "5%") := rfl
  obtain ⟨c, q, compiled, bound, accepts⟩ :=
    accepts_part_iff ⟨[], false⟩ hf (by decide) rfl htype hstored .anywhere hmeant
  refine ⟨c, q, compiled, bound, (accepts _ _ rfl).2 ?_, fun held => ?_⟩
  · decide +kernel
  · exact absurd ((accepts _ _ rfl).1 held) (by decide +kernel)

end Labels

end Filter

end TableGraph
