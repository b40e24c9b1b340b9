import TableGraph.Proofs.Walk.Cursor
import TableGraph.Proofs.Walk.Restored

/-!
# Keys in cursors

Main statement: `Key.exists_cursor`.  A key of whole numbers, texts, characters and identifiers is
written as a cursor, from which the same values are read.
-/

namespace TableGraph.Key

/-- A cell of a key column whose value a cursor carries. -/
inductive Carries : ColumnType → Cell → Prop
  | integer {kind : IntegerKind} {label : Option String} {n : Int} (h : kind.holds n)
    (kept : Cell.holds n) : Carries (.basic (.integer kind) label) (.int n)
  | string {label : Option String} {s : String}
    (h : Numeral.digitCount s.utf8ByteSize ≤ Numeral.digitLimit) :
    Carries (.basic .string label) (.text s)
  | char {label : Option String} {s : String} (h : s.length = 1) :
    Carries (.basic .char label) (.text s)
  | uuid {label : Option String} (u : Uuid) :
    Carries (.basic .uuid label) (.text (String.ofList u.digits))

variable {codec : Codec} {enumerations : List Enumeration}

theorem isKept_of_carries (enumerations : List Enumeration) {type : ColumnType} {x : Cell}
    (h : Carries type x) :
    (SqlType.ofColumnType enumerations type).IsOrdered ∧ x.isNull = false ∧ x.IsKept := by
  cases h with
  | @integer kind _ _ _ kept =>
    refine ⟨?_, rfl, kept⟩
    cases kind <;> trivial
  | _ => exact ⟨trivial, rfl, trivial⟩

/-- Rows are compared with the very cells of a key. -/
theorem restored_of_carries {type : ColumnType} {x : Cell} (h : Carries type x) :
    (SqlType.ofColumnType enumerations type).restored x = x := by
  cases h with
  | @integer kind _ _ _ kept =>
    refine SqlType.restored_int ?_ kept
    cases kind <;> rfl
  | string => exact SqlType.restored_text rfl
  | char => exact SqlType.restored_text rfl
  | uuid u => exact SqlType.restored_uuid u

/-- The value of the cell goes into a component of a cursor, and comes out of it. -/
theorem exists_part (codec : Codec) {c : Column} {x : Cell} (h : Carries c.type x) :
    ∃ v q, (SqlType.ofColumnType enumerations c.type).read x = .ok v ∧
      part codec c v = .ok q ∧ q.Readable ∧ ∀ path, component codec path c q.value = .ok v := by
  obtain ⟨name, type, nullable, ignored, autoIncrement, hasDefault⟩ := c
  cases h with
  | @integer kind _ n h =>
    refine ⟨.int n, ⟨.integer kind, .int n⟩, ?_, rfl, .integer h, fun _ => rfl⟩
    cases kind <;> rfl
  | @string _ s h => exact ⟨.text s, ⟨.text, .text s⟩, rfl, rfl, .text h, fun _ => rfl⟩
  | @char label s h =>
    have size : Numeral.digitCount s.utf8ByteSize ≤ Numeral.digitLimit := by
      refine Cursor.digitCount_le_of_length ?_
      rw [String.length_toList, h]
      decide
    refine ⟨.text s, ⟨.text, .text s⟩, rfl, rfl, .text size, fun path => ?_⟩
    have parsed : codec.parse path (.basic .char label) (.text s) = .ok (.text s) := if_pos h
    unfold component
    dsimp only
    rw [show (ColumnType.basic .char label).isInteger = false from rfl, if_neg Bool.false_ne_true]
    unfold ofText
    dsimp only
    rw [show (Value.text s).shown = s from rfl, parsed]
  | uuid u =>
    refine ⟨.uuid u, ⟨.uuid, .uuid u⟩, ?_, rfl, .uuid u, fun _ => rfl⟩
    show SqlType.found .uuid (Uuid.ofText? (String.ofList u.digits)) = _
    rw [Uuid.ofText?_digits]
    rfl

/-- Every component is read as the value that stands for its column. -/
theorem mapM_component {columns : List Column} {f : Column → Value} {parts : List CursorPart}
    (h : List.Forall₂ (fun c q => ∀ path, component codec path c q.value = .ok (f c))
      columns parts) (paths : List String) :
    ((withPaths columns paths).zip parts).mapM (fun ((c, path), q) =>
      component codec path c q.value) = .ok (columns.map f) := by
  induction h generalizing paths with
  | nil => rfl
  | cons hq _ ih =>
    cases paths with
    | nil =>
      rw [withPaths, List.zip_cons_cons, List.mapM_cons, ih]
      show (component codec _ _ _ >>= _) = _
      rw [hq]
      rfl
    | cons path paths =>
      rw [withPaths, List.zip_cons_cons, List.mapM_cons, ih]
      show (component codec _ _ _ >>= _) = _
      rw [hq]
      rfl

/-- The key of a row is written as a cursor from which it is read. -/
theorem exists_cursor {columns : List Column} {row : Row} {r : Record} (hne : columns ≠ [])
    (hcarries : ∀ c ∈ columns, Carries c.type (row.get c.name))
    (hread : ∀ c ∈ columns, (SqlType.ofColumnType enumerations c.type).read (row.get c.name) =
      .ok (r.get c.name)) (paths : List String) :
    ∃ cursor, encode codec columns r = .ok cursor ∧ cursor.isEmpty = false ∧
      decode codec columns paths cursor = .ok (columns.map fun c => r.get c.name) := by
  have each : ∀ c ∈ columns, ∃ q, part codec c (r.get c.name) = .ok q ∧ q.Readable ∧
      ∀ path, component codec path c q.value = .ok (r.get c.name) := by
    intro c hc
    obtain ⟨v, q, hv, hq⟩ := exists_part codec (hcarries c hc)
    rw [hread c hc, Except.ok.injEq] at hv
    subst hv
    exact ⟨q, hq⟩
  obtain ⟨parts, hparts⟩ := exists_forall₂ each
  have encoded : columns.mapM (fun c => part codec c (r.get c.name)) = .ok parts :=
    mapM_eq_ok.2 (hparts.imp fun _ _ h => h.1)
  have readable : ∀ q ∈ parts, q.Readable := by
    intro q hq
    obtain ⟨c, hc, hpart⟩ := mem_of_mapM encoded hq
    obtain ⟨q', hq', hreadable, -⟩ := each c hc
    rw [hpart, Except.ok.injEq] at hq'
    exact hq' ▸ hreadable
  have some : ¬ parts.isEmpty = true := by
    intro hempty
    rw [List.isEmpty_iff.1 hempty] at encoded
    exact hne (List.length_eq_zero_iff.1 (length_of_mapM encoded).symm)
  have written : Cursor.encode parts = .ok (String.ofList (Cursor.joined parts)) := if_neg some
  obtain ⟨given, decoded⟩ := Cursor.decode_encode (fun q hq => .inr (readable q hq)) written
  refine ⟨_, ?_, given, ?_⟩
  · unfold encode
    rw [encoded]
    exact written
  · unfold decode
    rw [decoded]
    show (if parts.length ≠ columns.length then _ else _) = _
    rw [if_neg (not_not_intro (length_of_mapM encoded))]
    exact mapM_component (hparts.imp fun _ _ h => h.2.2) paths

end TableGraph.Key
