import TableGraph.Proofs.Cursor.Refusals
import TableGraph.Proofs.Walk.Key

/-!
# Keys that columns can hold

Main statement: `Key.decode_holds`.  What is read from a cursor is null or valid for its column,
except for whole numbers: their range is that of the type the text gives, and the width of the column
is not looked at.  A key of columns without whole numbers is always one that the columns can hold.
-/

namespace TableGraph.Key

variable {codec : Codec}

/-- The column can hold the value. -/
def Holds (codec : Codec) (c : Column) (v : Value) : Prop :=
  v = .null ∨ IsColumnValue codec c.type v

/-- A whole number for a column of whole numbers is within the width of the column. -/
def Within (c : Column) (p : CursorPart) : Prop :=
  ∀ kind n, c.type.integerKind? = some kind → p.value = .int n → kind.holds n = true

/-- What a column reads from a component: null, a whole number within the width that the component
names, or a value that is valid for the column. -/
inductive Reads (codec : Codec) (c : Column) : CursorPart → Value → Prop
  | null (tag : CursorTag) : Reads codec c ⟨tag, .null⟩ .null
  | integer {named own : IntegerKind} {n : Int} (width : c.type.integerKind? = some own)
    (range : named.holds n = true) : Reads codec c ⟨.integer named, .int n⟩ (.int n)
  | value {p : CursorPart} {v : Value} (plain : c.type.integerKind? = none)
    (valid : IsColumnValue codec c.type v) : Reads codec c p v

/-- What columns read from the components of a cursor, one by one. -/
inductive ReadsAll (codec : Codec) : List Column → List CursorPart → List Value → Prop
  | nil : ReadsAll codec [] [] []
  | cons {c : Column} {p : CursorPart} {v : Value} {cs : List Column} {ps : List CursorPart}
    {vs : List Value} (first : Reads codec c p v) (later : ReadsAll codec cs ps vs) :
    ReadsAll codec (c :: cs) (p :: ps) (v :: vs)

/-! ## One component -/

theorem type_of_integerKind? {type : ColumnType} {kind : IntegerKind}
    (h : type.integerKind? = some kind) : ∃ label, type = .basic (.integer kind) label := by
  unfold ColumnType.integerKind? at h
  split at h
  next kind' label =>
    cases h
    exact ⟨label, rfl⟩
  next => cases h

theorem isColumnValue_int {type : ColumnType} {kind : IntegerKind} {n : Int}
    (h : type.integerKind? = some kind) :
    IsColumnValue codec type (.int n) ↔ kind.holds n = true := by
  obtain ⟨label, rfl⟩ := type_of_integerKind? h
  constructor
  · intro valid
    cases valid with
    | key h =>
      cases h with
      | integer h => exact h
  · exact fun range => .key (.integer range)

/-- A component is read as a value that its column can hold exactly if it is within the width. -/
theorem Reads.holds_iff {c : Column} {p : CursorPart} {v : Value} (h : Reads codec c p v) :
    Holds codec c v ↔ Within c p := by
  cases h with
  | null tag =>
    refine iff_of_true (.inl rfl) ?_
    rintro kind n - ⟨⟩
  | @integer named own n width range =>
    unfold Holds Within
    rw [isColumnValue_int width, width]
    constructor
    · rintro (⟨⟨⟩⟩ | holds) kind m hkind hm
      cases hkind
      cases hm
      exact holds
    · exact fun within => .inr (within own n rfl rfl)
  | value plain valid =>
    refine iff_of_true (.inr valid) ?_
    intro kind n hkind
    rw [plain] at hkind
    cases hkind

theorem reads_of_yields {c : Column} {p : CursorPart} {v : Value} (fits : p.Fits)
    (h : Yields codec c p.value v) : Reads codec c p v := by
  obtain ⟨tag, w⟩ := p
  dsimp only at h
  cases h with
  | null => exact .null tag
  | integer integer =>
    obtain ⟨own, width⟩ := Option.isSome_iff_exists.1 integer
    rcases fits with null | readable
    · cases null
    · cases readable with
      | integer range => exact .integer width range
  | value plain _ valid =>
    exact .value (Option.isNone_iff_eq_none.1 (Option.isSome_eq_false_iff.1 plain)) valid

/-- Whole numbers of the width that a component names are those of its column, if it names that. -/
theorem within_of_tag {c : Column} {p : CursorPart} (fits : p.Fits)
    (own : p.tag = c.type.cursorTag) : Within c p := by
  intro kind n width hn
  obtain ⟨label, htype⟩ := type_of_integerKind? width
  rw [htype] at own
  rcases fits with null | readable
  · rw [hn] at null
    cases null
  · cases readable with
    | integer range =>
      cases own
      cases hn
      exact range
    | text => cases hn
    | uuid => cases hn

/-! ## Keys -/

theorem readsAll_of_yields {columns : List Column} {paths : List String} {parts : List CursorPart}
    {vs : List Value} (arity : parts.length = columns.length) (fits : ∀ p ∈ parts, p.Fits)
    (h : List.Forall₂ (fun q v => Yields codec q.1.1 q.2.value v)
      ((withPaths columns paths).zip parts) vs) : ReadsAll codec columns parts vs := by
  induction columns generalizing paths parts vs with
  | nil =>
    obtain rfl := List.length_eq_zero_iff.1 arity
    cases h
    exact .nil
  | cons c columns ih =>
    obtain ⟨p, parts, rfl⟩ := List.exists_cons_of_length_eq_add_one arity
    rw [List.forall_mem_cons] at fits
    have arity := Nat.succ.inj arity
    cases paths with
    | nil =>
      cases h with
      | cons first later => exact .cons (reads_of_yields fits.1 first) (ih arity fits.2 later)
    | cons path paths =>
      cases h with
      | cons first later => exact .cons (reads_of_yields fits.1 first) (ih arity fits.2 later)

theorem ReadsAll.holds_iff {columns : List Column} {parts : List CursorPart} {vs : List Value}
    (h : ReadsAll codec columns parts vs) :
    List.Forall₂ (Holds codec) columns vs ↔ List.Forall₂ Within columns parts := by
  induction h with
  | nil => exact iff_of_true .nil .nil
  | cons first later ih => rw [List.forall₂_cons, List.forall₂_cons, first.holds_iff, ih]

/-- The components that a key was read from. -/
theorem exists_readsAll {columns : List Column} {paths : List String} {s : String}
    {vs : List Value} (h : decode codec columns paths s = .ok vs) :
    ∃ parts, Cursor.decode s = .ok parts ∧ parts.length = columns.length ∧
      (∀ p ∈ parts, p.Fits) ∧ ReadsAll codec columns parts vs := by
  have verdict := decode_verdict codec columns paths s
  rw [h] at verdict
  cases verdict with
  | read hvs =>
    obtain ⟨parts, hparts, arity, hvs⟩ := hvs
    have fits := (Cursor.fits_of_decode hparts).2
    exact ⟨parts, hparts, arity, fits, readsAll_of_yields arity fits hvs⟩

theorem within_of_tags {columns : List Column} {parts : List CursorPart}
    (fits : ∀ p ∈ parts, p.Fits)
    (own : List.Forall₂ (fun c p => p.tag = c.type.cursorTag) columns parts) :
    List.Forall₂ Within columns parts := by
  rw [List.forall₂_iff_zip] at own ⊢
  exact ⟨own.1, fun hq => within_of_tag (fits _ (List.of_mem_zip hq).2) (own.2 hq)⟩

theorem within_of_plain {columns : List Column} {parts : List CursorPart}
    (arity : parts.length = columns.length) (plain : ∀ c ∈ columns, c.type.isInteger = false) :
    List.Forall₂ Within columns parts := by
  rw [List.forall₂_iff_zip]
  refine ⟨arity.symm, fun {c p} hq kind n width => ?_⟩
  have none := plain c (List.of_mem_zip hq).1
  unfold ColumnType.isInteger at none
  rw [width] at none
  cases none

/-! ## Numbers that columns cannot hold -/

/-- For every width there is another one with a number that is not within it. -/
theorem exists_outside (kind : IntegerKind) :
    ∃ (named : IntegerKind) (n : Int), named.holds n = true ∧ kind.holds n = false := by
  cases kind with
  | bigUnsigned => exact ⟨.tiny, -1, rfl, rfl⟩
  | _ => exact ⟨.bigUnsigned, 18446744073709551615, rfl, rfl⟩

/-- A component for a column: a whole number for one of them, and null for the others. -/
def sent (c : Column) (named : IntegerKind) (n : Int) (d : Column) : CursorPart :=
  if d = c then ⟨.integer named, .int n⟩ else ⟨.text, .null⟩

theorem sent_cases (c : Column) (named : IntegerKind) (n : Int) (d : Column) :
    (d = c ∧ sent c named n d = ⟨.integer named, .int n⟩) ∨ sent c named n d = ⟨.text, .null⟩ := by
  unfold sent
  split_ifs with h
  · exact .inl ⟨h, rfl⟩
  · exact .inr rfl

theorem fits_sent {named : IntegerKind} {n : Int} (range : named.holds n = true) (c d : Column) :
    (sent c named n d).Fits := by
  rcases sent_cases c named n d with ⟨-, h⟩ | h
  · exact .inr (h ▸ .integer range)
  · exact .inl (h ▸ rfl)

theorem component_sent {c : Column} (integer : c.type.isInteger = true) (named : IntegerKind)
    (n : Int) (d : Column) (path : String) :
    component codec path d (sent c named n d).value = .ok (sent c named n d).value := by
  rcases sent_cases c named n d with ⟨rfl, h⟩ | h
  · rw [h]
    exact if_pos integer
  · rw [h]
    rfl

/-- A column of whole numbers can be sent a number that it cannot hold. -/
theorem exists_not_holds {columns : List Column} {c : Column} (hc : c ∈ columns)
    (integer : c.type.isInteger = true) (codec : Codec) (paths : List String) :
    ∃ s vs, decode codec columns paths s = .ok vs ∧ ¬ List.Forall₂ (Holds codec) columns vs := by
  obtain ⟨own, width⟩ := Option.isSome_iff_exists.1 integer
  obtain ⟨named, n, range, outside⟩ := exists_outside own
  have some : columns.map (sent c named n) ≠ [] := by
    rw [Ne, List.map_eq_nil_iff]
    exact List.ne_nil_of_mem hc
  obtain ⟨s, -, hparts⟩ := Cursor.exists_text some
    (List.forall_mem_map.2 fun d _ => fits_sent range c d)
  refine ⟨s, columns.map fun d => (sent c named n d).value, ?_, ?_⟩
  -- The key is read whatever the other columns are, as null stands for each of them.
  · rw [decode_of_parts hparts (List.length_map _)]
    refine mapM_component ?_ paths
    rw [List.forall₂_map_right_iff, List.forall₂_same]
    exact fun d _ => component_sent integer named n d
  · rw [List.forall₂_map_right_iff, List.forall₂_same]
    intro holds
    have held : Holds codec c (.int n) := by
      have own := holds c hc
      rwa [sent, if_pos rfl] at own
    rcases held with ⟨⟨⟩⟩ | valid
    rw [isColumnValue_int width, outside] at valid
    cases valid

/--
A text is read as components that the columns take as they are, refused as a cursor, or has a number
that is too long.  What is read is what the columns can hold exactly if every whole number is within
the width of its column, as it is if the text names the types of the columns; and columns can hold
all that is read for them exactly if none of them has whole numbers.
-/
theorem decode_holds (codec : Codec) (columns : List Column) (paths : List String) :
    (∀ s, Cursor.Verdict (fun vs => ∃ parts, Cursor.decode s = .ok parts ∧
        ReadsAll codec columns parts vs ∧
        (List.Forall₂ (Holds codec) columns vs ↔ List.Forall₂ Within columns parts) ∧
        (List.Forall₂ (fun c p => p.tag = c.type.cursorTag) columns parts →
          List.Forall₂ (Holds codec) columns vs))
      (TooLong codec columns paths s) (decode codec columns paths s)) ∧
    ((∀ s vs, decode codec columns paths s = .ok vs → List.Forall₂ (Holds codec) columns vs) ↔
      ∀ c ∈ columns, c.type.isInteger = false) := by
  refine ⟨fun s => ?_, fun all c hc => ?_, fun plain s vs h => ?_⟩
  · have verdict := decode_verdict codec columns paths s
    cases hdecode : decode codec columns paths s with
    | error e =>
      rw [hdecode] at verdict
      cases verdict with
      | refused detail => exact .refused detail
      | tooLong detail long => exact .tooLong detail long
    | ok vs =>
      obtain ⟨parts, hparts, -, fits, reads⟩ := exists_readsAll hdecode
      refine .read ⟨parts, hparts, reads, reads.holds_iff, ?_⟩
      exact fun own => reads.holds_iff.2 (within_of_tags fits own)
  · rw [← Bool.not_eq_true]
    intro integer
    obtain ⟨s, vs, h, escapes⟩ := exists_not_holds hc integer codec paths
    exact escapes (all s vs h)
  · obtain ⟨parts, -, arity, -, reads⟩ := exists_readsAll h
    exact reads.holds_iff.2 (within_of_plain arity plain)

/-- A column of the smallest width is sent a number under the type of a larger one. -/
theorem decode_wider_than_column :
    decode ⟨[], false⟩ [⟨"k", .basic (.integer .tiny) none, false, false, false, false⟩] []
      "BigInt[4]:9999" = .ok [.int 9999] ∧
    ¬ Holds ⟨[], false⟩ ⟨"k", .basic (.integer .tiny) none, false, false, false, false⟩
      (.int 9999) := by
  have fits : ∀ p ∈ [(⟨.integer .big, .int 9999⟩ : CursorPart)], p.Fits :=
    List.forall_mem_singleton.2 (.inr (.integer (by decide)))
  have hparts : Cursor.decode "BigInt[4]:9999" = .ok [⟨.integer .big, .int 9999⟩] :=
    (Cursor.decode_encode fits (by rfl)).2
  refine ⟨(decode_of_parts hparts rfl).trans rfl, ?_⟩
  rintro (⟨⟨⟩⟩ | valid)
  exact absurd ((isColumnValue_int rfl).1 valid) (by decide)

end TableGraph.Key
