import TableGraph.Proofs.Cursor.KeyValues
import TableGraph.Proofs.Faults

/-!
# Cursors that are refused

Main statement: `Key.refuses_iff`.  Whatever text a client sends as a cursor, it is read or refused as
a cursor, unless it has a number with more digits than are read: in a length, in a whole number, or
in the JSON text of a key.  Texts of at most `Numeral.digitLimit` characters have none.
-/

namespace TableGraph

/-- The fault refuses a cursor. -/
def Fault.isCursor : Fault → Bool
  | cursor _ => true
  | _ => false

theorem failsWith_error_iff {α : Type} {P : Fault → Prop} {e : Fault} :
    FailsWith P (.error e : Except Fault α) ↔ P e :=
  ⟨fun h => h e rfl, failsWith_error⟩

/-- Items are taken one after another, and the first that fails is the one that counts. -/
theorem mapM_of_first {α β : Type} {f : α → Except Fault β} {before after : List α} {x : α}
    {e : Fault} (hbefore : ∀ y ∈ before, ∃ b, f y = .ok b) (hx : f x = .error e) :
    (before ++ x :: after).mapM f = .error e := by
  induction before with
  | nil =>
    rw [List.nil_append, List.mapM_cons, hx]
    rfl
  | cons y before ih =>
    rw [List.forall_mem_cons] at hbefore
    obtain ⟨⟨b, hb⟩, hbefore⟩ := hbefore
    rw [List.cons_append, List.mapM_cons, hb, ih hbefore]
    rfl

theorem exists_first_of_mapM {α β : Type} {f : α → Except Fault β} {xs : List α} {e : Fault}
    (h : xs.mapM f = .error e) : ∃ before x after, xs = before ++ x :: after ∧
      (∀ y ∈ before, ∃ b, f y = .ok b) ∧ f x = .error e := by
  induction xs with
  | nil => cases h
  | cons x xs ih =>
    rw [List.mapM_cons] at h
    cases hx : f x with
    | error =>
      rw [hx] at h
      cases h
      exact ⟨[], x, xs, rfl, nofun, hx⟩
    | ok b =>
      cases hxs : xs.mapM f with
      | ok bs =>
        rw [hx, hxs] at h
        cases h
      | error =>
        rw [hx, hxs] at h
        cases h
        obtain ⟨before, y, after, rfl, hbefore, hy⟩ := ih hxs
        exact ⟨x :: before, y, after, rfl, List.forall_mem_cons.2 ⟨⟨b, hx⟩, hbefore⟩, hy⟩

namespace Cursor

theorem Verdict.failsWith_iff {α : Type} {reads : α → Prop} {long : Prop} {x : Except Fault α}
    (verdict : Verdict reads long x) (met : long → ∃ detail, x = .error (.unreadable detail)) :
    FailsWith (·.isCursor) x ↔ ¬ long := by
  constructor
  · intro h hlong
    obtain ⟨detail, hx⟩ := met hlong
    cases h _ hx
  · intro short
    cases verdict with
    | read => exact failsWith_ok _
    | refused => exact failsWith_error rfl
    | tooLong _ hlong => exact absurd hlong short

/-- What comes of a list of items: their results, or what comes of the first that is not read. -/
theorem Verdict.mapM {α β : Type} {reads : α → β → Prop} {long : α → Prop}
    {f : α → Except Fault β} (h : ∀ x, Verdict (reads x) (long x) (f x)) (xs : List α) :
    Verdict (List.Forall₂ reads xs) (∃ before x after, xs = before ++ x :: after ∧
      (∀ y ∈ before, ∃ b, f y = .ok b) ∧ long x) (xs.mapM f) := by
  induction xs with
  | nil => exact .read .nil
  | cons x xs ih =>
    rw [List.mapM_cons]
    have verdict := h x
    cases hx : f x with
    | error e =>
      rw [hx] at verdict
      cases verdict with
      | refused detail => exact .refused detail
      | tooLong detail long =>
        exact .tooLong detail ⟨[], x, xs, rfl, List.forall_mem_nil _, long⟩
    | ok b =>
      rw [hx] at verdict
      cases verdict with
      | read hb =>
        generalize xs.mapM f = found at ih
        cases ih with
        | read hbs => exact .read (.cons hb hbs)
        | refused detail => exact .refused detail
        | tooLong detail met =>
          obtain ⟨before, y, after, rfl, hbefore, long⟩ := met
          refine .tooLong detail ⟨x :: before, y, after, rfl, ?_, long⟩
          exact List.forall_mem_cons.2 ⟨⟨b, hx⟩, hbefore⟩

theorem decode_long {s : String} (h : LongField s.toList) :
    ∃ detail, decode s = .error (.unreadable detail) := by
  rw [decode_of_ne_nil h.ne_nil]
  exact components_long h 0

theorem Segment.Denotes.length_le {g : Segment} {p : CursorPart} (h : g.Denotes p) {s : String}
    (hs : p.value = .text s) : s.toList.length ≤ g.text.toList.length := by
  rw [← List.append_nil g.text.toList, Segment.toList_text]
  cases h with
  | null => cases hs
  | value size means =>
    cases means with
    | integer => cases hs
    | uuid => cases hs
    | text =>
      cases hs
      simp only [List.length_append, List.length_cons]
      omega

theorem length_of_behind {gs : List Segment} {ps : List CursorPart}
    (h : List.Forall₂ Segment.Denotes gs ps) : ∀ p ∈ ps, ∀ s, p.value = .text s →
      s.toList.length < (Segment.behind gs).length := by
  induction h with
  | nil => exact List.forall_mem_nil _
  | cons first later ih =>
    rw [Segment.behind, List.length_cons, List.length_append, List.forall_mem_cons]
    constructor
    · intro s hs
      have le := first.length_le hs
      omega
    · intro p hp s hs
      have lt := ih p hp s hs
      omega

/-- The text that a component holds is part of the cursor. -/
theorem length_of_segments {data : String} {gs : List Segment} {ps : List CursorPart}
    (h : Segments data.toUTF8 gs ps) {p : CursorPart} (hp : p ∈ ps) {s : String}
    (hs : p.value = .text s) : s.toList.length ≤ data.toList.length := by
  have lt := length_of_behind h.denote p hp s hs
  have text := String.toByteArray_inj.1 h.bytes
  obtain ⟨g, gs, rfl⟩ := List.exists_cons_of_ne_nil h.nonempty
  rw [Segment.behind, ← Segment.toList_joined, ← text, List.length_cons] at lt
  omega

/-- What a component holds is shown in few characters, or in fewer than the cursor has. -/
theorem length_shown_le {data : String} {ps : List CursorPart} (h : decode data = .ok ps)
    {p : CursorPart} (hp : p ∈ ps) (given : p.value.isNull = false) :
    p.value.shown.toList.length ≤ 100 ∨ p.value.shown.toList.length ≤ data.toList.length := by
  have verdict := decode_verdict data
  rw [h] at verdict
  cases verdict with
  | read segments =>
    obtain ⟨gs, segments⟩ := segments
    have within := fun s hs => length_of_segments segments hp (s := s) hs
    rcases (fits_of_decode h).2 p hp with null | readable
    · rw [null] at given
      cases given
    · cases readable with
      | integer h => exact .inl (length_toString_le h)
      | uuid u => exact .inl (length_toText_le u)
      | text => exact .inr (within _ rfl)

end Cursor

namespace Key

variable {codec : Codec} {columns : List Column} {paths : List String}

/-- A number in a JSON text that is too long is met: what is in front of it is read. -/
def MeetsLongJson (codec : Codec) (columns : List Column) (paths : List String)
    (parts : List CursorPart) : Prop :=
  ∃ before q after, (withPaths columns paths).zip parts = before ++ q :: after ∧
    (∀ r ∈ before, ∃ v, component codec r.1.2 r.1.1 r.2.value = .ok v) ∧
    LongJson q.1.1 q.2.value

section Decode

variable {s : String} {parts : List CursorPart}

theorem decode_of_error {e : Fault} (h : Cursor.decode s = .error e) :
    decode codec columns paths s = .error e := by
  unfold decode
  rw [h]
  rfl

theorem decode_of_arity (h : Cursor.decode s = .ok parts) (arity : parts.length ≠ columns.length) :
    ∃ detail, decode codec columns paths s = .error (.cursor detail) := by
  unfold decode
  rw [h]
  exact ⟨_, if_pos arity⟩

theorem decode_of_parts (h : Cursor.decode s = .ok parts) (arity : parts.length = columns.length) :
    decode codec columns paths s = ((withPaths columns paths).zip parts).mapM fun q =>
      component codec q.1.2 q.1.1 q.2.value := by
  unfold decode
  rw [h]
  exact if_neg (not_not.2 arity)

end Decode

/-- The cursor has a number that is too long: as a text, or as that of a key. -/
def TooLong (codec : Codec) (columns : List Column) (paths : List String) (s : String) : Prop :=
  Cursor.LongField s.toList ∨ ∃ parts, Cursor.decode s = .ok parts ∧
    parts.length = columns.length ∧ MeetsLongJson codec columns paths parts

/-- What comes of a text as the cursor of a key. -/
theorem decode_verdict (codec : Codec) (columns : List Column) (paths : List String) (s : String) :
    Cursor.Verdict (fun vs => ∃ parts, Cursor.decode s = .ok parts ∧
        parts.length = columns.length ∧ List.Forall₂ (fun q v => Yields codec q.1.1 q.2.value v)
          ((withPaths columns paths).zip parts) vs)
      (TooLong codec columns paths s) (decode codec columns paths s) := by
  have verdict := Cursor.decode_verdict s
  cases hparts : Cursor.decode s with
  | error e =>
    rw [hparts] at verdict
    rw [decode_of_error hparts]
    cases verdict with
    | refused detail => exact .refused detail
    | tooLong detail long => exact .tooLong detail (.inl long)
  | ok parts =>
    by_cases arity : parts.length = columns.length
    · have met := Cursor.Verdict.mapM (fun q : (Column × String) × CursorPart =>
        component_verdict codec q.1.2 q.1.1 q.2.value) ((withPaths columns paths).zip parts)
      rw [← decode_of_parts hparts arity] at met
      generalize decode codec columns paths s = found at met
      cases met with
      | read hvs => exact .read ⟨parts, rfl, arity, hvs⟩
      | refused detail => exact .refused detail
      | tooLong detail long => exact .tooLong detail (.inr ⟨parts, hparts, arity, long⟩)
    · have refused : ∃ detail, decode codec columns paths s = .error (.cursor detail) :=
        decode_of_arity hparts arity
      obtain ⟨detail, hdecode⟩ := refused
      rw [hdecode]
      exact .refused detail

/-- A number that is too long is met. -/
theorem decode_long {s : String} (h : TooLong codec columns paths s) :
    ∃ detail, decode codec columns paths s = .error (.unreadable detail) := by
  rcases h with field | ⟨parts, hparts, arity, before, q, after, hsplit, hbefore, json⟩
  · obtain ⟨detail, hdecode⟩ := Cursor.decode_long field
    exact ⟨detail, decode_of_error hdecode⟩
  · obtain ⟨detail, hcomponent⟩ := component_long codec q.1.2 json
    rw [decode_of_parts hparts arity, hsplit]
    exact ⟨detail, mapM_of_first hbefore hcomponent⟩

/-- Texts that are no longer than the numbers that are read have no number that is too long. -/
theorem not_tooLong_of_length_le {s : String} (short : s.length ≤ Numeral.digitLimit) :
    ¬ TooLong codec columns paths s := by
  rw [← String.length_toList] at short
  rintro (field | ⟨parts, hparts, -, before, q, after, hsplit, -, given, -, digits, hread⟩)
  · have least := field.length_lt
    omega
  · have hq : q ∈ (withPaths columns paths).zip parts := by
      rw [hsplit]
      exact List.mem_append_right _ List.mem_cons_self
    have size := Cursor.length_shown_le hparts (List.of_mem_zip hq).2 given
    rcases Value.ofJson_cases q.2.value.shown with ⟨v, hv, -⟩ | hmalformed | ⟨-, -, long⟩
    · rw [hread] at hv
      cases hv
    · rw [hread] at hmalformed
      cases hmalformed
    · unfold Numeral.digitLimit at long short
      omega

/--
A text is read as a cursor or refused as one exactly if it has no number that is too long, and so is
it as the cursor of a key, unless a number in a JSON text is too long.  Short texts have no such
numbers.
-/
theorem refuses_iff (codec : Codec) (columns : List Column) (paths : List String) (s : String) :
    (FailsWith (·.isCursor) (Cursor.decode s) ↔ ¬ Cursor.LongField s.toList) ∧
    (FailsWith (·.isCursor) (decode codec columns paths s) ↔ ¬ TooLong codec columns paths s) ∧
    (s.length ≤ Numeral.digitLimit → FailsWith (·.isCursor) (Cursor.decode s) ∧
      FailsWith (·.isCursor) (decode codec columns paths s)) := by
  have cursor : FailsWith (·.isCursor) (Cursor.decode s) ↔ ¬ Cursor.LongField s.toList :=
    (Cursor.decode_verdict s).failsWith_iff Cursor.decode_long
  have key : FailsWith (·.isCursor) (decode codec columns paths s) ↔
      ¬ TooLong codec columns paths s :=
    (decode_verdict codec columns paths s).failsWith_iff decode_long
  refine ⟨cursor, key, fun short => ?_⟩
  have none : ¬ TooLong codec columns paths s := not_tooLong_of_length_le short
  exact ⟨cursor.2 fun field => none (.inl field), key.2 none⟩

/-- More digits than are read make a length that is too long. -/
theorem longField_replicate {n : Nat} (long : Numeral.digitLimit < n) (rest : List Char) :
    Cursor.LongField ("Int".toList ++ '[' :: (List.replicate n '1' ++ ']' :: rest)) := by
  have digits : ∀ d ∈ List.replicate n '1', d.isDigit = true := by
    intro d hd
    rw [List.eq_of_mem_replicate hd]
    decide
  have nonempty : List.replicate n '1' ≠ [] := by
    rw [Ne, List.replicate_eq_nil_iff]
    omega
  have count : Numeral.digitLimit < (List.replicate n '1').countP Char.isDigit := by
    rw [List.countP_eq_length.2 digits, List.length_replicate]
    exact long
  exact @Cursor.LongField.length (.integer .regular) _ ⟨⟨_, .plain nonempty digits⟩, count⟩ rest

/-- A length of one digit more than are read. -/
def longLength : String :=
  String.ofList ("Int".toList ++ '[' :: (List.replicate (Numeral.digitLimit + 1) '1' ++ [']', ':']))

/-- A text that is neither read nor refused as a cursor. -/
theorem not_refuses_longLength :
    ¬ FailsWith (·.isCursor) (Cursor.decode longLength) ∧
    ¬ FailsWith (·.isCursor) (decode ⟨[], false⟩
      [⟨"id", .basic (.integer .regular) none, false, false, false, false⟩] [] longLength) := by
  have field : Cursor.LongField longLength.toList := by
    rw [longLength, String.toList_ofList]
    exact longField_replicate (Nat.lt_succ_self _) [':']
  obtain ⟨detail, hdecode⟩ := Cursor.decode_long field
  rw [decode_of_error hdecode, hdecode, failsWith_error_iff, failsWith_error_iff]
  exact ⟨Bool.false_ne_true, Bool.false_ne_true⟩

end Key

end TableGraph
