import TableGraph.Proofs.CursorText
import TableGraph.Proofs.Walk.Key
import TableGraph.Proofs.Written.Calendar
import TableGraph.Proofs.Written.Decimal

/-!
# Row keys that are read back

Main statement: `Key.decode_encode_iff`.  A row whose key values are null or valid for their columns
is always written as a cursor.  Its key is read from that cursor, but for offsets of less than a
second, which come back as no offset; and for texts whose length has more digits than are read.
-/

namespace TableGraph

/-! ## Values of key columns -/

/-- A value that is valid for a key column. -/
inductive IsKeyValue (codec : Codec) : ColumnType → Value → Prop
  | integer {kind : IntegerKind} {label : Option String} {n : Int} (h : kind.holds n) :
    IsKeyValue codec (.basic (.integer kind) label) (.int n)
  | uuid {label : Option String} (u : Uuid) : IsKeyValue codec (.basic .uuid label) (.uuid u)
  | string {label : Option String} (s : String) : IsKeyValue codec (.basic .string label) (.text s)
  | char {label : Option String} {s : String} (h : s.length = 1) :
    IsKeyValue codec (.basic .char label) (.text s)
  | bool {label : Option String} (b : Bool) : IsKeyValue codec (.basic .bool label) (.bool b)
  | decimal {label : Option String} {negative : Bool} {c : Nat} {k : Int}
    (h : Decimal.ofScientific? negative c k = some (.finite negative c k)) :
    IsKeyValue codec (.basic .decimal label) (.decimal (.finite negative c k))
  | bytes {label : Option String} (bs : List UInt8) :
    IsKeyValue codec (.basic .bytes label) (.bytes bs)
  | date {label : Option String} (d : Date) : IsKeyValue codec (.basic .date label) (.date d)
  | time {label : Option String} (t : Time) : IsKeyValue codec (.basic .time label) (.time t)
  | dateTime {label : Option String} (t : DateTime) :
    IsKeyValue codec (.basic .dateTime label) (.dateTime t)
  | zoned {label : Option String} {t : DateTime} (h : t.time.offset.isSome) :
    IsKeyValue codec (.basic .dateTimeZoned label) (.dateTime t)
  | variant {name s : String}
    (h : ∀ e, codec.enumerations.find? (·.name = name) = some e → s ∈ e.values) :
    IsKeyValue codec (.enumeration name) (.text s)
  | ipNetwork {label : Option String} (s : String) :
    IsKeyValue codec (.basic .ipNetwork label) (.text s)
  | macAddress {label : Option String} (s : String) :
    IsKeyValue codec (.basic .macAddress label) (.text s)
  | custom {name : String} (s : String) : IsKeyValue codec (.custom name) (.text s)

namespace Value

/-- The offset of a moment. -/
def offset? : Value → Option Offset
  | time t => t.offset
  | dateTime t => t.time.offset
  | _ => none

/-- The value that is read back: an offset of less than a second counts as none. -/
def settled : Value → Value
  | time t => time t.settled
  | dateTime t => dateTime t.settled
  | v => v

/-- The value has no offset, or one that is none or at least a second. -/
def KeepsOffset (v : Value) : Prop := ∀ o, v.offset? = some o → o.IsSettled

theorem KeepsOffset.of_none {v : Value} (h : v.offset? = none) : v.KeepsOffset := by
  intro o ho
  simp [h] at ho

end Value

theorem Time.settled_eq_self {t : Time} :
    t.settled = t ↔ ∀ o, t.offset = some o → o.IsSettled := by
  obtain ⟨hour, minute, second, micro, offset, valid⟩ := t
  unfold Time.settled
  rw [Time.mk.injEq]
  cases offset with
  | none => simp
  | some o => simp [Offset.settled_eq_self]

theorem Value.settled_eq_self {v : Value} : v.settled = v ↔ v.KeepsOffset := by
  unfold KeepsOffset
  cases v with
  | time t =>
    show Value.time t.settled = _ ↔ _
    rw [Value.time.injEq, Time.settled_eq_self]
    rfl
  | dateTime t =>
    have moment : t.settled = t ↔ t.time.settled = t.time := by
      obtain ⟨date, time⟩ := t
      unfold DateTime.settled
      rw [DateTime.mk.injEq]
      exact ⟨fun h => h.2, fun h => ⟨rfl, h⟩⟩
    show Value.dateTime t.settled = _ ↔ _
    rw [Value.dateTime.injEq, moment, Time.settled_eq_self]
    rfl
  | _ => exact ⟨fun _ _ h => (nomatch h), fun _ => rfl⟩

/-! ## What clients are shown, read as they write it -/

namespace Codec

variable (codec : Codec) (path : String) (label : Option String)

theorem parseMoment_text {name s : String} {read : String → Option Value} {w : Value}
    (h : read s = some w) : parseMoment path name read (.text s) = .ok w := by
  unfold parseMoment
  dsimp only
  rw [h]

theorem parse_char {s : String} (h : s.length = 1) :
    codec.parse path (.basic .char label) (.text s) = .ok (.text s) := if_pos h

theorem parse_decimal {negative : Bool} {c : Nat} {k : Int}
    (h : Decimal.ofScientific? negative c k = some (.finite negative c k)) :
    codec.parse path (.basic .decimal label) (.text (Decimal.finite negative c k).toText) =
      .ok (.decimal (.finite negative c k)) := by
  have read := Decimal.ofText?_toText h
  show parseDecimal path (.text (Decimal.finite negative c k).toText) = _
  generalize (Decimal.finite negative c k).toText = s at read
  unfold parseDecimal
  rw [textOf_text_bind, read]
  rfl

theorem parse_bytes (bs : List UInt8) :
    codec.parse path (.basic .bytes label) (.text (Hexadecimal.toText bs)) = .ok (.bytes bs) := by
  have read := Hexadecimal.ofText?_toText bs
  show parseBasic path .bytes (.text (Hexadecimal.toText bs)) = _
  generalize Hexadecimal.toText bs = s at read
  unfold parseBasic
  dsimp only
  rw [textOf_text, Except.toOption, Option.bind_some, read]

theorem parse_date (d : Date) :
    codec.parse path (.basic .date label) (.text d.toText) = .ok (.date d) := by
  have read := d.ofText?_toText
  generalize d.toText = s at read
  show parseMoment path "date" (fun s => .date <$> Date.ofText? s) (.text s) = _
  exact parseMoment_text path (by rw [read]; rfl)

theorem parse_time (t : Time) :
    codec.parse path (.basic .time label) (.text t.toText) = .ok (.time t.settled) := by
  have read := t.ofText?_toText
  generalize t.toText = s at read
  show parseMoment path "time" (fun s => .time <$> Time.ofText? s) (.text s) = _
  exact parseMoment_text path (by rw [read]; rfl)

theorem parse_dateTime (separator : Char) (t : DateTime) :
    codec.parse path (.basic .dateTime label) (.text (t.toText separator)) =
      .ok (.dateTime t.settled) := by
  have read := DateTime.ofText?_toText separator t
  generalize t.toText separator = s at read
  show parseMoment path "datetime" (fun s => .dateTime <$> DateTime.ofText? s) (.text s) = _
  exact parseMoment_text path (by rw [read]; rfl)

theorem zoned_settled {t : DateTime} (h : t.time.offset.isSome) : zoned t.settled = t.settled := by
  refine if_pos ?_
  show (t.time.offset.map Offset.settled).isSome = true
  rw [Option.isSome_map]
  exact h

theorem parse_zoned (separator : Char) {t : DateTime} (h : t.time.offset.isSome) :
    codec.parse path (.basic .dateTimeZoned label) (.text (t.toText separator)) =
      .ok (.dateTime t.settled) := by
  have read := DateTime.ofText?_toText separator t
  generalize t.toText separator = s at read
  show parseMoment path "datetimewithtimezone"
    (fun s => (DateTime.ofText? s).map fun t => .dateTime (zoned t)) (.text s) = _
  exact parseMoment_text path (by rw [read, Option.map_some, zoned_settled h])

theorem parse_variant {name s : String}
    (h : ∀ e, codec.enumerations.find? (·.name = name) = some e → s ∈ e.values) :
    codec.parse path (.enumeration name) (.text s) = .ok (.text s) := by
  show parseEnumeration codec path name (.text s) = _
  unfold parseEnumeration
  dsimp only
  split
  next => rfl
  next e he =>
    exact if_pos (List.any_eq_true.2 ⟨s, h e he, beq_self_eq_true s⟩)

end Codec

/-! ## Cursors with texts of any length -/

namespace Cursor

/-- A component whose value has the type of its tag: one that fits, or a text of any length. -/
def IsTyped (p : CursorPart) : Prop := p.Fits ∨ ∃ s, p = ⟨.text, .text s⟩

theorem joined_congr {ps qs : List CursorPart}
    (h : List.Forall₂ (fun p q => p.chars = q.chars) ps qs) : joined ps = joined qs := by
  induction h with
  | nil => rfl
  | @cons p q ps qs hpq hrest ih =>
    cases hrest with
    | nil => exact hpq
    | cons =>
      show p.chars ++ _ = q.chars ++ _
      rw [hpq, ih]

theorem whole_of_tooLong {n : Nat} (h : Numeral.digitLimit < Numeral.digitCount n) :
    whole (Nat.toDigits 10 n) = .tooLong (Numeral.digitCount n) := by
  unfold whole
  rw [splitMinus_toDigits]
  dsimp only
  rw [isEmpty_toDigits, all_isDigit_toDigits, if_neg (by decide)]
  exact if_pos h

/-- A component is not read if its length has too many digits. -/
theorem fits_of_segment_chars {p : CursorPart} (h : IsTyped p) {pos : Nat} {rest : List Char}
    {x : CursorPart × Nat × List Char} (hread : segment pos (p.chars ++ rest) = .ok x) :
    p.Fits := by
  rcases h with fits | ⟨s, rfl⟩
  · exact fits
  rcases Nat.lt_or_ge Numeral.digitLimit (Numeral.digitCount s.utf8ByteSize) with hlong | hshort
  · have written : (CursorPart.mk .text (.text s)).chars ++ rest = CursorTag.text.name.toList ++
        '[' :: (Nat.toDigits 10 s.utf8ByteSize ++ ']' :: (':' :: s.toList ++ rest)) := by
      show (CursorTag.text.name.toList ++
        '[' :: Nat.toDigits 10 s.utf8ByteSize ++ ']' :: ':' :: s.toList) ++ rest = _
      simp only [List.append_assoc, List.cons_append]
    have close : ']' ∉ Nat.toDigits 10 s.utf8ByteSize := fun hmem =>
      absurd (Nat.isDigit_of_mem_toDigits (by decide) (by decide) hmem) (by decide)
    have cut := takeWhile_ne_append close (':' :: s.toList ++ rest)
    rw [written, segment_name] at hread
    unfold sized at hread
    dsimp only at hread
    rw [cut.1, cut.2, whole_of_tooLong hlong] at hread
    cases hread
  · exact .inr (.text hshort)

/-- Components begin with one, and go on behind a comma. -/
theorem components_eq_ok {pos : Nat} {cs : List Char} {ps : List CursorPart}
    (h : components pos cs = .ok ps) : ∃ p stop rest, segment pos cs = .ok (p, stop, rest) ∧
      ∀ c more, rest = c :: more → ∃ qs, components (stop + 1) more = .ok qs := by
  unfold components at h
  split at h
  · cases h
  next p stop hp =>
    refine ⟨p, stop, [], hp, ?_⟩
    rintro c more ⟨⟩
  next p stop c rest hp =>
    refine ⟨p, stop, c :: rest, hp, ?_⟩
    rintro c' more ⟨⟩
    split at h
    · cases h
    split at h
    · cases h
    cases hmore : components (stop + 1) rest with
    | ok qs => exact ⟨qs, rfl⟩
    | error e => rw [hmore] at h; cases h

/-- Components that are read from their text fit. -/
theorem fits_of_components_joined {ps : List CursorPart} (h : ∀ p ∈ ps, IsTyped p) {pos : Nat}
    {qs : List CursorPart} (hread : components pos (joined ps) = .ok qs) : ∀ p ∈ ps, p.Fits := by
  induction ps generalizing pos qs with
  | nil => exact fun p hp => absurd hp List.not_mem_nil
  | cons p ps ih =>
    rw [List.forall_mem_cons] at h ⊢
    obtain ⟨q, stop, rest, hq, hrest⟩ := components_eq_ok hread
    cases ps with
    | nil =>
      have alone : joined [p] = p.chars ++ [] := (List.append_nil p.chars).symm
      rw [alone] at hq
      exact ⟨fits_of_segment_chars h.1 hq, fun p hp => absurd hp List.not_mem_nil⟩
    | cons r ps =>
      have shape : joined (p :: r :: ps) = p.chars ++ ',' :: joined (r :: ps) := rfl
      rw [shape] at hq
      have fits := fits_of_segment_chars h.1 hq
      obtain ⟨stop', hp⟩ := segment_chars fits pos (',' :: joined (r :: ps))
      rw [hp] at hq
      cases hq
      obtain ⟨rs, hrs⟩ := hrest _ _ rfl
      exact ⟨fits, ih h.2 hrs⟩

end Cursor

/-! ## Components of keys -/

namespace Key

variable {codec : Codec} {c : Column} {v shown : Value}

/-- The length of a value's text is one that is read. -/
def IsShort (codec : Codec) (type : ColumnType) (v : Value) : Prop :=
  ∀ shown, codec.format type v = .ok shown →
    Numeral.digitCount shown.shown.utf8ByteSize ≤ Numeral.digitLimit

theorem isShort_of_format {type : ColumnType} (hformat : codec.format type v = .ok shown)
    (hsize : shown.shown.utf8ByteSize < 10 ^ 20) : IsShort codec type v := by
  intro shown' hshown'
  rw [hformat, Except.ok.injEq] at hshown'
  exact hshown' ▸ Cursor.digitCount_le hsize

/-- The component that a value is read from. -/
structure IsReadFrom (codec : Codec) (c : Column) (v : Value) (p : CursorPart) : Prop where
  written : ∃ q, part codec c v = .ok q ∧ q.chars = p.chars
  typed : Cursor.IsTyped p
  fits : p.Fits ↔ IsShort codec c.type v
  read : ∀ path, component codec path c p.value = .ok v.settled

theorem isReadFrom_null (codec : Codec) (c : Column) :
    IsReadFrom codec c .null ⟨c.type.cursorTag, .null⟩ where
  written := ⟨_, rfl, rfl⟩
  typed := .inl (.inl rfl)
  fits := by
    have null : codec.format c.type .null = .ok .null := by
      unfold Codec.format
      rfl
    exact ⟨fun _ => isShort_of_format null (by decide), fun _ => .inl rfl⟩
  read _ := rfl

/-- A value that is not null travels as the text that a client is shown. -/
theorem isReadFrom_text (htag : c.type.cursorTag = .text) (hv : v.isNull = false)
    (hformat : codec.format c.type v = .ok shown) (hshown : shown.isNull = false)
    (hread : ∀ path, component codec path c (.text shown.shown) = .ok v.settled) :
    IsReadFrom codec c v ⟨.text, .text shown.shown⟩ where
  written := by
    refine ⟨⟨.text, shown⟩, ?_, ?_⟩
    · unfold part
      rw [htag]
      split
      next => cases hv
      next => rw [hformat]; rfl
      next hother => exact absurd rfl hother
    · unfold CursorPart.chars
      dsimp only
      rw [hshown]
      rfl
  typed := .inr ⟨_, rfl⟩
  fits := by
    constructor
    · rintro (hnull | hreadable) shown' hshown'
      · cases hnull
      · rw [hformat, Except.ok.injEq] at hshown'
        subst hshown'
        cases hreadable with
        | text h => exact h
    · exact fun h => .inr (.text (h shown hformat))
  read := hread

/-- Truth values and numbers with a fraction are read in a way of their own, everything else is
read as clients write it. -/
theorem component_of_parse {path s : String} {w : Value} (htag : c.type.cursorTag = .text)
    (hfloat : c.type.isFloat = false) (hbool : ∀ label, c.type ≠ .basic .bool label)
    (h : codec.parse path c.type (.text s) = .ok w) :
    component codec path c (.text s) = .ok w := by
  have notInteger : ¬ c.type.isInteger = true := by
    intro hinteger
    obtain ⟨kind, hkind⟩ := Option.isSome_iff_exists.1 hinteger
    unfold ColumnType.integerKind? at hkind
    split at hkind
    next htype => rw [htype] at htag; cases htag
    next => cases hkind
  have text : component codec path c (.text s) = ofText codec path c s := by
    unfold component
    dsimp only
    rw [if_neg notInteger]
    split
    next huuid => cases huuid
    next => rfl
  rw [text]
  unfold ofText
  split
  next htype => rw [htype] at hfloat; cases hfloat
  next htype => rw [htype] at hfloat; cases hfloat
  next htype => exact absurd htype (hbool _)
  next => rw [h]

/-- A value that is read as clients write it. -/
theorem isReadFrom_parsed {s : String} (htag : c.type.cursorTag = .text)
    (hfloat : c.type.isFloat = false) (hbool : ∀ label, c.type ≠ .basic .bool label)
    (hv : v.isNull = false) (hformat : codec.format c.type v = .ok (.text s))
    (hparse : ∀ path, codec.parse path c.type (.text s) = .ok v.settled) :
    IsReadFrom codec c v ⟨.text, .text s⟩ :=
  isReadFrom_text htag hv hformat rfl fun path =>
    component_of_parse htag hfloat hbool (hparse path)

/-- Whole numbers and identifiers travel under tags of their own. -/
theorem isReadFrom_readable {p : CursorPart} (hpart : part codec c v = .ok p) (hp : p.Readable)
    (hformat : ∀ shown, codec.format c.type v = .ok shown → shown.shown = p.value.shown)
    (hread : ∀ path, component codec path c p.value = .ok v.settled) :
    IsReadFrom codec c v p where
  written := ⟨p, hpart, rfl⟩
  typed := .inl (.inr hp)
  fits := ⟨fun _ shown hshown => hformat shown hshown ▸ Cursor.digitCount_of_readable hp,
    fun _ => .inr hp⟩
  read := hread

theorem exists_isReadFrom (codec : Codec) {c : Column} {v : Value}
    (h : v = .null ∨ IsKeyValue codec c.type v) : ∃ p, IsReadFrom codec c v p := by
  rcases h with rfl | h
  · exact ⟨_, isReadFrom_null codec c⟩
  obtain ⟨name, type, nullable, ignored, autoIncrement, hasDefault⟩ := c
  dsimp only at h
  cases h with
  | @integer kind label n h =>
    refine ⟨⟨.integer kind, .int n⟩, isReadFrom_readable rfl (.integer h) ?_ fun _ => rfl⟩
    rintro shown ⟨⟩
    rfl
  | uuid u =>
    refine ⟨⟨.uuid, .uuid u⟩, isReadFrom_readable rfl (.uuid u) ?_ fun _ => rfl⟩
    rintro shown ⟨⟩
    rfl
  | bool b =>
    refine ⟨_, isReadFrom_text rfl rfl rfl rfl fun path => ?_⟩
    cases b <;> rfl
  | string s | ipNetwork s | macAddress s | custom s =>
    exact ⟨_, isReadFrom_parsed rfl rfl (fun _ => nofun) rfl rfl fun _ => rfl⟩
  | char h =>
    exact ⟨_, isReadFrom_parsed rfl rfl (fun _ => nofun) rfl rfl fun path =>
      codec.parse_char path _ h⟩
  | decimal h =>
    exact ⟨_, isReadFrom_parsed rfl rfl (fun _ => nofun) rfl rfl fun path =>
      codec.parse_decimal path _ h⟩
  | bytes bs =>
    exact ⟨_, isReadFrom_parsed rfl rfl (fun _ => nofun) rfl rfl fun path =>
      codec.parse_bytes path _ bs⟩
  | date d =>
    exact ⟨_, isReadFrom_parsed rfl rfl (fun _ => nofun) rfl rfl fun path =>
      codec.parse_date path _ d⟩
  | time t =>
    exact ⟨_, isReadFrom_parsed rfl rfl (fun _ => nofun) rfl rfl fun path =>
      codec.parse_time path _ t⟩
  | dateTime t =>
    exact ⟨_, isReadFrom_parsed rfl rfl (fun _ => nofun) rfl rfl fun path =>
      codec.parse_dateTime path _ _ t⟩
  | zoned h =>
    exact ⟨_, isReadFrom_parsed rfl rfl (fun _ => nofun) rfl rfl fun path =>
      codec.parse_zoned path _ _ h⟩
  | variant h =>
    exact ⟨_, isReadFrom_parsed rfl rfl (fun _ => nofun) rfl rfl fun path =>
      codec.parse_variant path h⟩

/-! ## Whole keys -/

variable {columns : List Column} {r : Record} {ps : List CursorPart}

theorem forall_isShort_iff
    (hps : List.Forall₂ (fun c p => IsReadFrom codec c (r.get c.name) p) columns ps) :
    (∀ c ∈ columns, IsShort codec c.type (r.get c.name)) ↔ ∀ p ∈ ps, p.Fits := by
  induction hps with
  | nil => exact ⟨fun _ _ h => absurd h List.not_mem_nil, fun _ _ h => absurd h List.not_mem_nil⟩
  | cons hp _ ih => rw [List.forall_mem_cons, List.forall_mem_cons, ih, hp.fits]

theorem forall_isTyped
    (hps : List.Forall₂ (fun c p => IsReadFrom codec c (r.get c.name) p) columns ps) :
    ∀ p ∈ ps, Cursor.IsTyped p := by
  induction hps with
  | nil => exact fun _ h => absurd h List.not_mem_nil
  | cons hp _ ih => exact List.forall_mem_cons.2 ⟨hp.typed, ih⟩

/-- The cursor of a row has the text of the components that its key is read from. -/
theorem encode_eq (hne : columns ≠ [])
    (hps : List.Forall₂ (fun c p => IsReadFrom codec c (r.get c.name) p) columns ps) :
    encode codec columns r = .ok (String.ofList (Cursor.joined ps)) := by
  have parts : ∃ qs, List.Forall₂ (fun c q => part codec c (r.get c.name) = .ok q) columns qs ∧
      List.Forall₂ (fun q p => q.chars = p.chars) qs ps := by
    clear hne
    induction hps with
    | nil => exact ⟨[], .nil, .nil⟩
    | cons hp _ ih =>
      obtain ⟨q, hq, hchars⟩ := hp.written
      obtain ⟨qs, hqs, hsame⟩ := ih
      exact ⟨q :: qs, .cons hq hqs, .cons hchars hsame⟩
  obtain ⟨qs, hqs, hsame⟩ := parts
  have some : ¬ qs.isEmpty = true := by
    intro hempty
    rw [List.isEmpty_iff.1 hempty] at hqs
    exact hne (List.forall₂_nil_right_iff.1 hqs)
  unfold encode
  rw [mapM_eq_ok.2 hqs]
  show Cursor.encode qs = _
  unfold Cursor.encode
  rw [if_neg some, Cursor.joined_congr hsame]

/-- The key is read from components that fit. -/
theorem decode_joined (hne : columns ≠ [])
    (hps : List.Forall₂ (fun c p => IsReadFrom codec c (r.get c.name) p) columns ps)
    (hfits : ∀ p ∈ ps, p.Fits) (paths : List String) :
    decode codec columns paths (String.ofList (Cursor.joined ps)) =
      .ok (columns.map fun c => (r.get c.name).settled) := by
  have some : ¬ ps.isEmpty = true := by
    intro hempty
    rw [List.isEmpty_iff.1 hempty] at hps
    exact hne (List.forall₂_nil_right_iff.1 hps)
  have read := (Cursor.decode_encode hfits (if_neg some)).2
  unfold decode
  rw [read]
  show (if ps.length ≠ columns.length then _ else _) = _
  rw [if_neg (not_not_intro hps.length_eq.symm)]
  exact mapM_component (hps.imp fun _ _ h => h.read) paths

/-- The components fit if anything is read from their text. -/
theorem fits_of_decode_joined
    (hps : List.Forall₂ (fun c p => IsReadFrom codec c (r.get c.name) p) columns ps)
    {paths : List String} {key : List Value}
    (h : decode codec columns paths (String.ofList (Cursor.joined ps)) = .ok key) :
    ∀ p ∈ ps, p.Fits := by
  unfold decode at h
  obtain ⟨qs, hqs, -⟩ := bind_eq_ok.1 h
  unfold Cursor.decode at hqs
  split at hqs
  · cases hqs
  · rw [String.toList_ofList] at hqs
    exact Cursor.fits_of_components_joined (forall_isTyped hps) hqs

/-- The value is read back from its cursor. -/
def Survives (codec : Codec) (type : ColumnType) (v : Value) : Prop :=
  IsShort codec type v ∧ v.KeepsOffset

/--
A row whose key values are null or valid for their columns has a cursor.  If no text is too long,
the key is read from it, but for offsets of less than a second; and the very key is read from it if
and only if all its values survive.
-/
theorem decode_encode_iff (codec : Codec) (hne : columns ≠ [])
    (hvalid : ∀ c ∈ columns, r.get c.name = .null ∨ IsKeyValue codec c.type (r.get c.name))
    (paths : List String) : ∃ cursor, encode codec columns r = .ok cursor ∧
      ((∀ c ∈ columns, IsShort codec c.type (r.get c.name)) →
        decode codec columns paths cursor = .ok (columns.map fun c => (r.get c.name).settled)) ∧
      (decode codec columns paths cursor = .ok (columns.map fun c => r.get c.name) ↔
        ∀ c ∈ columns, Survives codec c.type (r.get c.name)) := by
  obtain ⟨ps, hps⟩ := exists_forall₂ fun c hc => exists_isReadFrom codec (hvalid c hc)
  have fits := forall_isShort_iff hps
  refine ⟨_, encode_eq hne hps, fun hshort => decode_joined hne hps (fits.1 hshort) paths, ?_⟩
  constructor
  · intro hread
    have all := fits_of_decode_joined hps hread
    rw [decode_joined hne hps all, Except.ok.injEq, List.map_inj_left] at hread
    exact fun c hc => ⟨fits.2 all c hc, Value.settled_eq_self.1 (hread c hc)⟩
  · intro hall
    rw [decode_joined hne hps (fits.1 fun c hc => (hall c hc).1), Except.ok.injEq,
      List.map_inj_left]
    exact fun c hc => Value.settled_eq_self.2 (hall c hc).2

/-- Key columns of many types. -/
def mixedColumns : List Column :=
  [⟨"id", .plain (.integer .big), false, false, false, false⟩,
    ⟨"code", .plain .uuid, false, false, false, false⟩,
    ⟨"letter", .plain .char, true, false, false, false⟩,
    ⟨"open", .plain .bool, false, false, false, false⟩,
    ⟨"price", .plain .decimal, false, false, false, false⟩,
    ⟨"at", .plain .dateTimeZoned, false, false, false, false⟩,
    ⟨"note", .plain .string, true, false, false, false⟩]

/-- The clock shows the fraction of a second, two hours and a half ahead of universal time. -/
def mixedMoment : DateTime :=
  ⟨⟨2024, 2, 29, by decide⟩, ⟨23, 5, 0, 70, some ⟨9000000000, by decide⟩, by decide⟩⟩

/-- A row with a key of many types, one of its values being null. -/
def mixedRow : Record :=
  [("id", .int (-7)), ("code", .uuid ⟨42#128⟩), ("letter", .text ","), ("open", .bool true),
    ("price", .decimal (.finite true 150 (-2))), ("at", .dateTime mixedMoment), ("note", .null)]

theorem decode_encode_iff_mixed : mixedColumns ≠ [] ∧
    (∀ c ∈ mixedColumns, mixedRow.get c.name = .null ∨
      IsKeyValue ⟨[], true⟩ c.type (mixedRow.get c.name)) ∧
    ∃ cursor, encode ⟨[], true⟩ mixedColumns mixedRow = .ok cursor ∧
      decode ⟨[], true⟩ mixedColumns [] cursor =
        .ok (mixedColumns.map fun c => mixedRow.get c.name) := by
  have some : mixedColumns ≠ [] := List.cons_ne_nil _ _
  have valid : ∀ c ∈ mixedColumns, mixedRow.get c.name = .null ∨
      IsKeyValue ⟨[], true⟩ c.type (mixedRow.get c.name) := by
    simp only [mixedColumns, List.forall_mem_cons]
    exact ⟨.inr (.integer (by decide)), .inr (.uuid _), .inr (.char (by decide)), .inr (.bool _),
      .inr (.decimal (by decide)), .inr (.zoned rfl), .inl rfl, fun _ h => nomatch h⟩
  have survive : ∀ c ∈ mixedColumns, Survives ⟨[], true⟩ c.type (mixedRow.get c.name) := by
    simp only [mixedColumns, List.forall_mem_cons]
    refine ⟨⟨isShort_of_format rfl (by decide), nofun⟩, ⟨isShort_of_format rfl (by decide), nofun⟩,
      ⟨isShort_of_format rfl (by decide), nofun⟩, ⟨isShort_of_format rfl (by decide), nofun⟩,
      ⟨isShort_of_format rfl (by decide +kernel), nofun⟩,
      ⟨isShort_of_format rfl (by decide +kernel), ?_⟩,
      ⟨isShort_of_format rfl (by decide), nofun⟩, fun _ h => nomatch h⟩
    rintro o ⟨⟩
    exact by decide
  obtain ⟨cursor, hcursor, -, hiff⟩ := decode_encode_iff ⟨[], true⟩ some valid []
  exact ⟨some, valid, cursor, hcursor, hiff.2 survive⟩

/-- A moment on a clock that is a microsecond ahead of universal time. -/
def moment : DateTime :=
  ⟨⟨2024, 1, 1, by decide⟩, ⟨0, 0, 0, 0, some ⟨1, by decide⟩, Time.midnight.valid⟩⟩

/-- The column of a key that is a moment. -/
def momentColumn : Column := ⟨"at", .plain .dateTimeZoned, false, false, false, false⟩

/-- The offset of a microsecond is lost on the way through the cursor. -/
theorem decode_encode_moment :
    IsKeyValue ⟨[], false⟩ momentColumn.type (.dateTime moment) ∧
    encode ⟨[], false⟩ [momentColumn] [("at", .dateTime moment)] =
      .ok "String[35]:2024-01-01 00:00:00+00:00:00.000001" ∧
    decode ⟨[], false⟩ [momentColumn] [] "String[35]:2024-01-01 00:00:00+00:00:00.000001" =
      .ok [.dateTime (moment.withOffset (some .utc))] ∧
    moment ≠ moment.withOffset (some .utc) := by
  have text : moment.toText ' ' = "2024-01-01 00:00:00+00:00:00.000001" := by decide +kernel
  have written : Cursor.joined [⟨.text, .text (moment.toText ' ')⟩] =
      "String[35]:2024-01-01 00:00:00+00:00:00.000001".toList := by
    rw [text]
    decide +kernel
  have short : Numeral.digitCount (moment.toText ' ').utf8ByteSize ≤ Numeral.digitLimit := by
    rw [text]
    exact Cursor.digitCount_le (by decide)
  have read : IsReadFrom ⟨[], false⟩ momentColumn (.dateTime moment)
      ⟨.text, .text (moment.toText ' ')⟩ :=
    isReadFrom_parsed rfl rfl (fun _ => nofun) rfl rfl fun path => Codec.parse_zoned _ path _ _ rfl
  have parts : List.Forall₂ (fun c p => IsReadFrom ⟨[], false⟩ c
      (Record.get [("at", .dateTime moment)] c.name) p) [momentColumn] [_] := .cons read .nil
  have some : [momentColumn] ≠ [] := List.cons_ne_nil _ _
  have encoded := encode_eq some parts
  have decoded := decode_joined some parts (List.forall_mem_singleton.2 (.inr (.text short))) []
  rw [written, String.ofList_toList] at encoded decoded
  exact ⟨.zoned rfl, encoded, decoded, by decide⟩

end Key

end TableGraph
