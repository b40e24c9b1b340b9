import TableGraph.Proofs.Cursor.KeyValues
import TableGraph.Sample.Filtered

/-!
# Values that are read back

A value that is valid for a type without JSON is shown as one that is read as the value itself, item
by item in arrays, but for offsets of less than a second: they are shown in full and read as none.
Whatever is read is valid and keeps its offsets, so that showing it and reading it again changes
nothing.

Main statement: `Codec.parse_format_iff`.
-/

namespace TableGraph

/-! ## Types and their values -/

namespace ColumnType

/-- There is no JSON in the type, and its enumerations are known. -/
def IsCoded (codec : Codec) : ColumnType → Prop
  | basic kind _ => kind ≠ .json
  | enumeration name => (codec.enumerations.find? (·.name = name)).isSome
  | custom _ => True
  | array inner => inner.IsCoded codec

/-- What holds of a value, or of the items of arrays at every depth. -/
def Each (P : Value → Prop) : ColumnType → Value → Prop
  | array inner, .list items => ∀ v ∈ items, inner.Each P v
  | _, v => P v

/-- The value that is read back, item by item. -/
def settled : ColumnType → Value → Value
  | array inner, .list items => .list (items.map inner.settled)
  | _, v => v.settled

end ColumnType

/-- A value that is valid for a type: null, a value of a key, a number with a fraction that is not
NaN, or a list of valid values. -/
inductive IsValid (codec : Codec) : ColumnType → Value → Prop
  | null {type : ColumnType} : IsValid codec type .null
  | key {type : ColumnType} {v : Value} (h : IsKeyValue codec type v) : IsValid codec type v
  | float {label : Option String} {x : Binary64} (h : x ≠ .nan) :
    IsValid codec (.basic .float label) (.float x)
  | double {label : Option String} {x : Binary64} (h : x ≠ .nan) :
    IsValid codec (.basic .double label) (.float x)
  | list {inner : ColumnType} {items : List Value} (h : ∀ v ∈ items, IsValid codec inner v) :
    IsValid codec (.array inner) (.list items)

theorem IsColumnValue.isValid {codec : Codec} {kind : BasicKind} {label : Option String} {v : Value}
    (h : IsColumnValue codec (.basic kind label) v) (hkind : kind ≠ .json)
    (hnan : v ≠ .float .nan) : IsValid codec (.basic kind label) v := by
  cases h with
  | key h => exact .key h
  | float x => exact .float fun hx => hnan (congrArg Value.float hx)
  | double x => exact .double fun hx => hnan (congrArg Value.float hx)
  | json h => exact absurd rfl hkind

theorem IsKeyValue.notArray {codec : Codec} {type : ColumnType} {v : Value}
    (h : IsKeyValue codec type v) (inner : ColumnType) : type ≠ .array inner := by
  cases h <;> nofun

namespace ColumnType

variable {type : ColumnType} {v : Value}

theorem settled_eq (h : ∀ inner, type ≠ .array inner) : type.settled v = v.settled := by
  cases type with
  | array inner => exact absurd rfl (h inner)
  | _ => rfl

/-- A value is read back as it is if all its offsets are kept. -/
theorem settled_eq_self : type.settled v = v ↔ type.Each Value.KeepsOffset v := by
  induction type generalizing v with
  | array inner ih =>
    cases v with
    | list items =>
      show Value.list (items.map inner.settled) = .list items ↔ ∀ v ∈ items, inner.Each _ v
      rw [Value.list.injEq]
      nth_rewrite 2 [← List.map_id items]
      rw [List.map_inj_left]
      exact forall₂_congr fun v _ => ih
    | _ => exact Value.settled_eq_self
  | _ => exact Value.settled_eq_self

end ColumnType

/-! ## Showing and reading -/

namespace Codec

variable {codec : Codec} {type : ColumnType} {v w : Value}

theorem parse_uuid (path : String) {label : Option String} (u : Uuid) :
    codec.parse path (.basic .uuid label) (.text u.toText) = .ok (.uuid u) := by
  have read := Uuid.ofText?_toText u
  generalize u.toText = s at read
  show parseBasic path .uuid (.text s) = _
  unfold parseBasic
  dsimp only
  rw [textOf_text, Except.toOption, Option.bind_some, read]

/-- A value of a key is shown as one that is read back. -/
theorem exists_format_of_key (h : IsKeyValue codec type v) : ∃ shown,
    codec.format type v = .ok shown ∧ ∀ path, codec.parse path type shown = .ok v.settled := by
  cases h with
  | integer h => exact ⟨_, rfl, fun _ => if_pos h⟩
  | uuid u => exact ⟨.text u.toText, rfl, fun path => parse_uuid path u⟩
  | string s | ipNetwork s | macAddress s | custom s | bool b => exact ⟨_, rfl, fun _ => rfl⟩
  | char h => exact ⟨_, rfl, fun path => codec.parse_char path _ h⟩
  | decimal h => exact ⟨_, rfl, fun path => codec.parse_decimal path _ h⟩
  | bytes bs => exact ⟨_, rfl, fun path => codec.parse_bytes path _ bs⟩
  | date d => exact ⟨_, rfl, fun path => codec.parse_date path _ d⟩
  | time t => exact ⟨_, rfl, fun path => codec.parse_time path _ t⟩
  | dateTime t => exact ⟨_, rfl, fun path => codec.parse_dateTime path _ _ t⟩
  | zoned h => exact ⟨_, rfl, fun path => codec.parse_zoned path _ _ h⟩
  | variant h => exact ⟨_, rfl, fun path => codec.parse_variant path h⟩

/-- A valid value is shown as one that is read back, but for offsets of less than a second. -/
theorem exists_format (h : IsValid codec type v) : ∃ shown,
    codec.format type v = .ok shown ∧
      ∀ path, codec.parse path type shown = .ok (type.settled v) := by
  induction h with
  | @null type =>
    refine ⟨.null, by unfold format; rfl, fun path => ?_⟩
    cases type <;> rfl
  | key h =>
    obtain ⟨shown, hshown, hparse⟩ := exists_format_of_key h
    exact ⟨shown, hshown, fun path => by rw [hparse, ColumnType.settled_eq h.notArray]⟩
  | float h | double h => exact ⟨_, rfl, fun _ => rfl⟩
  | @list inner items h ih =>
    obtain ⟨shown, hshown⟩ := exists_forall₂ ih
    refine ⟨.list shown, ?_, fun path => ?_⟩
    · show (Value.list <$> items.mapM (codec.format inner)) = _
      rw [mapM_eq_ok.2 (hshown.imp fun _ _ h => h.1)]
      rfl
    · have read : List.Forall₂ (fun v w => codec.parse path inner v = .ok w) shown
          (items.map inner.settled) :=
        List.forall₂_map_right_iff.2 (hshown.flip.imp fun _ _ h => h.2 path)
      show (Value.list <$> shown.mapM (codec.parse path inner)) = _
      rw [mapM_eq_ok.2 read]
      rfl

/-! ## What is read -/

theorem parseInteger_eq_ok {path : String} {kind : IntegerKind}
    (h : parseInteger path kind v = .ok w) : ∃ n, kind.holds n ∧ w = .int n := by
  unfold parseInteger at h
  dsimp only at h
  have within {n : Int} {u : Value} {words : String → String}
      (h : (if kind.holds n then .ok (.int n) else refuse path u words) = .ok w) :
      ∃ n, kind.holds n ∧ w = .int n := by
    obtain ⟨range, read⟩ := eq_ok_of_refuse h
    exact ⟨n, range, (Except.ok.inj read).symm⟩
  split at h
  · exact within h
  · split at h
    · exact within h
    · exact absurd h (refuse_ne_ok _ _ _ _)
  · obtain ⟨-, h⟩ := eq_ok_of_refuse h
    split at h
    · exact within h
    · exact absurd h (refuse_ne_ok _ _ _ _)
  · exact absurd h (refuse_ne_ok _ _ _ _)

theorem parseFloat_eq_ok {path : String} (h : parseBasic path .double v = .ok w) :
    ∃ x, w = .float x := by
  unfold parseBasic at h
  dsimp only at h
  split at h
  · obtain ⟨x, -, rfl⟩ := map_eq_ok.1 h
    exact ⟨x, rfl⟩
  · cases h
    exact ⟨_, rfl⟩
  · exact absurd h (refuse_ne_ok _ _ _ _)

theorem isSettled_of_zoned {s : String} {t : DateTime} (h : DateTime.ofText? s = some t)
    {o : Offset} (ho : (zoned t).time.offset = some o) : o.IsSettled := by
  unfold zoned at ho
  split_ifs at ho
  · exact DateTime.isSettled_of_ofText? h ho
  · cases ho
    decide

theorem parseMoment_eq_ok {path name : String} {read : String → Option Value}
    (h : parseMoment path name read v = .ok w) : ∃ s, v = .text s ∧ read s = some w := by
  unfold parseMoment at h
  split at h
  next s =>
    split at h
    next moment hmoment =>
      cases h
      exact ⟨s, rfl, hmoment⟩
    next => cases h
  next => exact absurd h (refuse_ne_ok _ _ _ _)

theorem parseDecimal_eq_ok {path : String} (h : parseDecimal path v = .ok w) :
    ∃ negative c k, Decimal.ofScientific? negative c k = some (.finite negative c k) ∧
      w = .decimal (.finite negative c k) := by
  unfold parseDecimal at h
  obtain ⟨s, -, h⟩ := bind_eq_ok.1 h
  split at h
  next => exact absurd h (refuse_ne_ok _ _ _ _)
  next d hd =>
    obtain ⟨finite, rfl⟩ := (eq_ok_of_refuse h).imp_right Except.ok.inj
    obtain ⟨negative, c, k, rfl, held⟩ := ofScientific?_of_ofText? hd finite
    exact ⟨negative, c, k, held, rfl⟩

theorem eq_text_of_beq {s : String} (h : (v == .text s) = true) : v = .text s := by
  cases v with
  | text t => rw [show t = s from eq_of_beq h]
  | _ => cases h

theorem parseEnumeration_eq_ok {path name : String} {e : Enumeration}
    (he : codec.enumerations.find? (·.name = name) = some e)
    (h : codec.parseEnumeration path name v = .ok w) : ∃ s ∈ e.values, w = .text s := by
  unfold parseEnumeration at h
  rw [he] at h
  dsimp only at h
  obtain ⟨known, rfl⟩ := (eq_ok_of_refuse h).imp_right Except.ok.inj
  obtain ⟨s, hs, same⟩ := List.any_eq_true.1 known
  exact ⟨s, hs, eq_text_of_beq same⟩

/-- What is read for a basic kind is a value of its columns and keeps its offset. -/
theorem isColumnValue_of_parseBasic {path : String} {label : Option String} {kind : BasicKind}
    (hkind : kind ≠ .json) (h : parseBasic path kind v = .ok w) :
    IsColumnValue codec (.basic kind label) w ∧ w.KeepsOffset := by
  unfold parseBasic at h
  cases kind with
  | json => exact absurd rfl hkind
  | integer kind =>
    obtain ⟨n, hn, rfl⟩ := parseInteger_eq_ok h
    exact ⟨.key (.integer hn), .of_none rfl⟩
  | decimal =>
    obtain ⟨negative, c, k, held, rfl⟩ := parseDecimal_eq_ok h
    exact ⟨.key (.decimal held), .of_none rfl⟩
  | float =>
    obtain ⟨x, rfl⟩ := parseFloat_eq_ok h
    exact ⟨.float x, .of_none rfl⟩
  | double =>
    obtain ⟨x, rfl⟩ := parseFloat_eq_ok h
    exact ⟨.double x, .of_none rfl⟩
  | bool =>
    dsimp only at h
    split at h
    · cases h
      exact ⟨.key (.bool _), .of_none rfl⟩
    · exact absurd h (refuse_ne_ok _ _ _ _)
  | char =>
    obtain ⟨s, -, h⟩ := bind_eq_ok.1 h
    split_ifs at h with one
    cases h
    exact ⟨.key (.char one), .of_none rfl⟩
  | bytes =>
    dsimp only at h
    split at h
    · cases h
      exact ⟨.key (.bytes _), .of_none rfl⟩
    · cases h
  | uuid =>
    dsimp only at h
    split at h
    · cases h
      exact ⟨.key (.uuid _), .of_none rfl⟩
    · split at h
      · cases h
        exact ⟨.key (.uuid _), .of_none rfl⟩
      · cases h
  | date =>
    obtain ⟨s, -, hread⟩ := parseMoment_eq_ok h
    obtain ⟨d, -, rfl⟩ := Option.map_eq_some_iff.1 hread
    exact ⟨.key (.date d), .of_none rfl⟩
  | time =>
    obtain ⟨s, -, hread⟩ := parseMoment_eq_ok h
    obtain ⟨t, ht, rfl⟩ := Option.map_eq_some_iff.1 hread
    exact ⟨.key (.time t), fun o ho => Time.isSettled_of_ofText? ht ho⟩
  | dateTime =>
    obtain ⟨s, -, hread⟩ := parseMoment_eq_ok h
    obtain ⟨t, ht, rfl⟩ := Option.map_eq_some_iff.1 hread
    exact ⟨.key (.dateTime t), fun o ho => DateTime.isSettled_of_ofText? ht ho⟩
  | dateTimeZoned =>
    obtain ⟨s, -, hread⟩ := parseMoment_eq_ok h
    obtain ⟨t, ht, rfl⟩ := Option.map_eq_some_iff.1 hread
    exact ⟨.key (.zoned (isSome_offset_zoned t)), fun o ho => isSettled_of_zoned ht ho⟩
  | string =>
    obtain ⟨s, -, rfl⟩ := map_eq_ok.1 h
    exact ⟨.key (.string s), .of_none rfl⟩
  | ipNetwork =>
    obtain ⟨s, -, rfl⟩ := map_eq_ok.1 h
    exact ⟨.key (.ipNetwork s), .of_none rfl⟩
  | macAddress =>
    obtain ⟨s, -, rfl⟩ := map_eq_ok.1 h
    exact ⟨.key (.macAddress s), .of_none rfl⟩

theorem parse_array_eq_ok {path : String} {inner : ColumnType} (hv : v ≠ .null)
    (h : codec.parse path (.array inner) v = .ok w) :
    ∃ (items read : List Value), items.mapM (codec.parse path inner) = .ok read ∧
      w = .list read := by
  cases v with
  | null => exact absurd rfl hv
  | list items | tuple items =>
    obtain ⟨read, hread, rfl⟩ := map_eq_ok.1 h
    exact ⟨items, read, hread, rfl⟩
  | _ => exact absurd h (refuse_ne_ok _ _ _ _)

/-- What is read for a type without JSON is valid and keeps its offsets, unless there is NaN in
it. -/
theorem isValid_of_parse {path : String} (htype : type.IsCoded codec)
    (h : codec.parse path type v = .ok w) (hnan : type.Each (· ≠ .float .nan) w) :
    IsValid codec type w ∧ type.Each Value.KeepsOffset w := by
  induction type generalizing v w with
  | basic kind label =>
    by_cases hv : v = .null
    · rw [hv, parse_null, Except.ok.injEq] at h
      exact h ▸ ⟨.null, Value.KeepsOffset.of_none rfl⟩
    · rw [codec.parse_basic hv] at h
      obtain ⟨valid, keeps⟩ := isColumnValue_of_parseBasic htype h
      exact ⟨valid.isValid htype hnan, keeps⟩
  | enumeration name =>
    by_cases hv : v = .null
    · rw [hv, parse_null, Except.ok.injEq] at h
      exact h ▸ ⟨.null, Value.KeepsOffset.of_none rfl⟩
    · obtain ⟨e, he⟩ := Option.isSome_iff_exists.1 htype
      have parsed := (codec.parse_enumeration hv path name).symm.trans h
      obtain ⟨s, hs, rfl⟩ := parseEnumeration_eq_ok he parsed
      refine ⟨.key (.variant fun e' he' => ?_), Value.KeepsOffset.of_none rfl⟩
      rw [he, Option.some.injEq] at he'
      exact he' ▸ hs
  | custom name =>
    by_cases hv : v = .null
    · rw [hv, parse_null, Except.ok.injEq] at h
      exact h ▸ ⟨.null, Value.KeepsOffset.of_none rfl⟩
    · have parsed := (codec.parse_custom hv path name).symm.trans h
      obtain ⟨s, -, rfl⟩ := map_eq_ok.1 parsed
      exact ⟨.key (.custom s), Value.KeepsOffset.of_none rfl⟩
  | array inner ih =>
    by_cases hv : v = .null
    · rw [hv, parse_null, Except.ok.injEq] at h
      exact h ▸ ⟨.null, Value.KeepsOffset.of_none rfl⟩
    · obtain ⟨items, read, hread, rfl⟩ := parse_array_eq_ok hv h
      have each : ∀ x ∈ read, IsValid codec inner x ∧ inner.Each Value.KeepsOffset x := by
        intro x hx
        obtain ⟨item, -, hitem⟩ := mem_of_mapM hread hx
        exact ih htype hitem (hnan x hx)
      exact ⟨.list fun x hx => (each x hx).1, fun x hx => (each x hx).2⟩

/--
A valid value is always shown as one that is read.  What is read is the value itself exactly if it
keeps its offsets: those of less than a second are lost.  Whatever is read for a type without JSON,
NaN apart, is valid and keeps its offsets, so that it comes back when it is shown and read again.
-/
theorem parse_format_iff (codec : Codec) {type : ColumnType} (htype : type.IsCoded codec) :
    (∀ v, IsValid codec type v → ∃ shown, codec.format type v = .ok shown ∧ ∀ path,
      codec.parse path type shown = .ok (type.settled v) ∧
        (codec.parse path type shown = .ok v ↔ type.Each Value.KeepsOffset v)) ∧
    ∀ path v w, codec.parse path type v = .ok w → type.Each (· ≠ .float .nan) w →
      (IsValid codec type w ∧ type.Each Value.KeepsOffset w) ∧
        ∃ shown, codec.format type w = .ok shown ∧ codec.parse path type shown = .ok w := by
  have shows : ∀ v, IsValid codec type v → ∃ shown, codec.format type v = .ok shown ∧ ∀ path,
      codec.parse path type shown = .ok (type.settled v) ∧
        (codec.parse path type shown = .ok v ↔ type.Each Value.KeepsOffset v) := by
    intro v hv
    obtain ⟨shown, hshown, hparse⟩ := exists_format hv
    refine ⟨shown, hshown, fun path => ⟨hparse path, ?_⟩⟩
    rw [hparse, Except.ok.injEq, ColumnType.settled_eq_self]
  refine ⟨shows, fun path v w h hnan => ?_⟩
  have read := isValid_of_parse htype h hnan
  obtain ⟨shown, hshown, hparse⟩ := shows w read.1
  exact ⟨read, shown, hshown, (hparse path).2.2 read.2⟩

section Moods

open Sample.Moods

/-- A list of lists of moods, one of which is null, comes back. -/
theorem parse_format_iff_moods :
    (ColumnType.array (.array (.enumeration moods.name))).IsCoded ⟨[moods], true⟩ ∧
    ∃ shown, format ⟨[moods], true⟩ (.array (.array (.enumeration moods.name)))
        (.list [.list [.text "sad", .null], .null]) = .ok shown ∧
      parse ⟨[moods], true⟩ "Person.moods" (.array (.array (.enumeration moods.name))) shown =
        .ok (.list [.list [.text "sad", .null], .null]) := by
  have coded : (ColumnType.array (.array (.enumeration moods.name))).IsCoded ⟨[moods], true⟩ := rfl
  have valid : IsValid ⟨[moods], true⟩ (.array (.array (.enumeration moods.name)))
      (.list [.list [.text "sad", .null], .null]) := by
    have sad : IsKeyValue ⟨[moods], true⟩ (.enumeration moods.name) (.text "sad") := by
      refine .variant fun e he => ?_
      obtain rfl : moods = e := Option.some.inj he
      decide
    refine .list (List.forall_mem_cons.2 ⟨.list ?_, List.forall_mem_singleton.2 .null⟩)
    exact List.forall_mem_cons.2 ⟨.key sad, List.forall_mem_singleton.2 .null⟩
  obtain ⟨shown, hshown, hparse⟩ := (parse_format_iff ⟨[moods], true⟩ coded).1 _ valid
  refine ⟨coded, shown, hshown, (hparse "Person.moods").2.2 ?_⟩
  refine List.forall_mem_cons.2 ⟨List.forall_mem_cons.2 ⟨nofun, ?_⟩, ?_⟩
  · exact List.forall_mem_singleton.2 nofun
  · exact List.forall_mem_singleton.2 nofun

end Moods

/-- A moment on a clock that is a microsecond ahead of universal time comes back as another one. -/
theorem parse_format_moment :
    IsValid ⟨[], false⟩ (.plain .dateTimeZoned) (.dateTime Key.moment) ∧
    format ⟨[], false⟩ (.plain .dateTimeZoned) (.dateTime Key.moment) =
      .ok (.text "2024-01-01 00:00:00+00:00:00.000001") ∧
    parse ⟨[], false⟩ "T.f" (.plain .dateTimeZoned) (.text "2024-01-01 00:00:00+00:00:00.000001") =
      .ok (.dateTime (Key.moment.withOffset (some .utc))) ∧
    Key.moment ≠ Key.moment.withOffset (some .utc) := by
  have text : Key.moment.toText ' ' = "2024-01-01 00:00:00+00:00:00.000001" := by decide +kernel
  refine ⟨.key (.zoned rfl), ?_, ?_, by decide⟩
  · rw [← text]
    rfl
  · rw [← text]
    exact parse_zoned _ _ _ _ rfl

end Codec

end TableGraph
