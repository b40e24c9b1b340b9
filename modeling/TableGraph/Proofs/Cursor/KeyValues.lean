import TableGraph.Proofs.Cursor.Grammar
import TableGraph.Proofs.JsonReading
import TableGraph.Proofs.Writable
import TableGraph.Proofs.Written.Key

/-!
# What components of keys are read as

Main statement: `Key.component_verdict`.  A component of a cursor is read as null, as the whole number it
is if its column has whole numbers, and otherwise as a value that is valid for its column; or it is
refused as a cursor; or the number in a JSON text is too long.
-/

namespace TableGraph

/-- A value that is valid for a column: one of a key, a number with a fraction, or a value made of
what JSON has. -/
inductive IsColumnValue (codec : Codec) : ColumnType → Value → Prop
  | key {type : ColumnType} {v : Value} (h : IsKeyValue codec type v) : IsColumnValue codec type v
  | float {label : Option String} (x : Binary64) :
    IsColumnValue codec (.basic .float label) (.float x)
  | double {label : Option String} (x : Binary64) :
    IsColumnValue codec (.basic .double label) (.float x)
  | json {label : Option String} {v : Value} (h : v.HasText) :
    IsColumnValue codec (.basic .json label) v

namespace Codec

/-- What comes of a client's text: a valid value, a value that does not fit, or a number in a JSON
text that is too long. -/
inductive Parsed (codec : Codec) (type : ColumnType) (s : String) : Except Fault Value → Prop
  | value {v : Value} (h : IsColumnValue codec type v) : Parsed codec type s (.ok v)
  | refused (path detail : String) : Parsed codec type s (.error (.conversion path detail))
  | tooLong {digits : Nat} (detail : String) (json : ∃ label, type = .basic .json label)
    (long : Value.ofJson s = .error (.tooManyDigits digits)) :
    Parsed codec type s (.error (.unreadable detail))

variable (codec : Codec) (path : String) {label : Option String}

theorem parsed_refuse {type : ColumnType} {s : String} {v : Value} (h : v.isWritable = true)
    (words : String → String) : Parsed codec type s (refuse path v words) := by
  rw [refuse_of_isWritable h]
  exact .refused _ _

theorem parsed_integer (kind : IntegerKind) (s : String) :
    Parsed codec (.basic (.integer kind) label) s (parseInteger path kind (.text s)) := by
  unfold parseInteger
  dsimp only
  split
  next n hread =>
    split_ifs with within
    · exact .value (.key (.integer within))
    · exact codec.parsed_refuse path (Value.isWritable_of_integer hread) _
  next => exact .refused _ _

theorem ofScientific?_of_ofText? {s : String} {d : Decimal} (h : Decimal.ofText? s = some d)
    (finite : d.isFinite = true) : ∃ negative c k, d = .finite negative c k ∧
      Decimal.ofScientific? negative c k = some (.finite negative c k) := by
  unfold Decimal.ofText? at h
  dsimp only at h
  split_ifs at h
  · cases h
    cases finite
  · split at h
    · cases h
      cases finite
    · cases h
      cases finite
    · obtain ⟨⟨c, k⟩, -, hscaled⟩ := Option.bind_eq_some_iff.1 h
      dsimp only at hscaled
      have held := hscaled
      unfold Decimal.ofScientific? at held
      split_ifs at held
      cases held
      exact ⟨_, c, k, rfl, hscaled⟩

theorem parsed_decimal (s : String) :
    Parsed codec (.basic .decimal label) s (parseDecimal path (.text s)) := by
  unfold parseDecimal
  rw [textOf_text_bind]
  split
  · exact .refused _ _
  next d hd =>
    split_ifs with finite
    · obtain ⟨negative, c, k, rfl, h⟩ := ofScientific?_of_ofText? hd finite
      exact .value (.key (.decimal h))
    · exact .refused _ _

theorem parsed_moment {type : ColumnType} {name : String} {read : String → Option Value}
    (s : String) (valid : ∀ v, read s = some v → IsKeyValue codec type v) :
    Parsed codec type s (parseMoment path name read (.text s)) := by
  unfold parseMoment
  dsimp only
  cases hread : read s with
  | some v => exact .value (.key (valid v hread))
  | none => exact .refused _ _

theorem isSome_offset_zoned (t : DateTime) : (zoned t).time.offset.isSome := by
  unfold zoned
  split_ifs with h
  · exact h
  · rfl

theorem parsed_json (s : String) :
    Parsed codec (.basic .json label) s (parseJson path s) := by
  unfold parseJson
  rcases Value.ofJson_cases s with ⟨v, hv, valid⟩ | hread | ⟨digits, hread, -⟩
  · rw [hv]
    exact .value (.json valid)
  · rw [hread]
    exact .refused _ _
  · rw [hread]
    exact .tooLong _ ⟨label, rfl⟩ hread

theorem parsed_enumeration (name s : String) :
    Parsed codec (.enumeration name) s (codec.parseEnumeration path name (.text s)) := by
  unfold parseEnumeration
  dsimp only
  split
  next hnone =>
    refine .value (.key (.variant ?_))
    intro e he
    rw [hnone] at he
    cases he
  next e he =>
    split_ifs with known
    · refine .value (.key (.variant ?_))
      intro e' he'
      obtain rfl := Option.some.inj (he.symm.trans he')
      obtain ⟨x, hx, same⟩ := List.any_eq_true.1 known
      obtain rfl : s = x := eq_of_beq same
      exact hx
    · exact .refused _ _

theorem parsed_text (type : ColumnType) (s : String) :
    Parsed codec type s (codec.parse path type (.text s)) := by
  cases type with
  | enumeration name => exact codec.parsed_enumeration path name s
  | custom name => exact .value (.key (.custom s))
  | array inner => exact .refused _ _
  | basic kind label =>
    cases kind with
    | integer kind => exact codec.parsed_integer path kind s
    | decimal => exact codec.parsed_decimal path s
    | json => exact codec.parsed_json path s
    | bool | float | double => exact .refused _ _
    | string => exact .value (.key (.string s))
    | ipNetwork => exact .value (.key (.ipNetwork s))
    | macAddress => exact .value (.key (.macAddress s))
    | char =>
      show Parsed codec _ s (parseBasic path .char (.text s))
      unfold parseBasic
      rw [textOf_text_bind]
      split_ifs with one
      · exact .value (.key (.char one))
      · exact .refused _ _
    | bytes =>
      show Parsed codec _ s (parseBasic path .bytes (.text s))
      unfold parseBasic
      dsimp only
      split
      · exact .value (.key (.bytes _))
      · exact .refused _ _
    | uuid =>
      show Parsed codec _ s (parseBasic path .uuid (.text s))
      unfold parseBasic
      dsimp only
      split
      · exact .value (.key (.uuid _))
      · exact .refused _ _
    | date =>
      show Parsed codec _ s (parseMoment path "date" (fun s => .date <$> Date.ofText? s) (.text s))
      refine codec.parsed_moment path s ?_
      intro v hv
      obtain ⟨d, -, rfl⟩ := Option.map_eq_some_iff.1 hv
      exact .date d
    | time =>
      show Parsed codec _ s (parseMoment path "time" (fun s => .time <$> Time.ofText? s) (.text s))
      refine codec.parsed_moment path s ?_
      intro v hv
      obtain ⟨t, -, rfl⟩ := Option.map_eq_some_iff.1 hv
      exact .time t
    | dateTime =>
      show Parsed codec _ s
        (parseMoment path "datetime" (fun s => .dateTime <$> DateTime.ofText? s) (.text s))
      refine codec.parsed_moment path s ?_
      intro v hv
      obtain ⟨t, -, rfl⟩ := Option.map_eq_some_iff.1 hv
      exact .dateTime t
    | dateTimeZoned =>
      show Parsed codec _ s (parseMoment path "datetimewithtimezone"
        (fun s => (DateTime.ofText? s).map fun t => .dateTime (zoned t)) (.text s))
      refine codec.parsed_moment path s ?_
      intro v hv
      obtain ⟨t, -, rfl⟩ := Option.map_eq_some_iff.1 hv
      exact .zoned (isSome_offset_zoned t)

end Codec

/-! ## Components -/

namespace Key

variable {codec : Codec}

/-- The number in the JSON text of a JSON column is too long. -/
def LongJson (c : Column) (v : Value) : Prop :=
  v.isNull = false ∧ (∃ label, c.type = .basic .json label) ∧
    ∃ digits, Value.ofJson v.shown = .error (.tooManyDigits digits)

/-- What a component may be read as: null as null, a whole number as itself in a column of whole
numbers, whatever its width, and everything else as a value that is valid for its column. -/
inductive Yields (codec : Codec) (c : Column) : Value → Value → Prop
  | null : Yields codec c .null .null
  | integer {n : Int} (h : c.type.isInteger = true) : Yields codec c (.int n) (.int n)
  | value {v w : Value} (h : c.type.isInteger = false) (given : v.isNull = false)
    (valid : IsColumnValue codec c.type w) : Yields codec c v w

theorem ofText_verdict (codec : Codec) (path : String) (c : Column) (s : String) :
    Cursor.Verdict (IsColumnValue codec c.type) (∃ digits, (∃ label, c.type = .basic .json label) ∧
      Value.ofJson s = .error (.tooManyDigits digits)) (ofText codec path c s) := by
  unfold ofText
  split
  next htype =>
    rw [htype]
    split
    · exact .read (.float _)
    · exact .refused _
  next htype =>
    rw [htype]
    split
    · exact .read (.double _)
    · exact .refused _
  next htype =>
    rw [htype]
    split
    · exact .read (.key (.bool _))
    · exact .refused _
  next =>
    have parsed := codec.parsed_text path c.type s
    generalize codec.parse path c.type (.text s) = x at parsed
    cases parsed with
    | value h => exact .read h
    | refused path detail => exact .refused _
    | tooLong detail json long => exact .tooLong detail ⟨_, json, long⟩

/-- What comes of a component. -/
theorem component_verdict (codec : Codec) (path : String) (c : Column) (v : Value) :
    Cursor.Verdict (Yields codec c v) (LongJson c v) (component codec path c v) := by
  have given {v : Value} (h : v = .null → False) : v.isNull = false := by
    cases v <;> first | rfl | exact absurd rfl h
  unfold component
  split
  · exact .read .null
  next hv =>
    split_ifs with integer
    · split
      · exact .read (.integer integer)
      · exact .refused _
    have other : c.type.isInteger = false := Bool.eq_false_iff.2 integer
    split
    next htype =>
      refine .read (.value other rfl ?_)
      rw [htype]
      exact .key (.uuid _)
    next v _ _ _ =>
      have verdict := ofText_verdict codec path c v.shown
      generalize ofText codec path c v.shown = x at verdict
      cases verdict with
      | read h => exact .read (.value other (given hv) h)
      | refused detail => exact .refused detail
      | tooLong detail long =>
        obtain ⟨digits, json, long⟩ := long
        exact .tooLong detail ⟨given hv, json, digits, long⟩

/-- A number that is too long is met. -/
theorem component_long (codec : Codec) (path : String) {c : Column} {v : Value} (h : LongJson c v) :
    ∃ detail, component codec path c v = .error (.unreadable detail) := by
  obtain ⟨given, ⟨label, json⟩, digits, long⟩ := h
  have plain : ¬ c.type.isInteger = true := by
    rw [json]
    rintro ⟨⟩
  have parsed : codec.parse path (.basic .json label) (.text v.shown) =
      .error (.unreadable (Numeral.tooLongText digits)) := by
    show Codec.parseJson path v.shown = _
    unfold Codec.parseJson
    rw [long]
  have read : ofText codec path c v.shown = .error (.unreadable (Numeral.tooLongText digits)) := by
    unfold ofText
    rw [json]
    dsimp only
    rw [parsed]
  refine ⟨Numeral.tooLongText digits, ?_⟩
  rw [← read]
  unfold component
  split
  · cases given
  next =>
    rw [if_neg plain, json]

end Key

end TableGraph
