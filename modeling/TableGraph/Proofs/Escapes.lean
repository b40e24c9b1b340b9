import TableGraph.Proofs.Cursor.Refusals
import TableGraph.Proofs.FloatRange
import TableGraph.Proofs.Writable

/-!
# What is neither read nor refused

A client's value is read as a value of a column or refused with the path of the field, unless there
is a number in it that is too large: for a float, for the JSON text that it is in, or to be shown in
the refusal.  `Codec.Escapes` says which values these are and which faults they meet.

Main statement: `Codec.parse_refuses_iff`.
-/

namespace TableGraph

/-- A value of a column is written as text, or named in the refusal. -/
def ColumnType.shows (codec : Codec) : ColumnType → Value → Prop
  | .basic kind _, v =>
    match kind with
    | .bytes | .json | .uuid => False
    | .float | .double => ∀ n, v ≠ .int n
    | _ => True
  | .enumeration name, _ => (codec.enumerations.find? (·.name = name)).isSome
  | .custom _, _ => True
  | .array _, v => ∀ items, v ≠ .list items ∧ v ≠ .tuple items

namespace Codec

variable (codec : Codec) (path : String)

/-- A value meets a fault that is no refusal. -/
inductive Escapes : ColumnType → Value → Fault → Prop
  /-- A whole number is too large for a float. -/
  | large {kind : BasicKind} {label : Option String} {n : Int}
    (float : kind = .float ∨ kind = .double) (h : Binary64.limit ≤ n.natAbs) :
    Escapes (.basic kind label) (.int n) .overflow
  /-- A number in a JSON text has more digits than are read. -/
  | long {label : Option String} {s : String} {digits : Nat}
    (h : Value.ofJson s = .error (.tooManyDigits digits)) :
    Escapes (.basic .json label) (.text s) (.unreadable (Numeral.tooLongText digits))
  /-- A number that is shown has more digits than are written. -/
  | shown {type : ColumnType} {v : Value} (shows : type.shows codec v)
    (h : v.isWritable = false) : Escapes type v unwritable
  /-- A number that is outside of a width has more digits than are written. -/
  | outside {kind : IntegerKind} {label : Option String} {v : Value} {n : Int}
    (whole : BigInteger.whole? v = some n) (h : (Value.int n).isWritable = false) :
    Escapes (.basic (.integer kind) label) v unwritable
  /-- The first item of a list that is not read meets the fault. -/
  | item {inner : ColumnType} {v u : Value} {before after : List Value} {f : Fault}
    (list : v = .list (before ++ u :: after) ∨ v = .tuple (before ++ u :: after))
    (read : ∀ w ∈ before, ∃ x, codec.parse path inner w = .ok x) (h : Escapes inner u f) :
    Escapes (.array inner) v f

/-! ## Values that escape -/

variable {codec path} {type : ColumnType} {v : Value} {f : Fault}

theorem refuse_of_not_isWritable (h : v.isWritable = false) (path : String)
    (words : String → String) : refuse path v words = .error unwritable := if_neg (Bool.eq_false_iff.1 h)

theorem textOf_of_not_isWritable (h : v.isWritable = false) : textOf v = .error unwritable :=
  if_neg (Bool.eq_false_iff.1 h)

theorem not_holds_of_not_isWritable {kind : IntegerKind} {n : Int}
    (h : (Value.int n).isWritable = false) : ¬ kind.holds n = true :=
  fun holds => Bool.eq_false_iff.1 h (Value.isWritable_of_holds holds)

/-- A column of whole numbers shows whatever is sent to it. -/
theorem parseInteger_of_not_isWritable (kind : IntegerKind) (h : v.isWritable = false) :
    parseInteger path kind v = .error unwritable := by
  have refused := refuse_of_not_isWritable h path
  cases v with
  | int n => exact (if_neg (not_holds_of_not_isWritable h)).trans (refused _)
  | list | tuple | object | member => exact refused _
  | _ => cases h

theorem parseMoment_of_not_isWritable (name : String) (read : String → Option Value)
    (h : v.isWritable = false) : parseMoment path name read v = .error unwritable := by
  have refused := refuse_of_not_isWritable h path
  cases v with
  | int | list | tuple | object | member => exact refused _
  | _ => cases h

theorem parseEnumeration_of_not_isWritable {name : String} {e : Enumeration}
    (known : codec.enumerations.find? (·.name = name) = some e) (h : v.isWritable = false) :
    codec.parseEnumeration path name v = .error unwritable := by
  have refused {raw : Value} (h : raw.isWritable = false) (words : String → String) :
      (if e.values.any fun s => raw == .text s then .ok raw else refuse path raw words) =
        .error unwritable := by
    have variants : ∀ s ∈ e.values, ¬ (raw == .text s) = true := by
      intro s _ same
      cases raw <;> first | cases h | cases same
    rw [List.any_eq_false.2 variants]
    exact refuse_of_not_isWritable h path words
  unfold parseEnumeration
  rw [known]
  cases v with
  | int | list | tuple | object => exact refused h _
  | member raw =>
    have own : raw.isWritable = false := h
    exact refused own _
  | _ => cases h

theorem parse_of_shown (shows : type.shows codec v) (h : v.isWritable = false) :
    codec.parse path type v = .error unwritable := by
  have refused := refuse_of_not_isWritable h path
  have text := textOf_of_not_isWritable h
  have given : v ≠ .null := by
    rintro rfl
    cases h
  cases type with
  | basic kind label =>
    rw [codec.parse_basic given]
    unfold parseBasic
    cases kind with
    | integer kind => exact parseInteger_of_not_isWritable kind h
    | float | double =>
      cases v with
      | int n => exact absurd rfl (shows n)
      | list | tuple | object | member => exact refused _
      | _ => cases h
    | bool =>
      cases v with
      | int | list | tuple | object | member => exact refused _
      | _ => cases h
    | decimal =>
      dsimp only
      unfold parseDecimal
      rw [text]
      rfl
    | bytes | json | uuid => exact shows.elim
    | date | time | dateTime | dateTimeZoned => exact parseMoment_of_not_isWritable _ _ h
    | string | char | ipNetwork | macAddress =>
      dsimp only
      rw [text]
      rfl
  | enumeration name =>
    obtain ⟨e, known⟩ := Option.isSome_iff_exists.1 shows
    rw [codec.parse_enumeration given]
    exact parseEnumeration_of_not_isWritable known h
  | custom name =>
    rw [codec.parse_custom given, text]
    rfl
  | array inner =>
    cases v with
    | list items => exact absurd rfl (shows items).1
    | tuple items => exact absurd rfl (shows items).2
    | int | object | member => exact refused _
    | _ => cases h

theorem parseInteger_of_whole {kind : IntegerKind} {n : Int} (whole : BigInteger.whole? v = some n)
    (h : (Value.int n).isWritable = false) : parseInteger path kind v = .error unwritable := by
  have outside (words : String → String) :
      (if kind.holds n then .ok (.int n) else refuse path (.int n) words) = .error unwritable :=
    (if_neg (not_holds_of_not_isWritable h)).trans (refuse_of_not_isWritable h path words)
  cases v with
  | int m =>
    cases whole
    exact outside _
  | float x =>
    have read : (if x.isInteger then x.truncate? else none) = some n := whole
    split_ifs at read with integer
    unfold parseInteger
    dsimp only
    rw [if_pos integer, read]
    exact outside _
  | text s =>
    have read : Numeral.integer s = .ok n := eq_ok_of_toOption whole
    rw [Value.isWritable_of_integer read] at h
    cases h
  | _ => cases whole

theorem parse_of_escapes (h : Escapes codec path type v f) :
    codec.parse path type v = .error f := by
  induction h with
  | @large kind label n float h =>
    obtain ⟨sign, infinite⟩ := Binary64.ofInt_eq_infinite_iff.2 h
    have whole : floatOfWhole n = .error .overflow := by
      unfold floatOfWhole
      rw [infinite]
    rcases float with rfl | rfl <;>
    · show (Value.float <$> floatOfWhole n) = _
      rw [whole]
      rfl
  | @long label s digits h =>
    show parseJson path s = _
    unfold parseJson
    rw [h]
  | shown shows h => exact parse_of_shown shows h
  | @outside kind label v n whole h =>
    have given : v ≠ .null := by
      rintro rfl
      cases whole
    rw [codec.parse_basic given]
    exact parseInteger_of_whole whole h
  | @item inner v u before after f list read _ ih =>
    have items : (before ++ u :: after).mapM (codec.parse path inner) = .error f :=
      mapM_of_first read ih
    rcases list with rfl | rfl <;>
    · show (Value.list <$> (before ++ u :: after).mapM (codec.parse path inner)) = _
      rw [items]
      rfl

theorem Escapes.ne_conversion (h : Escapes codec path type v f) (detail : String) :
    f ≠ .conversion path detail := by
  induction h with
  | item _ _ _ ih => exact ih
  | _ => nofun

/-! ## Values that do not -/

/-- A refusal with the path of the field, or a fault that the value meets. -/
def FailsAs (codec : Codec) (path : String) (type : ColumnType) (v : Value) (f : Fault) : Prop :=
  (∃ detail, f = .conversion path detail) ∨ Escapes codec path type v f

theorem failsAs_conversion {α : Type} (detail : String) :
    FailsWith (FailsAs codec path type v) (.error (.conversion path detail) : Except Fault α) :=
  failsWith_error (.inl ⟨detail, rfl⟩)

theorem failsAs_refuse (shows : type.shows codec v) (words : String → String) :
    FailsWith (FailsAs codec path type v) (refuse path v words) := by
  cases h : v.isWritable with
  | true =>
    rw [refuse_of_isWritable h]
    exact failsAs_conversion _
  | false =>
    rw [refuse_of_not_isWritable h]
    exact failsWith_error (.inr (.shown shows h))

theorem failsAs_textOf (shows : type.shows codec v) :
    FailsWith (FailsAs codec path type v) (textOf v) := by
  cases h : v.isWritable with
  | true =>
    rw [textOf_eq_ok.2 ⟨h, rfl⟩]
    exact failsWith_ok _
  | false =>
    rw [textOf_of_not_isWritable h]
    exact failsWith_error (.inr (.shown shows h))

variable {kind : BasicKind} {label : Option String}

theorem failsAs_parseInteger (kind : IntegerKind) :
    FailsWith (FailsAs codec path (.basic (.integer kind) label) v) (parseInteger path kind v) := by
  have refused (words : String → String) :
      FailsWith (FailsAs codec path (.basic (.integer kind) label) v) (refuse path v words) := by
    refine failsAs_refuse ?_ words
    trivial
  have within {n : Int} (whole : BigInteger.whole? v = some n) (words : String → String) :
      FailsWith (FailsAs codec path (.basic (.integer kind) label) v)
        (if kind.holds n then .ok (.int n) else refuse path (.int n) words) := by
    split_ifs
    · exact failsWith_ok _
    · cases h : (Value.int n).isWritable with
      | true =>
        rw [refuse_of_isWritable h]
        exact failsAs_conversion _
      | false =>
        rw [refuse_of_not_isWritable h]
        exact failsWith_error (.inr (.outside whole h))
  unfold parseInteger
  dsimp only
  split
  · exact within rfl _
  · split
    next hread => exact within (by show (Numeral.integer _).toOption = _; rw [hread]; rfl) _
    next => exact refused _
  · split_ifs with integer
    · split
      next hread => exact within ((if_pos integer).trans hread) _
      next => exact refused _
    · exact refused _
  · exact refused _

theorem failsAs_parseMoment {type : ColumnType} (shows : type.shows codec v) (name : String)
    (read : String → Option Value) :
    FailsWith (FailsAs codec path type v) (parseMoment path name read v) := by
  unfold parseMoment
  split
  · split
    · exact failsWith_ok _
    · exact failsAs_conversion _
  · exact failsAs_refuse shows _

theorem failsAs_parseJson (s : String) :
    FailsWith (FailsAs codec path (.basic .json label) (.text s)) (parseJson path s) := by
  unfold parseJson
  split
  · exact failsWith_ok _
  · exact failsAs_conversion _
  next hread => exact failsWith_error (.inr (.long hread))

theorem failsAs_floatOfWhole (float : kind = .float ∨ kind = .double) (n : Int) :
    FailsWith (FailsAs codec path (.basic kind label) (.int n)) (floatOfWhole n) := by
  unfold floatOfWhole
  split
  next sign infinite =>
    exact failsWith_error (.inr (.large float (Binary64.ofInt_eq_infinite_iff.1 ⟨sign, infinite⟩)))
  next => exact failsWith_ok _

theorem failsAs_parseBasic :
    FailsWith (FailsAs codec path (.basic kind label) v) (parseBasic path kind v) := by
  unfold parseBasic
  cases kind with
  | integer kind => exact failsAs_parseInteger kind
  | float | double =>
    dsimp only
    split
    · exact (failsAs_floatOfWhole (by simp) _).map _
    · exact failsWith_ok _
    next whole _ => exact failsAs_refuse (by exact whole) _
  | bool =>
    dsimp only
    split
    · exact failsWith_ok _
    · exact failsAs_refuse (by trivial) _
  | decimal =>
    refine (failsAs_textOf (by trivial)).bind fun s _ => ?_
    split
    · exact failsAs_refuse (by trivial) _
    · split_ifs
      · exact failsWith_ok _
      · exact failsAs_refuse (by trivial) _
  | char =>
    refine (failsAs_textOf (by trivial)).bind fun s _ => ?_
    split_ifs
    · exact failsWith_ok _
    · exact failsAs_conversion _
  | bytes =>
    dsimp only
    split
    · exact failsWith_ok _
    · exact failsAs_conversion _
  | json =>
    dsimp only
    split
    · exact failsAs_parseJson _
    · exact failsWith_ok _
  | uuid =>
    dsimp only
    split
    · exact failsWith_ok _
    · split
      · exact failsWith_ok _
      · exact failsAs_conversion _
  | date | time | dateTime | dateTimeZoned => exact failsAs_parseMoment (by trivial) _ _
  | string | ipNetwork | macAddress => exact (failsAs_textOf (by trivial)).map _

theorem failsAs_parseEnumeration (name : String) :
    FailsWith (FailsAs codec path (.enumeration name) v) (codec.parseEnumeration path name v) := by
  unfold parseEnumeration
  dsimp only
  split
  next => exact failsWith_ok _
  next e known =>
    have shows : (ColumnType.enumeration name).shows codec v :=
      Option.isSome_iff_exists.2 ⟨e, known⟩
    split_ifs
    · exact failsWith_ok _
    · cases v with
      | member raw =>
        -- A member is shown as its value, and can be written if that can.
        have same (words : String → String) :
            refuse path raw words = refuse path (.member raw) words := rfl
        exact (same _).symm ▸ failsAs_refuse shows _
      | _ => exact failsAs_refuse shows _

theorem failsAs_parse (type : ColumnType) (v : Value) :
    FailsWith (FailsAs codec path type v) (codec.parse path type v) := by
  induction type generalizing v with
  | basic kind label =>
    by_cases given : v = .null
    · rw [given, parse_null]
      exact failsWith_ok _
    · rw [codec.parse_basic given]
      exact failsAs_parseBasic
  | enumeration name =>
    by_cases given : v = .null
    · rw [given, parse_null]
      exact failsWith_ok _
    · rw [codec.parse_enumeration given]
      exact failsAs_parseEnumeration name
  | custom name =>
    by_cases given : v = .null
    · rw [given, parse_null]
      exact failsWith_ok _
    · rw [codec.parse_custom given]
      exact (failsAs_textOf (by trivial)).map _
  | array inner ih =>
    have items {items : List Value} (list : v = .list items ∨ v = .tuple items) :
        FailsWith (FailsAs codec path (.array inner) v) (items.mapM (codec.parse path inner)) := by
      intro f failed
      obtain ⟨before, u, after, rfl, read, hu⟩ := exists_first_of_mapM failed
      exact (ih u f hu).imp_right fun escapes => .item list read escapes
    cases v with
    | null => exact failsWith_ok _
    | list => exact (items (.inl rfl)).map _
    | tuple => exact (items (.inr rfl)).map _
    | _ => exact failsAs_refuse (by exact fun _ => ⟨nofun, nofun⟩) _

/--
A value is read or refused with the path of the field exactly if it does not escape, and one that
escapes meets the fault that it escapes with: a number is too large for a float, for the JSON text
that it is in or for the refusal that shows it, in the value or in the first item of a list that is
not read.
-/
theorem parse_refuses_iff (codec : Codec) (path : String) (type : ColumnType) (v : Value) :
    (((∃ w, codec.parse path type v = .ok w) ∨
        ∃ detail, codec.parse path type v = .error (.conversion path detail)) ↔
      ¬ ∃ f, Escapes codec path type v f) ∧
    ∀ f, Escapes codec path type v f → codec.parse path type v = .error f := by
  refine ⟨⟨?_, fun kept => ?_⟩, fun f => parse_of_escapes⟩
  · rintro (⟨w, read⟩ | ⟨detail, refused⟩) ⟨f, escapes⟩
    · cases read.symm.trans (parse_of_escapes escapes)
    · cases refused.symm.trans (parse_of_escapes escapes)
      exact escapes.ne_conversion detail rfl
  · cases parsed : codec.parse path type v with
    | ok w => exact .inl ⟨w, rfl⟩
    | error f =>
      rcases failsAs_parse type v f parsed with ⟨detail, rfl⟩ | escapes
      · exact .inr ⟨detail, rfl⟩
      · exact absurd ⟨f, escapes⟩ kept

/-- A power of ten that is too large for a float is neither read nor refused. -/
theorem parse_overflows :
    parse ⟨[], false⟩ "T.f" (.plain .float) (.int (10 ^ 400 : Nat)) = .error .overflow := by
  have large : Binary64.limit ≤ ((10 ^ 400 : Nat) : Int).natAbs := by decide +kernel
  exact parse_of_escapes (.large (.inl rfl) large)

end Codec

end TableGraph
