import TableGraph.Schema.Entity
import TableGraph.Value.Json
import TableGraph.Value.Shown

/-!
# The codec between column values and client values

`Codec.format` turns a value of a column into what a client is shown; `Codec.parse` turns what a
client sends into a value of a column.  Wide integers and floats stay numbers, everything without a
number or truth value of its own is shown as text, lists are treated item by item.

`Codec.parse` reports what does not fit as a conversion fault with the path of the field.  Some
inputs fail otherwise: a whole number too large for a float, JSON text with a whole number of more
digits than are read, and whole numbers of more digits than are written where they are shown.
-/

namespace TableGraph

/-- What the codec depends on: the known enumerations, and the notation of moments. -/
structure Codec where
  enumerations : List Enumeration
  /-- Moments are written with a `T` between date and time. -/
  rfc3339 : Bool

namespace Codec

/-! ## Conversions between types -/

/-- A binary64 number without its fraction. -/
def wholeOfFloat (x : Binary64) : Except Fault Int :=
  match x with
  | .nan => .error (.unreadable "cannot convert float NaN to integer")
  | .infinite _ => .error .overflow
  | x =>
    match x.truncate? with
    | some n => .ok n
    | none => .error .overflow

/-- A decimal without its fraction. -/
def wholeOfDecimal (d : Decimal) : Except Fault Int :=
  match d with
  | .nan .. => .error (.unreadable "cannot convert NaN to integer")
  | .infinite _ => .error .overflow
  | d =>
    match d.truncate? with
    | some n => .ok n
    | none => .error .overflow

/-- The wording for a text that is no whole number. -/
def notWhole (shown : String) : Fault :=
  .unreadable ("invalid literal for int() with base 10: " ++ shown)

/-- The whole number a text spells. -/
def wholeOfText (s : String) : Except Fault Int :=
  match Numeral.integer s with
  | .ok n => .ok n
  | .error .malformed => .error (notWhole (Text.quoted s))
  | .error (.tooLong digits) => .error (.unreadable (Numeral.tooLongText digits))

/-- A byte string as ASCII text. -/
def asciiText? (bs : List UInt8) : Option String :=
  if bs.all (· < 128) then some (String.ofList (bs.map fun b => Char.ofNat b.toNat)) else none

/-- The wording for a value that is no number. -/
def notNumeric (v : Value) : Fault :=
  .wrongKind ("int() argument must be a string, a bytes-like object or a real number, not '" ++
    v.typeName ++ "'")

/-- A value as a whole number. -/
def toWhole : Value → Except Fault Int
  | .bool b => .ok (if b then 1 else 0)
  | .int n => .ok n
  | .float x => wholeOfFloat x
  | .decimal d => wholeOfDecimal d
  | .text s => wholeOfText s
  | .bytes bs =>
    match asciiText? bs with
    | none => .error (notWhole (Text.quotedBytes bs))
    | some s =>
      match Numeral.integer s with
      | .ok n => .ok n
      | .error .malformed => .error (notWhole (Text.quotedBytes bs))
      | .error (.tooLong digits) => .error (.unreadable (Numeral.tooLongText digits))
  | .uuid u => .ok u.bits.toNat
  | v => .error (notNumeric v)

/-- The binary64 number nearest to a whole number, which must not be too large. -/
def floatOfWhole (n : Int) : Except Fault Binary64 :=
  match Binary64.ofInt n with
  | .infinite _ => .error .overflow
  | x => .ok x

/-- The binary64 number a text spells. -/
def floatOfText (s : String) : Except Fault Binary64 :=
  match Binary64.ofText? s with
  | some x => .ok x
  | none => .error (.unreadable ("could not convert string to float: " ++ Text.quoted s))

/-- A value as a binary64 number. -/
def toFloat : Value → Except Fault Binary64
  | .bool b => .ok (Binary64.ofInt (if b then 1 else 0))
  | .int n => floatOfWhole n
  | .float x => .ok x
  | .decimal (.nan _ true _) => .error (.unreadable "cannot convert signaling NaN to float")
  | .decimal d => .ok d.toBinary64
  | .text s => floatOfText s
  | .bytes bs =>
    match asciiText? bs with
    | some s => floatOfText s
    | none => .error (.unreadable "could not convert bytes to float")
  | v => .error (.wrongKind ("float() argument must be a string or a real number, not '" ++
      v.typeName ++ "'"))

/-- A value as one byte. -/
def toByte : Value → Except Fault UInt8
  | .bool b => .ok (if b then 1 else 0)
  | .int n =>
    if 0 ≤ n ∧ n < 256 then .ok (UInt8.ofNat n.toNat)
    else .error (.unreadable "bytes must be in range(0, 256)")
  | v => .error (.wrongKind ("'" ++ v.typeName ++ "' object cannot be interpreted as an integer"))

/-- The largest number of bytes that can be asked for. -/
def byteCountLimit : Int := 9223372036854775807

/-- As many zero bytes as a whole number says. -/
def zeroBytes (n : Int) : Except Fault (List UInt8) :=
  if n < 0 then .error (.unreadable "negative count")
  else if byteCountLimit < n then .error .overflow
  else .ok (List.replicate n.toNat 0)

/-- A value as a byte string: bytes themselves, a list of bytes, or a count of zeros. -/
def toBytes : Value → Except Fault (List UInt8)
  | .bytes bs => .ok bs
  | .bool b => zeroBytes (if b then 1 else 0)
  | .int n => zeroBytes n
  | .list items | .tuple items => items.mapM toByte
  | .object [] => .ok []
  | .text _ => .error (.wrongKind "string argument without an encoding")
  | v => .error (.wrongKind ("cannot convert '" ++ v.typeName ++ "' object to bytes"))

/-- The items of a value that has any: of lists, of texts, of byte strings, names of fields. -/
def itemsOf : Value → Except Fault (List Value)
  | .list items | .tuple items => .ok items
  | .text s => .ok (s.toList.map fun c => .text (String.singleton c))
  | .bytes bs => .ok (bs.map fun b => .int b.toNat)
  | .object fields => .ok (fields.map fun (name, _) => .text name)
  | v => .error (.wrongKind ("'" ++ v.typeName ++ "' object is not iterable"))

/-- The fault of a value with a number that has too many digits to be written. -/
def unwritable : Fault := .unreadable Numeral.unwritableText

/-- A value as plain text. -/
def textOf (v : Value) : Except Fault String :=
  if v.isWritable then .ok v.shown else .error unwritable

theorem textOf_text (s : String) : textOf (.text s) = .ok s := rfl

theorem textOf_text_bind {α : Type} (s : String) (f : String → Except Fault α) :
    (textOf (.text s) >>= f) = f s := rfl

/-! ## Output -/

/-- A moment as text: ISO notation, or a blank between date and time. -/
def momentText (rfc3339 : Bool) : Value → Except Fault String
  | .dateTime t => .ok (t.toText (if rfc3339 then 'T' else ' '))
  | v => textOf v

/-- A value as JSON text. -/
def jsonText (v : Value) : Except Fault String :=
  match v.toJson? with
  | some s => if v.isWritable then .ok s else .error unwritable
  | none => .error (.wrongKind "value has no JSON text")

/-- A value of a basic column as a client is shown it. -/
def formatBasic (rfc3339 : Bool) (kind : BasicKind) (v : Value) : Except Fault Value :=
  match kind with
  | .integer _ => .int <$> toWhole v
  | .float | .double => .float <$> toFloat v
  | .bool => .ok (.bool v.isTruthy)
  | .bytes => (fun bs => .text (Hexadecimal.toText bs)) <$> toBytes v
  | .json =>
    match v with
    | .text s => .ok (.text s)
    | v => .text <$> jsonText v
  | .dateTime | .dateTimeZoned => .text <$> momentText rfc3339 v
  | .date | .time => .text <$> momentText true v
  | _ => .text <$> textOf v

/-- A value of a column as a client is shown it; null stays null. -/
def format (c : Codec) : ColumnType → Value → Except Fault Value
  | _, .null => .ok .null
  | .basic kind _, v => formatBasic c.rfc3339 kind v
  | .enumeration _, .member v => .ok v
  | .enumeration _, v => .text <$> textOf v
  | .custom _, v => .text <$> textOf v
  | .array inner, v => do
    let items ← itemsOf v
    .list <$> items.mapM (c.format inner)

/-! ## Input -/

/-- A value is refused with words that show it, unless it cannot be written. -/
def refuse (path : String) (v : Value) (words : String → String) : Except Fault Value :=
  if v.isWritable then .error (.conversion path (words v.quoted)) else .error unwritable

theorem refuse_ne_ok (path : String) (v : Value) (words : String → String) (w : Value) :
    refuse path v words ≠ .ok w := by
  unfold refuse
  cases v.isWritable <;> nofun

/-- A whole number within a width. -/
def parseInteger (path : String) (kind : IntegerKind) (v : Value) : Except Fault Value :=
  let refused : Except Fault Value :=
    refuse path v fun shown => "expected an integer, got " ++ shown
  let within (n : Int) : Except Fault Value :=
    if kind.holds n then .ok (.int n)
    else refuse path (.int n) fun shown =>
      s!"{shown} is out of range for {kind.name} [{kind.low}, {kind.high}]"
  match v with
  | .int n => within n
  | .text s =>
    match Numeral.integer s with
    | .ok n => within n
    | .error _ => refused
  | .float x =>
    if x.isInteger then
      match x.truncate? with
      | some n => within n
      | none => refused
    else refused
  | _ => refused

/-- A finite decimal. -/
def parseDecimal (path : String) (v : Value) : Except Fault Value := do
  match Decimal.ofText? (← textOf v) with
  | none => refuse path v fun shown => "invalid decimal " ++ shown
  | some d =>
    if d.isFinite then .ok (.decimal d)
    else refuse path v fun shown => "decimal must be finite, got " ++ shown

/-- A text that one of the calendar readers takes. -/
def parseMoment (path name : String) (read : String → Option Value) (v : Value) :
    Except Fault Value :=
  match v with
  | .text s =>
    match read s with
    | some moment => .ok moment
    | none => .error (.conversion path s!"invalid {name}: not in ISO 8601 notation")
  | v => refuse path v fun shown => "expected a string, got " ++ shown

/-- A moment whose zone is known: universal time unless the text tells. -/
def zoned (t : DateTime) : DateTime :=
  if t.time.offset.isSome then t else t.withOffset (some .utc)

/-- The value a JSON text denotes. -/
def parseJson (path : String) (s : String) : Except Fault Value :=
  match Value.ofJson s with
  | .ok v => .ok v
  | .error .malformed => .error (.conversion path "invalid JSON: not a JSON text")
  | .error (.tooManyDigits digits) => .error (.unreadable (Numeral.tooLongText digits))

/-- A client's value as a value of a basic column. -/
def parseBasic (path : String) (kind : BasicKind) (v : Value) : Except Fault Value :=
  match kind with
  | .integer k => parseInteger path k v
  | .float | .double =>
    match v with
    | .int n => .float <$> floatOfWhole n
    | .float x => .ok (.float x)
    | v => refuse path v fun shown => "expected a number, got " ++ shown
  | .bool =>
    match v with
    | .bool b => .ok (.bool b)
    | v => refuse path v fun shown => "expected a boolean, got " ++ shown
  | .decimal => parseDecimal path v
  | .char => do
    let s ← textOf v
    if s.length = 1 then .ok (.text s)
    else .error (.conversion path s!"expected exactly one character, got {s.length}")
  | .bytes =>
    match (textOf v).toOption.bind Hexadecimal.ofText? with
    | some bs => .ok (.bytes bs)
    | none => .error (.conversion path "invalid hex string: not pairs of hexadecimal digits")
  | .json =>
    match v with
    | .text s => parseJson path s
    | v => .ok v
  | .date => parseMoment path "date" (fun s => .date <$> Date.ofText? s) v
  | .time => parseMoment path "time" (fun s => .time <$> Time.ofText? s) v
  | .dateTime => parseMoment path "datetime" (fun s => .dateTime <$> DateTime.ofText? s) v
  | .dateTimeZoned =>
    parseMoment path "datetimewithtimezone"
      (fun s => (DateTime.ofText? s).map fun t => .dateTime (zoned t)) v
  | .uuid =>
    match v with
    | .uuid u => .ok (.uuid u)
    | v =>
      match (textOf v).toOption.bind Uuid.ofText? with
      | some u => .ok (.uuid u)
      | none => .error (.conversion path "invalid uuid: not 32 hexadecimal digits")
  | .string | .ipNetwork | .macAddress => .text <$> textOf v

/-- The value of an enumeration, which has to be one of its own if it is known. -/
def parseEnumeration (c : Codec) (path name : String) (v : Value) : Except Fault Value :=
  let raw := match v with
    | .member raw => raw
    | raw => raw
  match c.enumerations.find? fun e => e.name = name with
  | none => .ok raw
  | some e =>
    if e.values.any fun s => raw == .text s then .ok raw
    else refuse path raw fun shown => s!"unknown variant {shown} of enum '{name}'"

/-- A client's value as a value of a column; null stays null. -/
def parse (c : Codec) (path : String) : ColumnType → Value → Except Fault Value
  | _, .null => .ok .null
  | .basic kind _, v => parseBasic path kind v
  | .enumeration name, v => c.parseEnumeration path name v
  | .custom _, v => .text <$> textOf v
  | .array inner, v =>
    match v with
    | .list items | .tuple items => .list <$> items.mapM (c.parse path inner)
    | v => refuse path v fun shown => "expected a list, got " ++ shown

section

variable (c : Codec) {v : Value} (h : v ≠ .null) (path name : String)

theorem parse_null (type : ColumnType) : c.parse path type .null = .ok .null := by
  unfold parse
  rfl

include h

theorem parse_basic (kind : BasicKind) (label : Option String) :
    c.parse path (.basic kind label) v = parseBasic path kind v := by
  cases v with
  | null => exact absurd rfl h
  | _ => rfl

theorem parse_enumeration :
    c.parse path (.enumeration name) v = c.parseEnumeration path name v := by
  cases v with
  | null => exact absurd rfl h
  | _ => rfl

theorem parse_custom : c.parse path (.custom name) v = .text <$> textOf v := by
  cases v with
  | null => exact absurd rfl h
  | _ => rfl

end

end Codec

end TableGraph
