import TableGraph.Calendar.Date

/-!
# Times of day and moments

A time of day has microseconds and, if it knows its zone, an offset from universal time.  Its text
is `HH:MM:SS`, with six decimals if the fraction is not zero and `+HH:MM` for the offset, which may
go down to microseconds as well.

The reader takes hours alone, hours and minutes, or all three, with colons or without; a fraction
after the last part behind a point or a comma, digits beyond the sixth being dropped; `Z`, or a sign
and an offset in the same notation.  Between the time and the offset it is lenient: a dangling mark
is passed over, and so is what follows the sixth digit of a fraction.

The text of a moment is that of the date, one separating character, and that of the time.  The
reader takes any single character as separator; `dateLength?` finds where the date ends from the
form it has.
-/

namespace TableGraph

/-! ## Times of day -/

/-- An offset from universal time of less than a day, in microseconds. -/
structure Offset where
  micros : Int
  bounded : micros.natAbs < 86400000000
  deriving DecidableEq

/-- A time of day, with the offset of its zone if that is known. -/
structure Time where
  hour : Nat
  minute : Nat
  second : Nat
  micro : Nat
  offset : Option Offset
  valid : (hour < 24 ∧ minute < 60) ∧ second < 60 ∧ micro < 1000000
  deriving DecidableEq

namespace Offset

/-- An offset of a number of microseconds. -/
def ofMicros? (micros : Int) : Option Offset :=
  if h : micros.natAbs < 86400000000 then some ⟨micros, h⟩ else none

/-- No offset: universal time itself. -/
def utc : Offset := ⟨0, by decide⟩

/-- A sign, hours and minutes, then seconds and microseconds where they are not zero. -/
def chars (o : Offset) : List Char :=
  let total := o.micros.natAbs
  let seconds := total / 1000000
  let tail :=
    if total % 1000000 ≠ 0 then
      ':' :: paddedDigits 2 (seconds % 60) ++ '.' :: paddedDigits 6 (total % 1000000)
    else if seconds % 60 ≠ 0 then ':' :: paddedDigits 2 (seconds % 60)
    else []
  (if o.micros < 0 then '-' else '+') :: paddedDigits 2 (seconds / 3600) ++
    ':' :: paddedDigits 2 (seconds / 60 % 60) ++ tail

end Offset

namespace Time

/-- A time from its parts, if they are within bounds. -/
def ofParts? (hour minute second micro : Nat) (offset : Option Offset) : Option Time :=
  if h : (hour < 24 ∧ minute < 60) ∧ second < 60 ∧ micro < 1000000 then
    some ⟨hour, minute, second, micro, offset, h⟩
  else none

/-- The first moment of a day. -/
def midnight : Time := ⟨0, 0, 0, 0, none, by decide⟩

/-- Hours, minutes and seconds, and the fraction if it is not zero. -/
def clockChars (t : Time) : List Char :=
  paddedDigits 2 t.hour ++ ':' :: paddedDigits 2 t.minute ++ ':' :: paddedDigits 2 t.second ++
    (if t.micro = 0 then [] else '.' :: paddedDigits 6 t.micro)

/-- The clock and the offset. -/
def chars (t : Time) : List Char :=
  t.clockChars ++ (match t.offset with | some o => o.chars | none => [])

/-- The ISO text of a time. -/
def toText (t : Time) : String := String.ofList t.chars

/-- Microseconds since midnight on the clock. -/
def clockMicros (t : Time) : Nat :=
  ((t.hour * 60 + t.minute) * 60 + t.second) * 1000000 + t.micro

/-! ## Reading -/

/-- The text ends here: nothing follows, or a null character. -/
def atEnd (cs : List Char) : Bool := cs.head?.all (· = Char.ofNat 0)

/-- The parts of a clock as they are read: hours first, then what else is written. -/
structure Reading where
  parts : List Nat
  micro : Nat
  /-- The text goes on behind the clock. -/
  goesOn : Bool
  deriving DecidableEq, Repr

/-- Puts a part in front of the later ones. -/
def Reading.cons (n : Nat) (r : Reading) : Reading := { r with parts := n :: r.parts }

/-- The fraction of a second: up to six digits count, later ones are dropped. -/
def fraction? (cs : List Char) : Option Reading := do
  let count := min 6 cs.length
  let (n, rest) ← takeDigits? count cs
  some ⟨[], n * tenTo (6 - count), !atEnd (rest.dropWhile Char.isDigit)⟩

/--
Reads at most `count` parts of a clock.  `colons` tells whether colons separate them; the character
behind the first part decides.
-/
def clock? : Nat → Option Bool → List Char → Option Reading
  | 0, _, cs => fraction? cs
  | count + 1, colons, cs => do
    let (n, rest) ← takeDigits? 2 cs
    match rest with
    | [] => some ⟨[n], 0, false⟩
    | [c] => if c.toNat < 128 then some ⟨[n], 0, !atEnd [c]⟩ else none
    | c :: more =>
      let colons := colons.getD (c = ':')
      if colons ∧ c = ':' then (clock? count (some colons) more).map (.cons n)
      else if c = '.' ∨ c = ',' then (fraction? more).map (.cons n)
      else if colons then none
      else (clock? count (some colons) rest).map (.cons n)

/-- Seconds since midnight of the parts that are written. -/
def Reading.seconds (r : Reading) : Nat :=
  r.parts[0]?.getD 0 * 3600 + r.parts[1]?.getD 0 * 60 + r.parts[2]?.getD 0

/-- The offset behind a sign; a fraction alone counts as none. -/
def offset? (negative : Bool) (cs : List Char) : Option Offset := do
  let r ← clock? 3 none cs
  if r.goesOn then none
  else if r.seconds = 0 then some .utc
  else
    let micros : Int := r.seconds * 1000000 + r.micro
    Offset.ofMicros? (if negative then -micros else micros)

/-- A clock with its parts within bounds. -/
def Reading.toTime? (r : Reading) (offset : Option Offset) : Option Time :=
  ofParts? (r.parts[0]?.getD 0) (r.parts[1]?.getD 0) (r.parts[2]?.getD 0) r.micro offset

/-- Reads a time of day and the offset behind it. -/
def ofChars? (cs : List Char) : Option Time := do
  let isMark (c : Char) : Bool := c = '+' || c = '-' || c = 'Z'
  let r ← clock? 3 none (cs.takeWhile (!isMark ·))
  match cs.dropWhile (!isMark ·) with
  | [] => if r.goesOn then none else r.toTime? none
  | 'Z' :: rest => if atEnd rest then r.toTime? (some .utc) else none
  | sign :: rest =>
    let offset ← offset? (sign = '-') rest
    r.toTime? (some offset)

/-- Reads a time of day, in front of which a `T` may stand. -/
def ofText? (s : String) : Option Time :=
  match s.toList with
  | 'T' :: cs => ofChars? cs
  | cs => ofChars? cs

end Time

/-! ## Dates with a time of day -/

/-- A date and a time of day. -/
structure DateTime where
  date : Date
  time : Time
  deriving DecidableEq

namespace DateTime

/-- The text with a given separator. -/
def toText (separator : Char) (t : DateTime) : String :=
  String.ofList (t.date.chars ++ separator :: t.time.chars)

/-- The same clock in a zone. -/
def withOffset (t : DateTime) (offset : Option Offset) : DateTime :=
  { t with time := { t.time with offset } }

/-- The digits from the seventh character on tell a week with a weekday from one without. -/
def compactWeekLength (cs : List Char) : Nat :=
  let stop := 7 + ((cs.drop 7).takeWhile Char.isDigit).length
  if stop < 9 then stop else if stop % 2 = 0 then 7 else 8

/-- The number of characters of the date in front of a date with a time. -/
def dateLength? (cs : List Char) : Option Nat :=
  if cs.length < 7 then none
  else if cs.length = 7 then some 7
  else if cs[4]? = some '-' then
    if cs[5]? = some 'W' then
      if cs[8]? = some '-' then
        if cs.length = 9 then none
        else if (cs[10]?).any Char.isDigit then some 8
        else some 10
      else some 8
    else some 10
  else if cs[4]? = some 'W' then some (compactWeekLength cs)
  else some 8

/-- Reads a date, and a time of day behind a separator; a date alone means midnight. -/
def ofText? (s : String) : Option DateTime := do
  let cs := s.toList
  let length ← dateLength? cs
  if cs.length < length then none
  else
    let date ← Date.ofChars? length (cs.take length)
    match cs.drop length with
    | [] => some ⟨date, .midnight⟩
    | _ :: rest =>
      let time ← Time.ofChars? rest
      some ⟨date, time⟩

/-- Microseconds of the clock since the first moment of year 1. -/
def clockMicros (t : DateTime) : Int :=
  (t.date.dayNumber : Int) * 86400000000 + t.time.clockMicros

/-- Microseconds since the first moment of year 1 in universal time, if the zone is known. -/
def instant? (t : DateTime) : Option Int :=
  t.time.offset.map fun o => t.clockMicros - o.micros

/-- The same moment: the same clock without zones, the same instant with them. -/
def same (t u : DateTime) : Bool :=
  match t.instant?, u.instant? with
  | none, none => t.clockMicros == u.clockMicros
  | some a, some b => a == b
  | _, _ => false

end DateTime

namespace Time

/-- The same moment of a day: the same clock without offsets, the same instant with them. -/
def same (t u : Time) : Bool :=
  match t.offset, u.offset with
  | none, none => t.clockMicros == u.clockMicros
  | some a, some b => (t.clockMicros : Int) - a.micros == u.clockMicros - b.micros
  | _, _ => false

end Time

end TableGraph
