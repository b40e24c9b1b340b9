import TableGraph.Number.Numeral
import TableGraph.Text.Character

/-!
# Dates

Dates of the proleptic Gregorian calendar from year 1 to year 9999, and their ISO 8601 text.  A
date is written `YYYY-MM-DD`; the reader also takes the basic form `YYYYMMDD` and the week forms
`YYYY-Www`, `YYYY-Www-D`, `YYYYWww` and `YYYYWwwD`.

Main definitions: `Date`, `Date.toText`, `Date.ofText?`, and `Date.ofWeek?`, which turns a year, a
week and a weekday into a date.
-/

namespace TableGraph

/-- Years divisible by four, centuries only by four hundred. -/
def isLeapYear (year : Nat) : Bool :=
  year % 4 == 0 && (year % 100 != 0 || year % 400 == 0)

/-- The lengths of the months of a year. -/
def monthLengths (year : Nat) : List Nat :=
  [31, if isLeapYear year then 29 else 28, 31, 30, 31, 30, 31, 31, 30, 31, 30, 31]

/-- The days of months together. -/
def daysOf (months : List Nat) : Nat := months.foldr (· + ·) 0

/-- The length of a month, zero for a month that does not exist. -/
def monthLength (year month : Nat) : Nat :=
  if month = 0 then 0 else (monthLengths year)[month - 1]?.getD 0

/-- Year, month and day name a day of the calendar. -/
def isCalendarDay (year month day : Nat) : Bool :=
  1 ≤ year && year ≤ 9999 && 1 ≤ day && day ≤ monthLength year month

/-- A day of the calendar. -/
structure Date where
  year : Nat
  month : Nat
  day : Nat
  valid : isCalendarDay year month day = true
  deriving DecidableEq

/-- `n` in base ten, padded with zeros to at least `width` digits. -/
def paddedDigits (width n : Nat) : List Char :=
  let ds := Nat.toDigits 10 n
  List.replicate (width - ds.length) '0' ++ ds

/-- Exactly `count` ordinary digits at the front: their value and what follows. -/
def takeDigits? : Nat → List Char → Option (Nat × List Char)
  | 0, cs => some (0, cs)
  | count + 1, cs => do
    let c ← cs.head?
    if c.isDigit then
      let (n, rest) ← takeDigits? count cs.tail
      some ((c.toNat - 48) * tenTo count + n, rest)
    else none

namespace Date

/-- The day of a year, a month and a day, if the calendar has it. -/
def ofParts? (year month day : Nat) : Option Date :=
  if h : isCalendarDay year month day = true then some ⟨year, month, day, h⟩ else none

/-- The text `YYYY-MM-DD`. -/
def chars (d : Date) : List Char :=
  paddedDigits 4 d.year ++ '-' :: paddedDigits 2 d.month ++ '-' :: paddedDigits 2 d.day

/-- The text `YYYY-MM-DD`. -/
def toText (d : Date) : String := String.ofList d.chars

/-- Days before the first of January, counted from year 1. -/
def daysBeforeYear (year : Nat) : Nat :=
  let y := year - 1
  y * 365 + y / 4 - y / 100 + y / 400

/-- The month and day that lie `offset` days after the first of the first listed month. -/
def monthAndDay : List Nat → Nat → Nat → Nat × Nat
  | [], month, offset => (month, offset + 1)
  | length :: rest, month, offset =>
    if offset < length then (month, offset + 1) else monthAndDay rest (month + 1) (offset - length)

/-- The day with a number, the first of January of year 1 being number one; `near` is its year or
one of the two years beside it. -/
def ofDayNumber? (near : Nat) (number : Int) : Option Date :=
  let inYear (year : Nat) : Option Date :=
    let offset := number - 1 - daysBeforeYear year
    let length := daysOf (monthLengths year)
    if 0 ≤ offset ∧ offset < length then
      let (month, day) := monthAndDay (monthLengths year) 1 offset.toNat
      ofParts? year month day
    else none
  (inYear near).or ((inYear (near - 1)).or (inYear (near + 1)))

/-- The weekday of the first of January, Monday being zero. -/
def firstWeekday (year : Nat) : Nat := daysBeforeYear year % 7

/-- The number of weeks of a year: 53 if it starts on a Thursday, or on a Wednesday in a leap
year. -/
def weeksOf (year : Nat) : Nat :=
  if firstWeekday year = 3 ∨ (firstWeekday year = 2 ∧ isLeapYear year) then 53 else 52

/-- The number of the Monday of the first week, the one that holds the first Thursday. -/
def firstMonday (year : Nat) : Int :=
  let monday : Int := daysBeforeYear year + 1 - firstWeekday year
  if 3 < firstWeekday year then monday + 7 else monday

/-- The day of a year, a week and a weekday from 1 (Monday) to 7. -/
def ofWeek? (year week weekday : Nat) : Option Date :=
  if 1 ≤ year ∧ 1 ≤ week ∧ week ≤ weeksOf year ∧ 1 ≤ weekday ∧ weekday ≤ 7 then
    ofDayNumber? year (firstMonday year + (week - 1) * 7 + weekday - 1)
  else none

/--
A date at the front of a text in which `length` characters are reserved for it.  Only the week
forms look at `length`: it tells whether a weekday is written.
-/
def ofChars? (length : Nat) (cs : List Char) : Option Date := do
  let (year, rest) ← takeDigits? 4 cs
  let (separated, rest) := match rest with
    | '-' :: r => (true, r)
    | r => (false, r)
  match rest with
  | 'W' :: r =>
    let (week, r) ← takeDigits? 2 r
    if (if separated then 8 else 7) < length then
      let r ← if separated then (match r with | '-' :: r => some r | _ => none) else some r
      let (weekday, _) ← takeDigits? 1 r
      ofWeek? year week weekday
    else ofWeek? year week 1
  | r =>
    let (month, r) ← takeDigits? 2 r
    let r ← if separated then (match r with | '-' :: r => some r | _ => none) else some r
    let (day, _) ← takeDigits? 2 r
    ofParts? year month day

/-- Reads one of the ISO forms; the length in bytes has to be that of a form. -/
def ofText? (s : String) : Option Date :=
  let length := s.utf8ByteSize
  if length = 7 ∨ length = 8 ∨ length = 10 then ofChars? length s.toList else none

/-- Days compare by year, month and day. -/
def compare (d e : Date) : Ordering :=
  (Ord.compare d.year e.year).then ((Ord.compare d.month e.month).then (Ord.compare d.day e.day))

/-- The number of the day, counted from the first of January of year 1. -/
def dayNumber (d : Date) : Nat :=
  daysBeforeYear d.year + daysOf ((monthLengths d.year).take (d.month - 1)) + d.day

end Date

end TableGraph
