import TableGraph.Text.Quoted
import TableGraph.Value.Basic

/-!
# Values inside messages

`quoted` shows a value so that its type can be told: texts in quotes, decimals, identifiers and
moments behind a word.  `shown` is the plain form, in which these stand by themselves; inside lists
and objects members are quoted in either form.  Both write whole numbers in full; where the length
of a number matters, `isWritable` tells whether there is one with too many digits.
-/

namespace TableGraph

/-- Words and numbers between parentheses behind a name. -/
def callText (name : String) (arguments : List String) : String :=
  name ++ "(" ++ ", ".intercalate arguments ++ ")"

/-- An offset as a call that builds it. -/
def Offset.quoted (o : Offset) : String :=
  if o.micros = 0 then "datetime.timezone.utc"
  else
    let days := o.micros.fdiv 86400000000
    let rest := o.micros.fmod 86400000000
    let part (name : String) (n : Int) : List String := if n = 0 then [] else [s!"{name}={n}"]
    let delta := callText "datetime.timedelta"
      (part "days" days ++ part "seconds" (rest / 1000000) ++
        part "microseconds" (rest % 1000000))
    callText "datetime.timezone" [delta]

/-- The parts of a clock, without zeros after the minutes. -/
def Time.quotedParts (t : Time) : List String :=
  let tail :=
    if t.micro ≠ 0 then [toString t.second, toString t.micro]
    else if t.second ≠ 0 then [toString t.second]
    else []
  [toString t.hour, toString t.minute] ++ tail ++
    (match t.offset with | some o => ["tzinfo=" ++ o.quoted] | none => [])

/-- The parts of a date. -/
def Date.quotedParts (d : Date) : List String :=
  [toString d.year, toString d.month, toString d.day]

namespace Value

/-- Truth values are spelled with a capital. -/
def boolText (b : Bool) : String := if b then "True" else "False"

mutual

/-- The value with its type recognizable. -/
def quoted : Value → String
  | null => "None"
  | bool b => boolText b
  | int n => toString n
  | float x => x.toText
  | decimal d => callText "Decimal" [Text.quoted d.toText]
  | text s => Text.quoted s
  | bytes bs => Text.quotedBytes bs
  | date d => callText "datetime.date" d.quotedParts
  | time t => callText "datetime.time" t.quotedParts
  | dateTime t => callText "datetime.datetime" (t.date.quotedParts ++ t.time.quotedParts)
  | uuid u => callText "UUID" [Text.quoted u.toText]
  | list items => "[" ++ ", ".intercalate (quotedItems items) ++ "]"
  | tuple [item] => "(" ++ item.quoted ++ ",)"
  | tuple items => "(" ++ ", ".intercalate (quotedItems items) ++ ")"
  | object fields => "\x7b" ++ ", ".intercalate (quotedFields fields) ++ "\x7d"
  | member value => value.quoted
termination_by structural v => v

/-- Every item quoted. -/
def quotedItems : List Value → List String
  | [] => []
  | item :: items => item.quoted :: quotedItems items
termination_by structural v => v

/-- Every field as a quoted name and a quoted value. -/
def quotedFields : List (String × Value) → List String
  | [] => []
  | (name, value) :: fields => (Text.quoted name ++ ": " ++ value.quoted) :: quotedFields fields
termination_by structural v => v

end

mutual

/-- No whole number in the value has more digits than are written. -/
def isWritable : Value → Bool
  | int n => Numeral.digitCount n.natAbs ≤ Numeral.digitLimit
  | list items => areWritable items
  | tuple items => areWritable items
  | object fields => haveWritable fields
  | member value => value.isWritable
  | _ => true
termination_by structural v => v

/-- No whole number in the items has more digits than are written. -/
def areWritable : List Value → Bool
  | [] => true
  | item :: items => item.isWritable && areWritable items
termination_by structural v => v

/-- No whole number in the fields has more digits than are written. -/
def haveWritable : List (String × Value) → Bool
  | [] => true
  | (_, value) :: fields => value.isWritable && haveWritable fields
termination_by structural v => v

end

/-- The name of a value's type. -/
def typeName : Value → String
  | null => "NoneType"
  | bool _ => "bool"
  | int _ => "int"
  | float _ => "float"
  | decimal _ => "Decimal"
  | text _ => "str"
  | bytes _ => "bytes"
  | date _ => "date"
  | time _ => "time"
  | dateTime _ => "datetime"
  | uuid _ => "UUID"
  | list _ => "list"
  | tuple _ => "tuple"
  | object _ => "dict"
  | member _ => "member"

/-- The value as plain text. -/
def shown : Value → String
  | text s => s
  | decimal d => d.toText
  | date d => d.toText
  | time t => t.toText
  | dateTime t => t.toText ' '
  | uuid u => u.toText
  | member value => value.shown
  | v => v.quoted

end Value

end TableGraph
