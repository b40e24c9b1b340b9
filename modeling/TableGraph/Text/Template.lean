import TableGraph.Fault
import TableGraph.Value.Shown

/-!
# Templates

A template is a text with places for values.  A place begins with a percent sign and ends with the
letter that says how its value is shown: `s` as plain text, `r` and `a` quoted, `d`, `i` and `u` as
a whole number, `x`, `X` and `o` in base sixteen and eight, `f` and `F` with places behind the
point.  In between stand the name of the value in parentheses, marks, a width and a number of
places.
-/

namespace TableGraph.Text

/-- What a place says about its value. -/
structure Place where
  name : Option String := none
  /-- Fills up on the right. -/
  leftAligned : Bool := false
  zeroFilled : Bool := false
  signed : Bool := false
  spaced : Bool := false
  alternate : Bool := false
  width : Nat := 0
  places : Option Nat := none
  letter : Char := 's'

namespace Place

/-- The number digits denote. -/
def numberOf (cs : List Char) : Nat := cs.foldl (fun n c => n * 10 + (c.toNat - 48)) 0

/-- The place with a mark. -/
def marked (p : Place) : Char → Place
  | '-' => { p with leftAligned := true }
  | '0' => { p with zeroFilled := true }
  | '+' => { p with signed := true }
  | ' ' => { p with spaced := true }
  | _ => { p with alternate := true }

/-- The place that begins behind a percent sign, and what follows it. -/
def read? (cs : List Char) : Option (Place × List Char) :=
  let (name, cs) := match cs with
    | '(' :: cs => (some (String.ofList (cs.takeWhile (· ≠ ')'))), (cs.dropWhile (· ≠ ')')).tail)
    | cs => (none, cs)
  let isMark (c : Char) : Bool := "-0+ #".toList.contains c
  let p := (cs.takeWhile isMark).foldl marked { name }
  let cs := cs.dropWhile isMark
  let width := numberOf (cs.takeWhile Char.isDigit)
  let cs := cs.dropWhile Char.isDigit
  let (places, cs) := match cs with
    | '.' :: cs => (some (numberOf (cs.takeWhile Char.isDigit)), cs.dropWhile Char.isDigit)
    | cs => (none, cs)
  match cs.dropWhile fun c => c = 'l' || c = 'h' || c = 'L' with
  | letter :: cs => some ({ p with width, places, letter }, cs)
  | [] => none

/-- The text filled up to the width; zeros stand between a sign and the digits. -/
def fill (p : Place) (isNumber : Bool) (sign body : List Char) : List Char :=
  let missing := p.width - (sign.length + body.length)
  if p.leftAligned then sign ++ body ++ List.replicate missing ' '
  else if p.zeroFilled && isNumber then sign ++ List.replicate missing '0' ++ body
  else List.replicate missing ' ' ++ sign ++ body

/-- The sign of a number. -/
def signOf (p : Place) (negative : Bool) : List Char :=
  if negative then ['-'] else if p.signed then ['+'] else if p.spaced then [' '] else []

/-- The digits of a number, at least so many as places are asked for. -/
def digits (p : Place) (base n : Nat) : List Char :=
  let ds := Nat.toDigits base n
  List.replicate (p.places.getD 0 - ds.length) '0' ++ ds

/-- A whole number in a base. -/
def integer (p : Place) (base : Nat) (start : String) (n : Int) : List Char :=
  let start := if p.alternate then start.toList else []
  p.fill true (p.signOf (n < 0) ++ start) (p.digits base n.natAbs)

/-- The whole number of a value, without its fraction. -/
def whole : Value → Except Fault Int
  | .int n => .ok n
  | .bool b => .ok (if b then 1 else 0)
  | .float x =>
    match x with
    | .infinite _ => .error .overflow
    | x =>
      match x.truncate? with
      | some n => .ok n
      | none => .error (.unreadable "not a number has no whole part")
  | .decimal d =>
    match d.truncate? with
    | some n => .ok n
    | none => .error (.unreadable "not a number has no whole part")
  | _ => .error (.wrongKind "a number is required")

/-- The whole number a value is. -/
def exactly : Value → Except Fault Int
  | .int n => .ok n
  | .bool b => .ok (if b then 1 else 0)
  | _ => .error (.wrongKind "a whole number is required")

/-- The number of a value as a binary fraction. -/
def fraction : Value → Except Fault Binary64
  | .float x => .ok x
  | .int n => .ok (.ofInt n)
  | .bool b => .ok (.ofInt (if b then 1 else 0))
  | .decimal d => .ok d.toBinary64
  | _ => .error (.wrongKind "a number is required")

/-- A number with places behind the point. -/
def fixed (p : Place) : Binary64 → List Char
  | .finite negative m e =>
    let places := p.places.getD 6
    let ds := Nat.toDigits 10 (Binary64.inPlaces places m e)
    let ds := List.replicate (places + 1 - ds.length) '0' ++ ds
    let split := ds.length - places
    let point := if places = 0 then [] else '.' :: ds.drop split
    p.fill true (p.signOf negative) (ds.take split ++ point)
  | .infinite negative => p.fill false (p.signOf negative) "inf".toList
  | .nan => p.fill false (p.signOf false) "nan".toList

/-- A text, cut to the number of places. -/
def text (p : Place) (s : String) : List Char :=
  let cs := s.toList
  p.fill false [] ((p.places.map fun n => cs.take n).getD cs)

/-- The value as the place shows it. -/
def render (p : Place) (v : Value) : Except Fault (List Char) :=
  match p.letter with
  | 's' => .ok (p.text v.shown)
  | 'r' | 'a' => .ok (p.text v.quoted)
  | 'd' | 'i' | 'u' => p.integer 10 "" <$> whole v
  | 'x' => p.integer 16 "0x" <$> exactly v
  | 'X' => (·.map Char.toUpper) <$> (p.integer 16 "0x" <$> exactly v)
  | 'o' => p.integer 8 "0o" <$> exactly v
  | 'f' | 'F' => p.fixed <$> fraction v
  | _ => .error (.unreadable "a place ends with an unknown letter")

end Place

/-- Fills the places of a template with values, in order or out of an object by name; all values are
used. -/
def fillPlaces (named : Option (List (String × Value))) :
    Nat → List Value → List Char → Except Fault (List Char)
  | 0, _, _ => .error .overflow
  | _, vs, [] =>
    if vs.isEmpty || named.isSome then .ok []
    else .error (.wrongKind "not all values have a place")
  | fuel + 1, vs, '%' :: cs =>
    match Place.read? cs with
    | none => .error (.unreadable "a place has no end")
    | some (p, cs) =>
      if p.letter = '%' then ('%' :: ·) <$> fillPlaces named fuel vs cs
      else
        match p.name, named, vs with
        | some name, some fields, vs =>
          match fields.lookup name with
          | none => .error (.absent name)
          | some v => do
            let shown ← p.render v
            (shown ++ ·) <$> fillPlaces named fuel vs cs
        | some _, none, _ => .error (.wrongKind "names call for an object")
        | none, _, v :: vs => do
          let shown ← p.render v
          (shown ++ ·) <$> fillPlaces named fuel vs cs
        | none, _, [] => .error (.wrongKind "a place has no value")
  | fuel + 1, vs, c :: cs => (c :: ·) <$> fillPlaces named fuel vs cs

/-- The template with its places filled; without values it stands for itself. -/
def fillTemplate (template : String) (values : List Value) : Except Fault String :=
  let cs := template.toList
  match values with
  | [] => .ok template
  | [.object (f :: fs)] =>
    String.ofList <$> fillPlaces (some (f :: fs)) (cs.length + 1) values cs
  | values => String.ofList <$> fillPlaces none (cs.length + 1) values cs

end TableGraph.Text
