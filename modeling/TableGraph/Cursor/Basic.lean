import TableGraph.Schema.ColumnType
import TableGraph.Value.Shown

/-!
# Cursors

A cursor is the text of a key.  Each component is written `Type[Length]:Payload` and commas join
them; the length is that of the payload in bytes, or `-1` for null, so payloads may hold any
character.

Main definitions: `Cursor.encode`, the writer, and `Cursor.decode`, the reader, which walks over the
text segment by segment and counts bytes for its messages.
-/

namespace TableGraph

/-- The types a component of a cursor can have. -/
inductive CursorTag
  | integer (kind : IntegerKind)
  | text
  | uuid
  deriving DecidableEq, Repr

namespace CursorTag

/-- The name of a tag. -/
def name : CursorTag → String
  | integer kind => kind.name
  | text => "String"
  | uuid => "Uuid"

/-- The tag a name stands for. -/
def ofName? (name : String) : Option CursorTag :=
  if name = "String" then some text
  else if name = "Uuid" then some uuid
  else (IntegerKind.ofName? name).map integer

theorem ofName?_name (t : CursorTag) : ofName? t.name = some t := by
  rcases t with k | _ | _ <;> try decide
  cases k <;> decide

end CursorTag

/-- A component of a cursor. -/
structure CursorPart where
  tag : CursorTag
  value : Value

namespace CursorPart

/-- A component of a type given by name. -/
def make (name : String) (value : Value) : Except Fault CursorPart :=
  match CursorTag.ofName? name with
  | some tag => .ok ⟨tag, value⟩
  | none => .error (.cursor s!"unsupported cursor type '{name}'")

/-- The written form of a component. -/
def chars (p : CursorPart) : List Char :=
  let head := p.tag.name.toList
  if p.value.isNull then head ++ ['[', '-', '1', ']', ':']
  else
    let payload := p.value.shown
    head ++ '[' :: Nat.toDigits 10 payload.utf8ByteSize ++ ']' :: ':' :: payload.toList

end CursorPart

namespace Cursor

/-- Components with commas between them. -/
def joined : List CursorPart → List Char
  | [] => []
  | [p] => p.chars
  | p :: ps => p.chars ++ ',' :: joined ps

/-- The text of a key, which must have components. -/
def encode (parts : List CursorPart) : Except Fault String :=
  if parts.isEmpty then .error (.cursor "cannot encode an empty key")
  else .ok (String.ofList (joined parts))

/-! ## Reading -/

/-- The number of bytes of characters. -/
def byteCount (cs : List Char) : Nat := cs.foldr (fun c n => c.utf8Size + n) 0

/-- The outcome of cutting a number of bytes off a text. -/
inductive Slice
  | whole (taken rest : List Char)
  /-- The text has fewer bytes. -/
  | short
  /-- The cut would fall inside a character. -/
  | split
  deriving DecidableEq, Repr

/-- A character put in front of what is taken. -/
def Slice.cons (c : Char) : Slice → Slice
  | whole taken rest => whole (c :: taken) rest
  | s => s

/-- Cuts `n` bytes off a text. -/
def slice : Nat → List Char → Slice
  | 0, cs => .whole [] cs
  | _ + 1, [] => .short
  | n + 1, c :: cs => if c.utf8Size ≤ n + 1 then (slice (n + 1 - c.utf8Size) cs).cons c else .split

/-- A whole number of ordinary digits with an optional minus. -/
inductive Whole
  | malformed
  | tooLong (digits : Nat)
  | number (n : Int)
  deriving DecidableEq, Repr

/-- A leading minus, `true` if there is one, and the rest. -/
def splitMinus : List Char → Bool × List Char
  | '-' :: ds => (true, ds)
  | ds => (false, ds)

/-- Reads digits with an optional minus. -/
def whole (cs : List Char) : Whole :=
  let (negative, ds) := splitMinus cs
  if ds.isEmpty || !ds.all Char.isDigit then .malformed
  else if Numeral.digitLimit < ds.length then .tooLong ds.length
  else
    let n : Int := Numeral.valueOf ds
    .number (if negative then -n else n)

/-- The value a payload denotes. -/
def payloadValue (tag : CursorTag) (payload : List Char) : Except Fault Value :=
  let s := String.ofList payload
  match tag with
  | .text => .ok (.text s)
  | .uuid =>
    match Uuid.ofText? s with
    | some u => .ok (.uuid u)
    | none => .error (.cursor s!"invalid Uuid payload '{s}'")
  | .integer kind =>
    match whole payload with
    | .malformed => .error (.cursor s!"invalid {kind.name} payload '{s}'")
    | .tooLong digits => .error (.unreadable (Numeral.tooLongText digits))
    | .number n =>
      if kind.holds n then .ok (.int n)
      else .error (.cursor s!"{n} is out of range for {kind.name}")

/-- The payload behind a colon at byte `pos`: its value, the byte it ends before, what follows. -/
def payload (tag : CursorTag) (length : Int) (pos : Nat) (cs : List Char) :
    Except Fault (CursorPart × Nat × List Char) :=
  if length = -1 then .ok (⟨tag, .null⟩, pos, cs)
  else if length < 0 then .error (.cursor s!"invalid length {length}")
  else
    match slice length.toNat cs with
    | .short =>
      .error (.cursor
        s!"payload truncated: expected {length} bytes, got {byteCount cs}")
    | .split => .error (.cursor "payload is not valid UTF-8: cut inside a character")
    | .whole taken rest =>
      match payloadValue tag taken with
      | .ok v => .ok (⟨tag, v⟩, pos + length.toNat, rest)
      | .error e => .error e

/-- The length between brackets, the opening one at byte `pos`, and the payload. -/
def sized (tag : CursorTag) (pos : Nat) (cs : List Char) :
    Except Fault (CursorPart × Nat × List Char) :=
  let digits := cs.takeWhile (· ≠ ']')
  match cs.dropWhile (· ≠ ']') with
  | [] => .error (.cursor s!"expected ']' after length at byte {pos}")
  | _ :: rest =>
    match whole digits with
    | .malformed => .error (.cursor ("invalid length '" ++ String.ofList digits ++ "'"))
    | .tooLong count => .error (.unreadable (Numeral.tooLongText count))
    | .number length =>
      let colon := pos + byteCount digits + 2
      match rest with
      | ':' :: rest => payload tag length (colon + 1) rest
      | _ => .error (.cursor s!"expected ':' at byte {colon}")

/-- One component at byte `pos`, the byte it ends before, and what follows. -/
def segment (pos : Nat) (cs : List Char) : Except Fault (CursorPart × Nat × List Char) :=
  let name := cs.takeWhile (· ≠ '[')
  match cs.dropWhile (· ≠ '[') with
  | [] => .error (.cursor s!"expected '[' after type at byte {pos}")
  | _ :: rest =>
    match CursorTag.ofName? (String.ofList name) with
    | none => .error (.cursor ("unknown type '" ++ String.ofList name ++ "'"))
    | some tag => sized tag (pos + byteCount name) rest

/-! Every segment leaves less of the text. -/

theorem length_slice {n : Nat} {cs taken rest : List Char} (h : slice n cs = .whole taken rest) :
    rest.length ≤ cs.length := by
  fun_induction slice n cs generalizing taken with
  | case1 => simp_all
  | case2 => simp at h
  | case3 n c cs _ ih =>
    cases hs : slice (n + 1 - c.utf8Size) cs with
    | whole t r =>
      rw [hs] at h
      simp only [Slice.cons, Slice.whole.injEq] at h
      obtain ⟨_, rfl⟩ := h
      have := ih hs
      simp only [List.length_cons]
      omega
    | short => rw [hs] at h; simp [Slice.cons] at h
    | split => rw [hs] at h; simp [Slice.cons] at h
  | case4 => simp at h

theorem length_dropWhile_le (p : Char → Bool) (cs : List Char) :
    (cs.dropWhile p).length ≤ cs.length := by
  induction cs with
  | nil => simp
  | cons c cs ih =>
    simp only [List.dropWhile]
    split
    · simp only [List.length_cons]; omega
    · simp

theorem length_payload {tag : CursorTag} {length : Int} {pos stop : Nat} {cs rest : List Char}
    {p : CursorPart} (h : payload tag length pos cs = .ok (p, stop, rest)) :
    rest.length ≤ cs.length := by
  unfold payload at h
  split at h
  · simp_all
  split at h
  · simp at h
  split at h
  · simp at h
  · simp at h
  · split at h
    · rename_i hs _ _ _
      simp only [Except.ok.injEq, Prod.mk.injEq] at h
      rw [← h.2.2]
      exact length_slice hs
    · simp at h

theorem length_sized {tag : CursorTag} {pos stop : Nat} {cs rest : List Char} {p : CursorPart}
    (h : sized tag pos cs = .ok (p, stop, rest)) : rest.length < cs.length := by
  unfold sized at h
  have hd := length_dropWhile_le (fun c => decide (c ≠ ']')) cs
  dsimp only at h
  cases hc : cs.dropWhile (fun c => decide (c ≠ ']')) with
  | nil => rw [hc] at h; simp at h
  | cons c after =>
    rw [hc] at h hd
    cases hw : whole (cs.takeWhile fun c => decide (c ≠ ']')) with
    | malformed => rw [hw] at h; simp at h
    | tooLong => rw [hw] at h; simp at h
    | number n =>
      rw [hw] at h
      cases after with
      | nil => simp at h
      | cons d rest =>
        by_cases hd' : d = ':'
        · subst hd'
          have := length_payload h
          simp only [List.length_cons] at hd
          omega
        · simp [hd'] at h

theorem length_segment {pos stop : Nat} {cs rest : List Char} {p : CursorPart}
    (h : segment pos cs = .ok (p, stop, rest)) : rest.length < cs.length := by
  unfold segment at h
  have hd := length_dropWhile_le (fun c => decide (c ≠ '[')) cs
  dsimp only at h
  split at h
  · simp at h
  · rename_i hc
    rw [hc] at hd
    split at h
    · simp at h
    · have := length_sized h
      simp only [List.length_cons] at hd
      omega

/-- The components from byte `pos` on, of which there is at least one. -/
def components (pos : Nat) (cs : List Char) : Except Fault (List CursorPart) :=
  match h : segment pos cs with
  | .error e => .error e
  | .ok (p, _, []) => .ok [p]
  | .ok (p, stop, c :: rest) =>
    if c ≠ ',' then .error (.cursor s!"expected ',' at byte {stop}")
    else if rest.isEmpty then .error (.cursor "trailing ','")
    else
      have : rest.length < cs.length := by
        have := length_segment h
        simp only [List.length_cons] at this
        omega
      match components (stop + 1) rest with
      | .ok ps => .ok (p :: ps)
      | .error e => .error e
termination_by cs.length

/-- Reads a cursor. -/
def decode (s : String) : Except Fault (List CursorPart) :=
  if s.isEmpty then .error (.cursor "empty cursor") else components 0 s.toList

end Cursor

end TableGraph
