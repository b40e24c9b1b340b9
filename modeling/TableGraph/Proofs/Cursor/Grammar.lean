import TableGraph.Proofs.CursorText
import TableGraph.Proofs.Outcome

/-!
# The grammar of cursors

A cursor consists of segments `Type[Length]:Payload` with single commas between them, and of nothing
else.  Main statement: `decode_iff_segments`.  A text whose numbers are short enough to be read is
decoded exactly if its bytes are such segments and every segment denotes a component; there is only
one way to cut it into segments, and every other text is refused as a cursor.

`LongField` says which texts have a number that is too long: complete segments first, and then a
length or a whole number of more than `Numeral.digitLimit` digits.
-/

namespace TableGraph.Cursor

/-! ## Segments -/

/-- Digits with a minus or without spell a whole number. -/
inductive Spells : List Char → Int → Prop
  | plain {ds : List Char} (nonempty : ds ≠ []) (digits : ∀ d ∈ ds, d.isDigit = true) :
    Spells ds (Numeral.valueOf ds)
  | minus {ds : List Char} (nonempty : ds ≠ []) (digits : ∀ d ∈ ds, d.isDigit = true) :
    Spells ('-' :: ds) (-(Numeral.valueOf ds : Int))

/-- A whole number with more digits than are read. -/
def IsLong (cs : List Char) : Prop :=
  (∃ n, Spells cs n) ∧ Numeral.digitLimit < cs.countP Char.isDigit

/-- What a text denotes as the payload of a type. -/
inductive Means : CursorTag → String → Value → Prop
  | integer {kind : IntegerKind} {s : String} {n : Int} (spelled : Spells s.toList n)
    (range : kind.low ≤ n ∧ n ≤ kind.high) : Means (.integer kind) s (.int n)
  | uuid {s : String} {u : Uuid} (accepted : Uuid.ofText? s = some u) : Means .uuid s (.uuid u)
  | text (s : String) : Means .text s (.text s)

/-- The parts of a segment. -/
structure Segment where
  tag : CursorTag
  length : String
  payload : String

namespace Segment

/-- The text of a segment. -/
def text (g : Segment) : String := g.tag.name ++ "[" ++ g.length ++ "]:" ++ g.payload

/-- Segments with single commas between them. -/
def joined : List Segment → String
  | [] => ""
  | [g] => g.text
  | g :: gs => g.text ++ "," ++ joined gs

/-- The component of a segment: null, of length `-1`, or what as many bytes as the length says
denote. -/
inductive Denotes : Segment → CursorPart → Prop
  | null {tag : CursorTag} {length : String} (size : Spells length.toList (-1)) :
    Denotes ⟨tag, length, ""⟩ ⟨tag, .null⟩
  | value {tag : CursorTag} {length payload : String} {v : Value}
    (size : Spells length.toList payload.toUTF8.size) (means : Means tag payload v) :
    Denotes ⟨tag, length, payload⟩ ⟨tag, v⟩

end Segment

/-- Bytes are segments that denote components. -/
structure Segments (data : ByteArray) (gs : List Segment) (ps : List CursorPart) : Prop where
  nonempty : gs ≠ []
  bytes : data = (Segment.joined gs).toUTF8
  denote : List.Forall₂ Segment.Denotes gs ps

/-- Behind complete segments there is a number with more digits than are read. -/
inductive LongField : List Char → Prop
  | length {tag : CursorTag} {length : List Char} (long : IsLong length) (rest : List Char) :
    LongField (tag.name.toList ++ '[' :: (length ++ ']' :: rest))
  | payload {kind : IntegerKind} {length : List Char} {payload : List Char}
    (size : Spells length (byteCount payload)) (long : IsLong payload) (rest : List Char) :
    LongField (kind.name.toList ++ '[' :: (length ++ ']' :: ':' :: (payload ++ rest)))
  | later {g : Segment} {p : CursorPart} {rest : List Char} (first : g.Denotes p)
    (behind : LongField rest) : LongField (g.text.toList ++ ',' :: rest)

/-- What reading comes to: a result, a refusal, or a number that is too long. -/
inductive Verdict {α : Type} (reads : α → Prop) (long : Prop) : Except Fault α → Prop
  | read {a : α} (h : reads a) : Verdict reads long (.ok a)
  | refused (detail : String) : Verdict reads long (.error (.cursor detail))
  | tooLong (detail : String) (h : long) : Verdict reads long (.error (.unreadable detail))

/-! ## Numbers -/

theorem not_isDigit_minus : ¬ '-'.isDigit = true := by decide

theorem Spells.unique {cs : List Char} {n m : Int} (h : Spells cs n) (h' : Spells cs m) :
    n = m := by
  cases h with
  | plain _ digits =>
    cases h' with
    | plain => rfl
    | minus => exact absurd (digits _ List.mem_cons_self) not_isDigit_minus
  | minus =>
    cases h' with
    | plain _ digits => exact absurd (digits _ List.mem_cons_self) not_isDigit_minus
    | minus => rfl

theorem Spells.not_mem_close {cs : List Char} {n : Int} (h : Spells cs n) : ']' ∉ cs := by
  have digit : ¬ ']'.isDigit = true := by decide
  cases h with
  | plain _ digits => exact fun close => digit (digits _ close)
  | minus _ digits =>
    intro close
    rcases List.mem_cons.1 close with minus | close
    · exact absurd minus (by decide)
    · exact digit (digits _ close)

/-- Only a minus is cut off. -/
theorem splitMinus_cases (cs : List Char) :
    (∃ ds, cs = '-' :: ds) ∨ splitMinus cs = (false, cs) := by
  unfold splitMinus
  split
  next ds => exact .inl ⟨ds, rfl⟩
  next => exact .inr rfl

/-- What spells a number has a sign and digits. -/
theorem Spells.splitMinus {cs : List Char} {n : Int} (h : Spells cs n) :
    ∃ negative ds, splitMinus cs = (negative, ds) ∧ ds.isEmpty = false ∧
      ds.all Char.isDigit = true ∧ ds.length = cs.countP Char.isDigit ∧
      n = if negative then -(Numeral.valueOf ds : Int) else Numeral.valueOf ds := by
  cases h with
  | plain nonempty digits =>
    rcases splitMinus_cases cs with ⟨ds, rfl⟩ | hsplit
    · exact absurd (digits _ List.mem_cons_self) not_isDigit_minus
    · exact ⟨false, cs, hsplit, List.isEmpty_eq_false_iff.2 nonempty, List.all_eq_true.2 digits,
        (List.countP_eq_length.2 digits).symm, rfl⟩
  | @minus ds nonempty digits =>
    refine ⟨true, ds, rfl, List.isEmpty_eq_false_iff.2 nonempty, List.all_eq_true.2 digits, ?_, rfl⟩
    rw [List.countP_cons_of_neg not_isDigit_minus, List.countP_eq_length.2 digits]

theorem whole_of_spells {cs : List Char} {n : Int} (h : Spells cs n) :
    whole cs = if Numeral.digitLimit < cs.countP Char.isDigit then
      .tooLong (cs.countP Char.isDigit) else .number n := by
  obtain ⟨negative, ds, hsplit, nonempty, digits, count, rfl⟩ := h.splitMinus
  unfold whole
  rw [hsplit]
  dsimp only
  rw [nonempty, digits, count]
  rfl

/-- What is not refused spells a number. -/
theorem exists_spells {cs : List Char} (h : whole cs ≠ .malformed) : ∃ n, Spells cs n := by
  unfold whole at h
  dsimp only at h
  split at h
  · exact absurd rfl h
  next form =>
    rw [Bool.or_eq_true, Bool.not_eq_true', not_or, Bool.not_eq_false] at form
    have digits := List.all_eq_true.1 form.2
    rcases splitMinus_cases cs with ⟨ds, rfl⟩ | hsplit
    · exact ⟨_, .minus (fun hempty => form.1 (List.isEmpty_iff.2 hempty)) digits⟩
    · rw [hsplit] at form digits
      exact ⟨_, .plain (fun hempty => form.1 (List.isEmpty_iff.2 hempty)) digits⟩

theorem whole_eq_number {cs : List Char} {n : Int} :
    whole cs = .number n ↔ Spells cs n ∧ ¬ IsLong cs := by
  constructor
  · intro h
    obtain ⟨m, hm⟩ := exists_spells (by rw [h]; rintro ⟨⟩)
    rw [whole_of_spells hm] at h
    by_cases long : Numeral.digitLimit < cs.countP Char.isDigit
    · rw [if_pos long] at h
      cases h
    · rw [if_neg long] at h
      cases h
      exact ⟨hm, fun hlong => long hlong.2⟩
  · rintro ⟨spelled, short⟩
    rw [whole_of_spells spelled, if_neg fun long => short ⟨⟨n, spelled⟩, long⟩]

theorem whole_of_long {cs : List Char} (h : IsLong cs) : ∃ count, whole cs = .tooLong count := by
  obtain ⟨⟨n, spelled⟩, long⟩ := h
  exact ⟨_, (whole_of_spells spelled).trans (if_pos long)⟩

theorem isLong_of_whole {cs : List Char} {count : Nat} (h : whole cs = .tooLong count) :
    IsLong cs := by
  have form : whole cs ≠ .malformed := by
    rw [h]
    rintro ⟨⟩
  obtain ⟨n, spelled⟩ := exists_spells form
  rw [whole_of_spells spelled] at h
  by_cases long : Numeral.digitLimit < cs.countP Char.isDigit
  · exact ⟨⟨n, spelled⟩, long⟩
  · rw [if_neg long] at h
    cases h

/-! ## Payloads -/

theorem append_of_slice {n : Nat} {cs taken rest : List Char}
    (h : slice n cs = .whole taken rest) : cs = taken ++ rest := by
  fun_induction slice n cs generalizing taken with
  | case1 cs =>
    cases h
    rfl
  | case2 => cases h
  | case3 n c cs hfits ih =>
    cases hs : slice (n + 1 - c.utf8Size) cs with
    | whole t r =>
      rw [hs] at h
      cases h
      rw [ih hs, List.cons_append]
    | short => rw [hs] at h; cases h
    | split => rw [hs] at h; cases h
  | case4 => cases h

theorem byteCount_toUTF8 (s : String) : byteCount s.toList = s.toUTF8.size := byteCount_toList s

theorem holds_iff {kind : IntegerKind} {n : Int} :
    kind.holds n = true ↔ kind.low ≤ n ∧ n ≤ kind.high := by
  unfold IntegerKind.holds
  rw [Bool.and_eq_true, decide_eq_true_iff, decide_eq_true_iff]

theorem payloadValue_verdict (tag : CursorTag) (cs : List Char) :
    Verdict (Means tag (String.ofList cs)) (∃ kind, tag = .integer kind ∧ IsLong cs)
      (payloadValue tag cs) := by
  unfold payloadValue
  dsimp only
  cases tag with
  | text => exact .read (.text _)
  | uuid =>
    cases hid : Uuid.ofText? (String.ofList cs) with
    | some u => exact .read (.uuid hid)
    | none => exact .refused _
  | integer kind =>
    dsimp only
    cases hwhole : whole cs with
    | malformed => exact .refused _
    | tooLong count => exact .tooLong _ ⟨kind, rfl, isLong_of_whole hwhole⟩
    | number n =>
      have spelled : Spells (String.ofList cs).toList n := by
        rw [String.toList_ofList]
        exact (whole_eq_number.1 hwhole).1
      dsimp only
      by_cases range : kind.holds n = true
      · rw [if_pos range]
        exact .read (.integer spelled (holds_iff.1 range))
      · rw [if_neg range]
        exact .refused _

theorem payloadValue_means {tag : CursorTag} {s : String} {v : Value} (h : Means tag s v) :
    payloadValue tag s.toList = .ok v ∨
      ∃ detail, payloadValue tag s.toList = .error (.unreadable detail) := by
  unfold payloadValue
  dsimp only
  rw [String.ofList_toList]
  cases h with
  | text => exact .inl rfl
  | uuid accepted =>
    dsimp only
    rw [accepted]
    exact .inl rfl
  | integer spelled range =>
    dsimp only
    rw [whole_of_spells spelled]
    split_ifs with long
    · exact .inr ⟨_, rfl⟩
    · exact .inl (if_pos (holds_iff.2 range))

theorem payloadValue_long (kind : IntegerKind) {cs : List Char} (h : IsLong cs) :
    ∃ detail, payloadValue (.integer kind) cs = .error (.unreadable detail) := by
  obtain ⟨count, hwhole⟩ := whole_of_long h
  unfold payloadValue
  dsimp only
  rw [hwhole]
  exact ⟨_, rfl⟩

/-- What follows the colon: nothing for a null, and otherwise as many bytes as the length says. -/
theorem payload_cases (tag : CursorTag) (length : Int) (pos : Nat) (cs : List Char) :
    (∃ detail, payload tag length pos cs = .error (.cursor detail)) ∨
    (length = -1 ∧ payload tag length pos cs = .ok (⟨tag, .null⟩, pos, cs)) ∨
    ∃ taken rest, cs = taken ++ rest ∧ length = byteCount taken ∧
      payload tag length pos cs =
        (payloadValue tag taken).map fun v => (⟨tag, v⟩, pos + byteCount taken, rest) := by
  unfold payload
  split_ifs with hnull hneg
  · exact .inr (.inl ⟨hnull, rfl⟩)
  · exact .inl ⟨_, rfl⟩
  · cases hcut : slice length.toNat cs with
    | short => exact .inl ⟨_, rfl⟩
    | split => exact .inl ⟨_, rfl⟩
    | whole taken rest =>
      have size := byteCount_of_slice hcut
      refine .inr (.inr ⟨taken, rest, append_of_slice hcut, by omega, ?_⟩)
      rw [size]
      dsimp only
      cases payloadValue tag taken <;> rfl

theorem payload_bytes (tag : CursorTag) (taken rest : List Char) (pos : Nat) :
    payload tag (byteCount taken) pos (taken ++ rest) =
      (payloadValue tag taken).map fun v => (⟨tag, v⟩, pos + byteCount taken, rest) := by
  unfold payload
  rw [if_neg (by omega), if_neg (by omega), Int.toNat_natCast, slice_append]
  dsimp only
  cases payloadValue tag taken <;> rfl

/-! ## Lengths and types -/

theorem head_of_dropWhile {c d : Char} {cs rest : List Char}
    (h : cs.dropWhile (· ≠ d) = c :: rest) : c = d := by
  have head := List.head?_dropWhile_not (· ≠ d) cs
  rw [h] at head
  simpa using head

/-- What follows the opening bracket: a length, a closing bracket and a colon. -/
theorem sized_cases (tag : CursorTag) (pos : Nat) (cs : List Char) :
    (∃ detail, sized tag pos cs = .error (.cursor detail)) ∨
    (∃ digits rest detail, cs = digits ++ ']' :: rest ∧ IsLong digits ∧
      sized tag pos cs = .error (.unreadable detail)) ∨
    ∃ digits length rest colon, cs = digits ++ ']' :: ':' :: rest ∧ Spells digits length ∧
      sized tag pos cs = payload tag length colon rest := by
  have cut := List.takeWhile_append_dropWhile (p := (· ≠ ']')) (l := cs)
  unfold sized
  dsimp only
  cases hclose : cs.dropWhile (· ≠ ']') with
  | nil => exact .inl ⟨_, rfl⟩
  | cons c rest =>
    rw [hclose, head_of_dropWhile hclose] at cut
    dsimp only
    cases hwhole : whole (cs.takeWhile (· ≠ ']')) with
    | malformed => exact .inl ⟨_, rfl⟩
    | tooLong count =>
      exact .inr (.inl ⟨_, rest, _, cut.symm, isLong_of_whole hwhole, rfl⟩)
    | number length =>
      dsimp only
      split
      next rest => exact .inr (.inr ⟨_, length, rest, _, cut.symm, (whole_eq_number.1 hwhole).1, rfl⟩)
      next => exact .inl ⟨_, rfl⟩

theorem sized_long {digits : List Char} (h : IsLong digits) (tag : CursorTag) (pos : Nat)
    (rest : List Char) :
    ∃ detail, sized tag pos (digits ++ ']' :: rest) = .error (.unreadable detail) := by
  obtain ⟨count, hwhole⟩ := whole_of_long h
  obtain ⟨⟨n, spelled⟩, -⟩ := h
  have cut := takeWhile_ne_append spelled.not_mem_close rest
  unfold sized
  dsimp only
  rw [cut.1, cut.2, hwhole]
  exact ⟨_, rfl⟩

theorem sized_spells {digits : List Char} {length : Int} (h : Spells digits length)
    (tag : CursorTag) (pos : Nat) (rest : List Char) :
    (∃ colon, sized tag pos (digits ++ ']' :: ':' :: rest) = payload tag length colon rest) ∨
      ∃ detail, sized tag pos (digits ++ ']' :: ':' :: rest) = .error (.unreadable detail) := by
  by_cases long : IsLong digits
  · exact .inr (sized_long long tag pos (':' :: rest))
  · exact .inl ⟨_, sized_append h.not_mem_close (whole_eq_number.2 ⟨h, long⟩) tag pos rest⟩

theorem name_of_ofName? {name : String} {tag : CursorTag} (h : CursorTag.ofName? name = some tag) :
    tag.name = name := by
  unfold CursorTag.ofName? at h
  split_ifs at h with htext huuid
  · cases h
    exact htext.symm
  · cases h
    exact huuid.symm
  · obtain ⟨kind, hkind, rfl⟩ := Option.map_eq_some_iff.1 h
    have found : (IntegerKind.all.find? fun k => k.name = name) = some kind := hkind
    have known := List.find?_some found
    exact of_decide_eq_true known

/-- What a segment starts with: the name of a type and an opening bracket. -/
theorem segment_cases (pos : Nat) (cs : List Char) :
    (∃ detail, segment pos cs = .error (.cursor detail)) ∨
    ∃ (tag : CursorTag) (rest : List Char), cs = tag.name.toList ++ '[' :: rest := by
  have cut := List.takeWhile_append_dropWhile (p := (· ≠ '[')) (l := cs)
  unfold segment
  dsimp only
  cases hopen : cs.dropWhile (· ≠ '[') with
  | nil => exact .inl ⟨_, rfl⟩
  | cons c rest =>
    rw [hopen, head_of_dropWhile hopen] at cut
    dsimp only
    cases htag : CursorTag.ofName? (String.ofList (cs.takeWhile (· ≠ '['))) with
    | none => exact .inl ⟨_, rfl⟩
    | some tag =>
      rw [← String.toList_ofList (l := cs.takeWhile _), ← name_of_ofName? htag] at cut
      exact .inr ⟨tag, rest, cut.symm⟩

/-! ## Segments -/

theorem Segment.toList_text (g : Segment) (rest : List Char) :
    g.text.toList ++ rest = g.tag.name.toList ++ '[' ::
      (g.length.toList ++ ']' :: ':' :: (g.payload.toList ++ rest)) := by
  have marks : "[".toList = ['['] ∧ "]:".toList = [']', ':'] := by decide
  unfold Segment.text
  simp only [String.toList_append, marks, List.append_assoc, List.cons_append, List.nil_append]

theorem segment_verdict (pos : Nat) (cs : List Char) :
    Verdict (fun r => ∃ g : Segment, g.Denotes r.1 ∧ cs = g.text.toList ++ r.2.2) (LongField cs)
      (segment pos cs) := by
  rcases segment_cases pos cs with ⟨detail, refused⟩ | ⟨tag, behind, rfl⟩
  · rw [refused]
    exact .refused detail
  rw [segment_name]
  rcases sized_cases tag (pos + byteCount tag.name.toList) behind with
    ⟨detail, refused⟩ | ⟨digits, rest, detail, rfl, long, hsized⟩ |
    ⟨digits, length, after, colon, rfl, size, hsized⟩
  · rw [refused]
    exact .refused detail
  · rw [hsized]
    exact .tooLong detail (.length long rest)
  rw [hsized]
  rcases payload_cases tag length colon after with
    ⟨detail, refused⟩ | ⟨rfl, hnull⟩ | ⟨taken, rest, rfl, rfl, hpayload⟩
  · rw [refused]
    exact .refused detail
  · rw [hnull]
    refine .read ⟨⟨tag, String.ofList digits, ""⟩, .null ?_, ?_⟩
    · rwa [String.toList_ofList]
    · rw [Segment.toList_text, String.toList_ofList]
      rfl
  rw [hpayload]
  have verdict := payloadValue_verdict tag taken
  generalize payloadValue tag taken = x at verdict
  cases verdict with
  | read means =>
    refine .read ⟨⟨tag, String.ofList digits, String.ofList taken⟩, .value ?_ means, ?_⟩
    · rwa [← byteCount_toUTF8, String.toList_ofList, String.toList_ofList]
    · rw [Segment.toList_text, String.toList_ofList, String.toList_ofList]
  | refused detail => exact .refused detail
  | tooLong detail long =>
    obtain ⟨kind, rfl, long⟩ := long
    exact .tooLong detail (.payload size long rest)

theorem denotes_of_segment {pos stop : Nat} {cs rest : List Char} {p : CursorPart}
    (h : segment pos cs = .ok (p, stop, rest)) :
    ∃ g : Segment, g.Denotes p ∧ cs = g.text.toList ++ rest := by
  have verdict := segment_verdict pos cs
  rw [h] at verdict
  cases verdict with
  | read h => exact h

/-- A segment is read off the text it stands at the front of, unless a number is too long. -/
theorem segment_of_denotes {g : Segment} {p : CursorPart} (h : g.Denotes p) (pos : Nat)
    (rest : List Char) :
    (∃ stop, segment pos (g.text.toList ++ rest) = .ok (p, stop, rest)) ∨
      ∃ detail, segment pos (g.text.toList ++ rest) = .error (.unreadable detail) := by
  rw [Segment.toList_text, segment_name]
  cases h with
  | @null tag length size =>
    rcases sized_spells size tag (pos + byteCount tag.name.toList) rest with ⟨colon, h⟩ | long
    · refine .inl ⟨colon, h.trans ?_⟩
      exact if_pos rfl
    · exact .inr long
  | @value tag length payload v size means =>
    rcases sized_spells size tag (pos + byteCount tag.name.toList) (payload.toList ++ rest) with
      ⟨colon, h⟩ | long
    · rw [h, ← byteCount_toUTF8, payload_bytes]
      rcases payloadValue_means means with hv | ⟨detail, hv⟩
      · rw [hv]
        exact .inl ⟨_, rfl⟩
      · rw [hv]
        exact .inr ⟨detail, rfl⟩
    · exact .inr long

/-! ## One way to cut -/

theorem append_cons_inj {c : Char} {as as' bs bs' : List Char} (h : c ∉ as) (h' : c ∉ as')
    (same : as ++ c :: bs = as' ++ c :: bs') : as = as' ∧ bs = bs' := by
  have cut := takeWhile_ne_append h bs
  have cut' := takeWhile_ne_append h' bs'
  rw [same] at cut
  exact ⟨cut.1.symm.trans cut'.1, (List.cons.inj (cut.2.symm.trans cut'.2)).2⟩

theorem append_inj_of_byteCount {as as' bs bs' : List Char} (size : byteCount as = byteCount as')
    (same : as ++ bs = as' ++ bs') : as = as' ∧ bs = bs' := by
  have cut := slice_append as bs
  rw [same, size, slice_append] at cut
  injection cut with taken rest
  exact ⟨taken.symm, rest.symm⟩

theorem Means.unique {tag : CursorTag} {s : String} {v v' : Value} (h : Means tag s v)
    (h' : Means tag s v') : v = v' := by
  cases h with
  | integer spelled =>
    cases h' with
    | integer spelled' => rw [spelled.unique spelled']
  | uuid accepted =>
    cases h' with
    | uuid accepted' => rw [Option.some.inj (accepted.symm.trans accepted')]
  | text =>
    cases h'
    rfl

theorem Segment.Denotes.exists_spells {g : Segment} {p : CursorPart} (h : g.Denotes p) :
    ∃ n, Spells g.length.toList n := by
  cases h with
  | null size => exact ⟨_, size⟩
  | value size => exact ⟨_, size⟩

/-- Two segments at the front of one text are the same. -/
theorem Segment.Denotes.unique {g g' : Segment} {p p' : CursorPart} (h : g.Denotes p)
    (h' : g'.Denotes p') {rest rest' : List Char}
    (same : g.text.toList ++ rest = g'.text.toList ++ rest') : g = g' ∧ p = p' ∧ rest = rest' := by
  rw [Segment.toList_text, Segment.toList_text] at same
  obtain ⟨n, size⟩ := h.exists_spells
  obtain ⟨n', size'⟩ := h'.exists_spells
  obtain ⟨tag, length, text⟩ := g
  obtain ⟨tag', length', text'⟩ := g'
  -- The brackets end the name and the length, which have none; the length then cuts the payload.
  obtain ⟨hname, same⟩ := append_cons_inj (open_not_mem_name _) (open_not_mem_name _) same
  obtain rfl : tag = tag' := by
    have known := CursorTag.ofName?_name tag
    rw [String.toList_inj.1 hname, CursorTag.ofName?_name] at known
    exact (Option.some.inj known).symm
  obtain ⟨hlength, same⟩ := append_cons_inj size.not_mem_close size'.not_mem_close same
  obtain rfl : length = length' := String.toList_inj.1 hlength
  have same := (List.cons.inj same).2
  cases h with
  | null null =>
    cases h' with
    | null => exact ⟨rfl, rfl, same⟩
    | value size =>
      have contrary := null.unique size
      omega
  | value size means =>
    cases h' with
    | null null =>
      have contrary := null.unique size
      omega
    | value size' means' =>
      have hsize := size.unique size'
      rw [← byteCount_toUTF8, ← byteCount_toUTF8] at hsize
      obtain ⟨htext, hrest⟩ := append_inj_of_byteCount (Int.ofNat.inj hsize) same
      obtain rfl : text = text' := String.toList_inj.1 htext
      exact ⟨rfl, by rw [means.unique means'], hrest⟩

/-! ## Cursors -/

theorem Segment.text_ne_nil (g : Segment) : g.text.toList ≠ [] := by
  rw [← List.append_nil g.text.toList, Segment.toList_text]
  exact List.append_ne_nil_of_right_ne_nil _ (List.cons_ne_nil _ _)

/-- Segments behind others. -/
def Segment.behind : List Segment → List Char
  | [] => []
  | g :: gs => ',' :: (g.text.toList ++ behind gs)

theorem Segment.toList_joined (g : Segment) (gs : List Segment) :
    (Segment.joined (g :: gs)).toList = g.text.toList ++ Segment.behind gs := by
  have comma : ",".toList = [','] := by decide
  induction gs generalizing g with
  | nil => exact (List.append_nil _).symm
  | cons g' gs ih =>
    have more : Segment.joined (g :: g' :: gs) = g.text ++ "," ++ Segment.joined (g' :: gs) := rfl
    rw [more, String.toList_append, String.toList_append, comma, ih, List.append_assoc]
    rfl

theorem behind_unique {gs gs' : List Segment} {ps ps' : List CursorPart}
    (h : List.Forall₂ Segment.Denotes gs ps) (h' : List.Forall₂ Segment.Denotes gs' ps')
    (same : Segment.behind gs = Segment.behind gs') : gs = gs' ∧ ps = ps' := by
  induction h generalizing gs' ps' with
  | nil =>
    cases h' with
    | nil => exact ⟨rfl, rfl⟩
    | cons => cases same
  | cons first later ih =>
    cases h' with
    | nil => cases same
    | cons first' later' =>
      obtain ⟨rfl, rfl, rest⟩ := first.unique first' (List.cons.inj same).2
      obtain ⟨rfl, rfl⟩ := ih later' rest
      exact ⟨rfl, rfl⟩

theorem Segments.unique {data : ByteArray} {gs gs' : List Segment} {ps ps' : List CursorPart}
    (h : Segments data gs ps) (h' : Segments data gs' ps') : gs = gs' ∧ ps = ps' := by
  have same := String.toByteArray_inj.1 (h.bytes.symm.trans h'.bytes)
  refine behind_unique h.denote h'.denote ?_
  obtain ⟨g, gs, rfl⟩ := List.exists_cons_of_ne_nil h.nonempty
  obtain ⟨g', gs', rfl⟩ := List.exists_cons_of_ne_nil h'.nonempty
  rw [Segment.behind, Segment.behind, ← Segment.toList_joined, ← Segment.toList_joined, same]

/-- What comes of the components of a text: those that its segments denote, a refusal, or a number
that is too long. -/
theorem components_verdict (pos : Nat) (cs : List Char) :
    Verdict (fun ps => ∃ g gs, List.Forall₂ Segment.Denotes (g :: gs) ps ∧
      cs = g.text.toList ++ Segment.behind gs) (LongField cs) (components pos cs) := by
  fun_induction components pos cs with
  | case1 pos cs e hseg =>
    have verdict := segment_verdict pos cs
    rw [hseg] at verdict
    cases verdict with
    | refused detail => exact .refused detail
    | tooLong detail long => exact .tooLong detail long
  | case2 pos cs p stop hseg =>
    obtain ⟨g, denotes, rfl⟩ := denotes_of_segment hseg
    exact .read ⟨g, [], .cons denotes .nil, rfl⟩
  | case3 => exact .refused _
  | case4 => exact .refused _
  | case5 pos cs p stop c rest hseg hcomma _ _ ps hps ih =>
    obtain ⟨g, denotes, rfl⟩ := denotes_of_segment hseg
    obtain rfl : c = ',' := by simpa using hcomma
    rw [hps] at ih
    cases ih with
    | read h =>
      obtain ⟨g', gs, later, rfl⟩ := h
      exact .read ⟨g, g' :: gs, .cons denotes later, rfl⟩
  | case6 pos cs p stop c rest hseg hcomma _ _ e he ih =>
    obtain ⟨g, denotes, rfl⟩ := denotes_of_segment hseg
    obtain rfl : c = ',' := by simpa using hcomma
    rw [he] at ih
    cases ih with
    | refused detail => exact .refused detail
    | tooLong detail long => exact .tooLong detail (.later denotes long)

theorem components_of_error {pos : Nat} {cs : List Char} {e : Fault}
    (h : segment pos cs = .error e) : components pos cs = .error e := by
  unfold components
  split
  next hseg =>
    rw [h] at hseg
    cases hseg
    rfl
  next hseg => rw [h] at hseg; cases hseg
  next hseg => rw [h] at hseg; cases hseg

theorem components_behind {pos stop : Nat} {cs rest : List Char} {p : CursorPart} {e : Fault}
    (h : segment pos cs = .ok (p, stop, ',' :: rest)) (hne : rest ≠ [])
    (he : components (stop + 1) rest = .error e) : components pos cs = .error e := by
  have more : ¬ rest.isEmpty = true := fun hempty => hne (List.isEmpty_iff.1 hempty)
  unfold components
  split
  next hseg => rw [h] at hseg; cases hseg
  next hseg => rw [h] at hseg; cases hseg
  next hseg =>
    rw [h] at hseg
    cases hseg
    rw [if_neg (fun h => h rfl), if_neg more, he]

theorem LongField.ne_nil {cs : List Char} (h : LongField cs) : cs ≠ [] := by
  cases h with
  | length | payload => exact List.append_ne_nil_of_right_ne_nil _ (List.cons_ne_nil _ _)
  | later => exact List.append_ne_nil_of_right_ne_nil _ (List.cons_ne_nil _ _)

theorem IsLong.length_lt {cs : List Char} (h : IsLong cs) : Numeral.digitLimit < cs.length :=
  Nat.lt_of_lt_of_le h.2 List.countP_le_length

/-- Only long texts have numbers that are too long. -/
theorem LongField.length_lt {cs : List Char} (h : LongField cs) :
    Numeral.digitLimit < cs.length := by
  induction h with
  | length long rest =>
    have least := long.length_lt
    simp only [List.length_append, List.length_cons]
    omega
  | payload size long rest =>
    have least := long.length_lt
    simp only [List.length_append, List.length_cons]
    omega
  | later first behind ih =>
    simp only [List.length_append, List.length_cons]
    omega

/-- A number that is too long is met, whatever follows it. -/
theorem components_long {cs : List Char} (h : LongField cs) (pos : Nat) :
    ∃ detail, components pos cs = .error (.unreadable detail) := by
  induction h generalizing pos with
  | @length tag digits long rest =>
    obtain ⟨detail, hsized⟩ := sized_long long tag (pos + byteCount tag.name.toList) rest
    exact ⟨detail, components_of_error ((segment_name tag pos _).trans hsized)⟩
  | @payload kind digits text size long rest =>
    obtain ⟨detail, hvalue⟩ := payloadValue_long kind long
    have named := segment_name (.integer kind) pos (digits ++ ']' :: ':' :: (text ++ rest))
    rcases sized_spells size (.integer kind) (pos + byteCount kind.name.toList) (text ++ rest) with
      ⟨colon, hsized⟩ | ⟨detail', hsized⟩
    · refine ⟨detail, components_of_error ((named.trans hsized).trans ?_)⟩
      rw [payload_bytes, hvalue]
      rfl
    · exact ⟨detail', components_of_error (named.trans hsized)⟩
  | @later g p rest first behind ih =>
    rcases segment_of_denotes first pos (',' :: rest) with ⟨stop, hseg⟩ | ⟨detail, hseg⟩
    · obtain ⟨detail, he⟩ := ih (stop + 1)
      exact ⟨detail, components_behind hseg behind.ne_nil he⟩
    · exact ⟨detail, components_of_error hseg⟩

theorem components_of_denote {g : Segment} {gs : List Segment} {ps : List CursorPart}
    (denote : List.Forall₂ Segment.Denotes (g :: gs) ps) (pos : Nat) :
    components pos (g.text.toList ++ Segment.behind gs) = .ok ps ∨
      ∃ detail, components pos (g.text.toList ++ Segment.behind gs) = .error (.unreadable detail) := by
  induction gs generalizing g ps pos with
  | nil =>
    cases denote with
    | cons first later =>
      cases later
      rcases segment_of_denotes first pos [] with ⟨stop, hseg⟩ | ⟨detail, hseg⟩
      · exact .inl (components_of_end hseg)
      · exact .inr ⟨detail, components_of_error hseg⟩
  | cons g' gs ih =>
    cases denote with
    | cons first later =>
      rcases segment_of_denotes first pos (Segment.behind (g' :: gs)) with
        ⟨stop, hseg⟩ | ⟨detail, hseg⟩
      · have more : g'.text.toList ++ Segment.behind gs ≠ [] :=
          List.append_ne_nil_of_left_ne_nil g'.text_ne_nil _
        rcases ih later (stop + 1) with hps | ⟨detail, he⟩
        · exact .inl (components_of_comma hseg more hps)
        · exact .inr ⟨detail, components_behind hseg more he⟩
      · exact .inr ⟨detail, components_of_error hseg⟩

/-! ## Texts -/

/-- What decoding comes to. -/
theorem decode_verdict (s : String) :
    Verdict (fun ps => ∃ gs, Segments s.toUTF8 gs ps) (LongField s.toList) (decode s) := by
  unfold decode
  split_ifs with hempty
  · exact .refused _
  · have verdict := components_verdict 0 s.toList
    generalize components 0 s.toList = x at verdict
    cases verdict with
    | read h =>
      obtain ⟨g, gs, denote, text⟩ := h
      rw [← Segment.toList_joined, String.toList_inj] at text
      exact .read ⟨g :: gs, List.cons_ne_nil g gs, by rw [← text], denote⟩
    | refused detail => exact .refused detail
    | tooLong detail long => exact .tooLong detail long

theorem decode_of_ne_nil {s : String} (h : s.toList ≠ []) : decode s = components 0 s.toList := by
  unfold decode
  rw [if_neg]
  intro hempty
  rw [String.isEmpty_iff] at hempty
  exact h (by rw [hempty]; rfl)

/-- Segments are read, unless a number is too long. -/
theorem decode_of_segments {s : String} {gs : List Segment} {ps : List CursorPart}
    (h : Segments s.toUTF8 gs ps) (short : ¬ LongField s.toList) : decode s = .ok ps := by
  -- A number that stops the reading is too long where it stands, and the text has none of these.
  have text := String.toByteArray_inj.1 h.bytes
  obtain ⟨g, gs, rfl⟩ := List.exists_cons_of_ne_nil h.nonempty
  have chars : s.toList = g.text.toList ++ Segment.behind gs := by
    rw [text, Segment.toList_joined]
  have more : s.toList ≠ [] := chars ▸ List.append_ne_nil_of_left_ne_nil g.text_ne_nil _
  have verdict := components_verdict 0 s.toList
  rw [decode_of_ne_nil more]
  rcases components_of_denote h.denote 0 with hps | ⟨detail, he⟩
  · rwa [chars]
  · rw [← chars] at he
    rw [he] at verdict
    cases verdict with
    | tooLong _ long => exact absurd long short

/--
A text without numbers that are too long is decoded exactly if its bytes are segments that denote
the components.  Bytes are segments in one way at most, and a text that is none is refused.
-/
theorem decode_iff_segments (s : String) (short : ¬ LongField s.toList) :
    (∀ ps, decode s = .ok ps ↔ ∃ gs, Segments s.toUTF8 gs ps) ∧
    (∀ gs gs' ps ps', Segments s.toUTF8 gs ps → Segments s.toUTF8 gs' ps' → gs = gs' ∧ ps = ps') ∧
    ((¬ ∃ gs ps, Segments s.toUTF8 gs ps) → ∃ detail, decode s = .error (.cursor detail)) := by
  have verdict := decode_verdict s
  refine ⟨fun ps => ⟨?_, ?_⟩, fun _ _ _ _ => Segments.unique, ?_⟩
  · intro h
    rw [h] at verdict
    cases verdict with
    | read h => exact h
  · rintro ⟨gs, h⟩
    exact decode_of_segments h short
  · intro none
    generalize decode s = x at verdict
    cases verdict with
    | read h =>
      obtain ⟨gs, h⟩ := h
      exact absurd ⟨gs, _, h⟩ none
    | refused detail => exact ⟨detail, rfl⟩
    | tooLong _ long => exact absurd long short

/-- A number and its length with zeros in front, a text with a comma at its end, and a null. -/
theorem decode_iff_segments_padded :
    ¬ LongField "Int[03]:-07,String[4]:é],,Uuid[-01]:".toList ∧
    decode "Int[03]:-07,String[4]:é],,Uuid[-01]:" =
      .ok [⟨.integer .regular, .int (-7)⟩, ⟨.text, .text "é],"⟩, ⟨.uuid, .null⟩] ∧
    ∀ gs ps, Segments "Int[03]:-07,String[4]:é],,Uuid[-01]:".toUTF8 gs ps →
      gs = [⟨.integer .regular, "03", "-07"⟩, ⟨.text, "4", "é],"⟩, ⟨.uuid, "-01", ""⟩] := by
  have short : ¬ LongField "Int[03]:-07,String[4]:é],,Uuid[-01]:".toList := by
    intro long
    exact absurd long.length_lt (by decide)
  have three : Spells "03".toList 3 := .plain (by decide) (List.all_eq_true.1 (by decide))
  have seven : Spells "-07".toList (-7) := .minus (by decide) (List.all_eq_true.1 (by decide))
  have four : Spells "4".toList 4 := .plain (by decide) (List.all_eq_true.1 (by decide))
  have one : Spells "-01".toList (-1) := .minus (by decide) (List.all_eq_true.1 (by decide))
  have cut : Segments "Int[03]:-07,String[4]:é],,Uuid[-01]:".toUTF8
      [⟨.integer .regular, "03", "-07"⟩, ⟨.text, "4", "é],"⟩, ⟨.uuid, "-01", ""⟩]
      [⟨.integer .regular, .int (-7)⟩, ⟨.text, .text "é],"⟩, ⟨.uuid, .null⟩] := by
    refine ⟨List.cons_ne_nil _ _, by decide, ?_⟩
    exact .cons (.value three (.integer seven (by decide)))
      (.cons (.value four (.text _)) (.cons (.null one) .nil))
  obtain ⟨reads, unique, -⟩ := decode_iff_segments _ short
  exact ⟨short, (reads _).2 ⟨_, cut⟩, fun gs ps h => (unique gs _ ps _ h cut).1⟩

end TableGraph.Cursor
