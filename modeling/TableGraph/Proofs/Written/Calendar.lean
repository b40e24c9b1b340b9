import Mathlib.Tactic.SplitIfs
import TableGraph.Calendar.DateTime
import TableGraph.Proofs.Written.Digits

/-!
# Calendar values that are read back

Main statements: `Date.ofText?_toText`, `Time.ofText?_toText` and `DateTime.ofText?_toText`.  Dates
are read back from their texts, clocks down to the microsecond.  An offset is read back if it is
none or at least a second; a smaller one is read as none (`Offset.settled`).
-/

namespace TableGraph

/-! ## Dates -/

namespace Date

theorem month_le {year month : Nat} (h : 0 < monthLength year month) : month ≤ 12 := by
  unfold monthLength at h
  split at h
  · omega
  · rcases Nat.lt_or_ge (month - 1) 12 with hshort | hlong
    · omega
    · have none : (monthLengths year)[month - 1]? = none := List.getElem?_eq_none hlong
      rw [none] at h
      exact absurd h (by decide)

theorem monthLength_le (year month : Nat) : monthLength year month ≤ 31 := by
  have all : ∀ n ∈ monthLengths year, n ≤ 31 := by
    unfold monthLengths
    split <;> decide
  unfold monthLength
  split
  · exact Nat.zero_le 31
  · cases h : (monthLengths year)[month - 1]? with
    | none => exact Nat.zero_le 31
    | some n => exact all n (List.mem_of_getElem? h)

/-- The parts of a date have their number of digits. -/
theorem parts_lt (d : Date) : d.year < 10 ^ 4 ∧ d.month < 10 ^ 2 ∧ d.day < 10 ^ 2 := by
  have valid := d.valid
  unfold isCalendarDay at valid
  simp only [Bool.and_eq_true, decide_eq_true_iff] at valid
  obtain ⟨⟨⟨-, hyear⟩, hfirst⟩, hlast⟩ := valid
  have long := monthLength_le d.year d.month
  have month := month_le (Nat.lt_of_lt_of_le hfirst hlast)
  exact ⟨by omega, by omega, by omega⟩

theorem length_chars (d : Date) : d.chars.length = 10 := by
  obtain ⟨hyear, hmonth, hday⟩ := d.parts_lt
  unfold chars
  simp only [List.length_append, List.length_cons, length_paddedDigits (by decide : 0 < 4) hyear,
    length_paddedDigits (by decide : 0 < 2) hmonth, length_paddedDigits (by decide : 0 < 2) hday]

/-- The characters of a date are digits and hyphens. -/
theorem isDigit_or_hyphen {d : Date} {c : Char} (h : c ∈ d.chars) : c.isDigit = true ∨ c = '-' := by
  unfold chars at h
  simp only [List.mem_append, List.mem_cons] at h
  rcases h with (hyear | rfl | hmonth) | rfl | hday
  · exact .inl (isDigit_of_mem_paddedDigits hyear)
  · exact .inr rfl
  · exact .inl (isDigit_of_mem_paddedDigits hmonth)
  · exact .inr rfl
  · exact .inl (isDigit_of_mem_paddedDigits hday)

theorem ofParts?_eq_some (d : Date) : ofParts? d.year d.month d.day = some d := dif_pos d.valid

/-- A date is read off its characters. -/
theorem ofChars?_chars (d : Date) : ofChars? 10 d.chars = some d := by
  obtain ⟨hyear, hmonth, hday⟩ := d.parts_lt
  obtain ⟨m, ms, hms, hdigit⟩ := exists_paddedDigits (by decide : 0 < 2) hmonth
  have noWeek : m ≠ 'W' := elim_isDigit hdigit (P := (· ≠ 'W')) (by decide)
  have month := takeDigits?_paddedDigits (by decide) hmonth ('-' :: paddedDigits 2 d.day)
  have day := takeDigits?_paddedDigits (by decide) hday []
  have parts := d.ofParts?_eq_some
  rw [List.append_nil] at day
  rw [hms, List.cons_append] at month
  unfold chars ofChars?
  rw [List.append_assoc, takeDigits?_paddedDigits (by decide) hyear, hms]
  simp only [Option.bind_eq_bind, Option.bind_some, List.cons_append]
  split
  next hweek => exact absurd (List.cons.inj hweek).1 noWeek
  next => rw [month]; simp only [Option.bind_some, if_pos, day, parts]

theorem utf8ByteSize_toText (d : Date) : d.toText.utf8ByteSize = 10 := by
  have single : ∀ c ∈ d.chars, c.utf8Size = 1 := by
    intro c hc
    rcases isDigit_or_hyphen hc with hdigit | rfl
    · exact elim_isDigit hdigit (P := fun c => c.utf8Size = 1) (by decide)
    · rfl
  have count : ∀ cs : List Char, (∀ c ∈ cs, c.utf8Size = 1) → Cursor.byteCount cs = cs.length := by
    intro cs hcs
    induction cs with
    | nil => rfl
    | cons c cs ih =>
      rw [List.forall_mem_cons] at hcs
      show c.utf8Size + Cursor.byteCount cs = cs.length + 1
      rw [hcs.1, ih hcs.2, Nat.add_comm]
  rw [← Cursor.byteCount_toList, toText, String.toList_ofList, count _ single, length_chars]

/-- A date is read back from its text. -/
theorem ofText?_toText (d : Date) : ofText? d.toText = some d := by
  unfold ofText?
  rw [d.utf8ByteSize_toText, if_pos (.inr (.inr rfl)), toText, String.toList_ofList,
    ofChars?_chars]

end Date

/-! ## Clocks -/

namespace Time

section
variable {n f : Nat} {colons : Option Bool}

/-- A part of a clock in front of a colon. -/
theorem clock?_colon (count : Nat) (hcolons : colons ≠ some false) (hn : n < 10 ^ 2)
    {rest : List Char} (hne : rest ≠ []) :
    clock? (count + 1) colons (paddedDigits 2 n ++ ':' :: rest) =
      (clock? count (some true) rest).map (.cons n) := by
  obtain ⟨c, cs, rfl⟩ := List.exists_cons_of_ne_nil hne
  have separated : colons.getD true = true := by
    match colons, hcolons with
    | none, _ => rfl
    | some true, _ => rfl
  rw [clock?, takeDigits?_paddedDigits (by decide) hn]
  simp only [Option.bind_eq_bind, Option.bind_some, decide_true, separated, and_self, if_true]

/-- The last part of a clock. -/
theorem clock?_end (count : Nat) (colons : Option Bool) (hn : n < 10 ^ 2) :
    clock? (count + 1) colons (paddedDigits 2 n) = some ⟨[n], 0, false⟩ := by
  have read := takeDigits?_paddedDigits (by decide) hn []
  rw [List.append_nil] at read
  rw [clock?, read]
  rfl

/-- The last part of a clock with a fraction. -/
theorem clock?_fraction (count : Nat) (colons : Option Bool) (hn : n < 10 ^ 2) (hf : f < 10 ^ 6) :
    clock? (count + 1) colons (paddedDigits 2 n ++ '.' :: paddedDigits 6 f) =
      some ⟨[n], f, false⟩ := by
  have long := length_paddedDigits (by decide : 0 < 6) hf
  have digits := takeDigits?_paddedDigits (by decide) hf []
  rw [List.append_nil] at digits
  have fraction : fraction? (paddedDigits 6 f) = some ⟨[], f, false⟩ := by
    unfold fraction?
    rw [long]
    show (takeDigits? 6 (paddedDigits 6 f)).bind _ = _
    rw [digits]
    show some (Reading.mk [] (f * tenTo 0) false) = _
    rw [tenTo_zero, Nat.mul_one]
  obtain ⟨d, ds, hds⟩ := List.exists_cons_of_length_pos (by omega : 0 < (paddedDigits 6 f).length)
  have read := takeDigits?_paddedDigits (by decide) hn ('.' :: paddedDigits 6 f)
  rw [hds] at read fraction ⊢
  rw [clock?, read]
  simp only [Option.bind_eq_bind, Option.bind_some, Char.reduceEq, and_false, if_false, true_or,
    if_true, fraction, Option.map_some]
  rfl

end

/-- The seconds with the fraction behind them, if there is one. -/
theorem clock?_seconds (count : Nat) (colons : Option Bool) {s f : Nat} (hs : s < 60)
    (hf : f < 1000000) :
    clock? (count + 1) colons
      (paddedDigits 2 s ++ (if f = 0 then [] else '.' :: paddedDigits 6 f)) =
        some ⟨[s], f, false⟩ := by
  split
  next hzero =>
    subst hzero
    rw [List.append_nil, clock?_end count colons (by omega)]
  next => exact clock?_fraction count colons (by omega) (by omega)

theorem append_paddedDigits_ne_nil {width n : Nat} (hwidth : 0 < width) (h : n < 10 ^ width)
    (rest : List Char) : paddedDigits width n ++ rest ≠ [] := by
  obtain ⟨d, ds, hds, -⟩ := exists_paddedDigits hwidth h
  rw [hds]
  exact List.cons_ne_nil d _

/-- Hours and minutes are read in front of the seconds. -/
theorem clock?_minutes (t : Time) (rest : List Char) :
    clock? 3 none (paddedDigits 2 t.hour ++ ':' :: paddedDigits 2 t.minute ++
      ':' :: paddedDigits 2 t.second ++ rest) =
        (clock? 1 (some true) (paddedDigits 2 t.second ++ rest)).map fun r =>
          (r.cons t.minute).cons t.hour := by
  obtain ⟨⟨hhour, hminute⟩, hsecond, -⟩ := t.valid
  have hours : t.hour < 10 ^ 2 := by omega
  have minutes : t.minute < 10 ^ 2 := by omega
  have seconds : t.second < 10 ^ 2 := by omega
  simp only [List.append_assoc, List.cons_append]
  rw [clock?_colon 2 (by decide) hours (append_paddedDigits_ne_nil (by decide) minutes _),
    clock?_colon 1 (by decide) minutes (append_paddedDigits_ne_nil (by decide) seconds _),
    Option.map_map]
  rfl

/-- The clock of a time is read off its characters. -/
theorem clock?_clockChars (t : Time) :
    clock? 3 none t.clockChars = some ⟨[t.hour, t.minute, t.second], t.micro, false⟩ := by
  obtain ⟨-, hsecond, hmicro⟩ := t.valid
  unfold clockChars
  rw [clock?_minutes, clock?_seconds 0 _ hsecond hmicro]
  rfl

/-- The characters of a clock whose fraction is always written. -/
def fullChars (t : Time) : List Char :=
  paddedDigits 2 t.hour ++ ':' :: paddedDigits 2 t.minute ++
    ':' :: paddedDigits 2 t.second ++ '.' :: paddedDigits 6 t.micro

theorem clock?_fullChars (t : Time) :
    clock? 3 none t.fullChars = some ⟨[t.hour, t.minute, t.second], t.micro, false⟩ := by
  obtain ⟨-, hsecond, hmicro⟩ := t.valid
  unfold fullChars
  rw [clock?_minutes, clock?_fraction 0 _ (by omega) (by omega)]
  rfl

end Time

/-! ## Offsets -/

namespace Offset

/-- The offset that is read back: one of less than a second counts as none. -/
def settled (o : Offset) : Offset := if o.micros.natAbs < 1000000 then .utc else o

/-- The offset is none, or it is at least a second. -/
def IsSettled (o : Offset) : Prop := o.micros.natAbs < 1000000 → o.micros = 0

instance (o : Offset) : Decidable o.IsSettled := inferInstanceAs (Decidable (_ → _))

theorem settled_eq_self {o : Offset} : o.settled = o ↔ o.IsSettled := by
  unfold settled IsSettled
  split
  next hsmall =>
    constructor
    · rintro rfl _
      rfl
    · intro h
      obtain ⟨micros, bounded⟩ := o
      obtain rfl : micros = 0 := h hsmall
      rfl
  next hlarge => exact ⟨fun _ h => absurd h hlarge, fun _ => rfl⟩

theorem ofMicros?_micros (o : Offset) : ofMicros? o.micros = some o := dif_pos o.bounded

theorem micros_of_ofMicros? {m : Int} {o : Offset} (h : ofMicros? m = some o) :
    o.micros = m := by
  unfold ofMicros? at h
  split_ifs at h
  cases h
  rfl

end Offset

namespace Time

/-- The parts of an offset are read off the characters behind its sign. -/
theorem clock?_offset (o : Offset) : ∃ r : Reading,
    clock? 3 none o.chars.tail = some r ∧ r.goesOn = false ∧
      r.seconds = o.micros.natAbs / 1000000 ∧ r.micro = o.micros.natAbs % 1000000 := by
  have bounded := o.bounded
  have hours : o.micros.natAbs / 1000000 / 3600 < 10 ^ 2 := by omega
  have minutes : o.micros.natAbs / 1000000 / 60 % 60 < 10 ^ 2 := by omega
  have seconds : o.micros.natAbs / 1000000 % 60 < 10 ^ 2 := by omega
  unfold Offset.chars
  simp only [List.tail_cons, List.cons_append, List.append_assoc]
  rw [clock?_colon 2 (by decide) hours (append_paddedDigits_ne_nil (by decide) minutes _)]
  split
  next hmicro =>
    rw [clock?_colon 1 (by decide) minutes (append_paddedDigits_ne_nil (by decide) seconds _),
      clock?_fraction 0 _ seconds (by omega)]
    refine ⟨_, rfl, rfl, ?_, rfl⟩
    show _ / 3600 * 3600 + _ % 60 * 60 + _ % 60 = _
    omega
  next hmicro =>
    split
    next hsecond =>
      rw [clock?_colon 1 (by decide) minutes (List.append_nil (paddedDigits 2 _) ▸
        append_paddedDigits_ne_nil (by decide) seconds []), clock?_end 0 _ seconds]
      refine ⟨_, rfl, rfl, ?_, ?_⟩
      · show _ / 3600 * 3600 + _ % 60 * 60 + _ % 60 = _
        omega
      · show 0 = _
        omega
    next hsecond =>
      rw [List.append_nil, clock?_end 1 _ minutes]
      refine ⟨_, rfl, rfl, ?_, ?_⟩
      · show _ / 3600 * 3600 + _ % 60 * 60 + 0 = _
        omega
      · show 0 = _
        omega

/-- An offset is read off its characters, unless it is less than a second. -/
theorem offset?_chars (o : Offset) :
    offset? (o.micros < 0) o.chars.tail = some o.settled := by
  obtain ⟨r, hread, hends, hseconds, hmicro⟩ := clock?_offset o
  unfold offset?
  rw [hread]
  simp only [Option.bind_eq_bind, Option.bind_some, hends, if_false, Bool.false_eq_true]
  unfold Offset.settled
  by_cases hsmall : o.micros.natAbs < 1000000
  · rw [if_pos hsmall, if_pos (by omega)]
  · rw [if_neg hsmall, if_neg (by omega), ← o.ofMicros?_micros]
    congr 1
    rw [hseconds, hmicro]
    by_cases hnegative : o.micros < 0
    · rw [decide_eq_true hnegative, if_pos rfl]
      omega
    · rw [decide_eq_false hnegative, if_neg Bool.false_ne_true]
      omega

/-- Behind a sign a fraction of a second is read only together with a second. -/
theorem isSettled_of_offset? {negative : Bool} {cs : List Char} {o : Offset}
    (h : offset? negative cs = some o) : o.IsSettled := by
  unfold offset? at h
  obtain ⟨r, -, h⟩ := Option.bind_eq_some_iff.1 h
  by_cases hgoes : r.goesOn = true
  · rw [if_pos hgoes] at h
    cases h
  rw [if_neg hgoes] at h
  by_cases hzero : r.seconds = 0
  · rw [if_pos hzero] at h
    cases h
    decide
  rw [if_neg hzero] at h
  have micros := Offset.micros_of_ofMicros? h
  intro hsmall
  split_ifs at micros <;> omega

/-! ## Times of day -/

/-- The time that is read back. -/
def settled (t : Time) : Time := { t with offset := t.offset.map Offset.settled }

theorem toTime?_clock (t : Time) (offset : Option Offset) :
    Reading.toTime? ⟨[t.hour, t.minute, t.second], t.micro, false⟩ offset =
      some { t with offset } := dif_pos t.valid

theorem mem_fullChars {t : Time} {c : Char} (h : c ∈ t.clockChars) : c ∈ t.fullChars := by
  unfold clockChars at h
  rcases List.mem_append.1 h with hclock | hfraction
  · exact List.mem_append_left _ hclock
  · split at hfraction
    · cases hfraction
    · exact List.mem_append_right _ hfraction

/-- The characters of a clock are digits, colons and a point. -/
theorem isDigit_or_separator {t : Time} {c : Char} (h : c ∈ t.fullChars) :
    c.isDigit = true ∨ c = ':' ∨ c = '.' := by
  unfold fullChars at h
  simp only [List.mem_append, List.mem_cons] at h
  rcases h with ((hhour | rfl | hminute) | rfl | hsecond) | rfl | hmicro
  · exact .inl (isDigit_of_mem_paddedDigits hhour)
  · exact .inr (.inl rfl)
  · exact .inl (isDigit_of_mem_paddedDigits hminute)
  · exact .inr (.inl rfl)
  · exact .inl (isDigit_of_mem_paddedDigits hsecond)
  · exact .inr (.inr rfl)
  · exact .inl (isDigit_of_mem_paddedDigits hmicro)

/-- None of the characters of a clock begins an offset. -/
theorem not_isMark {t : Time} {c : Char} (h : c ∈ t.fullChars) :
    (!(c = '+' || c = '-' || c = 'Z')) = true := by
  rcases isDigit_or_separator h with hdigit | rfl | rfl
  · exact elim_isDigit hdigit (P := fun c => (!(c = '+' || c = '-' || c = 'Z')) = true) (by decide)
  · decide
  · decide

/-- A clock without an offset behind it is read as a time without one. -/
theorem ofChars?_of_clock {t : Time} {cs : List Char} (plain : ∀ c ∈ cs, c ∈ t.fullChars)
    (read : clock? 3 none cs = some ⟨[t.hour, t.minute, t.second], t.micro, false⟩) :
    ofChars? cs = some { t with offset := none } := by
  have plain := fun c (hc : c ∈ cs) => not_isMark (plain c hc)
  unfold ofChars?
  rw [← List.append_nil cs]
  simp only [List.takeWhile_append_of_pos plain, List.dropWhile_append_of_pos plain]
  simp only [List.takeWhile_nil, List.dropWhile_nil, List.append_nil, read,
    Option.bind_eq_bind, Option.bind_some, Bool.false_eq_true, if_false, toTime?_clock]

theorem ofChars?_clockChars (t : Time) :
    ofChars? t.clockChars = some { t with offset := none } :=
  ofChars?_of_clock (fun _ hc => mem_fullChars hc) t.clock?_clockChars

theorem ofChars?_fullChars (t : Time) : ofChars? t.fullChars = some { t with offset := none } :=
  ofChars?_of_clock (fun _ hc => hc) t.clock?_fullChars

/-- The offset stands behind its sign. -/
theorem ofChars?_append (t : Time) {sign : Char} (hsign : sign = '-' ∨ sign = '+')
    (rest : List Char) : ofChars? (t.clockChars ++ sign :: rest) =
      (offset? (sign = '-') rest).map fun o => { t with offset := some o } := by
  have plain := fun c (hc : c ∈ t.clockChars) => not_isMark (mem_fullChars hc)
  have found (o : Option Offset) :
      (o.bind fun o => Reading.toTime? ⟨[t.hour, t.minute, t.second], t.micro, false⟩ (some o)) =
        o.map fun o => { t with offset := some o } := by
    simp only [toTime?_clock, Option.map_eq_bind, Function.comp_def]
  unfold ofChars?
  simp only [List.takeWhile_append_of_pos plain, List.dropWhile_append_of_pos plain]
  rcases hsign with rfl | rfl
  all_goals
    simp only [List.takeWhile_cons, List.dropWhile_cons, Char.reduceEq, decide_true, decide_false,
      Bool.or_false, Bool.or_true, Bool.not_true, Bool.false_eq_true, if_false,
      List.append_nil, clock?_clockChars, Option.bind_eq_bind, Option.bind_some, found]
    rfl

/-- A time is read off its characters. -/
theorem ofChars?_chars (t : Time) : ofChars? t.chars = some t.settled := by
  unfold chars settled
  cases hoffset : t.offset with
  | none =>
    dsimp only
    rw [List.append_nil, ofChars?_clockChars]
    rfl
  | some o =>
    have read := offset?_chars o
    dsimp only
    by_cases hnegative : o.micros < 0
    · have signed : o.chars = '-' :: o.chars.tail := by
        unfold Offset.chars
        rw [if_pos hnegative]
        rfl
      rw [decide_eq_true hnegative] at read
      rw [signed, ofChars?_append t (.inl rfl), decide_eq_true rfl, read]
      rfl
    · have signed : o.chars = '+' :: o.chars.tail := by
        unfold Offset.chars
        rw [if_neg hnegative]
        rfl
      rw [decide_eq_false hnegative] at read
      rw [signed, ofChars?_append t (.inr rfl), decide_eq_false (by decide), read]
      rfl

/-- A text that begins with the hour has no mark in front of it. -/
theorem ofText?_of_hour (t : Time) (rest : List Char) :
    ofText? (String.ofList (paddedDigits 2 t.hour ++ rest)) =
      ofChars? (paddedDigits 2 t.hour ++ rest) := by
  have hours : t.hour < 10 ^ 2 := by
    have := t.valid
    omega
  obtain ⟨d, ds, hds, hdigit⟩ := exists_paddedDigits (by decide) hours
  have noMark : d ≠ 'T' := elim_isDigit hdigit (P := (· ≠ 'T')) (by decide)
  unfold ofText?
  rw [String.toList_ofList, hds]
  split
  next hmark => exact absurd (List.cons.inj hmark).1 noMark
  next => rfl

/-- A time is read back from its text, but for an offset of less than a second. -/
theorem ofText?_toText (t : Time) : ofText? t.toText = some t.settled := by
  have read := t.ofChars?_chars
  unfold toText
  unfold chars clockChars at read ⊢
  simp only [List.append_assoc] at read ⊢
  rw [ofText?_of_hour, read]

/-- A time is read back from the text of its clock, but for its offset. -/
theorem ofText?_fullChars (t : Time) :
    ofText? (String.ofList t.fullChars) = some { t with offset := none } := by
  have read := t.ofChars?_fullChars
  unfold fullChars at read ⊢
  simp only [List.append_assoc] at read ⊢
  rw [ofText?_of_hour, read]

/-! ## Offsets that are read -/

theorem offset_of_toTime? {r : Reading} {offset : Option Offset} {t : Time}
    (h : r.toTime? offset = some t) : t.offset = offset := by
  unfold Reading.toTime? ofParts? at h
  split_ifs at h
  cases h
  rfl

theorem isSettled_of_ofChars? {cs : List Char} {t : Time} (h : ofChars? cs = some t)
    {o : Offset} (ho : t.offset = some o) : o.IsSettled := by
  unfold ofChars? at h
  obtain ⟨r, -, h⟩ := Option.bind_eq_some_iff.1 h
  split at h
  next =>
    split_ifs at h
    rw [offset_of_toTime? h] at ho
    cases ho
  next =>
    split_ifs at h
    rw [offset_of_toTime? h] at ho
    cases ho
    decide
  next =>
    obtain ⟨o', ho', h⟩ := Option.bind_eq_some_iff.1 h
    rw [offset_of_toTime? h] at ho
    cases ho
    exact isSettled_of_offset? ho'

theorem isSettled_of_ofText? {s : String} {t : Time} (h : ofText? s = some t) {o : Offset}
    (ho : t.offset = some o) : o.IsSettled := by
  unfold ofText? at h
  split at h <;> exact isSettled_of_ofChars? h ho

end Time

/-! ## Dates with a time -/

namespace DateTime

/-- The moment that is read back. -/
def settled (t : DateTime) : DateTime := { t with time := t.time.settled }

/-- The separator stands behind the tenth character. -/
theorem dateLength?_chars (d : Date) (rest : List Char) :
    dateLength? (d.chars ++ rest) = some 10 := by
  obtain ⟨hyear, hmonth, hday⟩ := d.parts_lt
  obtain ⟨m, ms, hms, hdigit⟩ := exists_paddedDigits (by decide : 0 < 2) hmonth
  have noWeek : m ≠ 'W' := elim_isDigit hdigit (P := (· ≠ 'W')) (by decide)
  have long : (d.chars ++ rest).length = 10 + rest.length := by
    rw [List.length_append, d.length_chars]
  have behind : (d.chars ++ rest).drop 4 =
      '-' :: m :: (ms ++ '-' :: paddedDigits 2 d.day ++ rest) := by
    unfold Date.chars
    rw [hms]
    simp only [List.append_assoc, List.cons_append]
    exact List.drop_left' (length_paddedDigits (by decide) hyear)
  have hyphen : (d.chars ++ rest)[4]? = some '-' := by
    rw [← List.getElem?_drop (i := 4) (j := 0), behind]
    rfl
  have digit : (d.chars ++ rest)[5]? = some m := by
    rw [← List.getElem?_drop (i := 4) (j := 1), behind]
    rfl
  unfold dateLength?
  rw [long, if_neg (by omega), if_neg (by omega), if_pos hyphen, digit,
    if_neg fun h => noWeek (Option.some.inj h)]

/-- A date with a time is read from what its parts are read from. -/
theorem ofText?_append {d : Date} {cs : List Char} {t : Time} (h : Time.ofChars? cs = some t)
    (separator : Char) : ofText? (String.ofList (d.chars ++ separator :: cs)) = some ⟨d, t⟩ := by
  have ten := d.length_chars
  have front : (d.chars ++ separator :: cs).take 10 = d.chars := by
    rw [← ten, List.take_left]
  have behind : (d.chars ++ separator :: cs).drop 10 = separator :: cs := by
    rw [← ten, List.drop_left]
  have long : ¬ (d.chars ++ separator :: cs).length < 10 := by
    rw [List.length_append, ten]
    omega
  unfold ofText?
  simp only [String.toList_ofList, dateLength?_chars, Option.bind_eq_bind, Option.bind_some, long,
    if_false, front, behind, Date.ofChars?_chars, h]

/-- A date with a time is read back from its text, but for an offset of less than a second. -/
theorem ofText?_toText (separator : Char) (t : DateTime) :
    ofText? (t.toText separator) = some t.settled :=
  ofText?_append t.time.ofChars?_chars separator

/-- The offset behind a date and a time is none or at least a second. -/
theorem isSettled_of_ofText? {s : String} {t : DateTime} (h : ofText? s = some t)
    {o : Offset} (ho : t.time.offset = some o) : o.IsSettled := by
  unfold ofText? at h
  obtain ⟨length, -, h⟩ := Option.bind_eq_some_iff.1 h
  split_ifs at h
  obtain ⟨date, -, h⟩ := Option.bind_eq_some_iff.1 h
  split at h
  next =>
    cases h
    cases ho
  next =>
    obtain ⟨time, htime, h⟩ := Option.bind_eq_some_iff.1 h
    cases h
    exact Time.isSettled_of_ofChars? htime ho

end DateTime

end TableGraph
