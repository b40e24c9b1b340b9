import Mathlib.Algebra.Group.Int.Defs
import TableGraph.Graph.Scalar
import TableGraph.Proofs.Cursor.Grammar
import TableGraph.Proofs.Writable
import TableGraph.Proofs.Written.Decimal

/-!
# Wide integers

A client sends a whole number as a literal of a query, as digits in quotes, as digits in a variable
or as a number in a variable.  The scalar takes numbers from `-2^63` to `2^64 - 1`, whatever the
column, and the column takes those of its width.

Main statement: `BigInteger.received_iff`.  What becomes of a number depends on the number alone and
not on the way it is written; truth values are refused in every way; and a number that a column
takes is shown as itself.
-/

namespace TableGraph

/-! ## Digits that are read as a number -/

namespace Numeral

/-- Neither an underscore nor padding, and no digit of another script. -/
def IsPlain (c : Char) : Prop := Text.isPadding c = false ∧ c ≠ '_' ∧ ordinary c = c

instance (c : Char) : Decidable (IsPlain c) := inferInstanceAs (Decidable (_ ∧ _ ∧ _))

theorem joinedAfter_eq_self {before : Option Char} {cs : List Char} (hbefore : before ≠ some '_')
    (h : ∀ c ∈ cs, c ≠ '_') : joinedAfter before cs = some cs := by
  induction cs generalizing before with
  | nil => exact if_neg hbefore
  | cons c cs ih =>
    rw [List.forall_mem_cons] at h
    have next : some c ≠ some '_' := fun same => h.1 (Option.some.inj same)
    rw [joinedAfter, if_neg h.1, if_neg fun both => hbefore both.1, ih next h.2]
    rfl

theorem plain?_eq_self {cs : List Char} (h : ∀ c ∈ cs, IsPlain c) : plain? cs = some cs := by
  unfold plain?
  rw [Text.trim_eq_self fun c hc => (h c hc).1, List.map_congr_left fun c hc => (h c hc).2.2,
    List.map_id']
  exact joinedAfter_eq_self nofun fun c hc => (h c hc).2.1

/-- The text is a number with a minus or without, of no more digits than are read. -/
def Names (s : String) (n : Int) : Prop :=
  Cursor.Spells s.toList n ∧ s.toList.countP Char.isDigit ≤ digitLimit

theorem isPlain_of_spells {cs : List Char} {n : Int} (h : Cursor.Spells cs n) :
    ∀ c ∈ cs, IsPlain c := by
  have plain {ds : List Char} (digits : ∀ d ∈ ds, d.isDigit = true) : ∀ d ∈ ds, IsPlain d :=
    fun d hd => elim_isDigit (digits d hd) (by decide)
  cases h with
  | plain _ digits => exact plain digits
  | minus _ digits => exact List.forall_mem_cons.2 ⟨by decide, plain digits⟩

/-- The sign of a number is taken off its digits. -/
theorem splitSign_of_spells {cs : List Char} {n : Int} (h : Cursor.Spells cs n) :
    splitSign cs = Cursor.splitMinus cs := by
  cases h with
  | plain nonempty digits =>
    obtain ⟨d, ds, rfl⟩ := List.exists_cons_of_ne_nil nonempty
    have digit := digits d List.mem_cons_self
    rw [splitSign_of_isDigit digit]
    rcases Cursor.splitMinus_cases (d :: ds) with ⟨_, minus⟩ | same
    · cases minus
      exact absurd digit Cursor.not_isDigit_minus
    · exact same.symm
  | minus => rfl

/-- What names a number is read as that number. -/
theorem Names.integer {s : String} {n : Int} (h : Names s n) : Numeral.integer s = .ok n := by
  obtain ⟨spelled, short⟩ := h
  obtain ⟨negative, ds, hsplit, nonempty, digits, count, rfl⟩ := spelled.splitMinus
  unfold Numeral.integer
  rw [plain?_eq_self (isPlain_of_spells spelled)]
  dsimp only
  rw [splitSign_of_spells spelled, hsplit]
  dsimp only
  rw [nonempty, digits, count, if_neg (by decide), if_neg (Nat.not_lt.2 short)]

/-- Every number that is short enough is named by the text that shows it. -/
theorem names_toString {n : Int} (h : digitCount n.natAbs ≤ digitLimit) : Names (toString n) n := by
  have digits (m : Nat) : ∀ d ∈ Nat.toDigits 10 m, d.isDigit = true :=
    fun _ => Nat.isDigit_of_mem_toDigits (by decide) (by decide)
  have count (m : Nat) : (Nat.toDigits 10 m).countP Char.isDigit = digitCount m :=
    List.countP_eq_length.2 (digits m)
  have value (m : Nat) : valueOf (Nat.toDigits 10 m) = m := Cursor.valueOf_toDigits m
  unfold Names
  rcases n with m | m
  · have spelled := Cursor.Spells.plain Nat.toDigits_ne_nil (digits m)
    rw [value] at spelled
    rw [Cursor.toList_toString_ofNat, count]
    exact ⟨spelled, h⟩
  · have spelled := Cursor.Spells.minus Nat.toDigits_ne_nil (digits (m + 1))
    rw [value] at spelled
    rw [Cursor.toList_toString_negSucc, List.countP_cons_of_neg Cursor.not_isDigit_minus, count]
    exact ⟨spelled, h⟩

end Numeral

namespace BigInteger

/-! ## What is sent -/

/-- What a client sends where a big integer is expected. -/
inductive Sent
  | literal (l : Graph.Literal)
  | value (v : Value)

/-- The big integer that is sent. -/
def Sent.coerced : Sent → Except Fault Int
  | literal l => Graph.bigIntegerOfLiteral l
  | value v => coerce v

/-- The number is sent: as a literal, as digits in quotes, or in a variable as digits or a
number. -/
inductive Writes (n : Int) : Sent → Prop
  | literal {s : String} (h : Numeral.Names s n) : Writes n (.literal (.int s))
  | quoted {s : String} (h : Numeral.Names s n) : Writes n (.literal (.string s))
  | digits {s : String} (h : Numeral.Names s n) : Writes n (.value (.text s))
  | number (h : (Value.int n).isWritable = true) : Writes n (.value (.int n))

/-- What a column of a width receives. -/
def received (codec : Codec) (path : String) (kind : IntegerKind) (label : Option String)
    (sent : Sent) : Except Fault Value := do
  codec.parse path (.basic (.integer kind) label) (.int (← sent.coerced))

theorem coerce_of_whole {v : Value} {n : Int} (whole : whole? v = some n)
    (writable : v.isWritable = true) : coerce v = if holds n then .ok n else
      .error (.graph ("BigInt cannot represent value outside 64 bits: " ++ v.quoted)) := by
  unfold coerce
  split
  next => cases whole
  next =>
    rw [whole, ← refuse_of_isWritable writable]

theorem whole_of_names {s : String} {n : Int} (h : Numeral.Names s n) :
    whole? (.text s) = some n := by
  show (Numeral.integer s).toOption = some n
  rw [h.integer]
  rfl

theorem Writes.isWritable {n : Int} {sent : Sent} (h : Writes n sent) :
    (Value.int n).isWritable = true := by
  cases h with
  | literal h | quoted h | digits h => exact Value.isWritable_of_integer h.integer
  | number h => exact h

/-- The scalar takes a number that it holds, and refuses every other one. -/
theorem Writes.coerced {n : Int} {sent : Sent} (h : Writes n sent) :
    ∃ words, sent.coerced = if holds n then .ok n else .error (.graph words) := by
  cases h with
  | literal h | quoted h | digits h => exact ⟨_, coerce_of_whole (whole_of_names h) rfl⟩
  | number h => exact ⟨_, coerce_of_whole rfl h⟩

theorem holds_iff_bounds {n : Int} : holds n = true ↔ -2 ^ 63 ≤ n ∧ n ≤ 2 ^ 64 - 1 := holds_iff

/-- Every width lies within the bounds of the scalar. -/
theorem holds_of_width {kind : IntegerKind} {n : Int} (h : kind.holds n = true) :
    holds n = true := by
  have low : -(2 ^ 63 : Int) ≤ kind.low := by cases kind <;> decide
  have high : kind.high ≤ (2 ^ 64 - 1 : Int) := by cases kind <;> decide
  have within := Cursor.holds_iff.1 h
  exact holds_iff_bounds.2 ⟨Int.le_trans low within.1, Int.le_trans within.2 high⟩

/-! ## What a column receives -/

section

variable (codec : Codec) (path : String) (kind : IntegerKind) (label : Option String) {n : Int}
  {sent : Sent}

theorem parse_of_holds (h : kind.holds n = true) :
    codec.parse path (.basic (.integer kind) label) (.int n) = .ok (.int n) := if_pos h

theorem parse_of_not_holds (h : ¬ kind.holds n = true)
    (writable : (Value.int n).isWritable = true) :
    ∃ detail, codec.parse path (.basic (.integer kind) label) (.int n) =
      .error (.conversion path detail) :=
  ⟨_, (if_neg h).trans (Codec.refuse_of_isWritable writable _ _)⟩

/-- A number that the scalar holds is left to the column. -/
theorem received_of_holds (h : Writes n sent) (hn : holds n = true) :
    received codec path kind label sent =
      codec.parse path (.basic (.integer kind) label) (.int n) := by
  obtain ⟨words, coerced⟩ := h.coerced
  unfold received
  rw [coerced, if_pos hn]
  rfl

theorem received_of_not_holds (h : Writes n sent) (hn : ¬ holds n = true) :
    ∃ words, received codec path kind label sent = .error (.graph words) := by
  obtain ⟨words, coerced⟩ := h.coerced
  unfold received
  rw [coerced, if_neg hn]
  exact ⟨words, rfl⟩

/-- A number is received, refused by the scalar, or refused by the column. -/
theorem received_cases (h : Writes n sent) :
    (kind.holds n = true ∧ received codec path kind label sent = .ok (.int n)) ∨
    (¬ holds n = true ∧ ∃ words, received codec path kind label sent = .error (.graph words)) ∨
    (holds n = true ∧ ¬ kind.holds n = true ∧
      ∃ detail, received codec path kind label sent = .error (.conversion path detail)) := by
  by_cases scalar : holds n = true
  · rw [received_of_holds codec path kind label h scalar]
    by_cases column : kind.holds n = true
    · exact .inl ⟨column, parse_of_holds codec path kind label column⟩
    · exact .inr (.inr ⟨scalar, column,
        parse_of_not_holds codec path kind label column h.isWritable⟩)
  · exact .inr (.inl ⟨scalar, received_of_not_holds codec path kind label h scalar⟩)

/--
A number is received as itself exactly if the column has room for it, refused by the scalar exactly
if it is outside `-2^63` to `2^64 - 1`, and refused by the column otherwise; inside of these bounds
all ways to write it are received alike.  Truth values are refused in every way.  A number that is
received is shown as itself by the column and by the scalar.
-/
theorem received_iff (h : Writes n sent) :
    ((received codec path kind label sent = .ok (.int n) ↔ kind.low ≤ n ∧ n ≤ kind.high) ∧
      ((∃ words, received codec path kind label sent = .error (.graph words)) ↔
        ¬ (-2 ^ 63 ≤ n ∧ n ≤ 2 ^ 64 - 1)) ∧
      ((∃ detail, received codec path kind label sent = .error (.conversion path detail)) ↔
        (-2 ^ 63 ≤ n ∧ n ≤ 2 ^ 64 - 1) ∧ ¬ (kind.low ≤ n ∧ n ≤ kind.high)) ∧
      (-2 ^ 63 ≤ n ∧ n ≤ 2 ^ 64 - 1 → ∀ other, Writes n other →
        received codec path kind label other = received codec path kind label sent)) ∧
    (∀ b, (∃ words, received codec path kind label (.literal (.bool b)) = .error (.graph words)) ∧
      (∃ words, received codec path kind label (.value (.bool b)) = .error (.graph words)) ∧
      ∃ detail, codec.parse path (.basic (.integer kind) label) (.bool b) =
        .error (.conversion path detail)) ∧
    (received codec path kind label sent = .ok (.int n) →
      codec.format (.basic (.integer kind) label) (.int n) = .ok (.int n) ∧
        Graph.ScalarKind.bigInteger.shown (.int n) = .ok (.int n)) := by
  rw [← holds_iff_bounds, ← Cursor.holds_iff]
  have nested : kind.holds n = true → holds n = true := holds_of_width
  have alike : holds n = true → ∀ other, Writes n other →
      received codec path kind label other = received codec path kind label sent := by
    intro scalar other hother
    rw [received_of_holds codec path kind label hother scalar,
      received_of_holds codec path kind label h scalar]
  refine ⟨?_, fun b => ⟨⟨_, rfl⟩, ⟨_, rfl⟩, _, rfl⟩, fun hreceived => ⟨rfl, ?_⟩⟩
  · rcases received_cases codec path kind label h with
      ⟨column, heq⟩ | ⟨scalar, words, heq⟩ | ⟨scalar, column, detail, heq⟩
    · refine ⟨iff_of_true heq column, iff_of_false ?_ (not_not_intro (nested column)),
        iff_of_false ?_ fun outside => outside.2 column, alike⟩ <;>
      · rw [heq]
        nofun
    · refine ⟨iff_of_false ?_ (scalar ∘ nested), iff_of_true ⟨words, heq⟩ scalar,
        iff_of_false ?_ fun inside => scalar inside.1, alike⟩ <;>
      · rw [heq]
        nofun
    · refine ⟨iff_of_false ?_ column, iff_of_false ?_ (not_not_intro scalar),
        iff_of_true ⟨detail, heq⟩ ⟨scalar, column⟩, alike⟩ <;>
      · rw [heq]
        nofun
  · rcases received_cases codec path kind label h with
      ⟨column, -⟩ | ⟨-, words, heq⟩ | ⟨-, -, detail, heq⟩
    · show Value.int <$> coerce (.int n) = _
      rw [coerce_of_whole rfl h.isWritable, if_pos (nested column)]
      rfl
    · cases heq.symm.trans hreceived
    · cases heq.symm.trans hreceived

end

/-- The smallest number that is too large for 32 bits: the scalar takes its digits, and a column of
that width refuses them as it refuses the number. -/
theorem received_iff_beyond :
    Writes 4294967296 (.literal (.string "4294967296")) ∧
    (∃ detail, received ⟨[], true⟩ "T.f" .regularUnsigned none (.literal (.string "4294967296")) =
      .error (.conversion "T.f" detail)) ∧
    received ⟨[], true⟩ "T.f" .regularUnsigned none (.value (.int 4294967296)) =
      received ⟨[], true⟩ "T.f" .regularUnsigned none (.literal (.string "4294967296")) := by
  have short : Numeral.digitCount (4294967296 : Int).natAbs ≤ Numeral.digitLimit := by
    decide +kernel
  have named : Numeral.Names "4294967296" 4294967296 := Numeral.names_toString short
  have quoted : Writes 4294967296 (.literal (.string "4294967296")) := .quoted named
  have number : Writes 4294967296 (.value (.int 4294967296)) :=
    .number (Value.isWritable_int.2 short)
  have verdict := (received_iff ⟨[], true⟩ "T.f" .regularUnsigned none quoted).1
  exact ⟨quoted, verdict.2.2.1.2 (by decide), verdict.2.2.2 (by decide) _ number⟩

end BigInteger

end TableGraph
