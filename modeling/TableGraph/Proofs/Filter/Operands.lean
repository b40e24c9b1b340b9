import TableGraph.Proofs.Coalesce.Conforming
import TableGraph.Proofs.Coalesce.FilterTypes
import TableGraph.Proofs.Faults
import TableGraph.Proofs.Filter.OneType
import TableGraph.Proofs.FloatRange
import TableGraph.Proofs.Writable

/-!
# What operands become

The operands of a filter are of the scalar of its family, or texts if it is the filter of an
enumeration.  The column that is filtered need not be of that type: it reads operands in its own
way, and refuses those that it has no reading for (`Filter.failsWith_decode`).

`ColumnType.readsTruth` and `ColumnType.convertsTexts` tell from the types alone where operands
become truth values, and where texts become other values than texts.
-/

namespace TableGraph

open TableGraph.Graph

/-! ## Numbers -/

/-- Whole numbers of 64 bits have a nearest number. -/
theorem Codec.exists_floatOfWhole {n : Int} (h : BigInteger.holds n) :
    ∃ x, floatOfWhole n = .ok x := by
  have small : n.natAbs < 2 ^ 64 := by
    rw [BigInteger.holds_iff] at h
    unfold BigInteger.low BigInteger.high at h
    omega
  have limit : 2 ^ 64 ≤ Binary64.limit := by decide +kernel
  unfold floatOfWhole
  split
  next sign infinite =>
    exact absurd (Binary64.ofInt_eq_infinite_iff.1 ⟨sign, infinite⟩) (by omega)
  next => exact ⟨_, rfl⟩

/-! ## Operands -/

/-- What clients send as operands: texts, truth values, and numbers, whole ones of 64 bits. -/
inductive Operand : Value → Prop
  | text (s : String) : Operand (.text s)
  | bool (b : Bool) : Operand (.bool b)
  | float (x : Binary64) : Operand (.float x)
  | int {n : Int} (h : BigInteger.holds n) : Operand (.int n)

namespace Graph

theorem holds_of_isOrdinary {n : Int} (h : isOrdinary n) : BigInteger.holds n := by
  unfold isOrdinary IntegerKind.holds at h
  rw [Bool.and_eq_true, decide_eq_true_iff, decide_eq_true_iff] at h
  dsimp only [IntegerKind.low, IntegerKind.high] at h
  rw [BigInteger.holds_iff]
  unfold BigInteger.low BigInteger.high
  omega

theorem holds_of_coerce {v : Value} {n : Int} (h : BigInteger.coerce v = .ok n) :
    BigInteger.holds n := by
  unfold BigInteger.coerce at h
  split at h
  · exact absurd h (BigInteger.refuse_ne_ok _ _ _)
  · split at h
    · exact absurd h (BigInteger.refuse_ne_ok _ _ _)
    · split_ifs at h with hholds
      · cases h
        exact hholds
      · exact absurd h (BigInteger.refuse_ne_ok _ _ _)

theorem holds_of_ordinaryOfDigits {digits : String} {n : Int}
    (h : ordinaryOfDigits digits = some (.int n)) : BigInteger.holds n := by
  unfold ordinaryOfDigits at h
  split at h
  · split_ifs at h with hordinary
    cases h
    exact holds_of_isOrdinary hordinary
  · cases h

/-- Whole numbers that a scalar reads are big integers. -/
theorem ScalarKind.Takes.holds {kind : ScalarKind} (hcustom : kind ≠ .custom) {n : Int}
    (h : kind.Takes (.int n)) : BigInteger.holds n := by
  have coerced : ∀ {x : Except Fault Int}, (∀ m, x = .ok m → BigInteger.holds m) →
      x.toOption.map Value.int = some (.int n) → BigInteger.holds n := by
    intro x hx h
    cases x with
    | error e => cases h
    | ok m =>
      cases h
      exact hx n rfl
  rcases h with ⟨bindings, l, h⟩ | ⟨sent, h⟩
  · unfold ofLiteral? at h
    split at h
    case h_1 => exact holds_of_ordinaryOfDigits h
    case h_2 | h_3 =>
      obtain ⟨x, hx⟩ := floatOf_eq_some h
      cases hx
    case h_4 | h_5 => cases h
    case h_6 =>
      refine coerced (fun m hm => ?_) h
      unfold bigIntegerOfLiteral at hm
      split at hm <;> first | exact holds_of_coerce hm | cases hm
    case h_7 => exact absurd rfl hcustom
    case h_8 => cases h
  · unfold ofValue? at h
    split at h
    case h_1 =>
      split_ifs at h with hordinary
      cases h
      exact holds_of_isOrdinary hordinary
    case h_2 =>
      split at h
      · split_ifs at h with hordinary
        cases h
        exact holds_of_isOrdinary hordinary
      · cases h
    case h_3 =>
      obtain ⟨x, hx⟩ := floatOf_eq_some h
      cases hx
    case h_4 | h_5 | h_6 => cases h
    case h_7 => exact coerced (fun m hm => holds_of_coerce hm) h
    case h_8 => exact absurd rfl hcustom
    case h_9 => cases h

theorem ScalarKind.Wraps.eq_boolean {kind : ScalarKind} (hcustom : kind ≠ .custom) {b : Bool}
    (h : kind.Wraps (.bool b)) : kind = .boolean := by
  cases kind with
  | boolean => rfl
  | custom => exact absurd rfl hcustom
  | _ =>
    obtain ⟨_, h⟩ := h
    cases h

theorem ScalarKind.Wraps.eq_string {kind : ScalarKind} (hcustom : kind ≠ .custom) {s : String}
    (h : kind.Wraps (.text s)) : kind = .string := by
  cases kind with
  | string => rfl
  | custom => exact absurd rfl hcustom
  | _ =>
    obtain ⟨_, h⟩ := h
    cases h

theorem ScalarKind.Takes.operand {kind : ScalarKind} (hcustom : kind ≠ .custom) {v : Value}
    (h : kind.Takes v) : Operand v := by
  have wraps := h.wraps
  cases kind with
  | int | bigInteger =>
    obtain ⟨n, rfl⟩ := wraps
    exact .int (h.holds hcustom)
  | float =>
    obtain ⟨x, rfl⟩ := wraps
    exact .float x
  | string =>
    obtain ⟨s, rfl⟩ := wraps
    exact .text s
  | boolean =>
    obtain ⟨b, rfl⟩ := wraps
    exact .bool b
  | custom => exact absurd rfl hcustom

end Graph

/-! ## Refused operands -/

/-- The fault tells what is wrong with a filter. -/
def Fault.isFilter : Fault → Bool
  | filter .. => true
  | _ => false

namespace Codec

variable (codec : Codec) (path : String) {v : Value}

/-- An operand is a value of the column, or it is refused. -/
theorem failsWith_parse_operand (type : ColumnType) (hv : Operand v) :
    FailsWith (·.isRefusal) (codec.parse path type v) := by
  cases type with
  | basic kind label =>
    have whole : ∀ n, v = .int n → FailsWith (·.isRefusal) (floatOfWhole n) := by
      rintro n rfl
      cases hv with
      | int h =>
        obtain ⟨x, hx⟩ := exists_floatOfWhole h
        rw [hx]
        exact failsWith_ok x
    have basic := failsWith_parseBasic (fun _ h => h) path kind whole
    cases hv <;> exact basic
  | enumeration name =>
    have enumeration := codec.failsWith_parseEnumeration path name v
    cases hv <;> exact enumeration
  | custom name =>
    have shown : FailsWith (·.isRefusal) (Value.text <$> textOf v) :=
      ((failsWith_textOf v).imp fun _ h => h ▸ rfl).map _
    cases hv <;> exact shown
  | array inner => cases hv <;> exact failsWith_refuse (fun _ h => h) _ _ _

end Codec

namespace Filter

variable {codec : Codec} {f : ColumnField} {path : String} {v : Value}

theorem failsWith_located {α : Type} {x : Except Fault α} (h : FailsWith (·.isRefusal) x) :
    FailsWith (·.isFilter) (x.mapError (located path)) := by
  cases x with
  | ok a => exact failsWith_ok a
  | error e =>
    refine failsWith_error ?_
    have refusal := h e rfl
    cases e <;> first | rfl | cases refusal

theorem failsWith_decode (hinput : f.override.bind (·.input) = none) (hv : Operand v) :
    FailsWith (·.isFilter) (decode codec f path v) := by
  rw [decode_eq hinput]
  exact failsWith_located (codec.failsWith_parse_operand f.path f.column.type hv)

end Filter

/-! ## Truth values and texts -/

namespace ColumnType

/-- Some operands of the scalar become truth values in a column of the type. -/
def readsTruth (scalar : ScalarKind) : ColumnType → Bool
  | .basic .bool _ => scalar = .boolean
  | .basic .json _ => scalar = .boolean ∨ scalar = .string
  | _ => false

/-- Some texts become other values in a column of the type. -/
def convertsTexts : ColumnType → Bool
  | .basic kind _ =>
    match kind with
    | .integer _ | .decimal | .bytes | .json | .date | .time | .dateTime | .dateTimeZoned | .uuid =>
      true
    | _ => false
  | _ => false

end ColumnType

theorem Value.text_of_beq {v : Value} {s : String} (h : v == .text s) : ∃ s, v = .text s := by
  cases v with
  | text s => exact ⟨s, rfl⟩
  | _ => cases h

namespace Codec

variable {codec : Codec} {path : String} {type : ColumnType}

/-- The values of enumerations that are known are texts. -/
theorem text_of_parseEnumeration {name : String} {v d : Value}
    (known : ∃ e ∈ codec.enumerations, e.name = name)
    (h : codec.parseEnumeration path name v = .ok d) : ∃ s, d = .text s := by
  unfold parseEnumeration at h
  dsimp only at h
  split at h
  next unknown =>
    obtain ⟨e, he, hname⟩ := known
    exact absurd (decide_eq_true hname) (List.find?_eq_none.1 unknown e he)
  next e found =>
    obtain ⟨member, rfl⟩ := (eq_ok_of_refuse h).imp_right Except.ok.inj
    obtain ⟨s, -, hs⟩ := List.any_eq_true.1 member
    exact Value.text_of_beq hs

/-- The column is of an enumeration only if that is known. -/
def Knows (codec : Codec) (type : ColumnType) : Prop :=
  ∀ name, type = .enumeration name → ∃ e ∈ codec.enumerations, e.name = name

theorem readsTruth_of_parse (known : codec.Knows type) {scalar : ScalarKind}
    (hcustom : scalar ≠ .custom) {v : Value} (hv : Operand v) (wraps : scalar.Wraps v) {b : Bool}
    (h : codec.parse path type v = .ok (.bool b)) : type.readsTruth scalar := by
  cases type with
  | basic kind label =>
    by_cases hjson : kind = .json
    · subst hjson
      cases hv with
      | text s => exact decide_eq_true (.inr (wraps.eq_string hcustom))
      | bool a => exact decide_eq_true (.inl (wraps.eq_boolean hcustom))
      | float | int => cases h
    · have basic : parseBasic path kind v = .ok (.bool b) := by cases hv <;> exact h
      have own := ofValue?_of_parseBasic hjson basic
      obtain rfl : kind = .bool := by cases kind <;> first | rfl | cases own
      cases hv with
      | bool a => exact decide_eq_true (wraps.eq_boolean hcustom)
      | _ => exact absurd basic (refuse_ne_ok _ _ _ _)
  | enumeration name =>
    have enumeration : codec.parseEnumeration path name v = .ok (.bool b) := by
      cases hv <;> exact h
    obtain ⟨s, hs⟩ := text_of_parseEnumeration (known name rfl) enumeration
    cases hs
  | custom name =>
    have shown : Value.text <$> textOf v = .ok (.bool b) := by cases hv <;> exact h
    obtain ⟨s, -, hs⟩ := map_eq_ok.1 shown
    cases hs
  | array inner => cases hv <;> exact absurd h (refuse_ne_ok _ _ _ _)

theorem exists_truth (codec : Codec) {scalar : ScalarKind} (h : type.readsTruth scalar) :
    ∃ v b, scalar.Takes v ∧ Operand v ∧ ∀ path, codec.parse path type v = .ok (.bool b) := by
  cases type with
  | basic kind label =>
    cases kind with
    | bool =>
      obtain rfl := of_decide_eq_true h
      exact ⟨.bool true, true, .inr ⟨.bool true, rfl⟩, .bool true, fun _ => rfl⟩
    | json =>
      rcases of_decide_eq_true h with rfl | rfl
      · exact ⟨.bool true, true, .inr ⟨.bool true, rfl⟩, .bool true, fun _ => rfl⟩
      · exact ⟨.text "true", true, .inr ⟨.text "true", rfl⟩, .text "true", fun _ => rfl⟩
    | _ => cases h
  | _ => cases h

theorem text_of_parse (known : codec.Knows type) (htype : type.convertsTexts = false) {s : String}
    {d : Value} (h : codec.parse path type (.text s) = .ok d) : ∃ s, d = .text s := by
  cases type with
  | basic kind label =>
    cases kind with
    | string | ipNetwork | macAddress =>
      cases h
      exact ⟨_, rfl⟩
    | char =>
      unfold Codec.parse parseBasic at h
      rw [textOf_text_bind] at h
      split_ifs at h
      cases h
      exact ⟨_, rfl⟩
    | bool | float | double => cases h
    | _ => cases htype
  | enumeration name => exact text_of_parseEnumeration (known name rfl) h
  | custom name =>
    cases h
    exact ⟨_, rfl⟩
  | array inner => cases h

theorem exists_converted (codec : Codec) (h : type.convertsTexts) : ∃ s d,
    d ≠ .null ∧ (∀ s, d ≠ .text s) ∧ ∀ path, codec.parse path type (.text s) = .ok d := by
  cases type with
  | basic kind label =>
    cases kind with
    | integer k => exact ⟨"0", .int 0, nofun, nofun, fun _ => by cases k <;> rfl⟩
    | decimal => exact ⟨"0", .decimal _, nofun, nofun, fun _ => rfl⟩
    | bytes => exact ⟨"", .bytes _, nofun, nofun, fun _ => rfl⟩
    | json => exact ⟨"0", .int 0, nofun, nofun, fun _ => rfl⟩
    | date => exact ⟨"2000-01-01", .date _, nofun, nofun, fun _ => rfl⟩
    | time => exact ⟨"00:00:00", .time _, nofun, nofun, fun _ => rfl⟩
    | dateTime | dateTimeZoned =>
      exact ⟨"2000-01-01", .dateTime _, nofun, nofun, fun _ => rfl⟩
    | uuid => exact ⟨"00000000000000000000000000000000", .uuid _, nofun, nofun, fun _ => rfl⟩
    | _ => cases h
  | _ => cases h

end Codec

end TableGraph
