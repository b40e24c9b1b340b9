import TableGraph.Proofs.Load.Plain
import TableGraph.Proofs.Walk.Restored
import TableGraph.Proofs.Written.Calendar

/-!
# Cells that are found by what is read of them

A cell is found by a value if the value, bound by the type of the column, compares equal to it.  So
is the cell that a column keeps a value of its own family in, in whatever form the column prefers.  A
column reads a cell without loss if it keeps what is read in the same cell; columns of decimals do
not, which keep a number and read ten places of it.

Main statements: `SqlType.Takes.finds` and `SqlType.Takes.lossless` for one cell,
`Table.bindKeys_of_finds` for the keys of rows.
-/

namespace TableGraph

namespace Cell

theorem wholeIfExact_cases (x : Binary64) :
    (∃ n, wholeIfExact x = .int n) ∨ wholeIfExact x = .real x := by
  unfold wholeIfExact
  split
  next n _ _ =>
    split_ifs
    · exact .inl ⟨n, rfl⟩
    · exact .inr rfl
  next => exact .inr rfl

/-- A text that a column of numbers keeps is the same text, or it spells a number. -/
theorem preferred_numeric_text (s : String) : (text s).preferred .numeric = .text s ∨
    (∃ n, (text s).preferred .numeric = .int n) ∨ ∃ x, (text s).preferred .numeric = .real x := by
  unfold preferred
  dsimp only
  cases h : numberOf? s with
  | none => exact .inl rfl
  | some c =>
    rcases numberOf?_cases h with ⟨n, rfl⟩ | ⟨x, rfl⟩
    · exact .inr (.inl ⟨n, rfl⟩)
    · rcases wholeIfExact_cases x with ⟨n, h⟩ | h
      · exact .inr (.inl ⟨n, h⟩)
      · exact .inr (.inr ⟨x, h⟩)

end Cell

namespace SqlType

variable {type : SqlType} {v : Value} {x : Cell}

/-- A cell of a column of the type is found by a value. -/
structure Finds (type : SqlType) (v : Value) (x : Cell) : Prop where
  given : v.isNull = false
  compared : type.comparedWith v = type
  notNull : x.isNull = false
  bound : ∃ y, type.bind v = .ok y ∧ x.order (y.operand (.ofType type)) = .eq

/-- A column of the type takes a value of its own family, and keeps it in a cell. -/
structure Takes (type : SqlType) (v : Value) (x : Cell) : Prop where
  given : v.isNull = false
  family : type.comparedWith v = type
  kept : ∃ y, type.bind v = .ok y ∧ x = y.preferred (.ofType type)
  notNull : x.isNull = false

/-- What is read of a cell, the column keeps in the same cell. -/
def Lossless (type : SqlType) (x : Cell) : Prop :=
  ∀ v, type.read x = .ok v → type.Takes v x

/-- Numbers that are bound by columns of binary64 numbers are of that kind. -/
theorem real_of_bind {y : Cell} (real : Affinity.ofType type = .real) (h : type.bind v = .ok y) :
    y = .null ∨ ∃ r, y = .real r ∧ r ≠ .nan := by
  have number (r : Binary64) : cellOfReal r = .null ∨ ∃ r', cellOfReal r = .real r' ∧ r' ≠ .nan := by
    by_cases h : r = .nan
    · exact .inl (by rw [h]; rfl)
    · exact .inr ⟨r, cellOfReal_eq h, h⟩
  cases type
  case float | double =>
    cases v with
    | null =>
      cases h
      exact .inl rfl
    | _ =>
      unfold bind at h
      dsimp only at h
      split at h
      · cases h
        exact number _
      · cases h
  all_goals cases real

/-- A column of binary64 numbers keeps one. -/
theorem Takes.exists_real (real : Affinity.ofType type = .real) (h : type.Takes v x) :
    ∃ r, type.bind v = .ok (.real r) ∧ x = .real r ∧ r ≠ .nan := by
  obtain ⟨y, hy, rfl⟩ := h.kept
  have notNull := h.notNull
  rw [real] at notNull ⊢
  rcases real_of_bind real hy with rfl | ⟨r, rfl, number⟩
  · cases notNull
  · exact ⟨r, hy, rfl, number⟩

/-- The value finds the cell that it is kept in. -/
theorem Takes.finds (h : type.Takes v x) : type.Finds v x where
  given := h.given
  compared := h.family
  notNull := h.notNull
  bound := by
    obtain ⟨y, hy, hx⟩ := h.kept
    refine ⟨y, hy, hx ▸ Cell.order_preferred fun real => ?_⟩
    obtain ⟨r, hr, -⟩ := h.exists_real real
    exact ⟨r, Except.ok.inj (hy.symm.trans hr)⟩

/-! ## Plain values -/

/-- Plain values are kept in the form that their columns prefer. -/
theorem Plain.preferred (h : type.Plain v) : v.cell.preferred (.ofType type) = v.cell := by
  cases h with
  | whole family =>
    cases type
    case smallInteger | integer | bigInteger => rfl
    all_goals cases family
  | text family =>
    cases type
    case string | character | enumeration => rfl
    all_goals cases family
  | truth | bytes | identifier => rfl

theorem Plain.takes (h : type.Plain v) : type.Takes v v.cell where
  given := h.notNull.1
  family := h.comparedWith
  kept := ⟨v.cell, h.bind, h.preferred.symm⟩
  notNull := h.notNull.2

theorem Plain.lossless (h : type.Plain v) : type.Lossless v.cell := by
  intro w hw
  rw [h.eq_of_read hw]
  exact h.takes

theorem Takes.eq_cell (h : type.Takes v x) (plain : type.Plain v) : x = v.cell := by
  obtain ⟨y, hy, rfl⟩ := h.kept
  obtain rfl := Except.ok.inj (hy.symm.trans plain.bind)
  exact plain.preferred

/-! ## Types without loss -/

/-- Columns of the type read back what they keep: all but those of decimals, JSON and lists. -/
def IsExact : SqlType → Prop
  | numeric | json | array _ => False
  | _ => True

theorem Takes.plain_whole (family : type.family = .whole) (h : type.Takes v x) : type.Plain v := by
  obtain ⟨given, own, ⟨y, hy, -⟩, -⟩ := h
  cases type
  case smallInteger | integer | bigInteger =>
    cases v
    case int n =>
      unfold bind bindRaw cellOfInt at hy
      dsimp only at hy
      split_ifs at hy with held
      exact .whole rfl held
    all_goals first | (cases given; done) | (cases own; done) | cases hy
  all_goals cases family

theorem Takes.plain_text (family : type.family = .text) (h : type.Takes v x) : type.Plain v := by
  obtain ⟨given, own, ⟨y, hy, -⟩, -⟩ := h
  cases type
  case string | character | enumeration =>
    cases v
    case text s => exact .text rfl
    all_goals first | (cases given; done) | (cases own; done) | cases hy
  all_goals cases family

theorem Takes.plain_bytes (h : binary.Takes v x) : binary.Plain v := by
  obtain ⟨given, own, ⟨y, hy, -⟩, -⟩ := h
  cases v
  case bytes bs => exact .bytes
  all_goals first | (cases given; done) | (cases own; done) | cases hy

theorem Takes.plain_identifier (h : uuid.Takes v x) : uuid.Plain v := by
  obtain ⟨given, own, ⟨y, hy, -⟩, -⟩ := h
  cases v
  case uuid u => exact .identifier
  all_goals first | (cases given; done) | (cases own; done) | cases hy

theorem Takes.exists_truth (h : boolean.Takes v x) : ∃ b, x = (Value.bool b).cell := by
  obtain ⟨given, -, ⟨y, hy, rfl⟩, -⟩ := h
  have bound : bindTruth v = .ok y := by
    cases v
    case null => cases given
    all_goals exact hy
  unfold bindTruth at bound
  split_ifs at bound
  · cases bound
    exact ⟨false, rfl⟩
  · cases bound
    exact ⟨true, rfl⟩

theorem Takes.exists_date (h : date.Takes v x) : ∃ d, v = .date d := by
  obtain ⟨given, own, ⟨y, hy, -⟩, -⟩ := h
  cases v
  case date d => exact ⟨d, rfl⟩
  all_goals first | (cases given; done) | (cases own; done) | cases hy

theorem Takes.exists_time (h : time.Takes v x) : ∃ t, v = .time t := by
  obtain ⟨given, own, ⟨y, hy, -⟩, -⟩ := h
  cases v
  case time t => exact ⟨t, rfl⟩
  all_goals first | (cases given; done) | (cases own; done) | cases hy

theorem Takes.exists_moment {zoned : Bool} (h : (dateTime zoned).Takes v x) :
    ∃ t, v = .dateTime t := by
  obtain ⟨given, own, ⟨y, hy, -⟩, -⟩ := h
  cases v
  case dateTime t => exact ⟨t, rfl⟩
  all_goals first | (cases given; done) | (cases own; done) | cases hy

/-- A binary64 number is read as itself. -/
theorem lossless_real {r : Binary64} (real : Affinity.ofType type = .real) (h : r ≠ .nan) :
    type.Lossless (.real r) := by
  have kept : Except.ok (cellOfReal r) = (.ok (.real r) : Except Fault Cell) :=
    congrArg Except.ok (cellOfReal_eq h)
  cases type
  case float | double =>
    intro v hv
    cases hv
    exact ⟨rfl, rfl, ⟨.real r, kept, rfl⟩, rfl⟩
  all_goals cases real

/-- A text is read as what is kept in it, or not at all if the column keeps it as a number. -/
theorem lossless_text {s : String} {w : Value} (numeric : Affinity.ofType type = .numeric)
    (text : type.read (.text s) = .ok w) (int : ∀ n, type.read (.int n) = .error unreadable)
    (real : ∀ r, type.read (.real r) = .error unreadable) (given : w.isNull = false)
    (own : type.comparedWith w = type) (bound : type.bind w = .ok (.text s)) :
    type.Lossless ((Cell.text s).preferred .numeric) := by
  intro v hv
  rcases Cell.preferred_numeric_text s with h | ⟨n, h⟩ | ⟨r, h⟩
  · rw [h, text] at hv
    obtain rfl := Except.ok.inj hv
    exact ⟨given, own, ⟨.text s, bound, by rw [numeric]⟩, by rw [h]; rfl⟩
  · rw [h, int] at hv
    cases hv
  · rw [h, real] at hv
    cases hv

theorem lossless_date (d : Date) : date.Lossless ((Cell.text d.toText).preferred .numeric) := by
  have read : date.read (.text d.toText) = .ok (.date d) :=
    congrArg (found .date) d.ofText?_toText
  exact lossless_text rfl read (fun _ => rfl) (fun _ => rfl) rfl rfl rfl

/-- A time of day is read without its offset, which is not kept. -/
theorem lossless_time (t : Time) : time.Lossless ((Cell.text (clockText t)).preferred .numeric) := by
  have read : time.read (.text (clockText t)) = .ok (.time { t with offset := none }) :=
    congrArg (found .time) t.ofText?_fullChars
  exact lossless_text rfl read (fun _ => rfl) (fun _ => rfl) rfl rfl rfl

theorem lossless_moment (zoned : Bool) (t : DateTime) :
    (dateTime zoned).Lossless ((Cell.text (momentText t)).preferred .numeric) := by
  have text : momentText t = String.ofList (t.date.chars ++ ' ' :: t.time.fullChars) := by
    rw [← String.toList_inj, momentText, Date.toText, clockText, String.toList_append,
      String.toList_append, String.toList_ofList, String.toList_ofList, String.toList_ofList,
      String.toList_ofList, List.append_assoc]
    rfl
  have read : (dateTime zoned).read (.text (momentText t)) = .ok (.dateTime (t.withOffset none)) := by
    rw [text]
    unfold read
    dsimp only
    rw [DateTime.ofText?_append t.time.ofChars?_fullChars]
    rfl
  exact lossless_text rfl read (fun _ => rfl) (fun _ => rfl) rfl rfl rfl

/-- What a column keeps of a value of its own family, it reads without loss. -/
theorem Takes.lossless (exact : type.IsExact) (h : type.Takes v x) : type.Lossless x := by
  cases type with
  | numeric | json | array => exact exact.elim
  | smallInteger | integer | bigInteger =>
    have plain := h.plain_whole rfl
    exact h.eq_cell plain ▸ plain.lossless
  | string | character | enumeration =>
    have plain := h.plain_text rfl
    exact h.eq_cell plain ▸ plain.lossless
  | binary =>
    have plain := h.plain_bytes
    exact h.eq_cell plain ▸ plain.lossless
  | uuid =>
    have plain := h.plain_identifier
    exact h.eq_cell plain ▸ plain.lossless
  | boolean =>
    obtain ⟨b, rfl⟩ := h.exists_truth
    exact Plain.truth.lossless
  | float | double =>
    obtain ⟨r, -, rfl, number⟩ := h.exists_real rfl
    exact lossless_real rfl number
  | date =>
    obtain ⟨d, rfl⟩ := h.exists_date
    obtain ⟨y, hy, rfl⟩ := h.kept
    cases hy
    exact lossless_date d
  | time =>
    obtain ⟨t, rfl⟩ := h.exists_time
    obtain ⟨y, hy, rfl⟩ := h.kept
    cases hy
    exact lossless_time t
  | dateTime zoned =>
    obtain ⟨t, rfl⟩ := h.exists_moment
    obtain ⟨y, hy, rfl⟩ := h.kept
    cases hy
    exact lossless_moment zoned t

end SqlType

namespace Table

variable {t : Table} {columns : List String} {key : List Value} {xs : List Cell}

/-- The cells of columns are found by the values of a key, one by one. -/
inductive FindsAll (t : Table) : List String → List Value → List Cell → Prop
  | nil : FindsAll t [] [] []
  | cons {c : String} {cs : List String} {v : Value} {vs : List Value} {x : Cell} {xs : List Cell}
    {type : SqlType} (typed : t.typeOf c = .ok type) (first : type.Finds v x)
    (later : FindsAll t cs vs xs) : FindsAll t (c :: cs) (v :: vs) (x :: xs)

theorem findsAll_map {α : Type} {items : List α} (name : α → String) {f : α → Value} {g : α → Cell}
    (h : ∀ a ∈ items, ∃ type, t.typeOf (name a) = .ok type ∧ type.Finds (f a) (g a)) :
    t.FindsAll (items.map name) (items.map f) (items.map g) := by
  induction items with
  | nil => exact .nil
  | cons a items ih =>
    rw [List.forall_mem_cons] at h
    obtain ⟨⟨type, typed, first⟩, later⟩ := h
    exact .cons typed first (ih later)

theorem FindsAll.compared {types : List SqlType} (h : t.FindsAll columns key xs)
    (htypes : columns.mapM t.typeOf = .ok types) {f : SqlType × Value → SqlType}
    (hf : ∀ type v, f (type, v) = type.comparedWith v) : (types.zip key).map f = types := by
  rw [mapM_eq_ok] at htypes
  induction h generalizing types with
  | nil =>
    cases htypes
    rfl
  | cons typed first _ ih =>
    cases htypes with
    | cons htype htypes =>
      obtain rfl := Except.ok.inj (typed.symm.trans htype)
      rw [List.zip_cons_cons, List.map_cons, ih htypes, hf, first.compared]

theorem FindsAll.bound {types : List SqlType} (h : t.FindsAll columns key xs)
    (htypes : columns.mapM t.typeOf = .ok types) {f : (SqlType × SqlType) × Value → Except Fault Cell}
    (hf : ∀ type v y, v.isNull = false → type.bind v = .ok y →
      f ((type, type), v) = .ok (y.operand (.ofType type))) :
    ∃ ys, ((types.zip types).zip key).mapM f = .ok ys ∧ sameCells xs ys = true := by
  rw [mapM_eq_ok] at htypes
  induction h generalizing types with
  | nil =>
    cases htypes
    exact ⟨[], rfl, rfl⟩
  | @cons c cs v vs x xs type typed first _ ih =>
    cases htypes with
    | cons htype htypes =>
      obtain rfl := Except.ok.inj (typed.symm.trans htype)
      obtain ⟨ys, hys, same⟩ := ih htypes
      obtain ⟨y, hy, order⟩ := first.bound
      refine ⟨y.operand (.ofType type) :: ys, ?_, ?_⟩
      · rw [List.zip_cons_cons, List.zip_cons_cons, List.mapM_cons, hys]
        exact bind_eq_ok.2 ⟨_, hf type v y first.given hy, rfl⟩
      · show (!x.isNull && x.order _ == .eq && sameCells xs ys) = true
        rw [same, first.notNull, order]
        rfl

section Keys

variable {α : Type} {items : List α} {types : List SqlType} {keyOf : α → List Value}
  {cellsOf : α → List Cell} (htypes : columns.mapM t.typeOf = .ok types)
  (h : ∀ a ∈ items, t.FindsAll columns (keyOf a) (cellsOf a))
include htypes h

theorem mapM_of_finds {f : (SqlType × SqlType) × Value → Except Fault Cell}
    (hf : ∀ type v y, v.isNull = false → type.bind v = .ok y →
      f ((type, type), v) = .ok (y.operand (.ofType type))) :
    ∃ bound, ((items.map keyOf).mapM fun key => ((types.zip types).zip key).mapM f) = .ok bound ∧
      List.Forall₂ (fun a ys => sameCells (cellsOf a) ys = true) items bound := by
  obtain ⟨bound, hbound⟩ := exists_forall₂ fun a ha => (h a ha).bound htypes hf
  refine ⟨bound, ?_, hbound.imp fun _ _ h => h.2⟩
  rw [mapM_eq_ok, List.forall₂_map_left_iff]
  exact hbound.imp fun _ _ h => h.1

/-- Cells that are all found by their keys are the same as those that the keys are bound to. -/
theorem bindKeys_of_finds : ∃ bound, bindKeys types (items.map keyOf) = .ok bound ∧
    List.Forall₂ (fun a ys => sameCells (cellsOf a) ys = true) items bound := by
  cases items with
  | nil => exact ⟨[], rfl, .nil⟩
  | cons a items =>
    unfold bindKeys
    rw [List.map_cons]
    dsimp only
    rw [(h a List.mem_cons_self).compared htypes fun _ _ => rfl, ← List.map_cons]
    refine mapM_of_finds htypes h fun type v y given hy => ?_
    dsimp only
    split
    · cases given
    · rw [hy]
      rfl

end Keys

end Table

end TableGraph
