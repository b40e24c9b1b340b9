import TableGraph.Filter.Basic
import TableGraph.Proofs.Condition
import TableGraph.Proofs.Filter.Part

/-!
# What operators ask

Main statement: `Filter.holds_iff_asks`.  The test that an operator is compiled to holds of a cell
exactly if the cell compares with the decoded operands as the operator says.  A comparison with
null is unknown, and so are its negations.
-/

namespace TableGraph

/-! ## Truth -/

namespace Truth

theorem both_eq_false {a b : Truth} :
    a.both b = some false ↔ a = some false ∨ b = some false := by
  rcases a with _ | _ | _ <;> rcases b with _ | _ | _ <;> simp [both]

theorem either_eq_false {a b : Truth} :
    a.either b = some false ↔ a = some false ∧ b = some false := by
  rcases a with _ | _ | _ <;> rcases b with _ | _ | _ <;> simp [either]

theorem negatedIf_false (a : Truth) : a.negatedIf false = a := by
  rcases a with _ | _ | _ <;> rfl

theorem negatedIf_true {a : Truth} : a.negatedIf true = some true ↔ a = some false := by
  rcases a with _ | _ | _ <;> simp [negatedIf]

end Truth

/-- The comparison that holds where the given one does not. -/
def Comparison.opposite : Comparison → Comparison
  | eq => ne
  | ne => eq
  | gt => le
  | ge => lt
  | lt => ge
  | le => gt

/-- Neither cell is null, and they compare that way. -/
def Cell.Compares (k : Comparison) (c x : Cell) : Prop :=
  c.isNull = false ∧ x.isNull = false ∧ k.accepts (c.order x)

namespace Test

variable {c x : Cell} {xs : List Cell} {k : Comparison}

theorem compared_eq_false : compared k c x = some false ↔ c.Compares k.opposite x := by
  unfold compared Cell.Compares
  cases c.isNull <;> cases x.isNull <;> cases k <;> cases c.order x <;>
    simp [Comparison.accepts, Comparison.opposite]

theorem isAmong_eq_true : isAmong c xs = some true ↔ ∃ x ∈ xs, c.Compares .eq x := by
  have step : ∀ found : Truth, xs.foldl (fun found x => found.either (compared .eq c x)) found =
      some true ↔ found = some true ∨ ∃ x ∈ xs, c.Compares .eq x := by
    induction xs with
    | nil => simp
    | cons x xs ih =>
      intro found
      rw [List.foldl_cons, ih, Truth.either_eq_true, compared_eq_true, List.exists_mem_cons_iff,
        or_assoc]
      rfl
  unfold isAmong
  rw [step]
  simp

theorem isAmong_eq_false : isAmong c xs = some false ↔ ∀ x ∈ xs, c.Compares .ne x := by
  have step : ∀ found : Truth, xs.foldl (fun found x => found.either (compared .eq c x)) found =
      some false ↔ found = some false ∧ ∀ x ∈ xs, c.Compares .ne x := by
    induction xs with
    | nil => simp
    | cons x xs ih =>
      intro found
      rw [List.foldl_cons, ih, Truth.either_eq_false, compared_eq_false, List.forall_mem_cons,
        and_assoc]
      rfl
  unfold isAmong
  rw [step]
  simp

end Test

/-! ## Operands -/

namespace SqlType

variable {type : SqlType} {k : Comparison} {c : Cell} {v low high : Value} {vs : List Value}

/-- The cell that a value is in a comparison with a column of the type. -/
def operand (type : SqlType) (v : Value) : Except Fault Cell :=
  Cell.operand (.ofType type) <$> type.bindOperand v

/-- The cell that a value of a list is in a comparison with a column of the type.  All values of the
list are bound by the type that the first one is bound by, unless one of them is null. -/
def operandAmong (type : SqlType) (vs : List Value) (v : Value) : Except Fault Cell :=
  Cell.operand (.ofType type) <$>
    if v.isNull then .ok .null
    else if vs.any (·.isNull) then type.bindOperand v
    else (vs.head?.elim type type.comparedWith).bind v

/-- The cell compares that way with the value. -/
def Compares (type : SqlType) (k : Comparison) (c : Cell) (v : Value) : Prop :=
  ∃ x, type.operand v = .ok x ∧ c.Compares k x

/-- The cell compares that way with the value of a list. -/
def ComparesAmong (type : SqlType) (vs : List Value) (k : Comparison) (c : Cell) (v : Value) :
    Prop :=
  ∃ x, type.operandAmong vs v = .ok x ∧ c.Compares k x

theorem bindOperand_bool (type : SqlType) (b : Bool) :
    type.bindOperand (.bool b) = .ok (.int (if b then 1 else 0)) := by
  cases type <;> cases b <;> rfl

theorem compares_iff {x : Cell} (h : type.operand v = .ok x) :
    type.Compares k c v ↔ c.Compares k x := by
  unfold Compares
  rw [h]
  simp

theorem not_compares_null : ¬ type.Compares k c .null := by
  have null : type.operand .null = .ok .null := by
    unfold operand
    cases h : Affinity.ofType type <;> rfl
  rw [compares_iff null]
  exact fun h => Bool.noConfusion h.2.1

theorem bind_compare_eq_ok {q : Test Cell} (h : (Test.compare k v).bind type = .ok q) :
    ∃ x, type.operand v = .ok x ∧ q = .compare k x := by
  obtain ⟨y, hy, rfl⟩ := map_eq_ok.1 h
  exact ⟨_, map_eq_ok.2 ⟨y, hy, rfl⟩, rfl⟩

theorem holds_compare {q : Test Cell} (h : (Test.compare k v).bind type = .ok q) :
    q.holds c = some true ↔ type.Compares k c v := by
  obtain ⟨x, hx, rfl⟩ := bind_compare_eq_ok h
  rw [compares_iff hx]
  exact Test.compared_eq_true

theorem holds_equals {negated : Bool} {q : Test Cell}
    (h : (Test.equals negated v).bind type = .ok q) : q.holds c = some true ↔
      v = .null ∧ c.isNull = !negated ∨ type.Compares (if negated then .ne else .eq) c v := by
  cases v with
  | null =>
    cases h
    show some (c.isNull != negated) = some true ↔ _
    cases c.isNull <;> cases negated <;> simp [not_compares_null]
  | bool b =>
    cases h
    have hx : type.operand (.bool b) =
        .ok ((Cell.int (if b then 1 else 0)).operand (.ofType type)) := by
      unfold operand
      rw [bindOperand_bool]
      rfl
    rw [compares_iff hx]
    simp only [reduceCtorEq, false_and, false_or]
    exact Test.compared_eq_true
  | _ =>
    simp only [reduceCtorEq, false_and, false_or]
    exact holds_compare h

theorem operands_of_among {negated : Bool} {q : Test Cell}
    (h : (Test.among negated vs).bind type = .ok q) :
    ∃ xs, List.Forall₂ (fun v x => type.operandAmong vs v = .ok x) vs xs ∧
      q = .among negated xs := by
  obtain ⟨ys, hys, h⟩ := bind_eq_ok.1 h
  cases h
  refine ⟨_, ?_, rfl⟩
  rw [List.forall₂_map_right_iff]
  refine (mapM_eq_ok.1 hys).imp fun v y hy => map_eq_ok.2 ⟨y, ?_, rfl⟩
  cases v with
  | null => exact hy
  | _ => cases vs <;> exact hy

/-- A list is bound if each of its values is. -/
theorem exists_bind_among_iff {negated : Bool} : (∃ q, (Test.among negated vs).bind type = .ok q) ↔
    ∀ v ∈ vs, ∃ x, type.operandAmong vs v = .ok x := by
  constructor
  · rintro ⟨q, hq⟩ v hv
    obtain ⟨xs, hxs, -⟩ := operands_of_among hq
    obtain ⟨x, -, hx⟩ := exists_of_mem_mapM (mapM_eq_ok.2 hxs) hv
    exact ⟨x, hx⟩
  · intro h
    obtain ⟨ys, hys⟩ := mapM_of_forall fun v hv => by
      obtain ⟨x, hx⟩ := h v hv
      obtain ⟨y, hy, -⟩ := map_eq_ok.1 hx
      exact ⟨y, hy⟩
    refine ⟨_, bind_eq_ok.2 ⟨ys, ?_, rfl⟩⟩
    rw [← hys]
    refine congrArg (fun f => List.mapM f vs) (funext fun v => ?_)
    cases v with
    | null => rfl
    | _ => cases vs <;> rfl

theorem holds_among {negated : Bool} {q : Test Cell}
    (h : (Test.among negated vs).bind type = .ok q) : q.holds c = some true ↔
      if negated then ∀ v ∈ vs, type.ComparesAmong vs .ne c v
      else ∃ v ∈ vs, type.ComparesAmong vs .eq c v := by
  obtain ⟨xs, hxs, rfl⟩ := operands_of_among h
  have each (k : Comparison) :
      List.Forall₂ (fun v x => type.ComparesAmong vs k c v ↔ c.Compares k x) vs xs := by
    refine hxs.imp fun v x hx => ?_
    unfold ComparesAmong
    simp [hx]
  show (Test.isAmong c xs).negatedIf negated = some true ↔ _
  cases negated with
  | false =>
    rw [Truth.negatedIf_false, Test.isAmong_eq_true]
    exact (exists_mem_congr_of_forall₂ (each .eq)).symm
  | true =>
    rw [Truth.negatedIf_true, Test.isAmong_eq_false]
    exact (forall_mem_congr_of_forall₂ (each .ne)).symm

theorem holds_between {negated : Bool} {q : Test Cell}
    (h : (Test.between negated low high).bind type = .ok q) : q.holds c = some true ↔
      if negated then type.Compares .lt c low ∨ type.Compares .gt c high
      else type.Compares .ge c low ∧ type.Compares .le c high := by
  obtain ⟨x, hx, h⟩ := bind_eq_ok.1 h
  obtain ⟨y, hy, h⟩ := bind_eq_ok.1 h
  cases h
  have first (k : Comparison) := compares_iff (k := k) (c := c) (map_eq_ok.2 ⟨x, hx, rfl⟩)
  have second (k : Comparison) := compares_iff (k := k) (c := c) (map_eq_ok.2 ⟨y, hy, rfl⟩)
  rw [first, first, second, second]
  show ((Test.compared .ge c _).both (Test.compared .le c _)).negatedIf negated = some true ↔ _
  cases negated with
  | false =>
    rw [Truth.negatedIf_false, Truth.both_eq_true]
    exact and_congr Test.compared_eq_true Test.compared_eq_true
  | true =>
    rw [Truth.negatedIf_true, Truth.both_eq_false]
    exact or_congr Test.compared_eq_false Test.compared_eq_false

theorem holds_like {negated : Bool} {pattern : String} {q : Test Cell}
    (h : (Test.like negated pattern).bind type = .ok q) : q.holds c = some true ↔
      ∃ s, c.text? = some s ∧
        Pattern.matches? none pattern.toList s.toList = !negated := by
  unfold Test.bind at h
  split_ifs at h
  cases h
  unfold Test.holds
  cases hc : c.text? with
  | none => simp [Truth.negatedIf, hc]
  | some s =>
    cases hs : Pattern.matches? none pattern.toList s.toList <;> cases negated <;>
      simp [Truth.negatedIf, hc, hs]

theorem holds_part {place : Place} {needle : String} {q : Test Cell}
    (h : (Test.part place needle).bind type = .ok q) : q.holds c = some true ↔
      ∃ s, c.text? = some s ∧ place.Holds needle.toList s.toList := by
  unfold Test.bind at h
  split_ifs at h
  cases h
  unfold Test.holds
  cases hc : c.text? with
  | none => simp [hc]
  | some s => simp [hc, Test.matches_partPattern]

end SqlType

/-! ## Operators -/

namespace Filter

variable {codec : Codec} {f : ColumnField} {path : String} {o : Operator} {v : Value}
  {test : Test Value} {type : SqlType} {c : Cell}

/-- A column without a conversion of its own reads operands by its type. -/
theorem decode_eq (hinput : f.override.bind (·.input) = none) :
    decode codec f path v = (codec.parse f.path f.column.type v).mapError (located path) := by
  cases v with
  | null => rw [Codec.parse_null]; rfl
  | _ => unfold decode; dsimp only; rw [hinput]

theorem decode_eq_ok (hinput : f.override.bind (·.input) = none) {d : Value} :
    decode codec f path v = .ok d ↔ codec.parse f.path f.column.type v = .ok d := by
  rw [decode_eq hinput, mapError_eq_ok]

/-- What an operator with its operand asks of a cell of a column of the type. -/
def Asks (codec : Codec) (f : ColumnField) (path : String) (type : SqlType) (c : Cell) (v : Value) :
    Operator → Prop
  | .isNull => c.isNull = true
  | .isNotNull => c.isNull = false
  | .eq => ∃ d, decode codec f path v = .ok d ∧
      (d = .null ∧ c.isNull = true ∨ type.Compares .eq c d)
  | .ne => ∃ d, decode codec f path v = .ok d ∧
      (d = .null ∧ c.isNull = false ∨ type.Compares .ne c d)
  | .gt => ∃ d, decode codec f path v = .ok d ∧ type.Compares .gt c d
  | .gte => ∃ d, decode codec f path v = .ok d ∧ type.Compares .ge c d
  | .lt => ∃ d, decode codec f path v = .ok d ∧ type.Compares .lt c d
  | .lte => ∃ d, decode codec f path v = .ok d ∧ type.Compares .le c d
  | .isIn => ∃ ds, decodeList codec f path v = .ok ds ∧ ∃ d ∈ ds, type.ComparesAmong ds .eq c d
  | .isNotIn => ∃ ds, decodeList codec f path v = .ok ds ∧ ∀ d ∈ ds, type.ComparesAmong ds .ne c d
  | .between => ∃ low high, decodeList codec f path v = .ok [low, high] ∧
      (type.Compares .ge c low ∧ type.Compares .le c high)
  | .notBetween => ∃ low high, decodeList codec f path v = .ok [low, high] ∧
      (type.Compares .lt c low ∨ type.Compares .gt c high)
  | .like => ∃ s, c.text? = some s ∧ Pattern.matches? none v.shown.toList s.toList = true
  | .notLike => ∃ s, c.text? = some s ∧ Pattern.matches? none v.shown.toList s.toList = false
  | .contains => ∃ needle, decode codec f path v = .ok (.text needle) ∧
      ∃ s, c.text? = some s ∧ Place.anywhere.Holds needle.toList s.toList
  | .startsWith => ∃ needle, decode codec f path v = .ok (.text needle) ∧
      ∃ s, c.text? = some s ∧ Place.start.Holds needle.toList s.toList
  | .endsWith => ∃ needle, decode codec f path v = .ok (.text needle) ∧
      ∃ s, c.text? = some s ∧ Place.finish.Holds needle.toList s.toList

theorem present_eq_ok {d : Value} {x : Value} (h : present path d = .ok x) : x = d ∧ d ≠ .null := by
  cases d with
  | null => cases h
  | _ =>
    cases h
    exact ⟨rfl, nofun⟩

theorem patternText_eq_ok {s : String} (h : patternText path v = .ok s) : s = v.shown := by
  cases v with
  | null => cases h
  | _ => exact (Except.ok.inj h).symm

theorem needleText_eq_ok {s : String} (h : needleText v = .ok s) : v = .text s := by
  cases v with
  | text s' =>
    cases h
    rfl
  | _ => cases h

theorem bounds_eq_ok {vs : List Value} {low high : Value} :
    bounds path vs = .ok (low, high) ↔ vs = [low, high] := by
  unfold bounds
  split
  · simp
  · next other =>
    exact iff_of_false nofun fun h => other low high h

theorem ordered_eq_ok {d : Value} {k : Comparison} (h : Test.ordered k d = .ok test) :
    test = .compare k d := by
  cases d with
  | null | bool => cases h
  | _ =>
    cases h
    rfl

section Steps

variable {d : Value} {ds : List Value} {q : Test Cell} (hq : test.bind type = .ok q)
include hq

theorem holds_of_ordered (hd : decode codec f path v = .ok d) {operand : Value}
    (hpresent : present path d = .ok operand) {k : Comparison}
    (h : Test.ordered k operand = .ok test) :
    q.holds c = some true ↔ ∃ d, decode codec f path v = .ok d ∧ type.Compares k c d := by
  obtain ⟨rfl, -⟩ := present_eq_ok hpresent
  obtain rfl := ordered_eq_ok h
  rw [SqlType.holds_compare hq, hd]
  simp

theorem holds_of_part (hd : decode codec f path v = .ok d) {operand : Value}
    (hpresent : present path d = .ok operand) {place : Place}
    (h : Test.part place <$> needleText operand = .ok test) :
    q.holds c = some true ↔ ∃ needle, decode codec f path v = .ok (.text needle) ∧
      ∃ s, c.text? = some s ∧ place.Holds needle.toList s.toList := by
  obtain ⟨rfl, -⟩ := present_eq_ok hpresent
  obtain ⟨needle, hneedle, rfl⟩ := map_eq_ok.1 h
  obtain rfl := needleText_eq_ok hneedle
  rw [SqlType.holds_part hq, hd]
  simp

end Steps

/-- The test of an operator holds of the cells that it asks for. -/
theorem holds_iff_asks (h : columnTest codec f path o v = .ok test) {q : Test Cell}
    (hq : test.bind type = .ok q) (c : Cell) :
    q.holds c = some true ↔ Asks codec f path type c v o := by
  cases o with
  | isNull =>
    cases h
    cases hq
    show some (c.isNull != false) = some true ↔ c.isNull = true
    simp
  | isNotNull =>
    cases h
    cases hq
    show some (c.isNull != true) = some true ↔ c.isNull = false
    simp
  | eq | ne =>
    obtain ⟨d, hd, rfl⟩ := map_eq_ok.1 h
    rw [SqlType.holds_equals hq]
    simp [Asks, hd]
  | gt | gte | lt | lte =>
    obtain ⟨d, hd, h⟩ := bind_eq_ok.1 h
    obtain ⟨operand, hoperand, h⟩ := bind_eq_ok.1 h
    exact holds_of_ordered hq hd hoperand h
  | contains | startsWith | endsWith =>
    obtain ⟨d, hd, h⟩ := bind_eq_ok.1 h
    obtain ⟨operand, hoperand, h⟩ := bind_eq_ok.1 h
    exact holds_of_part hq hd hoperand h
  | isIn | isNotIn =>
    obtain ⟨ds, hds, rfl⟩ := map_eq_ok.1 h
    rw [SqlType.holds_among hq]
    simp [Asks, hds]
  | between | notBetween =>
    obtain ⟨ds, hds, h⟩ := bind_eq_ok.1 h
    obtain ⟨⟨low, high⟩, hbounds, h⟩ := bind_eq_ok.1 h
    cases h
    obtain rfl := bounds_eq_ok.1 hbounds
    rw [SqlType.holds_between hq]
    simp [Asks, hds]
  | like | notLike =>
    obtain ⟨pattern, hpattern, rfl⟩ := map_eq_ok.1 h
    obtain rfl := patternText_eq_ok hpattern
    exact SqlType.holds_like hq

end Filter

end TableGraph
