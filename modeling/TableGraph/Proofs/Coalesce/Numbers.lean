import TableGraph.Proofs.CellOrder
import TableGraph.Proofs.Coalesce.Sound
import TableGraph.Proofs.Filter.Operators
import TableGraph.Proofs.Load.Same

/-!
# Float filters of number columns

The order of cells does not tell numbers of one size apart.  So a float filter of a column that
keeps numbers matches the same rows for operands of one fingerprint.  Unless a configuration says
otherwise, float filters are filters of such columns.

Main statement: `coalescesSoundly_of_default`, loads of one group match the same rows in every table
if no filter and no column is configured and row scopes bind values that are told apart.
-/

namespace TableGraph

open TableGraph.Graph

/-! ## Numbers of one size -/

namespace Binary64

/-- A finite number is a finite decimal of its sign. -/
theorem exists_ofBinary64 (s : Bool) (m : Nat) (e : Int) : ∃ c k,
    Decimal.ofBinary64? (finite s m e) = some (.finite s c k) ∧
      (Decimal.finite s c k).toRat = (finite s m e).toRat := by
  unfold Decimal.ofBinary64?
  dsimp only
  split_ifs with he
  · have power : ((twoTo e.toNat : Nat) : ℚ) = 2 ^ e := by
      unfold twoTo
      rw [Nat.pow_eq, Nat.cast_pow, Nat.cast_ofNat, ← zpow_natCast, Int.toNat_of_nonneg he]
    refine ⟨_, _, rfl, ?_⟩
    simp only [Decimal.toRat, toRat]
    rw [Nat.cast_mul, power, zpow_zero, mul_one, mul_assoc]
  · have power : ((fiveTo (-e).toNat : Nat) : ℚ) * 10 ^ e = 2 ^ e := by
      unfold fiveTo
      rw [Nat.pow_eq, Nat.cast_pow, Nat.cast_ofNat, ← zpow_natCast, Int.toNat_of_nonneg (by omega),
        show (10 : ℚ) = 2 * 5 by norm_num, mul_zpow, mul_left_comm, ← zpow_add₀ (by norm_num),
        neg_add_cancel, zpow_zero, mul_one]
    refine ⟨_, _, rfl, ?_⟩
    simp only [Decimal.toRat, toRat]
    rw [Nat.cast_mul, mul_assoc, mul_assoc, power, ← mul_assoc]

/-- Numbers that are the same are not told apart by their order. -/
theorem compareReals_of_same {x y : Binary64} (h : (Value.float x).same (.float y)) :
    Cell.compareReals x y = .eq := by
  obtain ⟨a, b, ha, hb, hab⟩ := Value.sameNumber_iff.1 h
  have tied : x.place = y.place → x.toRat = y.toRat → Cell.compareReals x y = .eq := by
    intro hplace hrat
    rw [Cell.compareReals_eq, hplace, hrat, compare_eq_iff_eq.2 rfl, compare_eq_iff_eq.2 rfl]
    rfl
  cases x with
  | nan =>
    cases ha
    cases hab
  | infinite s =>
    cases ha
    cases y with
    | nan =>
      cases hb
      cases hab
    | infinite t =>
      cases hb
      obtain rfl : s = t := by
        cases s <;> cases t <;> first | rfl | cases hab
      exact tied rfl rfl
    | finite t n f =>
      obtain ⟨d, k, hd, -⟩ := exists_ofBinary64 t n f
      cases hd.symm.trans hb
      cases s <;> cases hab
  | finite s m e =>
    obtain ⟨c, j, hc, hx⟩ := exists_ofBinary64 s m e
    cases hc.symm.trans ha
    cases y with
    | nan =>
      cases hb
      cases hab
    | infinite t =>
      cases hb
      cases t <;> cases hab
    | finite t n f =>
      obtain ⟨d, k, hd, hy⟩ := exists_ofBinary64 t n f
      cases hd.symm.trans hb
      refine tied rfl ?_
      rw [← hx, ← hy]
      exact Decimal.compareFinite_eq_iff.1 (Option.some.inj hab)

end Binary64

/-! ## Operands that are not told apart -/

/-- Cells in whose place every comparison finds the same. -/
structure Cell.Even (a b : Cell) : Prop where
  isNull : a.isNull = b.isNull
  order : ∀ c : Cell, c.order a = c.order b

/-- Floats that are the same. -/
def Value.Twin (v w : Value) : Prop := ∃ x y, v = .float x ∧ w = .float y ∧ v.same w

namespace Test

variable {α : Type} {R : α → α → Prop}

/-- Comparisons of one kind whose operands are related one by one. -/
inductive Paired (R : α → α → Prop) : Test α → Test α → Prop
  | compare {k : Comparison} {v w : α} (related : R v w) : Paired R (.compare k v) (.compare k w)
  | truth {negated b : Bool} : Paired R (.truth negated b) (.truth negated b)
  | null {negated : Bool} : Paired R (.null negated) (.null negated)
  | among {negated : Bool} {vs ws : List α} (related : List.Forall₂ R vs ws) :
    Paired R (.among negated vs) (.among negated ws)
  | between {negated : Bool} {low low' high high' : α} (first : R low low')
    (second : R high high') : Paired R (.between negated low high) (.between negated low' high')

theorem compared_eq {a b : Cell} (h : a.Even b) (k : Comparison) (c : Cell) :
    compared k c a = compared k c b := by
  unfold compared
  rw [h.isNull, h.order]

theorem isAmong_eq {as bs : List Cell} (h : List.Forall₂ Cell.Even as bs) (c : Cell) :
    isAmong c as = isAmong c bs := by
  unfold isAmong
  generalize (some false : Truth) = found
  induction h generalizing found with
  | nil => rfl
  | cons hab _ ih => rw [List.foldl_cons, List.foldl_cons, compared_eq hab, ih]

theorem Paired.holds_eq {s t : Test Cell} (h : Paired Cell.Even s t) (c : Cell) :
    s.holds c = t.holds c := by
  cases h with
  | compare related => exact compared_eq related _ c
  | truth => rfl
  | null => rfl
  | among related => simp only [holds, isAmong_eq related c]
  | between first second => simp only [holds, compared_eq first, compared_eq second]

end Test

/-! ### Binding -/

namespace SqlType

variable {type : SqlType}

/-- A float is bound as a number, whatever it is compared with. -/
theorem bind_float (type : SqlType) (x y : Binary64) :
    (type.comparedWith (.float x)).bind (.float y) = .ok (cellOfReal y) := by
  cases type <;> rfl

theorem even_real {x y : Binary64} (h : Cell.compareReals x y = .eq) :
    (Cell.real x).Even (.real y) where
  isNull := rfl
  order _ := Std.TransCmp.congr_right (show (Cell.real x).order (.real y) = .eq from h)

/-- The cell that a float is in a comparison with a column of the type. -/
def floatOperand (type : SqlType) (x : Binary64) : Cell := (cellOfReal x).operand (.ofType type)

theorem even_floatOperand (htext : Affinity.ofType type ≠ .text) {x y : Binary64}
    (h : (Value.float x).same (.float y)) : (type.floatOperand x).Even (type.floatOperand y) := by
  have tied := Binary64.compareReals_of_same h
  have kept : ∀ z, (Cell.real z).operand (.ofType type) = .real z := by
    intro z
    cases hz : Affinity.ofType type <;> first | rfl | exact absurd hz htext
  cases x with
  | nan =>
    obtain ⟨_, _, hx, -, impossible⟩ := Value.sameNumber_iff.1 h
    cases hx
    cases impossible
  | finite | infinite =>
    cases y with
    | nan => cases tied
    | finite | infinite =>
      show ((Cell.real _).operand _).Even ((Cell.real _).operand _)
      rw [kept, kept]
      exact even_real tied

theorem bind_compare_float (type : SqlType) (k : Comparison) (x : Binary64) :
    (Test.compare k (.float x)).bind type = .ok (.compare k (type.floatOperand x)) := by
  show (fun c : Cell => Test.compare k (c.operand (.ofType type))) <$>
    (type.comparedWith (.float x)).bind (.float x) = _
  rw [bind_float]
  rfl

theorem bind_between_float (type : SqlType) (negated : Bool) (x y : Binary64) :
    (Test.between negated (.float x) (.float y)).bind type =
      .ok (.between negated (type.floatOperand x) (type.floatOperand y)) := by
  have one : ∀ z, type.bindOperand (.float z) = .ok (cellOfReal z) := fun z => bind_float type z z
  exact bind_eq_ok.2 ⟨_, one x, bind_eq_ok.2 ⟨_, one y, rfl⟩⟩

theorem bind_among_float (type : SqlType) (negated : Bool) (xs : List Binary64) :
    (Test.among negated (xs.map .float)).bind type =
      .ok (.among negated (xs.map type.floatOperand)) := by
  have present : (xs.map Value.float).any (·.isNull) = false := by simp [Value.isNull]
  unfold Test.bind
  dsimp only
  rw [present]
  refine bind_eq_ok.2 ⟨xs.map cellOfReal, mapM_eq_ok.2 ?_, ?_⟩
  · rw [List.forall₂_map_left_iff, List.forall₂_map_right_iff, List.forall₂_same]
    intro x hx
    cases xs with
    | nil => cases hx
    | cons y xs => exact bind_float type y x
  · rw [List.map_map]
    rfl

theorem exists_of_twins {vs ws : List Value} (h : List.Forall₂ Value.Twin vs ws) :
    ∃ xs ys : List Binary64, vs = xs.map .float ∧ ws = ys.map .float ∧
      List.Forall₂ (fun x y => (Value.float x).same (.float y)) xs ys := by
  induction h with
  | nil => exact ⟨[], [], rfl, rfl, .nil⟩
  | cons twin _ ih =>
    obtain ⟨x, y, rfl, rfl, same⟩ := twin
    obtain ⟨xs, ys, rfl, rfl, rest⟩ := ih
    exact ⟨x :: xs, y :: ys, rfl, rfl, .cons same rest⟩

/-- Floats that are the same are bound to cells that are not told apart. -/
theorem exists_bind_paired (htext : Affinity.ofType type ≠ .text) {s t : Test Value}
    (h : s.Paired Value.Twin t) : ∃ p q, s.bind type = .ok p ∧ t.bind type = .ok q ∧
      p.Paired Cell.Even q := by
  cases h with
  | @compare k _ _ related =>
    obtain ⟨x, y, rfl, rfl, same⟩ := related
    exact ⟨_, _, bind_compare_float type k x, bind_compare_float type k y,
      .compare (even_floatOperand htext same)⟩
  | truth => exact ⟨_, _, rfl, rfl, .compare ⟨rfl, fun _ => rfl⟩⟩
  | null => exact ⟨_, _, rfl, rfl, .null⟩
  | @among negated _ _ related =>
    obtain ⟨xs, ys, rfl, rfl, same⟩ := exists_of_twins related
    refine ⟨_, _, bind_among_float type negated xs, bind_among_float type negated ys, .among ?_⟩
    rw [List.forall₂_map_left_iff, List.forall₂_map_right_iff]
    exact same.imp fun _ _ => even_floatOperand htext
  | @between negated _ _ _ _ first second =>
    obtain ⟨x, y, rfl, rfl, same⟩ := first
    obtain ⟨x', y', rfl, rfl, same'⟩ := second
    exact ⟨_, _, bind_between_float type negated x x', bind_between_float type negated y y',
      .between (even_floatOperand htext same) (even_floatOperand htext same')⟩

end SqlType

/-- Comparisons with floats that are the same match the same rows of number columns. -/
theorem Table.agree_of_paired {t : Table} {column : String} {type : SqlType}
    (htype : t.typeOf column = .ok type) (htext : Affinity.ofType type ≠ .text)
    {u v : Test Value} (h : u.Paired Value.Twin v) :
    t.Agree (.test column u) (.test column v) := by
  obtain ⟨p, q, hp, hq, paired⟩ := SqlType.exists_bind_paired htext h
  have bound : ∀ (w : Test Value) (r : Test Cell), w.bind type = .ok r →
      t.bind (.test column w) = .ok (.test column r) := by
    intro w r hr
    unfold Table.bind Predicate.mapM
    rw [htype]
    show Predicate.test column <$> w.bind type = _
    rw [hr]
    rfl
  rw [agree_iff, bound u p hp, bound v q hq]
  refine congrArg Except.ok (funext fun r => ?_)
  show decide (p.holds (r.get column) = some true) = decide (q.holds (r.get column) = some true)
  rw [paired.holds_eq]

/-! ## Filters of number columns -/

/-- The column of the field keeps numbers, and takes them as they are sent. -/
structure ColumnField.TakesNumbers (f : ColumnField) : Prop where
  kind : ∃ label, f.column.type = .basic .float label ∨ f.column.type = .basic .double label
  plain : f.override.bind (·.input) = none

namespace Filter

variable {codec : Codec} {f : ColumnField} {path : String}

theorem decode_float (numbers : f.TakesNumbers) (x : Binary64) :
    decode codec f path (.float x) = .ok (.float x) := by
  obtain ⟨label, htype⟩ := numbers.kind
  unfold decode
  dsimp only
  rw [numbers.plain]
  rcases htype with htype | htype
  · rw [htype]
    rfl
  · rw [htype]
    rfl

theorem decodeList_float (numbers : f.TakesNumbers) (xs : List Binary64) :
    decodeList codec f path (.list (xs.map .float)) = .ok (xs.map .float) := by
  refine mapM_eq_ok.2 ?_
  rw [List.forall₂_map_left_iff, List.forall₂_map_right_iff, List.forall₂_same]
  exact fun x _ => decode_float numbers x

/-- Operators that take one float ask the same of floats that are the same. -/
theorem columnTest_float_paired (numbers : f.TakesNumbers) {o : Operator}
    (ho : o ∈ FilterFamily.float.operators) (hlist : o.takesList = false) {x y : Binary64}
    (same : (Value.float x).same (.float y)) {u u' : Test Value}
    (hu : columnTest codec f path o (.float x) = .ok u)
    (hu' : columnTest codec f path o (.float y) = .ok u') : u.Paired Value.Twin u' := by
  have twin : Value.Twin (.float x) (.float y) := ⟨x, y, rfl, rfl, same⟩
  have decoded : ∀ z, decode codec f path (.float z) = .ok (.float z) := decode_float numbers
  unfold columnTest at hu hu'
  cases o
  case eq | ne | gt | gte | lt | lte =>
    dsimp only at hu hu'
    rw [decoded] at hu hu'
    cases hu
    cases hu'
    exact .compare twin
  case isNull | isNotNull =>
    cases hu
    cases hu'
    exact .null
  case isIn | isNotIn | between | notBetween => cases hlist
  all_goals exact absurd ho (by decide)

/-- Operators that take a list of floats ask the same of floats that are the same. -/
theorem columnTest_floats_paired (numbers : f.TakesNumbers) {o : Operator}
    (hlist : o.takesList = true) {xs ys : List Binary64}
    (same : List.Forall₂ (fun x y => (Value.float x).same (.float y)) xs ys) {u u' : Test Value}
    (hu : columnTest codec f path o (.list (xs.map .float)) = .ok u)
    (hu' : columnTest codec f path o (.list (ys.map .float)) = .ok u') :
    u.Paired Value.Twin u' := by
  have twins : List.Forall₂ Value.Twin (xs.map .float) (ys.map .float) := by
    rw [List.forall₂_map_left_iff, List.forall₂_map_right_iff]
    exact same.imp fun x y h => ⟨x, y, rfl, rfl, h⟩
  have decoded : ∀ zs : List Binary64, decodeList codec f path (.list (zs.map .float)) =
      .ok (zs.map .float) := decodeList_float numbers
  unfold columnTest at hu hu'
  cases o
  case isIn | isNotIn =>
    dsimp only at hu hu'
    rw [decoded] at hu hu'
    cases hu
    cases hu'
    exact .among twins
  case between | notBetween =>
    dsimp only at hu hu'
    rw [decoded] at hu hu'
    obtain ⟨_, hxs, hu⟩ := bind_eq_ok.1 hu
    obtain ⟨_, hys, hu'⟩ := bind_eq_ok.1 hu'
    cases hxs
    cases hys
    obtain ⟨⟨low, high⟩, hbounds, hu⟩ := bind_eq_ok.1 hu
    obtain ⟨⟨low', high'⟩, hbounds', hu'⟩ := bind_eq_ok.1 hu'
    cases hu
    cases hu'
    rw [bounds_eq_ok.1 hbounds, bounds_eq_ok.1 hbounds'] at twins
    obtain ⟨first, rest⟩ := List.forall₂_cons.1 twins
    exact .between first (List.forall₂_cons.1 rest).1
  all_goals cases hlist

variable {s : TypeSystem}

/-- The operands of float operators are null or floats. -/
theorem floats_of_conforms {base : String} (hbody : s.body? base = some (.scalar .float))
    {v : Value} (hv : Conforms s v (.named base)) : v = .null ∨ ∃ x, v = .float x :=
  (hv.scalar_cases hbody).imp_right fun takes => takes.wraps

theorem exists_floats {items : List Value} (h : ∀ v ∈ items, ∃ x, v = .float x) :
    ∃ xs : List Binary64, items = xs.map .float := by
  induction items with
  | nil => exact ⟨[], rfl⟩
  | cons v items ih =>
    rw [List.forall_mem_cons] at h
    obtain ⟨⟨x, rfl⟩, h⟩ := h
    obtain ⟨xs, rfl⟩ := ih h
    exact ⟨x :: xs, rfl⟩

/-- The operands of float operators that take lists are null or lists of floats. -/
theorem exists_floats_of_conforms {base : String} (hbody : s.body? base = some (.scalar .float))
    {v : Value} (hv : Conforms s v (.list (.nonNull (.named base)))) :
    v = .null ∨ ∃ xs : List Binary64, v = .list (xs.map .float) := by
  refine hv.list_cases.imp_right ?_
  rintro ⟨items, rfl, hitems⟩
  have float : ∀ v ∈ items, ∃ x, v = .float x := fun v hv =>
    (floats_of_conforms hbody (hitems v hv).of_nonNull.2).resolve_left (hitems v hv).of_nonNull.1
  obtain ⟨xs, rfl⟩ := exists_floats float
  exact ⟨xs, rfl⟩

theorem forall₂_same_of_freeze {xs ys : List Binary64}
    (h : Value.sameItems (Value.freezeItems (xs.map .float)) (Value.freezeItems (ys.map .float))) :
    List.Forall₂ (fun x y => (Value.float x).same (.float y)) xs ys := by
  rw [Value.sameItems_freezeItems_iff, List.forall₂_map_left_iff, List.forall₂_map_right_iff] at h
  exact h

theorem operatorOf_name {filter : ColumnFilter} {o o' : Operator}
    (h : operatorOf f filter o.name = .ok o') : o' = o := by
  have named := ofName?_of_operatorOf h
  rw [Operator.ofName?_name] at named
  exact (Option.some.inj named).symm

/-- Operators of number columns agree on operands of one fingerprint. -/
theorem operatorsAgree_of_takesNumbers (numbers : f.TakesNumbers) {t : Table} {type : SqlType}
    (htype : t.typeOf f.column.name = .ok type) (htext : Affinity.ofType type ≠ .text)
    (hbody : s.body? (familyScalar .float) = some (.scalar .float)) :
    OperatorsAgree codec t f (.family .float) (Sendable s
      (operatorFields (.named (familyScalar .float)) FilterFamily.float.operators)) := by
  rintro name v v' o u u' ⟨type', htype', hv⟩ ⟨_, htype'', hv'⟩ same ho hu hu'
  rw [htype'] at htype''
  cases htype''
  by_cases equal : v = v'
  · subst equal
    rw [hu] at hu'
    cases hu'
    exact .refl t _
  obtain ⟨o', hmem, hname, rfl⟩ := typeOf?_operatorFields htype'
  dsimp only at hname
  subst hname
  obtain rfl := operatorOf_name ho
  refine Table.agree_of_paired htype htext ?_
  cases hlist : o.takesList with
  | false =>
    rw [hlist] at hv hv'
    rcases floats_of_conforms hbody hv with rfl | ⟨x, rfl⟩
    · exact absurd (eq_null_of_same same).symm equal
    · rcases floats_of_conforms hbody hv' with rfl | ⟨y, rfl⟩
      · cases eq_null_of_same_null same
      · exact columnTest_float_paired numbers hmem hlist same hu hu'
  | true =>
    rw [hlist] at hv hv'
    rcases exists_floats_of_conforms hbody hv with rfl | ⟨xs, rfl⟩
    · exact absurd (eq_null_of_same same).symm equal
    · rcases exists_floats_of_conforms hbody hv' with rfl | ⟨ys, rfl⟩
      · cases eq_null_of_same_null same
      · exact columnTest_floats_paired numbers hlist (forall₂_same_of_freeze same) hu hu'

end Filter

namespace SealedSchema

variable {b : Builder} {schema : SealedSchema} {Bound : Value → Prop}

/-- Float filters of number columns are told by their fingerprints. -/
theorem tellsFloats_of_takesNumbers (built : b.build = .ok schema)
    (numbers : ∀ r target, schema.Leads r target → r.isToMany = true → ∀ f,
      Filter.IsFilterField target f → f.filter = some (.family .float) → f.TakesNumbers) :
    schema.TellsFloats := by
  intro r target leads many f hf hfilter operator x y p q hx hy same hp hq
  refine (Filter.compile_alike (fieldsAgree built leads fun g hg hfloat => ?_) hx hy
    (Filter.freeze_single_same same) hp hq).agree
  have hmem : g ∈ target.fields := List.mem_of_mem_filter (List.mem_of_find?_eq_some hg.2.2)
  obtain ⟨-, c, hc, hfield⟩ := Builder.exists_column built leads.mem hmem
  obtain ⟨rfl, -, -⟩ := Builder.columnField_eq_ok hfield
  have own := numbers r target leads many g hg hfloat
  have htype := (Table.keeps_ofEntity schema.codec.enumerations target.entity []).typeOf hc
  refine Filter.operatorsAgree_of_takesNumbers own htype ?_
    (Builder.body?_familyScalar built .float)
  obtain ⟨label, hkind | hkind⟩ := own.kind
  · rw [hkind]
    nofun
  · rw [hkind]
    nofun

theorem number_of_columnFilter {context : Context} (h : context.filterOverrides = []) {c : Column}
    {path : String}
    (hfilter : Projection.columnFilter context c path = .ok (some (.family .float))) :
    ∃ label, c.type = .basic .float label ∨ c.type = .basic .double label := by
  have own := Builder.family_of_columnFilter h hfilter
  cases htype : c.type with
  | basic kind label =>
    rw [htype] at own
    refine ⟨label, ?_⟩
    cases kind with
    | float => exact .inl rfl
    | double => exact .inr rfl
    | integer k => cases k <;> cases own
    | _ => cases own
  | _ =>
    rw [htype] at own
    cases own

/--
Loads of one group match the same rows in every table if no filter and no column is configured and
row scopes bind values that are told apart.
-/
theorem coalescesSoundly_of_default (built : b.build = .ok schema)
    (filters : b.context.filterOverrides = []) (columns : b.context.columnOverrides = [])
    (told : Exact Bound) : schema.CoalescesSoundly Bound := by
  refine coalescesSoundly_of_tells built (tellsFloats_of_takesNumbers built ?_)
    fun r target _ column u v hprint => ?_
  · intro r target leads _ f hf hfloat
    have hmem : f ∈ target.fields := List.mem_of_mem_filter (List.mem_of_find?_eq_some hf.2.2)
    obtain ⟨-, c, hc, hfield⟩ := Builder.exists_column built leads.mem hmem
    obtain ⟨rfl, hoverride, hfilter⟩ := Builder.columnField_eq_ok hfield
    rw [hfloat] at hfilter
    exact ⟨number_of_columnFilter filters hfilter, by rw [hoverride, columns]; rfl⟩
  · rw [hprint.eq told]
    exact .refl _ _

end SealedSchema

end TableGraph
