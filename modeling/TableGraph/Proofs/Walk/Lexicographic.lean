import TableGraph.Page.Keyset
import TableGraph.Proofs.CellOrder
import TableGraph.Proofs.Condition
import TableGraph.Sample.Notes

/-!
# The order of a keyset condition

A keyset condition has one branch for every column of its order: the row is equal to the anchor in
the columns before, and further in that one (`Keyset.exists_branches`).  Whatever the columns hold,
as long as each of them is totally ordered, this is the strict lexicographic order of the rows.

Main statement: `keyset_lexicographic`.
-/

namespace TableGraph

/-- Where a row is that comes after another, or before it. -/
def Table.side (forward : Bool) : Ordering := if forward then .lt else .gt

/-! ## Ordered columns -/

/-- Columns by which rows are compared with values, and what tests tell about rows. -/
structure Columns (ρ : Type) where
  /-- What a column is ordered by. -/
  Place : String → Type
  order : (column : String) → Place column → Place column → Ordering
  trans : ∀ column, Std.TransCmp (order column)
  /-- The place of a row in a column; there is none if it is null there. -/
  place : ρ → (column : String) → Option (Place column)
  /-- The place of a value that rows are compared with. -/
  operand : (column : String) → Value → Option (Place column)
  /-- What a test of a column tells about a row. -/
  tells : ρ → String → Test Value → Truth
  /-- A comparison is unknown without both places, and decided by the order of the column else. -/
  tells_compare : ∀ r column k v, tells r column (.compare k v) = do
    let x ← place r column
    let y ← operand column v
    some (k.accepts (order column x y))

namespace Columns

variable {ρ : Type} (C : Columns ρ)

/-- The order of a column in a direction. -/
def directed (o : Order) (x y : C.Place o.column) : Ordering :=
  if o.descending then C.order o.column y x else C.order o.column x y

/-- How an anchor compares with a row in the direction of an order, if both have a place. -/
def compare? (o : Order) (a : Record) (r : ρ) : Option Ordering := do
  let x ← C.operand o.column (a.get o.column)
  let y ← C.place r o.column
  some (C.directed o x y)

/-- The row is further than the anchor, or less far, in the first column in which they differ. -/
def Beyond (forward : Bool) (os : List Order) (a : Record) (r : ρ) : Prop :=
  ∃ equal o rest, os = equal ++ o :: rest ∧
    (∀ o' ∈ equal, C.compare? o' a r = some .eq) ∧ C.compare? o a r = some (Table.side forward)

/-- The row is at the anchor in all columns. -/
def Same (os : List Order) (a : Record) (r : ρ) : Prop :=
  ∀ o ∈ os, C.compare? o a r = some .eq

/-- The values of the anchor have places, and are neither null nor truth values. -/
def Anchors (os : List Order) (a : Record) : Prop :=
  ∀ o ∈ os, ((a.get o.column).isNull = false ∧ ∀ b, a.get o.column ≠ .bool b) ∧
    (C.operand o.column (a.get o.column)).isSome

/-- The row is not null in any column. -/
def Placed (os : List Order) (r : ρ) : Prop := ∀ o ∈ os, (C.place r o.column).isSome

end Columns

namespace Keyset

/-- The keyset condition of an anchor exists and lets the row through. -/
def Selects {ρ : Type} (accepts : Predicate Value → ρ → Prop) (e : Entity) (os : List Order)
    (forward : Bool) (a : Record) (r : ρ) : Prop :=
  ∃ p, condition e os a forward = .ok p ∧ accepts p r

/-- The keyset conditions of an order are its strict lexicographic order and the converse of it. -/
structure Lexicographic {ρ : Type} (C : Columns ρ) (accepts : Predicate Value → ρ → Prop)
    (e : Entity) (os : List Order) : Prop where
  exists_condition : ∀ a, C.Anchors os a → ∀ forward, ∃ p, condition e os a forward = .ok p
  selects_iff : ∀ a r, C.Anchors os a → ∀ forward,
    (Selects accepts e os forward a r ↔ C.Beyond forward os a r)
  /-- The row is on one side of the anchor, on the other, or at the anchor. -/
  exactly_one : ∀ a r, C.Anchors os a → C.Placed os r →
    (Selects accepts e os true a r ∨ Selects accepts e os false a r ∨ C.Same os a r) ∧
      ¬ (Selects accepts e os true a r ∧ Selects accepts e os false a r) ∧
      ¬ (Selects accepts e os true a r ∧ C.Same os a r) ∧
      ¬ (Selects accepts e os false a r ∧ C.Same os a r)
  irreflexive : ∀ a r, C.Anchors os a → C.Same os a r → ¬ Selects accepts e os true a r
  transitive : ∀ a b r s, C.Anchors os a → C.Anchors os b → C.Same os b r →
    Selects accepts e os true a r → Selects accepts e os true b s → Selects accepts e os true a s
  converse : ∀ a b r s, C.Anchors os a → C.Anchors os b → C.Same os a r → C.Same os b s →
    (Selects accepts e os false a s ↔ Selects accepts e os true b r)

end Keyset

/-! ## Lexicographic order -/

theorem order_then {α : Type} {cmp : α → α → Ordering} [Std.TransCmp cmp] {x y z : α}
    (h : cmp x y = cmp y z ∨ cmp x y = .eq ∨ cmp y z = .eq) :
    cmp x z = (cmp x y).then (cmp y z) := by
  by_cases hxy : cmp x y = .eq
  · rw [hxy, Std.TransCmp.congr_left hxy, Ordering.eq_then]
  by_cases hyz : cmp y z = .eq
  · rw [hyz, ← Std.TransCmp.congr_right hyz, Ordering.then_eq]
  obtain heq : cmp x y = cmp y z := by simpa [hxy, hyz] using h
  rw [← heq]
  cases hc : cmp x y with
  | eq => exact absurd hc hxy
  | lt => exact Std.TransCmp.lt_trans hc (heq ▸ hc)
  | gt => exact Std.TransCmp.gt_trans hc (heq ▸ hc)

namespace Columns

variable {ρ : Type} {C : Columns ρ} {o : Order} {os : List Order} {a b : Record} {r s : ρ}
  {c d : Ordering}

instance : Std.TransCmp (C.directed o) := by
  have := C.trans o.column
  by_cases h : o.descending = true
  · rw [show C.directed o = fun x y => C.order o.column y x from funext₂ fun x y => if_pos h]
    exact Std.TransCmp.opposite
  · rw [show C.directed o = C.order o.column from funext₂ fun x y => if_neg h]
    exact this

theorem compare?_eq_some : C.compare? o a r = some c ↔
    ∃ x y, C.operand o.column (a.get o.column) = some x ∧ C.place r o.column = some y ∧
      C.directed o x y = c := by
  simp [compare?, Option.bind_eq_some_iff]

/-- From an anchor to a row, and from an anchor at that row to another. -/
theorem compare?_trans (har : C.compare? o a r = some c) (hbr : C.compare? o b r = some .eq)
    (hbs : C.compare? o b s = some d) (h : c = d ∨ c = .eq ∨ d = .eq) :
    C.compare? o a s = some (c.then d) := by
  obtain ⟨x, y, hx, hy, rfl⟩ := compare?_eq_some.1 har
  obtain ⟨z, y', hz, hy', heq⟩ := compare?_eq_some.1 hbr
  obtain ⟨z', w, hz', hw, rfl⟩ := compare?_eq_some.1 hbs
  rw [hy, Option.some.injEq] at hy'
  rw [hz, Option.some.injEq] at hz'
  subst hy' hz'
  refine compare?_eq_some.2 ⟨x, w, hx, hw, ?_⟩
  rw [Std.TransCmp.congr_left heq] at h ⊢
  exact order_then h

/-- Between two rows and anchors at them. -/
theorem compare?_swap (har : C.compare? o a r = some .eq) (hbs : C.compare? o b s = some .eq) :
    C.compare? o a s = (C.compare? o b r).map Ordering.swap := by
  obtain ⟨x, y, hx, hy, hxy⟩ := compare?_eq_some.1 har
  obtain ⟨z, w, hz, hw, hzw⟩ := compare?_eq_some.1 hbs
  rw [compare?_eq_some.2 ⟨z, y, hz, hy, rfl⟩]
  refine compare?_eq_some.2 ⟨x, w, hx, hw, ?_⟩
  rw [Std.TransCmp.congr_left hxy, ← Std.TransCmp.congr_right hzw]
  exact Std.OrientedCmp.eq_swap

theorem exists_compare? (ha : C.Anchors (o :: os) a) (hr : C.Placed (o :: os) r) :
    ∃ c, C.compare? o a r = some c := by
  obtain ⟨x, hx⟩ := Option.isSome_iff_exists.1 (ha o List.mem_cons_self).2
  obtain ⟨y, hy⟩ := Option.isSome_iff_exists.1 (hr o List.mem_cons_self)
  exact ⟨_, compare?_eq_some.2 ⟨x, y, hx, hy, rfl⟩⟩

theorem not_beyond_nil {forward : Bool} : ¬ C.Beyond forward [] a r := by
  rintro ⟨equal, o, rest, hos, -⟩
  exact absurd hos.symm (List.append_ne_nil_of_right_ne_nil equal (List.cons_ne_nil o rest))

/-- The first column decides, and the others if the row is at the anchor in it. -/
theorem beyond_cons {forward : Bool} : C.Beyond forward (o :: os) a r ↔
    C.compare? o a r = some (Table.side forward) ∨
      C.compare? o a r = some .eq ∧ C.Beyond forward os a r := by
  constructor
  · rintro ⟨equal, o', rest, hos, hequal, hfurther⟩
    rcases List.cons_eq_append_iff.1 hos with ⟨rfl, heq⟩ | ⟨equal, rfl, heq⟩
    · rw [List.cons.injEq] at heq
      exact .inl (heq.1 ▸ hfurther)
    · rw [List.forall_mem_cons] at hequal
      exact .inr ⟨hequal.1, equal, o', rest, heq, hequal.2, hfurther⟩
  · rintro (hfurther | ⟨hfirst, equal, o', rest, rfl, hequal, hfurther⟩)
    · exact ⟨[], o, os, rfl, nofun, hfurther⟩
    · exact ⟨o :: equal, o', rest, rfl, List.forall_mem_cons.2 ⟨hfirst, hequal⟩, hfurther⟩

theorem beyond_or (ha : C.Anchors os a) (hr : C.Placed os r) :
    C.Beyond true os a r ∨ C.Beyond false os a r ∨ C.Same os a r := by
  induction os with
  | nil => exact .inr (.inr nofun)
  | cons o os ih =>
    obtain ⟨c, hc⟩ := exists_compare? ha hr
    have rest := ih (fun o ho => ha o (List.mem_cons_of_mem _ ho))
      fun o ho => hr o (List.mem_cons_of_mem _ ho)
    unfold Same at rest ⊢
    rw [beyond_cons, beyond_cons, List.forall_mem_cons, hc]
    cases c with
    | lt => exact .inl (.inl rfl)
    | gt => exact .inr (.inl (.inl rfl))
    | eq => simpa [Table.side] using rest

theorem not_beyond_both (h : C.Beyond true os a r) : ¬ C.Beyond false os a r := by
  induction os with
  | nil => exact not_beyond_nil
  | cons o os ih =>
    rw [beyond_cons] at h ⊢
    rintro (hbefore | ⟨heq, hbefore⟩) <;> rcases h with hafter | ⟨heq', hafter⟩
    all_goals simp_all [Table.side]

theorem not_beyond_of_same {forward : Bool} (h : C.Same os a r) : ¬ C.Beyond forward os a r := by
  rintro ⟨equal, o, rest, rfl, -, hfurther⟩
  rw [h o (List.mem_append_right equal List.mem_cons_self)] at hfurther
  cases forward <;> cases hfurther

theorem beyond_trans {forward : Bool} (hbr : C.Same os b r) (har : C.Beyond forward os a r)
    (hbs : C.Beyond forward os b s) : C.Beyond forward os a s := by
  induction os with
  | nil => exact absurd har not_beyond_nil
  | cons o os ih =>
    obtain ⟨hfirst, hothers⟩ := List.forall_mem_cons.1 hbr
    rw [beyond_cons] at *
    rcases har with hr | ⟨hr, har⟩ <;> rcases hbs with hs | ⟨hs, hbs⟩
    · refine .inl ((compare?_trans hr hfirst hs (.inl rfl)).trans ?_)
      cases forward <;> rfl
    · refine .inl ((compare?_trans hr hfirst hs (.inr (.inr rfl))).trans ?_)
      cases forward <;> rfl
    · exact .inl (compare?_trans hr hfirst hs (.inr (.inl rfl)))
    · exact .inr ⟨compare?_trans hr hfirst hs (.inl rfl), ih hothers har hbs⟩

theorem beyond_converse (har : C.Same os a r) (hbs : C.Same os b s) :
    C.Beyond false os a s ↔ C.Beyond true os b r := by
  induction os with
  | nil => exact iff_of_false not_beyond_nil not_beyond_nil
  | cons o os ih =>
    unfold Same at har hbs
    rw [List.forall_mem_cons] at har hbs
    rw [beyond_cons, beyond_cons, ih har.2 hbs.2, compare?_swap har.1 hbs.1]
    rcases C.compare? o b r with _ | _ | _ | _ <;> simp [Table.side]

end Columns

/-! ## Conditions -/

namespace Keyset

variable {e : Entity} {a : Record} {o : Order} {os : List Order}

theorem ordered_eq {v : Value} (h : v.isNull = false ∧ ∀ b, v ≠ .bool b) (k : Comparison) :
    Test.ordered k v = .ok (.compare k v) := by
  cases v with
  | null => exact absurd h.1 Bool.true_eq_false_eq_False
  | bool b => exact absurd rfl (h.2 b)
  | _ => rfl

theorem equals_eq {v : Value} (h : v.isNull = false ∧ ∀ b, v ≠ .bool b) :
    Test.equals false v = .compare .eq v := by
  cases v with
  | null => exact absurd h.1 Bool.true_eq_false_eq_False
  | bool b => exact absurd rfl (h.2 b)
  | _ => rfl

/-- The comparison of a row that is further in a column. -/
def further (forward : Bool) (o : Order) : Comparison :=
  if (!o.descending) == forward then .gt else .lt

/-- The row is at the anchor in some columns, and further in another. -/
def branch (forward : Bool) (a : Record) (equal : List Order) (o : Order) : Predicate Value :=
  .allOf (equal.map (level a) ++ [.test o.column (.compare (further forward o) (a.get o.column))])

theorem step_eq (he : e.hasColumn o.column)
    (plain : (a.get o.column).isNull = false ∧ ∀ b, a.get o.column ≠ .bool b) (forward : Bool) :
    step e forward a o = .ok (.test o.column (.compare (further forward o) (a.get o.column))) := by
  unfold step
  rw [if_pos he]
  dsimp only
  rw [ordered_eq plain]
  rfl

/-- There is one branch for every column, behind the columns before it. -/
theorem exists_branches (he : ∀ o ∈ os, e.hasColumn o.column)
    (plain : ∀ o ∈ os, (a.get o.column).isNull = false ∧ ∀ b, a.get o.column ≠ .bool b)
    (forward : Bool) (before : List Order) : ∃ ps, branches e forward a before os = .ok ps ∧
      ∀ p, p ∈ ps ↔ ∃ equal o rest, os = equal ++ o :: rest ∧
        p = branch forward a (before ++ equal) o := by
  induction os generalizing before with
  | nil =>
    refine ⟨[], rfl, fun p => iff_of_false List.not_mem_nil ?_⟩
    rintro ⟨equal, o, rest, hos, -⟩
    exact absurd hos.symm (List.append_ne_nil_of_right_ne_nil equal (List.cons_ne_nil o rest))
  | cons o os ih =>
    rw [List.forall_mem_cons] at he plain
    obtain ⟨ps, hps, hmem⟩ := ih he.2 plain.2 (before ++ [o])
    refine ⟨branch forward a before o :: ps, ?_, fun p => ?_⟩
    · unfold branches
      rw [step_eq he.1 plain.1, hps]
      rfl
    · rw [List.mem_cons, hmem]
      constructor
      · rintro (rfl | ⟨equal, o', rest, rfl, rfl⟩)
        · exact ⟨[], o, os, rfl, by rw [List.append_nil]⟩
        · exact ⟨o :: equal, o', rest, rfl, by rw [List.append_assoc]; rfl⟩
      · rintro ⟨equal, o', rest, hos, rfl⟩
        rcases List.cons_eq_append_iff.1 hos with ⟨rfl, heq⟩ | ⟨equal, rfl, heq⟩
        · rw [List.cons.injEq] at heq
          rw [heq.1, List.append_nil]
          exact .inl rfl
        · exact .inr ⟨equal, o', rest, heq, by rw [List.append_assoc]; rfl⟩

variable {ρ : Type} {C : Columns ρ} {r : ρ}

/-- A test tells whether a row compares with the anchor as it should. -/
theorem tells_eq_true {k : Comparison} {c : Ordering}
    (h : ∀ x y, k.accepts (C.order o.column y x) = true ↔ C.directed o x y = c) :
    C.tells r o.column (.compare k (a.get o.column)) = some true ↔ C.compare? o a r = some c := by
  rw [C.tells_compare]
  unfold Columns.compare?
  rcases C.place r o.column with _ | y <;> rcases C.operand o.column (a.get o.column) with _ | x
  · simp
  · simp
  · simp
  · simpa using h x y

theorem accepts_eq_iff (x y : C.Place o.column) :
    Comparison.eq.accepts (C.order o.column y x) = true ↔ C.directed o x y = .eq := by
  have := C.trans o.column
  refine beq_iff_eq.trans ?_
  unfold Columns.directed
  split_ifs
  · rfl
  · exact Std.OrientedCmp.eq_comm

theorem accepts_further_iff (forward : Bool) (x y : C.Place o.column) :
    (further forward o).accepts (C.order o.column y x) = true ↔
      C.directed o x y = Table.side forward := by
  have := C.trans o.column
  unfold further Columns.directed Table.side
  cases o.descending <;> cases forward
  · exact beq_iff_eq.trans Std.OrientedCmp.gt_iff_lt.symm
  · exact beq_iff_eq.trans Std.OrientedCmp.gt_iff_lt
  · exact beq_iff_eq
  · exact beq_iff_eq

theorem truth_branch {decides : Expression → Truth} {forward : Bool} {equal : List Order}
    (plain : ∀ o ∈ equal, (a.get o.column).isNull = false ∧ ∀ b, a.get o.column ≠ .bool b) :
    (branch forward a equal o).truth (C.tells r) decides = some true ↔
      (∀ o' ∈ equal, C.compare? o' a r = some .eq) ∧
        C.compare? o a r = some (Table.side forward) := by
  unfold branch
  rw [Predicate.truth_allOf, List.forall_mem_append, List.forall_mem_singleton, List.forall_mem_map]
  refine and_congr ?_ (tells_eq_true (accepts_further_iff forward))
  refine forall₂_congr fun o' ho' => ?_
  unfold level
  rw [equals_eq (plain o' ho')]
  exact tells_eq_true accepts_eq_iff

/-- The operands of a branch are those of its tests. -/
theorem exists_bound_branch {β : Type} {f : String → Test Value → Except Fault (Test β)}
    {forward : Bool} {equal : List Order}
    (plain : ∀ o ∈ equal, (a.get o.column).isNull = false ∧ ∀ b, a.get o.column ≠ .bool b)
    (hequal : ∀ o ∈ equal, ∀ k, ∃ q, f o.column (.compare k (a.get o.column)) = .ok q)
    (hlast : ∀ k, ∃ q, f o.column (.compare k (a.get o.column)) = .ok q) :
    ∃ q, (branch forward a equal o).mapM f = .ok q := by
  have bound {o : Order} (k : Comparison)
      (h : ∃ q, f o.column (.compare k (a.get o.column)) = .ok q) :
      ∃ q, (Predicate.test o.column (.compare k (a.get o.column))).mapM f = .ok q := by
    obtain ⟨q, hq⟩ := h
    exact ⟨.test o.column q, map_eq_ok.2 ⟨q, hq, rfl⟩⟩
  have parts : ∀ p ∈ equal.map (level a) ++
      [.test o.column (.compare (further forward o) (a.get o.column))],
      ∃ q, Predicate.mapM f p = .ok q := by
    rw [List.forall_mem_append, List.forall_mem_map, List.forall_mem_singleton]
    refine ⟨fun o' ho' => ?_, bound _ (hlast _)⟩
    unfold level
    rw [equals_eq (plain o' ho')]
    exact bound _ (hequal o' ho' _)
  obtain ⟨qs, hqs⟩ := mapM_of_forall parts
  exact ⟨_, Predicate.mapM_allOf hqs⟩

/-- The condition is true of the rows beyond the anchor, and takes the operands of the anchor. -/
theorem exists_condition_truth (he : ∀ o ∈ os, e.hasColumn o.column)
    (plain : ∀ o ∈ os, (a.get o.column).isNull = false ∧ ∀ b, a.get o.column ≠ .bool b)
    (forward : Bool) : ∃ p, condition e os a forward = .ok p ∧
      (∀ {ρ : Type} (C : Columns ρ) (r : ρ) (decides : Expression → Truth),
        (p.truth (C.tells r) decides = some true ↔ C.Beyond forward os a r)) ∧
      ∀ {β : Type} (f : String → Test Value → Except Fault (Test β)),
        (∀ o ∈ os, ∀ k, ∃ q, f o.column (.compare k (a.get o.column)) = .ok q) →
          ∃ q, p.mapM f = .ok q := by
  obtain ⟨ps, hps, hmem⟩ := exists_branches he plain forward []
  refine ⟨.anyOf ps, ?_, fun C r decides => ?_, fun f hf => ?_⟩
  · unfold condition
    rw [hps]
    rfl
  · rw [Predicate.truth_anyOf]
    constructor
    · rintro ⟨p, hp, htrue⟩
      obtain ⟨equal, o, rest, rfl, rfl⟩ := (hmem p).1 hp
      obtain ⟨hequal, hfurther⟩ :=
        (truth_branch fun o' ho' => plain o' (List.mem_append_left _ ho')).1 htrue
      exact ⟨equal, o, rest, rfl, hequal, hfurther⟩
    · rintro ⟨equal, o, rest, rfl, hequal, hfurther⟩
      refine ⟨branch forward a equal o, (hmem _).2 ⟨equal, o, rest, rfl, rfl⟩, ?_⟩
      exact (truth_branch fun o' ho' => plain o' (List.mem_append_left _ ho')).2
        ⟨hequal, hfurther⟩
  · have parts : ∀ p ∈ ps, ∃ q, Predicate.mapM f p = .ok q := by
      intro p hp
      obtain ⟨equal, o, rest, rfl, rfl⟩ := (hmem p).1 hp
      rw [List.forall_mem_append, List.forall_mem_cons] at hf plain
      exact exists_bound_branch plain.1 hf.1 hf.2.1
    obtain ⟨qs, hqs⟩ := mapM_of_forall parts
    exact ⟨_, Predicate.mapM_anyOf hqs⟩

/-- What lets through the rows beyond anchors is a strict lexicographic order. -/
theorem lexicographic_of_accepts {accepts : Predicate Value → ρ → Prop}
    (h : ∀ a forward, C.Anchors os a → ∃ p, condition e os a forward = .ok p ∧
      ∀ r, accepts p r ↔ C.Beyond forward os a r) : Lexicographic C accepts e os := by
  have selects {a : Record} (ha : C.Anchors os a) (r : ρ) (forward : Bool) :
      Selects accepts e os forward a r ↔ C.Beyond forward os a r := by
    obtain ⟨p, hp, haccepts⟩ := h a forward ha
    unfold Selects
    rw [hp]
    simp only [Except.ok.injEq, exists_eq_left', haccepts]
  constructor
  · intro a ha forward
    obtain ⟨p, hp, -⟩ := h a forward ha
    exact ⟨p, hp⟩
  · intro a r ha forward
    exact selects ha r forward
  · intro a r ha hr
    rw [selects ha, selects ha]
    exact ⟨Columns.beyond_or ha hr, fun both => Columns.not_beyond_both both.1 both.2,
      fun both => Columns.not_beyond_of_same both.2 both.1,
      fun both => Columns.not_beyond_of_same both.2 both.1⟩
  · intro a r ha hsame
    rw [selects ha]
    exact Columns.not_beyond_of_same hsame
  · intro a b r s ha hb hsame
    rw [selects ha, selects hb, selects ha]
    exact Columns.beyond_trans hsame
  · intro a b r s ha hb har hbs
    rw [selects ha, selects hb]
    exact Columns.beyond_converse har hbs

end Keyset

/-! ## Columns of a table -/

/-- The cell, unless it is null. -/
def Cell.given? (c : Cell) : Option Cell := if c.isNull then none else some c

theorem Test.compared_eq_bind (k : Comparison) (c d : Cell) : compared k c d =
    c.given?.bind fun x => d.given?.map fun y => k.accepts (x.order y) := by
  unfold compared Cell.given?
  cases c.isNull <;> cases d.isNull <;> rfl

namespace Table

variable {t : Table} {p : Predicate Value} {r : Row}

/-- A test with its operands as cells of a column. -/
def bindTest (t : Table) (column : String) (test : Test Value) : Except Fault (Test Cell) := do
  let type ← t.typeOf column
  test.bind type

/-- The cell that a column is compared with for a value. -/
def operand (t : Table) (column : String) (v : Value) : Except Fault Cell := do
  let type ← t.typeOf column
  (Cell.operand (.ofType type)) <$> type.bindOperand v

theorem bindTest_compare (t : Table) (column : String) (k : Comparison) (v : Value) :
    t.bindTest column (.compare k v) = Test.compare k <$> t.operand column v := by
  unfold bindTest operand
  rcases t.typeOf column with _ | type
  · rfl
  show (fun x : Cell => Test.compare k (x.operand (.ofType type))) <$> type.bindOperand v =
    Test.compare k <$> (Cell.operand (.ofType type)) <$> type.bindOperand v
  rcases type.bindOperand v with _ | y <;> rfl

/-- Every column of a table is ordered as its cells are. -/
def cells (t : Table) : Columns Row where
  Place _ := Cell
  order _ := Cell.order
  trans _ := inferInstance
  place r column := (r.get column).given?
  operand column v := (t.operand column v).toOption.bind Cell.given?
  tells r column test := (t.bindTest column test).toOption.bind (·.holds (r.get column))
  tells_compare r column k v := by
    rw [bindTest_compare]
    rcases t.operand column v with _ | y
    · rcases (r.get column).given? with _ | _ <;> rfl
    · refine (Test.compared_eq_bind k (r.get column) y).trans ?_
      show _ = (r.get column).given?.bind fun x =>
        y.given?.bind fun y => some (k.accepts (x.order y))
      simp only [Option.map_eq_bind, Function.comp_def]

/-- A condition that takes its operands accepts the rows it is true of. -/
theorem accepts_iff_truth {q : Predicate Cell} (h : t.bind p = .ok q) :
    t.Accepts p r ↔ p.truth (t.cells.tells r) (·.truth r) = some true := by
  have same : ∀ column u v, t.bindTest column u = .ok v →
      v.holds (r.get column) = t.cells.tells r column u := by
    intro column u v hv
    show _ = (t.bindTest column u).toOption.bind _
    rw [hv]
    rfl
  rw [accepts_iff h, Predicate.accepts_iff_truth, Predicate.truth_of_mapM _ same h]

theorem exists_operand_of_anchors {os : List Order} {a : Record} (h : t.cells.Anchors os a) :
    ∀ o ∈ os, ∀ k, ∃ q, t.bindTest o.column (.compare k (a.get o.column)) = .ok q := by
  intro o ho k
  obtain ⟨x, hx⟩ := Option.isSome_iff_exists.1 (h o ho).2
  obtain ⟨y, hy, -⟩ := Option.bind_eq_some_iff.1 hx
  rw [bindTest_compare, eq_ok_of_toOption hy]
  exact ⟨_, rfl⟩

end Table

/-- A keyset condition is the strict lexicographic order of the rows under the directions given,
whatever the columns are ordered by, and so it is on the rows of a table. -/
theorem keyset_lexicographic {e : Entity} {os : List Order} (he : ∀ o ∈ os, e.hasColumn o.column) :
    (∀ {ρ : Type} (C : Columns ρ),
      Keyset.Lexicographic C (fun p r => p.truth (C.tells r) = some true) e os) ∧
    ∀ t : Table, Keyset.Lexicographic t.cells t.Accepts e os := by
  constructor
  · intro ρ C
    refine Keyset.lexicographic_of_accepts fun a forward ha => ?_
    obtain ⟨p, hp, htruth, -⟩ :=
      Keyset.exists_condition_truth he (fun o ho => (ha o ho).1) forward
    exact ⟨p, hp, fun r => htruth C r _⟩
  · intro t
    refine Keyset.lexicographic_of_accepts fun a forward ha => ?_
    obtain ⟨p, hp, htruth, hbound⟩ :=
      Keyset.exists_condition_truth he (fun o ho => (ha o ho).1) forward
    obtain ⟨q, hq⟩ := hbound t.bindTest (Table.exists_operand_of_anchors ha)
    exact ⟨p, hp, fun r => (Table.accepts_iff_truth hq).trans (htruth t.cells r _)⟩

section Notes

open Sample.Notes

/-- Behind the first note, with the owners in descending order, is the second note of the same
owner, and not the first one itself. -/
theorem keyset_lexicographic_notes :
    Keyset.Selects (table []).Accepts entity [⟨"owner", true⟩, ⟨"id", false⟩] true
        [("id", .int 1), ("owner", .int 4)] (note 2 4 .null) ∧
      ¬ Keyset.Selects (table []).Accepts entity [⟨"owner", true⟩, ⟨"id", false⟩] true
        [("id", .int 1), ("owner", .int 4)] (note 1 4 .null) := by
  have known : ∀ o ∈ [Order.mk "owner" true, ⟨"id", false⟩], entity.hasColumn o.column := by decide
  have lexicographic := (keyset_lexicographic known).2 (table [])
  have anchors : (table []).cells.Anchors [⟨"owner", true⟩, ⟨"id", false⟩]
      [("id", .int 1), ("owner", .int 4)] := by
    unfold Columns.Anchors
    rw [List.forall_mem_cons, List.forall_mem_singleton]
    exact ⟨⟨⟨rfl, nofun⟩, rfl⟩, ⟨rfl, nofun⟩, rfl⟩
  constructor
  · refine (lexicographic.selects_iff _ _ anchors true).2
      ⟨[⟨"owner", true⟩], ⟨"id", false⟩, [], rfl, ?_, rfl⟩
    rw [List.forall_mem_singleton]
    rfl
  · refine lexicographic.irreflexive _ _ anchors ?_
    unfold Columns.Same
    rw [List.forall_mem_cons, List.forall_mem_singleton]
    exact ⟨rfl, rfl⟩

end Notes

end TableGraph
