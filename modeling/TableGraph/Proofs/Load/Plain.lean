import TableGraph.Proofs.Identifier
import TableGraph.Proofs.Load.Separate

/-!
# Plain keys

Whole numbers, texts, truth values, bytes and identifiers are kept as they are by the columns that
are made for them: equal cells are equal values and equal values are one key.  `tells_of_plain` says
that a batch tells the rows of such keys.
-/

namespace TableGraph

namespace Value

/-- The cell of a value that is kept as it is. -/
def cell : Value → Cell
  | int n => .int n
  | text s => .text s
  | bool b => .int (if b then 1 else 0)
  | bytes bs => .blob bs
  | uuid u => .text (String.ofList u.digits)
  | _ => .null

end Value

namespace SqlType

/-- A value that a column of the type keeps as it is. -/
inductive Plain : SqlType → Value → Prop
  | whole {type : SqlType} {n : Int} (family : type.family = .whole) (held : Cell.holds n) :
    Plain type (.int n)
  | text {type : SqlType} {s : String} (family : type.family = .text) : Plain type (.text s)
  | truth {b : Bool} : Plain .boolean (.bool b)
  | bytes {bs : List UInt8} : Plain .binary (.bytes bs)
  | identifier {u : Uuid} : Plain .uuid (.uuid u)

namespace Plain

variable {type : SqlType} {v w : Value}

theorem notNull (h : type.Plain v) : v.isNull = false ∧ v.cell.isNull = false := by
  cases h <;> exact ⟨rfl, rfl⟩

/-- It is compared with the column by the type of the column. -/
theorem comparedWith (h : type.Plain v) : type.comparedWith v = type := by
  cases h with
  | whole family =>
    cases type
    case smallInteger | integer | bigInteger => rfl
    all_goals cases family
  | text family =>
    cases type
    case string | character | enumeration => rfl
    all_goals cases family
  | truth | bytes | identifier => rfl

theorem bind (h : type.Plain v) : type.bind v = .ok v.cell := by
  cases h with
  | @whole _ n family held =>
    have bound : cellOfInt n = .ok (.int n) := if_pos held
    cases type
    case smallInteger | integer | bigInteger => exact bound
    all_goals cases family
  | text family =>
    cases type
    case string | character | enumeration => rfl
    all_goals cases family
  | @truth b => cases b <;> rfl
  | bytes | identifier => rfl

theorem operand (h : type.Plain v) : v.cell.operand (.ofType type) = v.cell := by
  cases h with
  | whole family =>
    cases type
    case smallInteger | integer | bigInteger => rfl
    all_goals cases family
  | text family =>
    cases type
    case string | character | enumeration => rfl
    all_goals cases family
  | truth | bytes | identifier => rfl

theorem bind_compare (h : type.Plain v) (k : Comparison) :
    (Test.compare k v).bind type = .ok (.compare k v.cell) := by
  have bound : type.bindOperand v = .ok v.cell := by
    unfold bindOperand
    split
    · cases h.notNull.1
    · rw [h.comparedWith, h.bind]
  unfold Test.bind
  dsimp only
  rw [bound]
  exact congrArg (fun x => Except.ok (Test.compare k x)) h.operand

/-- What is read is what was kept. -/
theorem eq_of_read (h : type.Plain v) (hread : type.read v.cell = .ok w) : w = v := by
  cases h with
  | whole family =>
    cases type
    case smallInteger | integer | bigInteger =>
      cases hread
      rfl
    all_goals cases family
  | @text _ s family =>
    cases type
    case string | character =>
      cases hread
      rfl
    case enumeration values =>
      unfold read Value.cell at hread
      dsimp only at hread
      split_ifs at hread
      cases hread
      rfl
    all_goals cases family
  | @truth b =>
    cases b <;>
    · cases hread
      rfl
  | bytes =>
    cases hread
    rfl
  | @identifier u =>
    have found : read .uuid (Value.uuid u).cell = .ok (.uuid u) := by
      show found .uuid (Uuid.ofText? (String.ofList u.digits)) = _
      rw [Uuid.ofText?_digits]
      rfl
    rw [found] at hread
    cases hread
    rfl

theorem compareBytes_eq_eq {as bs : List UInt8} (h : Cell.compareBytes as bs = .eq) : as = bs := by
  induction as generalizing bs with
  | nil =>
    cases bs with
    | nil => rfl
    | cons => cases h
  | cons a as ih =>
    cases bs with
    | nil => cases h
    | cons b bs =>
      unfold Cell.compareBytes at h
      rw [Ordering.then_eq_eq, Nat.compare_eq_eq] at h
      rw [UInt8.toNat_inj.1 h.1, ih h.2]

/-- Cells of one column that compare equal are of one value. -/
theorem order_iff (hv : type.Plain v) (hw : type.Plain w) : v.cell.order w.cell = .eq ↔ v = w := by
  refine ⟨fun h => ?_, fun h => h ▸ Cell.order_self _⟩
  cases hv with
  | whole family =>
    cases hw with
    | whole => rw [Int.compare_eq_eq.1 h]
    | text family' => rw [family] at family'; cases family'
    | truth | bytes | identifier => cases family
  | text family =>
    cases hw with
    | text => rw [Std.LawfulEqOrd.eq_of_compare h]
    | whole family' => rw [family] at family'; cases family'
    | truth | bytes | identifier => cases family
  | @truth b =>
    cases hw with
    | @truth b' => cases b <;> cases b' <;> first | rfl | cases h
    | whole family | text family => cases family
  | bytes =>
    cases hw with
    | bytes => rw [compareBytes_eq_eq h]
    | whole family | text family => cases family
  | @identifier u =>
    cases hw with
    | @identifier u' =>
      have digits : String.ofList u.digits = String.ofList u'.digits :=
        Std.LawfulEqOrd.eq_of_compare h
      have same := Uuid.ofText?_digits u
      rw [digits, Uuid.ofText?_digits, Option.some.injEq] at same
      rw [same]
    | whole family | text family => cases family

theorem same_int (m n : Int) : (Value.int m).same (.int n) ↔ m = n := by
  show Value.sameNumber (.int m) (.int n) ↔ m = n
  rw [Value.sameNumber_iff]
  constructor
  · rintro ⟨_, _, hx, hy, h⟩
    cases hx
    cases hy
    have h := Option.some.inj h
    rw [Decimal.compareFinite_eq_eq] at h
    simp only [min_self, sub_self, Int.toNat_zero, tenTo_zero] at h
    rcases h with ⟨hm, hn⟩ | ⟨-, -, hsign, -, habs⟩
    · omega
    · have hsign := decide_eq_decide.1 hsign
      omega
  · rintro rfl
    refine ⟨_, _, rfl, rfl, congrArg some (Decimal.compareFinite_eq_eq.2 ?_)⟩
    by_cases h : m.natAbs = 0
    · exact Or.inl ⟨h, h⟩
    · exact Or.inr ⟨h, h, rfl, rfl, rfl⟩

/-- Values of one column that are the same are equal. -/
theorem value_same_iff (hv : type.Plain v) (hw : type.Plain w) : v.same w ↔ v = w := by
  cases hv with
  | @whole _ m family =>
    cases hw with
    | @whole _ n =>
      rw [Value.int.injEq]
      exact same_int m n
    | text family' => rw [family] at family'; cases family'
    | truth | bytes | identifier => cases family
  | text family =>
    cases hw with
    | text =>
      rw [Value.text.injEq]
      exact beq_iff_eq
    | whole family' => rw [family] at family'; cases family'
    | truth | bytes | identifier => cases family
  | @truth b =>
    cases hw with
    | @truth b' =>
      rw [Value.bool.injEq]
      cases b <;> cases b' <;> decide
    | whole family | text family => cases family
  | bytes =>
    cases hw with
    | bytes =>
      rw [Value.bytes.injEq]
      exact beq_iff_eq
    | whole family | text family => cases family
  | @identifier u =>
    cases hw with
    | @identifier u' =>
      rw [Value.uuid.injEq]
      exact beq_iff_eq
    | whole family | text family => cases family

/-- Values of one column that are the same part of a key are equal. -/
theorem same_iff (hv : type.Plain v) (hw : type.Plain w) :
    (Identity.ofValue v).same (.ofValue w) ↔ v = w := by
  have identity : ∀ {u : Value}, type.Plain u → Identity.ofValue u = ⟨u.typeName, u⟩ := by
    intro u hu
    cases hu <;> rfl
  unfold Identity.same
  rw [identity hv, identity hw, Bool.and_eq_true, decide_eq_true_iff, hv.value_same_iff hw]
  exact and_iff_right_of_imp fun h => congrArg Value.typeName h

theorem cell_injective (hv : type.Plain v) (hw : type.Plain w) (h : v.cell = w.cell) : v = w :=
  (order_iff hv hw).1 (h ▸ Cell.order_self _)

end Plain

end SqlType

/-! ## Keys of plain values -/

/-- A cell of a column is, or it is not, that of a value: comparing tells. -/
theorem SqlType.Plain.compared_iff {type : SqlType} {v : Value} (h : type.Plain v) {c : Cell}
    (hc : c.isNull ∨ ∃ w, type.Plain w ∧ c = w.cell) :
    c.isNull = false ∧ c.order v.cell = .eq ↔ c = v.cell := by
  rcases hc with hnull | ⟨w, hw, rfl⟩
  · refine iff_of_false (fun h => ?_) fun hcell => ?_
    · rw [hnull] at h
      cases h.1
    · rw [hcell, h.notNull.2] at hnull
      cases hnull
  · rw [hw.order_iff h, and_iff_right hw.notNull.2]
    exact ⟨fun h => by rw [h], hw.cell_injective h⟩

namespace Load

variable {u : Table} {columns : List String} {values values' : List Value} {l : Row}

/-- The values of a key are such that the columns keep them as they are. -/
def PlainKey (u : Table) (columns : List String) (values : List Value) : Prop :=
  List.Forall₂ (fun c v => ∃ type, u.typeOf c = .ok type ∧ type.Plain v) columns values

/-- The columns of a row hold nothing but values that they keep as they are. -/
def PlainRow (u : Table) (columns : List String) (l : Row) : Prop :=
  ∀ c ∈ columns, ∃ type, u.typeOf c = .ok type ∧
    ((l.get c).isNull ∨ ∃ v, type.Plain v ∧ l.get c = v.cell)

/-- The row has the values in the columns. -/
def Has (l : Row) (columns : List String) (values : List Value) : Prop :=
  List.Forall₂ (fun c v => l.get c = v.cell) columns values

theorem PlainKey.any_isNull (h : PlainKey u columns values) : values.any (·.isNull) = false := by
  unfold PlainKey at h
  induction h with
  | nil => rfl
  | cons hv _ ih =>
    obtain ⟨type, -, hplain⟩ := hv
    rw [List.any_cons, hplain.notNull.1, ih]
    rfl

theorem PlainKey.sameKey_iff (h : PlainKey u columns values) (h' : PlainKey u columns values') :
    sameKey (values.map .ofValue) (values'.map .ofValue) ↔ values = values' := by
  unfold PlainKey at h h'
  induction h generalizing values' with
  | nil =>
    cases h'
    exact iff_of_true rfl rfl
  | cons hv _ ih =>
    cases h' with
    | cons hv' h' =>
      obtain ⟨type, htype, hplain⟩ := hv
      obtain ⟨type', htype', hplain'⟩ := hv'
      rw [htype] at htype'
      cases htype'
      rw [List.map_cons, List.map_cons]
      unfold sameKey
      rw [Bool.and_eq_true, ih h', hplain.same_iff hplain', List.cons.injEq]

theorem PlainKey.sameCells_iff (h : PlainKey u columns values) (hl : PlainRow u columns l) :
    Table.sameCells (columns.map l.get) (values.map Value.cell) ↔ Has l columns values := by
  unfold PlainKey at h
  unfold Has Table.sameCells
  induction h with
  | nil => exact iff_of_true rfl .nil
  | @cons c v columns values hv _ ih =>
    obtain ⟨type, htype, hplain⟩ := hv
    obtain ⟨type', htype', hcell⟩ := hl c List.mem_cons_self
    rw [htype] at htype'
    cases htype'
    rw [List.forall₂_cons, ← ih fun c hc => hl c (List.mem_cons_of_mem _ hc), List.map_cons,
      List.map_cons, List.zip_cons_cons, List.all_cons, Bool.and_eq_true]
    refine and_congr_left' ?_
    dsimp only
    rw [Bool.and_eq_true, beq_iff_eq, Bool.not_eq_true']
    exact hplain.compared_iff hcell

theorem PlainKey.accepts_iff (h : PlainKey u columns values) (hl : PlainRow u columns l) :
    u.Accepts (isKey columns values) l ↔ Has l columns values := by
  unfold isKey
  rw [Table.accepts_allOf]
  unfold PlainKey at h
  unfold Has
  induction h with
  | nil => exact iff_of_true nofun .nil
  | @cons c v columns values hv _ ih =>
    obtain ⟨type, htype, hplain⟩ := hv
    obtain ⟨type', htype', hcell⟩ := hl c List.mem_cons_self
    rw [htype] at htype'
    cases htype'
    rw [List.forall₂_cons, ← ih fun c hc => hl c (List.mem_cons_of_mem _ hc), List.zip_cons_cons,
      List.map_cons, List.forall_mem_cons, ← hplain.compared_iff hcell]
    refine and_congr_left' ?_
    dsimp only
    rw [Table.accepts_test]
    constructor
    · rintro ⟨_, _, h, hq, hholds⟩
      rw [htype] at h
      cases h
      rw [hplain.bind_compare] at hq
      cases hq
      obtain ⟨hnull, -, heq⟩ := Test.compared_eq_true.1 hholds
      exact ⟨hnull, beq_iff_eq.1 heq⟩
    · rintro ⟨hnull, heq⟩
      exact ⟨type, _, htype, hplain.bind_compare .eq,
        Test.compared_eq_true.2 ⟨hnull, hplain.notNull.2, beq_iff_eq.2 heq⟩⟩

theorem PlainKey.identityOf_eq (h : PlainKey u columns values) (hhas : Has l columns values)
    (hread : ∃ record, u.read l = .ok record) :
    identityOf (u.record l) columns = values.map .ofValue := by
  have hread := Table.read_eq hread
  unfold PlainKey at h
  unfold Has at hhas
  unfold identityOf
  induction h with
  | nil => rfl
  | cons hv _ ih =>
    obtain ⟨type, htype, hplain⟩ := hv
    obtain ⟨hcell, hhas⟩ := List.forall₂_cons.1 hhas
    have read := Table.read_of_typeOf hread htype
    rw [hcell] at read
    rw [List.map_cons, List.map_cons, ih hhas, hplain.eq_of_read read]

/-! ## The test of a batch -/

theorem PlainKey.exists_types (h : PlainKey u columns values) :
    ∃ types, columns.mapM u.typeOf = .ok types ∧ List.Forall₂ SqlType.Plain types values := by
  unfold PlainKey at h
  induction h with
  | nil => exact ⟨[], rfl, .nil⟩
  | cons hv _ ih =>
    obtain ⟨type, htype, hplain⟩ := hv
    obtain ⟨types, htypes, hall⟩ := ih
    exact ⟨type :: types, mapM_eq_ok.2 (.cons htype (mapM_eq_ok.1 htypes)), .cons hplain hall⟩

/-- Plain values are compared as the columns hold them. -/
theorem comparedWith_eq {types : List SqlType} (h : List.Forall₂ SqlType.Plain types values)
    {f : SqlType × Value → SqlType} (hf : ∀ type v, f (type, v) = type.comparedWith v) :
    (types.zip values).map f = types := by
  induction h with
  | nil => rfl
  | cons hv _ ih => rw [List.zip_cons_cons, List.map_cons, ih, hf, hv.comparedWith]

theorem bindKeys_eq {types : List SqlType} {keys : List (List Value)}
    (h : ∀ values ∈ keys, List.Forall₂ SqlType.Plain types values) :
    Table.bindKeys types keys = .ok (keys.map fun values => values.map Value.cell) := by
  cases keys with
  | nil => rfl
  | cons first rest =>
    unfold Table.bindKeys
    dsimp only
    rw [comparedWith_eq (h first List.mem_cons_self) fun _ _ => rfl]
    refine mapM_eq_map fun values hvalues => ?_
    replace hvalues := h values hvalues
    clear h
    induction hvalues with
    | nil => rfl
    | @cons type v types values hv _ ih =>
      rw [List.zip_cons_cons, List.zip_cons_cons, List.mapM_cons]
      refine bind_eq_ok.2 ⟨v.cell, ?_, bind_eq_ok.2 ⟨_, ih, rfl⟩⟩
      dsimp only
      split
      · cases hv.notNull.1
      · rw [hv.bind]
        exact congrArg Except.ok hv.operand

theorem exists_keyTest_of_plain {keys : List (List Value)} (hne : keys ≠ [])
    (h : ∀ values ∈ keys, PlainKey u columns values) :
    ∃ p, u.keyTest columns keys = .ok p ∧ ∀ l, PlainRow u columns l →
      (p l ↔ ∃ values ∈ keys, Has l columns values) := by
  obtain ⟨first, hfirst⟩ := List.exists_mem_of_ne_nil _ hne
  obtain ⟨types, htypes, -⟩ := (h first hfirst).exists_types
  have plain : ∀ values ∈ keys, List.Forall₂ SqlType.Plain types values := by
    intro values hvalues
    obtain ⟨types', htypes', hall⟩ := (h values hvalues).exists_types
    rw [htypes] at htypes'
    cases htypes'
    exact hall
  refine ⟨_, bind_eq_ok.2 ⟨types, htypes, bind_eq_ok.2 ⟨_, bindKeys_eq plain, rfl⟩⟩, fun l hl => ?_⟩
  rw [List.any_map, List.any_eq_true]
  refine exists_congr fun values => and_congr_right fun hvalues => ?_
  exact (h values hvalues).sameCells_iff hl

/-- Of keys that are the same only if they are equal, each one is wanted. -/
theorem exists_wanted {keys : List LoadKey} (h : ∀ k ∈ keys, ∀ l ∈ keys, l.hasNull = false →
    sameKey k.identity l.identity → k.values = l.values) {k : LoadKey} (hk : k ∈ keys)
    (hnull : k.hasNull = false) : ∃ l ∈ wanted keys, l.values = k.values := by
  induction keys with
  | nil => cases hk
  | cons l keys ih =>
    rw [wanted_cons]
    by_cases opens : l.values = k.values
    · have present : l.hasNull = false := by
        unfold LoadKey.hasNull at *
        rw [opens]
        exact hnull
      rw [if_neg (Bool.eq_false_iff.1 present)]
      exact ⟨l, List.mem_cons_self, opens⟩
    · rcases List.mem_cons.1 hk with rfl | hk
      · exact absurd rfl opens
      · obtain ⟨l', hl', hvalues⟩ := ih (fun a ha b hb => h a (List.mem_cons_of_mem _ ha) b
          (List.mem_cons_of_mem _ hb)) hk
        have other : l' ∈ (wanted keys).filter fun l' => !sameKey l.identity l'.identity := by
          refine List.mem_filter.2 ⟨hl', ?_⟩
          rw [Bool.not_eq_true']
          refine Bool.eq_false_iff.2 fun same => opens ?_
          obtain ⟨hmem, hnull'⟩ := mem_wanted hl'
          rw [h l List.mem_cons_self l' (List.mem_cons_of_mem _ hmem) hnull' same, hvalues]
        split_ifs
        · exact ⟨l', other, hvalues⟩
        · exact ⟨l', List.mem_cons_of_mem _ other, hvalues⟩

/-! ## Batches of plain keys -/

/-- The keys without null, and the rows that may have them, are of plain values. -/
def Plain (s : Store) (keys : List LoadKey) : Prop :=
  ∀ k ∈ keys, ∀ u, s.table k.group.holder = .ok u →
    (k.hasNull = false → PlainKey u k.group.keyColumns k.values) ∧
      ∀ l ∈ u.rows, PlainRow u k.group.keyColumns l

/-- The keys of one group are plain for the table that holds them. -/
theorem Plain.fellows {s : Store} {keys : List LoadKey} (h : Plain s keys) {k : LoadKey} {g : Group}
    (hg : (groups keys).find? (·.same k.group) = some g) (hu : s.table k.group.holder = .ok u) :
    ∀ l ∈ fellows keys k, l.hasNull = false → PlainKey u k.group.keyColumns l.values := by
  intro l hl hnull
  obtain ⟨-, hholder, hcolumns⟩ := fields_of_same (same_of_find? hg)
  rw [fellows_eq hg, List.mem_filter] at hl
  obtain ⟨hl, same⟩ := hl
  obtain ⟨-, hholder', hcolumns'⟩ := fields_of_same same
  rw [← hcolumns, hcolumns']
  rw [← hholder, hholder'] at hu
  exact (h l hl u hu).1 hnull

theorem tells_of_plain {s : Store} {keys : List LoadKey}
    (hread : ∀ t ∈ s.tables, ∀ r ∈ t.rows, ∃ record, t.read r = .ok record) (h : Plain s keys) :
    ∀ k ∈ keys, Tells s keys k := by
  intro k hk
  unfold Tells
  intro values hne t u _ hu
  obtain ⟨g, hg⟩ : ∃ g, (groups keys).find? (·.same k.group) = some g := by
    refine Option.ne_none_iff_exists'.1 fun hnone => hne ?_
    have alone : TableGraph.Load.fellows keys k = [] := by
      unfold TableGraph.Load.fellows
      rw [hnone]
    exact congrArg (fun ks => (wanted ks).map (·.values)) alone
  have plain := h.fellows hg hu
  have equal : ∀ a ∈ fellows keys k, ∀ b ∈ fellows keys k, b.hasNull = false →
      sameKey a.identity b.identity → a.values = b.values := by
    intro a ha b hb hnull hab
    have hnull' : a.hasNull = false := (any_isNull_of_sameKey hab).trans hnull
    exact ((plain a ha hnull').sameKey_iff (plain b hb hnull)).1 hab
  have wantedPlain : ∀ vs ∈ values, PlainKey u k.group.keyColumns vs := by
    intro vs hvs
    obtain ⟨l, hl, rfl⟩ := List.mem_map.1 hvs
    obtain ⟨hl, hnull⟩ := mem_wanted hl
    exact plain l hl hnull
  obtain ⟨p, hp, hkeys⟩ := exists_keyTest_of_plain hne wantedPlain
  refine ⟨u.rows.filter p, by rw [Table.keyed_eq, hp]; rfl, fun l hl _ => ?_⟩
  have row := (h k hk u hu).2 l hl
  have readable := hread u (List.mem_of_find?_eq_some (Store.table_eq_ok.1 hu).2) l hl
  have fellow := mem_fellows hg hk
  rw [List.mem_filter, and_iff_right hl, hkeys l row]
  constructor
  · rintro ⟨⟨vs, hvs, hhas⟩, htold⟩
    have plainVs := wantedPlain vs hvs
    rw [plainVs.identityOf_eq hhas readable] at htold
    have hnull : k.hasNull = false := (any_isNull_of_sameKey htold).symm.trans plainVs.any_isNull
    have own := plain k fellow hnull
    rw [(plainVs.sameKey_iff own).1 htold] at hhas
    exact ⟨hnull, (own.accepts_iff row).2 hhas⟩
  · rintro ⟨hnull, haccepts⟩
    have own := plain k fellow hnull
    have hhas := (own.accepts_iff row).1 haccepts
    obtain ⟨l', hl', hvalues⟩ := exists_wanted equal fellow hnull
    refine ⟨⟨k.values, List.mem_map.2 ⟨l', hl', hvalues⟩, hhas⟩, ?_⟩
    rw [own.identityOf_eq hhas readable]
    exact (own.sameKey_iff own).2 rfl

end Load

end TableGraph
